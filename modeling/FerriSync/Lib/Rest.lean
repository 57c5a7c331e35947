/-
# Coming to rest

One act after another is performed without end, and each leaves the state as it is or
leads downwards. Then from some act on nothing changes any more (`comes_to_rest`), and
whatever act is performed later changes nothing (`rest_fixed`): acts of a kind that
comes again and again have nothing left to do.

Key definitions: `after`.
Key theorems: `comes_to_rest`, `rest_fixed`.
-/
import Mathlib.Order.WellFounded
import Mathlib.Tactic.Common

namespace Rest

variable {σ α : Type} {step : σ → α → σ} {s : σ} {acts : ℕ → α}

/-- The state before the n-th act. -/
def after (step : σ → α → σ) (s : σ) (acts : ℕ → α) : ℕ → σ
  | 0 => s
  | n + 1 => step (after step s acts n) (acts n)

/-- What every act keeps holds all along. -/
theorem after_inv {I : σ → Prop} (hs : I s) (hstep : ∀ s n, I s → I (step s (acts n))) (n : ℕ) :
    I (after step s acts n) := by
  induction n with
  | zero => exact hs
  | succ n ih => exact hstep _ n ih

theorem comes_to_rest (rank : σ → ℕ)
    (hdown : ∀ s n, step s (acts n) = s ∨ rank (step s (acts n)) < rank s) :
    ∃ n, ∀ m, n ≤ m → after step s acts m = after step s acts n := by
  -- where the rank is least, no act leads further down
  let n := Function.argmin fun n => rank (after step s acts n)
  have hleast : ∀ m, ¬ rank (after step s acts m) < rank (after step s acts n) :=
    Function.not_lt_argmin fun n => rank (after step s acts n)
  refine ⟨n, fun m hm => ?_⟩
  induction m, hm using Nat.le_induction with
  | base => rfl
  | succ m _ ih =>
    rcases hdown (after step s acts m) m with hsame | hlt
    · exact hsame.trans ih
    · exact absurd (ih ▸ hlt) (hleast (m + 1))

/-- Where nothing changes any more, no act that is performed changes anything. -/
theorem rest_fixed {n : ℕ} (hrest : ∀ m, n ≤ m → after step s acts m = after step s acts n) {m : ℕ}
    (hm : n ≤ m) : step (after step s acts n) (acts m) = after step s acts n := by
  calc step (after step s acts n) (acts m) = after step s acts (m + 1) := by
        rw [after, hrest m hm]
    _ = after step s acts n := hrest (m + 1) (by omega)

end Rest
