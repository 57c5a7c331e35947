/-
# One run decides for all

A relation in which any two steps from a state lead to one state or can be
completed to one by a step each (`Diamond`). If one run from a state ends, in
`n` steps, then every run from it can be continued to the same end, in `n`
steps altogether: none is longer, and those that cannot go on have ended
there.

Key definitions: `Diamond`, `StepsTo`.
Key theorems: `StepsTo.after`, `StepsTo.unique_end`, `StepsTo.no_infinite_run`,
`exists_final`, `ends_of_meet`.
-/
import Mathlib.Logic.Relation
import Mathlib.Logic.Function.Iterate
import Mathlib.Tactic.Common

namespace RandomDescent

variable {α : Type} {R : α → α → Prop}

/-- Two different steps commute. -/
def Diamond (R : α → α → Prop) : Prop :=
  ∀ x y z, R x y → R x z → y = z ∨ ∃ w, R y w ∧ R z w

/-- No step leaves the state. -/
def Final (R : α → α → Prop) (x : α) : Prop := ∀ y, ¬ R x y

/-- A run of `n` steps. -/
inductive StepsTo (R : α → α → Prop) : ℕ → α → α → Prop
  | here (x : α) : StepsTo R 0 x x
  | step {n : ℕ} {x y z : α} : R x y → StepsTo R n y z → StepsTo R (n + 1) x z

theorem StepsTo.of_reflTransGen {x z : α} (h : Relation.ReflTransGen R x z) :
    ∃ n, StepsTo R n x z := by
  induction h using Relation.ReflTransGen.head_induction_on with
  | refl => exact ⟨0, .here z⟩
  | head hxy _ ih =>
    obtain ⟨n, hn⟩ := ih
    exact ⟨n + 1, .step hxy hn⟩

theorem StepsTo.reflTransGen {n : ℕ} {x z : α} (h : StepsTo R n x z) : Relation.ReflTransGen R x z := by
  induction h with
  | here x => exact .refl
  | step hs _ ih => exact .head hs ih

/-- Any first step is the first step of a run of the same length to the same
end. -/
theorem StepsTo.strip (hd : Diamond R) {n : ℕ} {x y z : α} (hz : Final R z)
    (h : StepsTo R n x z) (hxy : R x y) : ∃ m, n = m + 1 ∧ StepsTo R m y z := by
  induction h generalizing y with
  | here x => exact absurd hxy (hz y)
  | @step n x x' z hxx' hrest ih =>
    rcases hd x y x' hxy hxx' with rfl | ⟨w, hyw, hx'w⟩
    · exact ⟨n, rfl, hrest⟩
    · obtain ⟨m, rfl, hm⟩ := ih hz hx'w
      exact ⟨m + 1, rfl, .step hyw hm⟩

/-- **Every run goes on to the same end.** -/
theorem StepsTo.after (hd : Diamond R) {n : ℕ} {x y z : α} (hz : Final R z)
    (h : StepsTo R n x z) (hxy : Relation.ReflTransGen R x y) : ∃ m ≤ n, StepsTo R m y z := by
  induction hxy with
  | refl => exact ⟨n, Nat.le_refl n, h⟩
  | tail _ hyy' ih =>
    obtain ⟨m, hm, hy⟩ := ih
    obtain ⟨k, rfl, hk⟩ := hy.strip hd hz hyy'
    exact ⟨k, by omega, hk⟩

/-- A run that cannot go on has ended where the given one does. -/
theorem StepsTo.unique_end (hd : Diamond R) {n : ℕ} {x y z : α} (hz : Final R z)
    (h : StepsTo R n x z) (hxy : Relation.ReflTransGen R x y) (hy : Final R y) : y = z := by
  obtain ⟨m, -, hm⟩ := h.after hd hz hxy
  cases hm with
  | here => rfl
  | step hs _ => exact absurd hs (hy _)

/-- No run goes on forever. -/
theorem StepsTo.no_infinite_run (hd : Diamond R) {n : ℕ} {x z : α} (hz : Final R z)
    (h : StepsTo R n x z) (f : ℕ → α) (h0 : f 0 = x) : ¬ ∀ i, R (f i) (f (i + 1)) := by
  induction n generalizing x f with
  | zero =>
    intro hf
    cases h
    exact hz _ (h0 ▸ hf 0)
  | succ n ih =>
    intro hf
    obtain ⟨m, hm, hrest⟩ := h.strip hd hz (h0 ▸ hf 0)
    cases hm
    exact ih hrest (fun i => f (i + 1)) rfl fun i => hf (i + 1)

/-- Where no run goes on forever, some run ends. -/
theorem exists_final {x : α} (h : ∀ f : ℕ → α, f 0 = x → ¬ ∀ i, R (f i) (f (i + 1))) :
    ∃ y, Relation.ReflTransGen R x y ∧ Final R y := by
  by_contra hnone
  have hstep : ∀ y : {y // Relation.ReflTransGen R x y}, ∃ z : {z // Relation.ReflTransGen R x z},
      R y z := by
    intro y
    by_contra hz
    exact hnone ⟨y, y.2, fun z hyz => hz ⟨⟨z, y.2.tail hyz⟩, hyz⟩⟩
  choose next hnext using hstep
  let f : ℕ → {y // Relation.ReflTransGen R x y} := fun n => next^[n] ⟨x, .refl⟩
  refine h (fun n => f n) rfl fun i => ?_
  have hf : f (i + 1) = next (f i) := Function.iterate_succ_apply' next i _
  rw [hf]
  exact hnext (f i)

/-- Where no run goes on forever, neither does one from a state on the way. -/
theorem no_infinite_run_after {x y : α} (h : ∀ f : ℕ → α, f 0 = x → ¬ ∀ i, R (f i) (f (i + 1)))
    (hxy : Relation.ReflTransGen R x y) :
    ∀ f : ℕ → α, f 0 = y → ¬ ∀ i, R (f i) (f (i + 1)) := by
  induction hxy with
  | refl => exact h
  | @tail y z _ hyz ih =>
    intro f h0 hf
    refine ih (fun n => Nat.casesOn (motive := fun _ => α) n y f) rfl fun i => ?_
    cases i with
    | zero =>
      show R y (f 0)
      rw [h0]
      exact hyz
    | succ i => exact hf i

/-! ### Two states whose runs meet -/

section

variable {x y z : α} (hd : Diamond R) (hx : Relation.ReflTransGen R x z)
  (hy : Relation.ReflTransGen R y z)
include hd hx hy

theorem ends_of_meet {e : α} (he : Final R e) (h : Relation.ReflTransGen R x e) :
    Relation.ReflTransGen R y e := by
  obtain ⟨n, hn⟩ := StepsTo.of_reflTransGen h
  obtain ⟨m, -, hm⟩ := hn.after hd he hx
  exact hy.trans hm.reflTransGen

/-- If no run from the one goes on forever, none from the other does. -/
theorem no_infinite_run_of_meet (h : ∀ f : ℕ → α, f 0 = x → ¬ ∀ i, R (f i) (f (i + 1))) :
    ∀ f : ℕ → α, f 0 = y → ¬ ∀ i, R (f i) (f (i + 1)) := by
  obtain ⟨e, hxe, he⟩ := exists_final h
  obtain ⟨n, hn⟩ := StepsTo.of_reflTransGen (ends_of_meet hd hx hy he hxe)
  exact hn.no_infinite_run hd he

end

end RandomDescent
