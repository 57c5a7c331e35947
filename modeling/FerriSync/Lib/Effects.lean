/-
# Computations with a state and errors

A computation that fails leaves the state it had come to (`after`). A relation
between the states before and after that composes is kept by what is put together
from parts that keep it (`Does`).

Key definitions: `after`, `Composes`, `Does`.
Key theorems: `Does.bind`, `Does.forM`.
-/
import Mathlib.Tactic.Common

namespace Effects

variable {ε σ α β : Type}

/-- The state a computation leaves, whether it fails or not. -/
def after (x : EStateM ε σ α) (s : σ) : σ :=
  match x s with
  | .ok _ s' => s'
  | .error _ s' => s'

theorem after_ok {x : EStateM ε σ α} {s s' : σ} {a : α} (h : x s = .ok a s') : after x s = s' := by
  rw [after, h]

theorem after_error {x : EStateM ε σ α} {s s' : σ} {e : ε} (h : x s = .error e s') :
    after x s = s' := by
  rw [after, h]

@[simp] theorem after_pure (a : α) (s : σ) : after (pure a : EStateM ε σ α) s = s := rfl

@[simp] theorem after_throw (e : ε) (s : σ) : after (throw e : EStateM ε σ α) s = s := rfl

@[simp] theorem after_get (s : σ) : after (get : EStateM ε σ σ) s = s := rfl

@[simp] theorem after_set (s s' : σ) : after (set s' : EStateM ε σ PUnit) s = s' := rfl

@[simp] theorem after_modify (f : σ → σ) (s : σ) :
    after (modify f : EStateM ε σ PUnit) s = f s := rfl

theorem bind_ok {x : EStateM ε σ α} {f : α → EStateM ε σ β} {s s' : σ} {a : α} (h : x s = .ok a s') :
    (x >>= f) s = f a s' := by
  show EStateM.bind x f s = _
  rw [EStateM.bind, h]

theorem bind_error {x : EStateM ε σ α} {f : α → EStateM ε σ β} {s s' : σ} {e : ε}
    (h : x s = .error e s') : (x >>= f) s = .error e s' := by
  show EStateM.bind x f s = _
  rw [EStateM.bind, h]

/-- A second part is run where the first has not failed. -/
theorem after_bind (x : EStateM ε σ α) (f : α → EStateM ε σ β) (s : σ) :
    after (x >>= f) s = after x s ∨ ∃ a s', x s = .ok a s' ∧ after (x >>= f) s = after (f a) s' := by
  cases hx : x s with
  | ok a s' => exact Or.inr ⟨a, s', rfl, by rw [after, bind_ok hx, after]⟩
  | error e s' => exact Or.inl (by rw [after_error (bind_error hx), after_error hx])

/-! ### What composes -/

structure Composes (R : σ → σ → Prop) : Prop where
  refl : ∀ s, R s s
  trans : ∀ {s s' s''}, R s s' → R s' s'' → R s s''

/-- The states before and after are so related. -/
def Does (R : σ → σ → Prop) (x : EStateM ε σ α) : Prop := ∀ s, R s (after x s)

namespace Does

variable {R : σ → σ → Prop} (hR : Composes R)

include hR

theorem pure (a : α) : Does R (pure a : EStateM ε σ α) := fun s => hR.refl s

theorem throw (e : ε) : Does R (throw e : EStateM ε σ α) := fun s => hR.refl s

theorem get : Does R (get : EStateM ε σ σ) := fun s => hR.refl s

theorem bind {x : EStateM ε σ α} {f : α → EStateM ε σ β} (hx : Does R x) (hf : ∀ a, Does R (f a)) :
    Does R (x >>= f) := by
  intro s
  rcases after_bind x f s with hsame | ⟨a, s', hok, hafter⟩
  · rw [hsame]
    exact hx s
  · rw [hafter]
    have hfirst : R s s' := by
      have := hx s
      rwa [after_ok hok] at this
    exact hR.trans hfirst (hf a s')

theorem forM {xs : List α} {f : α → EStateM ε σ PUnit} (hf : ∀ a ∈ xs, Does R (f a)) :
    Does R (xs.forM f) := by
  induction xs with
  | nil => exact pure hR _
  | cons a xs ih =>
    have hrest : Does R (xs.forM f) := ih fun b hb => hf b (List.mem_cons_of_mem a hb)
    exact bind hR (hf a List.mem_cons_self) fun _ => hrest

theorem foldlM {xs : List α} {f : β → α → EStateM ε σ β} (hf : ∀ b, ∀ a ∈ xs, Does R (f b a)) (b : β) :
    Does R (xs.foldlM f b) := by
  induction xs generalizing b with
  | nil => exact pure hR b
  | cons a xs ih =>
    exact bind hR (hf b a List.mem_cons_self) fun c =>
      ih (fun c d hd => hf c d (List.mem_cons_of_mem a hd)) c

end Does

end Effects
