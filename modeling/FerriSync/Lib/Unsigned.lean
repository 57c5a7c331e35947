/-
# Reading unsigned numbers

`str::parse` for the unsigned types: decimal digits, a plus before them or not, below a
bound. A number's own digits are read back (`parse_repr`), and nothing but digits and a
plus is read (`chars_of_parse`).

Key definition: `parse`.
Key theorems: `parse_repr`, `chars_of_parse`.
-/
import Mathlib.Data.List.Basic
import Mathlib.Data.Nat.Digits.Defs
import Mathlib.Tactic.Common

namespace Unsigned

/-- The number that a text stands for, below `bound`. -/
def parse (bound : ℕ) (cs : List Char) : Option ℕ :=
  let digits := if cs.head? = some '+' then cs.tail else cs
  if digits = [] ∨ digits.all Char.isDigit = false then none
  else
    let n := Nat.ofDigitChars 10 digits 0
    if n < bound then some n else none

theorem parse_repr {bound n : ℕ} (h : n < bound) : parse bound (Nat.repr n).toList = some n := by
  have hdigits : (Nat.repr n).toList = Nat.toDigits 10 n := Nat.toList_repr
  have hall : ∀ c ∈ Nat.toDigits 10 n, c.isDigit = true := fun c hc =>
    Nat.isDigit_of_mem_toDigits (by omega) (by omega) hc
  have hsign : (Nat.toDigits 10 n).head? ≠ some '+' := by
    intro hhead
    have hplus := hall _ (List.mem_of_mem_head? hhead)
    revert hplus
    decide
  have hne : Nat.toDigits 10 n ≠ [] := Nat.toDigits_ne_nil
  unfold parse
  rw [hdigits]
  simp only [if_neg hsign]
  rw [if_neg (by simpa [hne] using hall), Nat.ofDigitChars_ten_toDigits, if_pos h]

/-- What is read is digits, but for a sign. -/
theorem chars_of_parse {bound : ℕ} {cs : List Char} (h : (parse bound cs).isSome = true) {c : Char}
    (hc : c ∈ cs) : c = '+' ∨ c.isDigit = true := by
  have hall : (if cs.head? = some '+' then cs.tail else cs).all Char.isDigit = true := by
    by_contra hno
    rw [Bool.not_eq_true] at hno
    unfold parse at h
    dsimp only at h
    rw [if_pos (Or.inr hno)] at h
    cases h
  cases cs with
  | nil => cases hc
  | cons d rest =>
    by_cases hsign : d = '+'
    · rw [if_pos (by rw [hsign]; rfl)] at hall
      rcases List.mem_cons.mp hc with rfl | hc
      · exact Or.inl hsign
      · exact Or.inr (List.all_eq_true.mp hall c hc)
    · rw [if_neg (by simpa using hsign)] at hall
      exact Or.inr (List.all_eq_true.mp hall c hc)

end Unsigned
