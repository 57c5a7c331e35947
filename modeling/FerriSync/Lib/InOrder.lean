/-
# Waiting for the letters of a word

Who waits for the letters of a word one after another, and passes over what is not the
next, has got `n` letters far exactly if the first `n` letters stand in this order
among what has come (`le_reached_iff`).

Key definitions: `reached`.
Key theorems: `le_reached_iff`.
-/
import Mathlib.Data.List.Basic
import Mathlib.Tactic.Common

namespace InOrder

variable {α : Type} [DecidableEq α]

/-- How far one has got in the word, from the k-th letter on. -/
def reached (w : List α) (k : ℕ) : List α → ℕ
  | [] => k
  | x :: xs => reached w (if w[k]? = some x then k + 1 else k) xs

theorem le_reached (w : List α) (k : ℕ) (xs : List α) : k ≤ reached w k xs := by
  induction xs generalizing k with
  | nil => exact Nat.le_refl k
  | cons x xs ih =>
    unfold reached
    split_ifs
    · exact Nat.le_of_succ_le (ih (k + 1))
    · exact ih k

theorem reached_le {w : List α} {k : ℕ} (hk : k ≤ w.length) (xs : List α) : reached w k xs ≤ w.length := by
  induction xs generalizing k with
  | nil => exact hk
  | cons x xs ih =>
    unfold reached
    split_ifs with hx
    · exact ih (List.getElem?_eq_some_iff.mp hx).1
    · exact ih hk

/-- **The letters so far stand in order** among what has come. -/
theorem le_reached_iff {w : List α} {k n : ℕ} (hkn : k ≤ n) (hn : n ≤ w.length) {xs : List α} :
    n ≤ reached w k xs ↔ List.Sublist ((w.take n).drop k) xs := by
  induction xs generalizing k with
  | nil =>
    rw [reached, List.sublist_nil, List.drop_eq_nil_iff, List.length_take, Nat.min_eq_left hn]
  | cons x xs ih =>
    rcases Nat.eq_or_lt_of_le hkn with rfl | hlt
    · have hnil : (w.take k).drop k = [] :=
        List.drop_eq_nil_iff.mpr (by rw [List.length_take]; exact Nat.min_le_left ..)
      rw [hnil]
      exact iff_of_true (le_reached w k _) (List.nil_sublist _)
    · have hk : k < w.length := by omega
      have hcons : (w.take n).drop k = w[k] :: (w.take n).drop (k + 1) := by
        rw [List.drop_eq_getElem_cons (by rw [List.length_take]; omega), List.getElem_take]
      unfold reached
      by_cases hx : w[k]? = some x
      · obtain rfl : w[k] = x := (List.getElem?_eq_some_iff.mp hx).2
        rw [if_pos hx, ih hlt, hcons, List.cons_sublist_cons]
      · have hne : w[k] ≠ x := fun heq => hx (by rw [List.getElem?_eq_getElem hk, heq])
        rw [if_neg hx, ih hkn, hcons, List.sublist_cons_iff]
        constructor
        · exact Or.inl
        · rintro (h | ⟨rest, hrest, -⟩)
          · exact h
          · exact absurd (List.cons.inj hrest).1 hne

end InOrder
