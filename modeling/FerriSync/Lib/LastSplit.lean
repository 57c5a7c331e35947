/-
# Splitting a list where a mark stands last

`splitLast` cuts a list at the last occurrence of another, which may overlap no
other: what comes before and what after (`splitLast_eq_some`).

What is put before a list does not move the last mark (`splitLast_append_left`);
what is put after it does not either, unless a mark stands there or across the seam
(`splitLast_append_right`).

Key definitions: `splitLast`.
Key theorems: `splitLast_append_left`, `splitLast_append_right`, `splitLast_mark`.
-/
import Mathlib.Data.List.Basic
import Mathlib.Data.List.Infix

namespace LastSplit

variable {α : Type} [DecidableEq α]

/-- What comes before the last occurrence of the mark, and what after it. -/
def splitLast (mark : List α) : List α → Option (List α × List α)
  | [] => if mark = [] then some ([], []) else none
  | x :: xs =>
    match splitLast mark xs with
    | some (a, b) => some (x :: a, b)
    | none => if mark <+: x :: xs then some ([], (x :: xs).drop mark.length) else none

variable {mark xs ys a b : List α}

theorem eq_of_splitLast (h : splitLast mark xs = some (a, b)) : xs = a ++ (mark ++ b) := by
  induction xs generalizing a with
  | nil =>
    rw [splitLast] at h
    split_ifs at h with hmark
    cases h
    rw [hmark]
    rfl
  | cons x xs ih =>
    rw [splitLast] at h
    cases hrest : splitLast mark xs with
    | some s =>
      rw [hrest] at h
      cases h
      rw [List.cons_append, ← ih hrest]
    | none =>
      rw [hrest] at h
      dsimp only at h
      split_ifs at h with hmark
      cases h
      obtain ⟨rest, hrest⟩ := hmark
      rw [← hrest, List.drop_left]
      rfl

/-- There is none where no mark is. -/
theorem splitLast_eq_none : splitLast mark xs = none ↔ ¬mark <:+: xs := by
  induction xs with
  | nil => simp [splitLast]
  | cons x xs ih =>
    rw [splitLast, List.infix_cons_iff]
    cases hrest : splitLast mark xs with
    | some s =>
      have hin : mark <:+: xs := by
        by_contra hno
        rw [ih.mpr hno] at hrest
        cases hrest
      simp [hin]
    | none => simp [ih.mp hrest]

theorem splitLast_append_left (h : splitLast mark ys = some (a, b)) :
    splitLast mark (xs ++ ys) = some (xs ++ a, b) := by
  induction xs with
  | nil => exact h
  | cons x xs ih => rw [List.cons_append, splitLast, ih, List.cons_append]

omit [DecidableEq α] in
/-- A list that begins with what the mark does not go on with is not begun within one. -/
theorem prefix_append_iff {t : List α} (hhead : ∀ y ∈ ys.head?, y ∉ t) :
    t <+: xs ++ ys ↔ t <+: xs := by
  constructor
  · intro h
    rcases List.prefix_or_prefix_of_prefix h (List.prefix_append xs ys) with hshort | ⟨s, rfl⟩
    · exact hshort
    · have hs := (List.prefix_append_right_inj xs).mp h
      cases s with
      | nil => rw [List.append_nil]
      | cons y s =>
        obtain ⟨rest, rfl⟩ := hs
        exact absurd (List.mem_append_right xs (List.mem_cons_self ..)) (hhead y rfl)
  · exact fun h => h.trans (List.prefix_append xs ys)

variable {d : α} {t : List α}

theorem splitLast_append_right (hhead : ∀ y ∈ ys.head?, y ∉ t) (hno : ¬(d :: t) <:+: ys) :
    splitLast (d :: t) (xs ++ ys) = (splitLast (d :: t) xs).map fun s => (s.1, s.2 ++ ys) := by
  induction xs with
  | nil =>
    rw [List.nil_append, splitLast_eq_none.mpr hno]
    rfl
  | cons x xs ih =>
    rw [List.cons_append, splitLast, splitLast, ih]
    cases hrest : splitLast (d :: t) xs with
    | some s => rfl
    | none =>
      have hsame : d :: t <+: x :: (xs ++ ys) ↔ d :: t <+: x :: xs := by
        rw [List.cons_prefix_cons, List.cons_prefix_cons, prefix_append_iff hhead]
      by_cases hmark : d :: t <+: x :: xs
      · simp only [Option.map_none, hsame, if_pos hmark, Option.map_some]
        obtain ⟨rest, hrest⟩ := hmark
        rw [← List.cons_append, ← hrest, List.append_assoc, List.drop_left, List.drop_left]
      · simp only [Option.map_none, hsame, if_neg hmark]

/-- A mark whose first sign does not come again is the last. -/
theorem splitLast_mark (ht : d ∉ t) (hb : d ∉ b) :
    splitLast (d :: t) (a ++ (d :: t ++ b)) = some (a, b) := by
  have hlast : splitLast (d :: t) (d :: t ++ b) = some ([], b) := by
    have hnone : splitLast (d :: t) (t ++ b) = none := by
      apply splitLast_eq_none.mpr
      intro h
      have hmem : d ∈ t ++ b := h.subset (List.mem_cons_self ..)
      exact (List.mem_append.mp hmem).elim ht hb
    rw [List.cons_append, splitLast, hnone]
    have hmark : d :: t <+: d :: (t ++ b) := ⟨b, rfl⟩
    simp only [if_pos hmark]
    rw [← List.cons_append, List.drop_left]
  have h := @splitLast_append_left α _ (d :: t) a (d :: t ++ b) [] b hlast
  rwa [List.append_nil] at h

end LastSplit
