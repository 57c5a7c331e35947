/-
# One of each key, in order

A list is sorted by a key, elements of one key staying as they were, and of each run of
one key the first is kept (`sort_by` and `dedup_by`). What is left has
each key of the list once, in order (`pairwise_onePerKey`), and for each the first
element that had it (`find_onePerKey`).

Key definitions: `onePerKey`.
Key theorems: `pairwise_onePerKey`, `find_onePerKey`, `mem_onePerKey`, `exists_onePerKey`.
-/
import Mathlib

namespace Listing

variable {α κ : Type} [LinearOrder κ] (key : α → κ)

def onePerKey (xs : List α) : List α :=
  (xs.mergeSort fun a b => decide (key a ≤ key b)).destutter fun a b => key a ≠ key b

variable {key} {xs : List α} {x : α}

theorem key_trans (a b c : α) (hab : decide (key a ≤ key b) = true) (hbc : decide (key b ≤ key c) = true) :
    decide (key a ≤ key c) = true :=
  decide_eq_true (le_trans (of_decide_eq_true hab) (of_decide_eq_true hbc))

theorem key_total (a b : α) : (decide (key a ≤ key b) || decide (key b ≤ key a)) = true := by
  simpa using le_total (key a) (key b)

theorem pairwise_mergeSort (xs : List α) :
    (xs.mergeSort fun a b => decide (key a ≤ key b)).Pairwise fun a b => key a ≤ key b :=
  (List.pairwise_mergeSort key_trans key_total xs).imp of_decide_eq_true

theorem isChain_lt {l : List α} (hne : l.IsChain fun a b => key a ≠ key b)
    (hle : l.Pairwise fun a b => key a ≤ key b) : l.IsChain fun a b => key a < key b := by
  induction l with
  | nil => exact .nil
  | cons a l ih =>
    cases l with
    | nil => exact .singleton a
    | cons b l =>
      obtain ⟨hab, hrest⟩ := List.isChain_cons_cons.mp hne
      obtain ⟨ha, hpairs⟩ := List.pairwise_cons.mp hle
      exact List.isChain_cons_cons.mpr ⟨lt_of_le_of_ne (ha b List.mem_cons_self) hab, ih hrest hpairs⟩

/-- **The keys are in order**, and no two are the same. -/
theorem pairwise_onePerKey (xs : List α) : (onePerKey key xs).Pairwise fun a b => key a < key b := by
  have htrans : IsTrans α fun a b => key a < key b := ⟨fun _ _ _ => lt_trans⟩
  exact (isChain_lt (List.isChain_destutter _ _)
    ((pairwise_mergeSort xs).sublist (List.destutter_sublist _ _))).pairwise

/-- Sorting keeps the elements of one key in their order. -/
theorem filter_mergeSort (k : κ) (xs : List α) :
    ((xs.mergeSort fun a b => decide (key a ≤ key b)).filter fun x => decide (key x = k)) =
      xs.filter fun x => decide (key x = k) := by
  have hkey : ∀ x ∈ xs.filter fun x => decide (key x = k), key x = k := fun x hx =>
    of_decide_eq_true (List.mem_filter.mp hx).2
  have hsorted : (xs.filter fun x => decide (key x = k)).Pairwise
      fun a b => decide (key a ≤ key b) = true :=
    List.pairwise_of_forall_mem_list fun a ha b hb => by simp [hkey a ha, hkey b hb]
  have hsublist := List.sublist_mergeSort key_trans key_total hsorted List.filter_sublist
  have hagain := hsublist.filter fun x => decide (key x = k)
  rw [List.filter_filter] at hagain
  simp only [Bool.and_self] at hagain
  exact (hagain.eq_of_length
    (((List.mergeSort_perm xs _).filter _).length_eq.symm)).symm

theorem find_destutter' (k : κ) (a : α) (l : List α) :
    ((l.destutter' (fun a b => key a ≠ key b) a).find? fun x => decide (key x = k)) =
      (a :: l).find? fun x => decide (key x = k) := by
  induction l generalizing a with
  | nil => rfl
  | cons b l ih =>
    by_cases hab : key a = key b
    · rw [List.destutter'_cons_neg _ (not_not.mpr hab), ih]
      by_cases hk : key a = k
      · simp [hk]
      · simp [hk, hab ▸ hk]
    · rw [List.destutter'_cons_pos _ hab, List.find?_cons, ih]
      rfl

/-- **For each key the first element that has it.** -/
theorem find_onePerKey (k : κ) (xs : List α) :
    ((onePerKey key xs).find? fun x => decide (key x = k)) = xs.find? fun x => decide (key x = k) := by
  have hsorted : ((xs.mergeSort fun a b => decide (key a ≤ key b)).find? fun x => decide (key x = k)) =
      xs.find? fun x => decide (key x = k) := by
    rw [← List.head?_filter, filter_mergeSort, List.head?_filter]
  rw [← hsorted]
  unfold onePerKey
  cases xs.mergeSort fun a b => decide (key a ≤ key b) with
  | nil => rfl
  | cons a l => exact find_destutter' k a l

theorem mem_onePerKey : x ∈ onePerKey key xs ↔ (xs.find? fun y => decide (key y = key x)) = some x := by
  rw [← find_onePerKey]
  constructor
  · intro hx
    have hfound : ((onePerKey key xs).find? fun y => decide (key y = key x)).isSome = true :=
      List.find?_isSome.mpr ⟨x, hx, decide_eq_true rfl⟩
    obtain ⟨y, hy⟩ := Option.isSome_iff_exists.mp hfound
    have hkeys : ((onePerKey key xs).map key).Nodup :=
      List.pairwise_map.mpr ((pairwise_onePerKey xs).imp ne_of_lt)
    have hkey : key y = key x := by simpa using List.find?_some hy
    rw [hy, List.inj_on_of_nodup_map hkeys (List.mem_of_find?_eq_some hy) hx hkey]
  · exact List.mem_of_find?_eq_some

/-- No key is lost. -/
theorem exists_onePerKey {k : κ} : (∃ x ∈ onePerKey key xs, key x = k) ↔ ∃ x ∈ xs, key x = k := by
  have hfound := congrArg Option.isSome (find_onePerKey k xs : _ = xs.find? fun x => decide (key x = k))
  rw [Bool.eq_iff_iff, List.find?_isSome, List.find?_isSome] at hfound
  simpa using hfound

end Listing
