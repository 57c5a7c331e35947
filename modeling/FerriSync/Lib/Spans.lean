/-
# Spans that leave no gap

Half-open intervals of natural numbers, in the order in which they came. Taken
in the order of their starts, each begins no later than the furthest end of
those before it (`gapless`), if and only if they cover everything below their
furthest end (`gapless_iff`).

Key definitions: `Span`, `reach`, `gapless`.
Key theorems: `gapless_iff`.
-/
import Mathlib.Data.List.Sort
import Mathlib.Tactic.Common

namespace Spans

structure Span where
  start : ℕ
  stop : ℕ
  ordered : start ≤ stop

/-- The number lies in the span. -/
def Span.Has (s : Span) (i : ℕ) : Prop := s.start ≤ i ∧ i < s.stop

/-- The furthest end. -/
def reach : List Span → ℕ
  | [] => 0
  | s :: ss => max s.stop (reach ss)

/-- With everything below `n` covered, each span begins where it may. -/
def gaplessFrom (n : ℕ) : List Span → Bool
  | [] => true
  | s :: ss => decide (s.start ≤ n) && gaplessFrom (max n s.stop) ss

def gapless (ss : List Span) : Bool :=
  gaplessFrom 0 (ss.mergeSort fun a b => decide (a.start ≤ b.start))

theorem reach_append (ss ts : List Span) : reach (ss ++ ts) = max (reach ss) (reach ts) := by
  induction ss with
  | nil => exact (Nat.zero_max _).symm
  | cons s ss ih => rw [List.cons_append, reach, reach, ih, max_assoc]

theorem reach_perm {ss ts : List Span} (h : ss.Perm ts) : reach ss = reach ts := by
  induction h with
  | nil => rfl
  | cons s _ ih => rw [reach, reach, ih]
  | swap s t ss => rw [reach, reach, reach, reach, ← max_assoc, max_comm t.stop, max_assoc]
  | trans _ _ ih ih' => exact ih.trans ih'

theorem stop_le_reach {s : Span} {ss : List Span} (h : s ∈ ss) : s.stop ≤ reach ss := by
  induction ss with
  | nil => exact absurd h List.not_mem_nil
  | cons t ss ih =>
    rw [reach]
    rcases List.mem_cons.mp h with rfl | h
    · exact Nat.le_max_left ..
    · exact (ih h).trans (Nat.le_max_right ..)

theorem reach_le {n : ℕ} {ss : List Span} (h : ∀ s ∈ ss, s.stop ≤ n) : reach ss ≤ n := by
  induction ss with
  | nil => exact Nat.zero_le n
  | cons s ss ih =>
    rw [reach]
    exact Nat.max_le.mpr ⟨h s (List.mem_cons_self ..), ih fun t ht => h t (List.mem_cons_of_mem s ht)⟩

/-- Spans sorted by their starts. -/
theorem gaplessFrom_iff {ss : List Span} (h : ss.Pairwise fun a b => a.start ≤ b.start) (n : ℕ) :
    gaplessFrom n ss = true ↔ ∀ i, n ≤ i → i < reach ss → ∃ s ∈ ss, s.Has i := by
  induction ss generalizing n with
  | nil => simp [gaplessFrom, reach]
  | cons s ss ih =>
    obtain ⟨hs, hss⟩ := List.pairwise_cons.mp h
    rw [gaplessFrom, Bool.and_eq_true, decide_eq_true_eq, ih hss]
    have hord := s.ordered
    constructor
    · rintro ⟨hn, hcover⟩ i hi hr
      by_cases hlt : i < s.stop
      · exact ⟨s, List.mem_cons_self .., by omega, hlt⟩
      · rw [reach] at hr
        obtain ⟨t, ht, hti⟩ := hcover i (by omega) (by omega)
        exact ⟨t, List.mem_cons_of_mem s ht, hti⟩
    · intro hcover
      have hreach : s.stop ≤ reach (s :: ss) := stop_le_reach (List.mem_cons_self ..)
      refine ⟨?_, fun i hi hr => ?_⟩
      · -- otherwise nothing covers `n`
        by_contra hn
        obtain ⟨t, ht, hti, -⟩ := hcover n (Nat.le_refl n) (by omega)
        rcases List.mem_cons.mp ht with rfl | ht
        · exact hn hti
        · exact hn ((hs t ht).trans hti)
      · obtain ⟨t, ht, hti⟩ := hcover i (by omega) (by rw [reach]; omega)
        rcases List.mem_cons.mp ht with rfl | ht
        · have hstop := hti.2
          omega
        · exact ⟨t, ht, hti⟩

/-- **No gap, if and only if everything is covered.** -/
theorem gapless_iff (ss : List Span) :
    gapless ss = true ↔ ∀ i < reach ss, ∃ s ∈ ss, s.Has i := by
  have hperm := List.mergeSort_perm ss fun a b => decide (a.start ≤ b.start)
  have hsorted : (ss.mergeSort fun a b => decide (a.start ≤ b.start)).Pairwise
      fun a b => a.start ≤ b.start := by
    have hp : (ss.mergeSort fun a b => decide (a.start ≤ b.start)).Pairwise
        fun a b => decide (a.start ≤ b.start) = true :=
      List.pairwise_mergeSort
        (fun a b c hab hbc => by simp only [decide_eq_true_eq] at hab hbc ⊢; omega)
        (fun a b => by simp only [Bool.or_eq_true, decide_eq_true_eq]; omega) ss
    exact hp.imp fun hab => of_decide_eq_true hab
  rw [gapless, gaplessFrom_iff hsorted, reach_perm hperm]
  constructor
  · intro h i hi
    obtain ⟨s, hs, hsi⟩ := h i (Nat.zero_le i) hi
    exact ⟨s, hperm.mem_iff.mp hs, hsi⟩
  · intro h i _ hi
    obtain ⟨s, hs, hsi⟩ := h i hi
    exact ⟨s, hperm.mem_iff.mpr hs, hsi⟩

end Spans
