/-
# Runs of operations

Operations are performed one after another, each in the state that it finds. If one
that is performed in a good state leads to a good state exactly if it meets a
condition there, then a run stays in good states exactly if every operation of it
meets the condition (`always_iff_meets`).

Key definitions: `Always`, `Meets`.
Key theorems: `always_iff_meets`, `meets_iff_meets`.
-/
import Mathlib.Tactic.Common

namespace Runs

variable {σ α : Type}

/-- It holds in every state of the run. -/
def Always (step : σ → α → σ) (P : σ → Prop) (s : σ) (ops : List α) : Prop :=
  ∀ pre post, ops = pre ++ post → P (pre.foldl step s)

/-- Every operation meets the condition in the state that it finds. -/
def Meets (step : σ → α → σ) (C : σ → α → Prop) (s : σ) (ops : List α) : Prop :=
  ∀ pre op post, ops = pre ++ op :: post → C (pre.foldl step s) op

variable {step : σ → α → σ} {P J : σ → Prop} {C : σ → α → Prop} {s : σ} {op : α} {ops : List α}

theorem always_nil : Always step P s [] ↔ P s := by
  constructor
  · exact fun h => h [] [] rfl
  · intro h pre post hsplit
    rw [(List.append_eq_nil_iff.mp hsplit.symm).1]
    exact h

theorem always_cons : Always step P s (op :: ops) ↔ P s ∧ Always step P (step s op) ops := by
  constructor
  · intro h
    exact ⟨h [] (op :: ops) rfl, fun pre post hsplit => h (op :: pre) post (by rw [hsplit]; rfl)⟩
  · rintro ⟨hfirst, hrest⟩ pre post hsplit
    cases pre with
    | nil => exact hfirst
    | cons o pre =>
      obtain ⟨rfl, htail⟩ := List.cons.inj hsplit
      exact hrest pre post htail

theorem meets_nil : Meets step C s [] :=
  fun pre op post hsplit => by cases pre <;> cases hsplit

theorem meets_cons : Meets step C s (op :: ops) ↔ C s op ∧ Meets step C (step s op) ops := by
  constructor
  · intro h
    exact ⟨h [] op ops rfl, fun pre o post hsplit => h (op :: pre) o post (by rw [hsplit]; rfl)⟩
  · rintro ⟨hfirst, hrest⟩ pre o post hsplit
    cases pre with
    | nil =>
      obtain ⟨rfl, rfl⟩ := List.cons.inj hsplit
      exact hfirst
    | cons o' pre =>
      obtain ⟨rfl, htail⟩ := List.cons.inj hsplit
      exact hrest pre o post htail

theorem meets_concat : Meets step C s (ops ++ [op]) ↔ Meets step C s ops ∧ C (ops.foldl step s) op := by
  induction ops generalizing s with
  | nil =>
    rw [List.nil_append, meets_cons, and_comm]
    exact and_congr_left fun _ => iff_of_true meets_nil meets_nil
  | cons o ops ih =>
    rw [List.cons_append, meets_cons, meets_cons, ih, and_assoc]
    rfl

/-- **A run stays good exactly if every operation of it meets the condition.** -/
theorem always_iff_meets (hJ : ∀ s op, J s → J (step s op))
    (hstep : ∀ s op, J s → P s → (P (step s op) ↔ C s op)) (h : J s) (hgood : P s) :
    Always step P s ops ↔ Meets step C s ops := by
  induction ops generalizing s with
  | nil => exact iff_of_true (always_nil.mpr hgood) meets_nil
  | cons op ops ih =>
    rw [always_cons, meets_cons]
    constructor
    · rintro ⟨_, hrest⟩
      have hnext : P (step s op) := hrest [] ops rfl
      exact ⟨(hstep s op h hgood).mp hnext, (ih (hJ s op h) hnext).mp hrest⟩
    · rintro ⟨hmeets, hrest⟩
      have hnext : P (step s op) := (hstep s op h hgood).mpr hmeets
      exact ⟨hgood, (ih (hJ s op h) hnext).mpr hrest⟩

/-- **Operations that keep good states good if they meet one condition** meet it all along
exactly if they meet another that means the same in good states. -/
theorem meets_iff_meets {D : σ → α → Prop} (hstep : ∀ s op, P s → (C s op ↔ D s op))
    (hkeeps : ∀ s op, P s → C s op → P (step s op)) (h : P s) : Meets step C s ops ↔ Meets step D s ops := by
  induction ops generalizing s with
  | nil => exact iff_of_true meets_nil meets_nil
  | cons op ops ih =>
    rw [meets_cons, meets_cons, ← hstep s op h]
    exact and_congr_right fun hop => ih (hkeeps s op h hop)

end Runs
