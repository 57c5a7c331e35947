/-
# Tasks over one shared state

A family of tasks takes turns, in any order, over one shared state; a step of
a task depends on its own state and the shared one and changes both (`run`).

Each task may have a relation between the shared state as it is and the one it
would have alone. If its own steps, from related states, do the same and keep
them related, and the steps of the others keep them related too (`Isolation`),
then it goes the way it goes alone (`run_isolated`).

Two runs may be compared, by one schedule: if a step from related tasks and
related states leads to related ones, and puts out the same, then so does a
whole run (`run_related`, `outputs_related`).

Key definitions: `Shared`, `run`, `alone`, `Isolation`, `outputs`, `Related`.
Key theorems: `since`, `run_invariant`, `run_map`, `run_isolated`, `run_related`,
`outputs_related`.
-/
import Mathlib.Data.List.Induction
import Mathlib.Logic.Function.Iterate
import Mathlib.Tactic.Common

namespace Tasks

variable {ι L S : Type}

/-- The tasks' own states, and the one they share. -/
structure Shared (ι L S : Type) where
  task : ι → L
  state : S

/-- What holds at one point of a schedule, and every turn taken since preserves,
holds at a later point. -/
theorem since {I : List ι → Prop} {pre later : List ι} (hle : pre <+: later) (hpre : I pre)
    (hturn : ∀ mid i, pre <+: mid → mid ++ [i] <+: later → I mid → I (mid ++ [i])) : I later := by
  obtain ⟨post, rfl⟩ := hle
  induction post using List.reverseRecOn with
  | nil =>
    rw [List.append_nil]
    exact hpre
  | append_singleton post i ih =>
    rw [← List.append_assoc] at hturn ⊢
    exact hturn _ i (List.prefix_append _ _) List.prefix_rfl
      (ih fun mid j hmid hj => hturn mid j hmid (hj.trans (List.prefix_append _ _)))

variable (step : L → S → L × S)

section

variable [DecidableEq ι]

/-- Task `i` takes a step. -/
def turn (w : Shared ι L S) (i : ι) : Shared ι L S where
  task := Function.update w.task i (step (w.task i) w.state).1
  state := (step (w.task i) w.state).2

def run (w : Shared ι L S) (schedule : List ι) : Shared ι L S := schedule.foldl (turn step) w

theorem run_cons (w : Shared ι L S) (i : ι) (schedule : List ι) :
    run step w (i :: schedule) = run step (turn step w i) schedule := rfl

theorem run_concat (w : Shared ι L S) (schedule : List ι) (i : ι) :
    run step w (schedule ++ [i]) = turn step (run step w schedule) i := by
  rw [run, List.foldl_append, List.foldl_cons, List.foldl_nil, ← run]

theorem run_append (w : Shared ι L S) (schedule schedule' : List ι) :
    run step w (schedule ++ schedule') = run step (run step w schedule) schedule' := by
  rw [run, List.foldl_append, ← run, ← run]

/-- What every turn preserves holds after every run; it may speak of the turns
taken so far. -/
theorem run_invariant {w : Shared ι L S} {P : List ι → Shared ι L S → Prop} (hstart : P [] w)
    (hturn : ∀ schedule i, P schedule (run step w schedule) →
      P (schedule ++ [i]) (turn step (run step w schedule) i)) (schedule : List ι) :
    P schedule (run step w schedule) := by
  induction schedule using List.reverseRecOn with
  | nil => exact hstart
  | append_singleton schedule i ih =>
    rw [run_concat]
    exact hturn schedule i ih

end

/-- `n` steps of a task with the state to itself. -/
def alone (n : ℕ) (x : L × S) : L × S := (fun y => step y.1 y.2)^[n] x

theorem alone_succ (n : ℕ) (x : L × S) : alone step (n + 1) x = alone step n (step x.1 x.2) := rfl

/-- A relation, for each task, between the shared state and the one it would
have alone: its own steps do the same from both, and the others' do not
disturb it. -/
structure Isolation (R : ι → L → S → S → Prop) : Prop where
  own : ∀ {i l s s'}, R i l s s' →
    (step l s).1 = (step l s').1 ∧ R i (step l s).1 (step l s).2 (step l s').2
  frame : ∀ {i j l r s s' s''}, i ≠ j → R i l s s' → R j r s s'' → R i l (step r s).2 s'

/-- A task that has all the turns goes as it would alone. -/
theorem run_replicate [DecidableEq ι] (w : Shared ι L S) (n : ℕ) (i : ι) :
    run step w (List.replicate n i) =
      ⟨Function.update w.task i (alone step n (w.task i, w.state)).1,
        (alone step n (w.task i, w.state)).2⟩ := by
  induction n generalizing w with
  | zero =>
    show w = ⟨Function.update w.task i (w.task i), w.state⟩
    rw [Function.update_eq_self]
  | succ n ih =>
    rw [List.replicate_succ, run_cons, ih, alone_succ]
    simp only [turn, Function.update_self, Function.update_idem]

/-- **A schedule of some of the tasks** goes as if there were no others. -/
theorem run_map [DecidableEq ι] {κ : Type} [DecidableEq κ] {f : κ → ι} (hf : Function.Injective f)
    (w : Shared ι L S) (schedule : List κ) :
    (run step w (schedule.map f)).state = (run step ⟨w.task ∘ f, w.state⟩ schedule).state ∧
      ∀ k, (run step w (schedule.map f)).task (f k) =
        (run step ⟨w.task ∘ f, w.state⟩ schedule).task k := by
  induction schedule generalizing w with
  | nil => exact ⟨rfl, fun _ => rfl⟩
  | cons j schedule ih =>
    have hturn : turn step ⟨w.task ∘ f, w.state⟩ j =
        ⟨(turn step w (f j)).task ∘ f, (turn step w (f j)).state⟩ := by
      simp only [turn, Function.comp_apply, Function.update_comp_eq_of_injective _ hf]
    rw [List.map_cons, run_cons, run_cons, hturn]
    exact ih _

variable {step} [DecidableEq ι] {R : ι → L → S → S → Prop}

/-- A turn keeps every task where it would be alone. -/
theorem Isolation.turn (h : Isolation step R) {w : Shared ι L S} {x : ι → L × S}
    (hx : ∀ i, w.task i = (x i).1 ∧ R i (w.task i) w.state (x i).2) (j i : ι) :
    (Tasks.turn step w j).task i = (Function.update x j (step (x j).1 (x j).2) i).1 ∧
      R i ((Tasks.turn step w j).task i) (Tasks.turn step w j).state
        (Function.update x j (step (x j).1 (x j).2) i).2 := by
  obtain ⟨htask, hR⟩ := hx i
  by_cases hij : i = j
  · subst hij
    obtain ⟨h1, h2⟩ := h.own hR
    simp only [Tasks.turn, Function.update_self]
    rw [← htask]
    exact ⟨h1, h2⟩
  · simp only [Tasks.turn, Function.update_of_ne hij]
    exact ⟨htask, h.frame hij hR (hx j).2⟩

theorem Isolation.run (h : Isolation step R) (schedule : List ι) {w : Shared ι L S}
    {x : ι → L × S} (hx : ∀ i, w.task i = (x i).1 ∧ R i (w.task i) w.state (x i).2) (i : ι) :
    (Tasks.run step w schedule).task i = (alone step (schedule.count i) (x i)).1 ∧
      R i ((Tasks.run step w schedule).task i) (Tasks.run step w schedule).state
        (alone step (schedule.count i) (x i)).2 := by
  induction schedule generalizing w x with
  | nil => exact hx i
  | cons j schedule ih =>
    have hcount : alone step ((j :: schedule).count i) (x i) =
        alone step (schedule.count i) (Function.update x j (step (x j).1 (x j).2) i) := by
      by_cases hij : i = j
      · subst hij
        rw [List.count_cons_self, alone_succ, Function.update_self]
      · rw [List.count_cons_of_ne (Ne.symm hij), Function.update_of_ne hij]
    rw [run_cons, hcount]
    exact ih (h.turn hx j)

/-- **Isolated tasks go as they would alone**, whatever the order of their
steps. -/
theorem run_isolated (h : Isolation step R) {w : Shared ι L S}
    (hw : ∀ i, R i (w.task i) w.state w.state) (schedule : List ι) (i : ι) :
    (run step w schedule).task i = (alone step (schedule.count i) (w.task i, w.state)).1 ∧
      R i ((run step w schedule).task i) (run step w schedule).state
        (alone step (schedule.count i) (w.task i, w.state)).2 :=
  h.run schedule (x := fun i => (w.task i, w.state)) (fun i => ⟨rfl, hw i⟩) i

/-! ### Two runs side by side -/

section

variable (step) {O : Type} (out : ι → L → S → List O)

/-- What the turns put out, each with the task whose turn it is. -/
def outputs (w : Shared ι L S) : List ι → List (ι × O)
  | [] => []
  | i :: schedule =>
    (out i (w.task i) w.state).map (Prod.mk i) ++ outputs (turn step w i) schedule

variable {step out} {R : L → L → Prop} {Q : S → S → Prop} {w w' : Shared ι L S}

variable (step out R Q) in
/-- A step from related tasks and states puts out the same, and leads to related
ones. -/
structure Related : Prop where
  step : ∀ {t t' s s'}, R t t' → Q s s' →
    R (step t s).1 (step t' s').1 ∧ Q (step t s).2 (step t' s').2
  out : ∀ {t t' s s'} i, R t t' → Q s s' → out i t s = out i t' s'

theorem Related.turn (h : Related step out R Q) (htask : ∀ i, R (w.task i) (w'.task i))
    (hstate : Q w.state w'.state) (j : ι) :
    (∀ i, R ((Tasks.turn step w j).task i) ((Tasks.turn step w' j).task i)) ∧
      Q (Tasks.turn step w j).state (Tasks.turn step w' j).state := by
  obtain ⟨hown, hstate'⟩ := h.step (htask j) hstate
  refine ⟨fun i => ?_, hstate'⟩
  by_cases hij : i = j
  · subst hij
    simp only [Tasks.turn, Function.update_self]
    exact hown
  · simp only [Tasks.turn, Function.update_of_ne hij]
    exact htask i

/-- **Related runs stay related**, whatever the order of the steps. -/
theorem run_related (h : Related step out R Q) (htask : ∀ i, R (w.task i) (w'.task i))
    (hstate : Q w.state w'.state) (schedule : List ι) :
    (∀ i, R ((run step w schedule).task i) ((run step w' schedule).task i)) ∧
      Q (run step w schedule).state (run step w' schedule).state := by
  induction schedule generalizing w w' with
  | nil => exact ⟨htask, hstate⟩
  | cons j schedule ih =>
    obtain ⟨htask', hstate'⟩ := h.turn htask hstate j
    exact ih htask' hstate'

/-- **Related runs put out the same.** -/
theorem outputs_related (h : Related step out R Q) (htask : ∀ i, R (w.task i) (w'.task i))
    (hstate : Q w.state w'.state) (schedule : List ι) :
    outputs step out w schedule = outputs step out w' schedule := by
  induction schedule generalizing w w' with
  | nil => rfl
  | cons j schedule ih =>
    obtain ⟨htask', hstate'⟩ := h.turn htask hstate j
    unfold outputs
    rw [h.out j (htask j) hstate, ih htask' hstate']

end

end Tasks
