/-
# Batches of changes

`ChangeScheduler::run` (`watcher/mod.rs`) collects the events that it receives and sends them on
in batches: when none has come for some time, when there are enough, and at the end. Every event
is part of one batch. Whether there are enough is looked at whenever an event comes beside others,
but not when the first comes, so a batch that is to hold one event can hold two; otherwise none is
too large (`batches_whole_iff`).

Key definitions: `Scheduling`, `ChangeScheduler.turn`, `Whole`, `KeepsWhole`.
Key theorems: `collected_turn`, `turn_bounded_iff`, `batches_whole_iff`.
-/
import FerriSync.Watcher

namespace FerriSync

/-- Output signal from the scheduler: a batch of coalesced events is ready for reconciliation. -/
inductive SyncTrigger (P : Type)
  | changesReady (events : List (ChangeEvent P))
deriving DecidableEq, Repr

/-- How long to wait after the last event before releasing a batch, and how many events there
are in a single batch at most, if not 0. -/
structure ChangeScheduler where
  debounce : ℕ
  maxBatch : ℕ

/-- What ends a wait of the loop: an event, the deadline, or the end of the input. -/
inductive Wake (P : Type)
  | event (now : ℕ) (e : ChangeEvent P)
  | expired (now : ℕ)
  | closed
deriving DecidableEq, Repr

/-- The loop between two waits. -/
structure Scheduling (P : Type) where
  pending : List (ChangeEvent P)
  deadline : Option ℕ
  stopped : Bool
  output : List (SyncTrigger P)
  /-- The events received, and the batches before they are merged, which nothing reads. -/
  received : List (ChangeEvent P)
  dispatched : List (List (ChangeEvent P))

namespace Scheduling

variable {P : Type}

def new : Scheduling P := ⟨[], none, false, [], [], []⟩

/-- An event is received. -/
def push (s : Scheduling P) (e : ChangeEvent P) : Scheduling P :=
  { s with pending := s.pending ++ [e], received := s.received ++ [e] }

theorem push_pending_ne (s : Scheduling P) (e : ChangeEvent P) : (s.push e).pending ≠ [] := by
  unfold push
  simp

theorem length_push (s : Scheduling P) (e : ChangeEvent P) :
    (s.push e).pending.length = s.pending.length + 1 := by
  unfold push
  simp

/-- What is pending is merged, and sent unless nothing is left. -/
def flush [DecidableEq P] (s : Scheduling P) : Scheduling P :=
  let batch := coalesce s.pending
  { s with
    pending := []
    output := if batch.isEmpty then s.output else s.output ++ [.changesReady batch]
    dispatched := s.dispatched ++ [s.pending] }

end Scheduling

namespace ChangeScheduler

variable {P : Type} [DecidableEq P] (scheduler : ChangeScheduler)

/-- One turn of the loop. -/
def turn (s : Scheduling P) (wake : Wake P) : Scheduling P :=
  if s.stopped then s
  else
    match s.deadline, wake with
    | some _, .event now e =>
      if scheduler.maxBatch > 0 ∧ (s.push e).pending.length ≥ scheduler.maxBatch then
        { (s.push e).flush with deadline := none }
      else { s.push e with deadline := some (now + scheduler.debounce) }
    | some _, .closed => { s.flush with stopped := true }
    | some deadline, .expired now => if deadline ≤ now then { s.flush with deadline := none } else s
    | none, .event now e => { s.push e with deadline := some (now + scheduler.debounce) }
    | none, .closed => { s with stopped := true }
    | none, .expired _ => s

/-- Every event that was received is in one batch or pending still, and what is sent are the
batches. -/
structure Accounts (s : Scheduling P) : Prop where
  once : s.received = s.dispatched.flatten ++ s.pending
  output : s.output = ((s.dispatched.map coalesce).filter fun batch => !batch.isEmpty).map .changesReady

/-- What the loop has made of the events that it has received: nothing is pending in the end, a
deadline is set if anything is before, and no batch is too large. -/
structure Whole (s : Scheduling P) : Prop extends Accounts s where
  stopped : s.stopped = true → s.pending = []
  deadline : s.stopped = false → (s.deadline.isSome ↔ s.pending ≠ [])
  bounded : 0 < scheduler.maxBatch → ∀ batch ∈ s.dispatched, batch.length ≤ scheduler.maxBatch

/-- If batches are to hold one event, none comes while another is pending. -/
def KeepsWhole (s : Scheduling P) (wake : Wake P) : Prop :=
  scheduler.maxBatch = 1 → s.stopped = false → ∀ now e, wake = .event now e → s.pending = []

/-! ### A turn -/

/-- What holds of the loop whatever comes: there is never more than one event pending and enough
for a batch. -/
structure Collected (s : Scheduling P) : Prop extends Accounts s where
  stopped : s.stopped = true → s.pending = []
  deadline : s.stopped = false → (s.deadline.isSome ↔ s.pending ≠ [])
  few : 0 < scheduler.maxBatch → s.pending.length < scheduler.maxBatch ∨ s.pending.length = 1

variable {scheduler} {s : Scheduling P} {wake : Wake P}

theorem Accounts.push (h : Accounts s) (e : ChangeEvent P) : Accounts (s.push e) where
  once := by
    show s.received ++ [e] = s.dispatched.flatten ++ (s.pending ++ [e])
    rw [h.once, List.append_assoc]
  output := h.output

theorem Accounts.flush (h : Accounts s) : Accounts s.flush where
  once := by
    show s.received = (s.dispatched ++ [s.pending]).flatten ++ []
    rw [h.once, List.append_nil, List.flatten_append, List.flatten_singleton]
  output := by
    show (if (coalesce s.pending).isEmpty then s.output else s.output ++ [.changesReady (coalesce s.pending)]) =
      (((s.dispatched ++ [s.pending]).map coalesce).filter fun batch => !batch.isEmpty).map .changesReady
    rw [h.output, List.map_append, List.filter_append, List.map_append]
    split_ifs with hempty
    · simp [hempty]
    · simp [hempty]

theorem collected_new : scheduler.Collected (Scheduling.new : Scheduling P) where
  once := rfl
  output := rfl
  stopped h := by cases h
  deadline _ := by simp [Scheduling.new]
  few h := Or.inl h

theorem collected_turn (h : scheduler.Collected s) : scheduler.Collected (scheduler.turn s wake) := by
  have hflushed : scheduler.Collected { s.flush with deadline := none } :=
    ⟨⟨h.toAccounts.flush.once, h.toAccounts.flush.output⟩, fun _ => rfl, fun _ => by simp [Scheduling.flush],
      fun hpos => Or.inl hpos⟩
  unfold turn
  split_ifs with hstopped
  · exact h
  · rw [Bool.not_eq_true] at hstopped
    have hset := h.deadline hstopped
    cases hdeadline : s.deadline with
    | none =>
      rw [hdeadline] at hset
      have hempty : s.pending = [] := by
        by_contra hne
        cases hset.mpr hne
      cases wake with
      | event now e =>
        have hone : (s.push e).pending.length = 1 := by rw [s.length_push, hempty]; rfl
        exact ⟨⟨(h.toAccounts.push e).once, h.output⟩, fun hs => (by cases hstopped.symm.trans hs),
          fun _ => iff_of_true rfl (s.push_pending_ne e), fun _ => Or.inr hone⟩
      | expired now => exact h
      | closed => exact ⟨⟨h.once, h.output⟩, fun _ => hempty, fun hs => (by cases hs), h.few⟩
    | some deadline =>
      cases wake with
      | event now e =>
        dsimp only
        split_ifs with hfull
        · exact ⟨⟨(h.toAccounts.push e).flush.once, (h.toAccounts.push e).flush.output⟩, fun _ => rfl,
            fun _ => by simp [Scheduling.flush], fun hpos => Or.inl hpos⟩
        · refine ⟨⟨(h.toAccounts.push e).once, h.output⟩, fun hs => (by cases hstopped.symm.trans hs),
            fun _ => iff_of_true rfl (s.push_pending_ne e), fun hpos => Or.inl ?_⟩
          by_contra hmany
          exact hfull ⟨hpos, Nat.le_of_not_lt hmany⟩
      | expired now =>
        dsimp only
        split_ifs
        · exact hflushed
        · exact h
      | closed =>
        exact ⟨⟨h.toAccounts.flush.once, h.toAccounts.flush.output⟩, fun _ => rfl, fun hs => (by cases hs),
          fun hpos => Or.inl hpos⟩

/-- The batches after a turn: what was pending may be one, or become one with the event that
comes to it. -/
theorem mem_dispatched_turn {batch : List (ChangeEvent P)} (h : scheduler.Collected s)
    (hbatch : batch ∈ (scheduler.turn s wake).dispatched) :
    batch ∈ s.dispatched ∨ batch = s.pending ∨
      ∃ now e, wake = .event now e ∧ s.stopped = false ∧ s.pending ≠ [] ∧ batch = s.pending ++ [e] := by
  have hflush : ∀ {t : Scheduling P}, batch ∈ t.flush.dispatched → batch ∈ t.dispatched ∨ batch = t.pending :=
    fun hmem => (List.mem_append.mp hmem).imp_right List.mem_singleton.mp
  unfold turn at hbatch
  split_ifs at hbatch with hstopped
  · exact Or.inl hbatch
  · rw [Bool.not_eq_true] at hstopped
    cases hdeadline : s.deadline with
    | none =>
      rw [hdeadline] at hbatch
      cases wake with
      | _ => exact Or.inl hbatch
    | some deadline =>
      have hpending : s.pending ≠ [] := (h.deadline hstopped).mp (by rw [hdeadline]; rfl)
      rw [hdeadline] at hbatch
      cases wake with
      | event now e =>
        dsimp only at hbatch
        split_ifs at hbatch
        · exact (hflush hbatch).imp_right fun heq => Or.inr ⟨now, e, rfl, hstopped, hpending, heq⟩
        · exact Or.inl hbatch
      | expired now =>
        dsimp only at hbatch
        split_ifs at hbatch
        · exact (hflush hbatch).imp_right Or.inl
        · exact Or.inl hbatch
      | closed => exact (hflush hbatch).imp_right Or.inl

/-- The event that makes them enough. -/
theorem dispatched_enough (h : scheduler.Collected s) (hstopped : s.stopped = false) (hpending : s.pending ≠ [])
    (hpos : 0 < scheduler.maxBatch) (henough : scheduler.maxBatch ≤ s.pending.length + 1) (now : ℕ)
    (e : ChangeEvent P) : s.pending ++ [e] ∈ (scheduler.turn s (.event now e)).dispatched := by
  obtain ⟨deadline, hdeadline⟩ := Option.isSome_iff_exists.mp ((h.deadline hstopped).mpr hpending)
  unfold turn
  rw [hstopped, hdeadline]
  have hfull : scheduler.maxBatch > 0 ∧ (s.push e).pending.length ≥ scheduler.maxBatch :=
    ⟨hpos, by rwa [s.length_push]⟩
  simp only [Bool.false_eq_true, if_false, if_pos hfull]
  exact List.mem_append_right _ (List.mem_singleton.mpr rfl)

/-- **A turn makes no batch too large** exactly if none comes to a batch of one. -/
theorem turn_whole_iff (h : scheduler.Collected s) (hwhole : scheduler.Whole s) :
    scheduler.Whole (scheduler.turn s wake) ↔ scheduler.KeepsWhole s wake := by
  constructor
  · intro hw hone hstopped now e hwake
    by_contra hpending
    subst hwake
    have hlength := hw.bounded (by omega) _
      (dispatched_enough h hstopped hpending (by omega) (by omega) now e)
    have hpos := List.length_pos_iff.mpr hpending
    rw [List.length_append, List.length_singleton] at hlength
    omega
  · intro hkeeps
    have hnext := @collected_turn P _ scheduler s wake h
    refine ⟨hnext.toAccounts, hnext.stopped, hnext.deadline, fun hpos batch hbatch => ?_⟩
    rcases mem_dispatched_turn h hbatch with hold | rfl | ⟨now, e, hwake, hstopped, hpending, rfl⟩
    · exact hwhole.bounded hpos batch hold
    · have hfew := h.few hpos
      omega
    · rw [List.length_append, List.length_singleton]
      by_cases hone : scheduler.maxBatch = 1
      · exact absurd (hkeeps hone hstopped now e hwake) hpending
      · have hfew := h.few hpos
        omega

end ChangeScheduler

/-- **The scheduler neither loses nor duplicates events, and no batch is too large**, exactly if
no event comes to one that is a batch already. -/
theorem batches_whole_iff {P : Type} [DecidableEq P] (scheduler : ChangeScheduler) (wakes : List (Wake P)) :
    Runs.Always scheduler.turn scheduler.Whole Scheduling.new wakes ↔
      Runs.Meets scheduler.turn scheduler.KeepsWhole Scheduling.new wakes := by
  refine Runs.always_iff_meets (J := scheduler.Collected) (fun _ _ => ChangeScheduler.collected_turn)
    (fun _ _ => ChangeScheduler.turn_whole_iff) ChangeScheduler.collected_new ?_
  have h := @ChangeScheduler.collected_new P _ scheduler
  exact ⟨h.toAccounts, h.stopped, h.deadline, fun _ batch hbatch => absurd hbatch List.not_mem_nil⟩

/-- **A batch of one event at most holds two.** -/
theorem batch_of_two : ¬Runs.Always (ChangeScheduler.mk 50 1).turn (ChangeScheduler.mk 50 1).Whole Scheduling.new
    [.event 0 (.created "a"), .event 1 (.created "b")] := by
  intro halways
  have hbounded := (halways [.event 0 (.created "a"), .event 1 (.created "b")] [] rfl).bounded (by decide)
  have hthere : [.created "a", .created "b"] ∈ ([.event 0 (.created "a"), .event 1 (.created "b")].foldl
      (ChangeScheduler.mk 50 1).turn Scheduling.new).dispatched := by decide +kernel
  exact absurd (hbounded _ hthere) (by decide)

end FerriSync
