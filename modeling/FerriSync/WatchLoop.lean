/-
# Syncing on every change

`folder_loop` (`commands/watch.rs`) waits for a change, then for the burst to settle, throws away
what is in the queue, and syncs. What it throws away came before the sync started, and what comes
later is in the queue when it waits again. So when it waits and nothing is queued, a sync has been
started since the last change (`watch_misses_nothing`), whatever came of the syncs.

Key definitions: `FileWatcher.turn`, `WatchLoop`, `WatchLoop.turn`, `MissesNothing`.
Key theorems: `pending_turn`, `watch_misses_nothing`.
-/
import FerriSync.Session
import FerriSync.Watcher

namespace FerriSync

/-- What the operating system reports: something is created, modified or removed, or read. -/
inductive NotifyKind
  | create
  | modify
  | remove
  | other
deriving DecidableEq, Repr

structure NotifyEvent (P : Type) where
  kind : NotifyKind
  paths : List P
deriving DecidableEq, Repr

/-- The changes that an event tells of. -/
def NotifyEvent.changes {P : Type} (event : NotifyEvent P) : List (ChangeEvent P) :=
  match event.kind with
  | .create => event.paths.map .created
  | .modify => event.paths.map .modified
  | .remove => event.paths.map .deleted
  | .other => []

/-- The capacity of the queue of changes. -/
def watcherCapacity : ℕ := 256

/-- What is reported, what the bridge has still to send of an event, and what it has sent. -/
structure FileWatcher (P : Type) where
  raw : List (NotifyEvent P)
  sending : List (ChangeEvent P)
  queue : List (ChangeEvent P)
  /-- Nothing will be reported any more. -/
  dropped : Bool

namespace FileWatcher

variable {P : Type}

def new : FileWatcher P := ⟨[], [], [], false⟩

/-- The bridge ends when nothing is left to send. -/
def isClosed (w : FileWatcher P) : Bool := w.dropped && w.raw.isEmpty && w.sending.isEmpty

end FileWatcher

inductive LoopPhase
  | waiting
  | settling
  | draining
  | starting
  | syncing
  | stopped
deriving DecidableEq, Repr

/-- What has happened, in order: a change was reported or delivered, or a sync was started. -/
inductive WatchMark (P : Type)
  | reported (change : ChangeEvent P)
  | delivered (change : ChangeEvent P)
  | syncStarted
deriving DecidableEq, Repr

structure WatchLoop (P : Type) where
  phase : LoopPhase
  watcher : FileWatcher P
  shutdown : Bool
  /-- It is read by nothing. -/
  log : List (WatchMark P)

/-- One step: of the operating system, of the bridge, of the user, or of the loop, for which a
branch is picked if both are ready, and a sync comes to something. -/
inductive WatchTurn (P : Type)
  | report (event : NotifyEvent P)
  | drop
  | bridge
  | shutDown
  | loop (shutdownFirst : Bool) (outcome : Except String SyncResult)

namespace WatchLoop

variable {P : Type}

def new : WatchLoop P := ⟨.waiting, .new, false, []⟩

/-- The bridge sends the next change when there is room, or takes up the next event. -/
def bridge (s : WatchLoop P) : WatchLoop P :=
  match s.watcher.sending with
  | change :: rest =>
    if s.watcher.queue.length < watcherCapacity then
      { s with
        watcher := { s.watcher with sending := rest, queue := s.watcher.queue ++ [change] }
        log := s.log ++ [.delivered change] }
    else s
  | [] =>
    match s.watcher.raw with
    | event :: raw => { s with watcher := { s.watcher with raw := raw, sending := event.changes } }
    | [] => s

/-- The next step of the loop; it stays where it is as long as nothing is ready. -/
def advance (s : WatchLoop P) (shutdownFirst : Bool) (_outcome : Except String SyncResult) : WatchLoop P :=
  match s.phase with
  | .waiting =>
    if s.shutdown && (shutdownFirst || s.watcher.queue.isEmpty) then { s with phase := .stopped }
    else
      match s.watcher.queue with
      | _ :: queue => { s with phase := .settling, watcher := { s.watcher with queue := queue } }
      | [] => if s.watcher.isClosed then { s with phase := .stopped } else s
  | .settling => { s with phase := .draining }
  | .draining =>
    match s.watcher.queue with
    | _ :: queue => { s with watcher := { s.watcher with queue := queue } }
    | [] => { s with phase := .starting }
  | .starting => { s with phase := .syncing, log := s.log ++ [.syncStarted] }
  -- The result is printed, or the error.
  | .syncing => { s with phase := .waiting }
  | .stopped => s

def turn (s : WatchLoop P) : WatchTurn P → WatchLoop P
  | .report event =>
    if s.watcher.dropped then s
    else { s with
      watcher := { s.watcher with raw := s.watcher.raw ++ [event] }
      log := s.log ++ event.changes.map .reported }
  | .drop => { s with watcher := { s.watcher with dropped := true } }
  | .bridge => s.bridge
  | .shutDown => { s with shutdown := true }
  | .loop shutdownFirst outcome => s.advance shutdownFirst outcome

/-- A sync was started after every mark of the kind. -/
def SyncedSince (log : List (WatchMark P)) (kind : WatchMark P → Prop) : Prop :=
  ∀ before mark after, log = before ++ mark :: after → kind mark → .syncStarted ∈ after

def IsDelivered (mark : WatchMark P) : Prop := ∃ change, mark = .delivered change

def IsReported (mark : WatchMark P) : Prop := ∃ change, mark = .reported change

/-- When the loop waits and nothing is queued, a sync was started after the last change that was
delivered, and, if nothing is on its way, after the last that was reported. -/
structure MissesNothing (s : WatchLoop P) : Prop where
  delivered : s.phase = .waiting → s.watcher.queue = [] → SyncedSince s.log IsDelivered
  reported : s.phase = .waiting → s.watcher.queue = [] → s.watcher.sending = [] → s.watcher.raw = [] →
    SyncedSince s.log IsReported

/-! ### The marks -/

section

variable {log : List (WatchMark P)} {kind : WatchMark P → Prop} {mark : WatchMark P}

theorem syncedSince_nil : SyncedSince ([] : List (WatchMark P)) kind := by
  intro before mark after hsplit
  cases before <;> cases hsplit

/-- A sync is started now, or nothing that one was to follow has come. -/
theorem syncedSince_concat (h : mark = .syncStarted ∨ SyncedSince log kind) (hkind : ¬kind mark) :
    SyncedSince (log ++ [mark]) kind := by
  intro before m after hsplit hm
  rcases List.eq_nil_or_concat after with rfl | ⟨after, last, rfl⟩
  · obtain ⟨_, heq⟩ := List.append_inj' hsplit rfl
    exact absurd ((List.cons.inj heq).1 ▸ hm) hkind
  · rw [List.concat_eq_append] at hsplit ⊢
    rw [← List.cons_append, ← List.append_assoc] at hsplit
    obtain ⟨hlog, hlast⟩ := List.append_inj' hsplit rfl
    rcases h with rfl | h
    · rw [← (List.cons.inj hlast).1]
      exact List.mem_append_right _ (List.mem_singleton.mpr rfl)
    · exact List.mem_append_left _ (h before m after hlog hm)

theorem syncedSince_append_of_not {marks : List (WatchMark P)} (h : SyncedSince log kind)
    (hkind : ∀ m ∈ marks, ¬kind m) : SyncedSince (log ++ marks) kind := by
  induction marks generalizing log with
  | nil => rwa [List.append_nil]
  | cons m marks ih =>
    obtain ⟨hm, hrest⟩ := List.forall_mem_cons.mp hkind
    rw [List.append_cons]
    exact ih (syncedSince_concat (Or.inr h) hm) hrest

end

/-! ### A step -/

/-- The loop is about to start a sync. -/
def Due (phase : LoopPhase) : Prop := phase = .settling ∨ phase = .draining ∨ phase = .starting

/-- **A change without a sync** is queued, or the loop is about to start one; one that was only
reported may be on its way. -/
structure Pending (s : WatchLoop P) : Prop where
  delivered : ¬Due s.phase → s.watcher.queue = [] → SyncedSince s.log IsDelivered
  reported : ¬Due s.phase → s.watcher.queue = [] → s.watcher.sending = [] →
    (∀ event ∈ s.watcher.raw, event.changes = []) → SyncedSince s.log IsReported

variable {s : WatchLoop P} {t : WatchTurn P}

theorem Pending.missesNothing (h : s.Pending) : s.MissesNothing where
  delivered hwaiting hqueue := h.delivered (by rw [hwaiting]; simp [Due]) hqueue
  reported hwaiting hqueue hsending hraw := h.reported (by rw [hwaiting]; simp [Due]) hqueue hsending
    (by rw [hraw]; exact fun event hevent => absurd hevent List.not_mem_nil)

theorem pending_new : (new : WatchLoop P).Pending where
  delivered _ _ := syncedSince_nil
  reported _ _ _ _ := syncedSince_nil

theorem not_delivered_of_reported {changes : List (ChangeEvent P)} :
    ∀ m ∈ changes.map WatchMark.reported, ¬IsDelivered m := by
  intro m hm ⟨change, heq⟩
  obtain ⟨_, _, rfl⟩ := List.mem_map.mp hm
  cases heq

theorem not_syncStarted_delivered : ¬IsDelivered (.syncStarted : WatchMark P) := fun ⟨_, heq⟩ => (by cases heq)

theorem not_syncStarted_reported : ¬IsReported (.syncStarted : WatchMark P) := fun ⟨_, heq⟩ => (by cases heq)

theorem pending_bridge (h : s.Pending) : s.bridge.Pending := by
  unfold bridge
  cases hsending : s.watcher.sending with
  | cons change rest =>
    dsimp only
    split_ifs
    · have hqueue : s.watcher.queue ++ [change] ≠ [] := by simp
      exact ⟨fun _ hempty => absurd hempty hqueue, fun _ hempty => absurd hempty hqueue⟩
    · exact h
  | nil =>
    dsimp only
    cases hraw : s.watcher.raw with
    | nil => exact h
    | cons event raw =>
      refine ⟨h.delivered, fun hdue hqueue hchanges hall => ?_⟩
      refine h.reported hdue hqueue hsending ?_
      rw [hraw]
      exact List.forall_mem_cons.mpr ⟨hchanges, hall⟩

/-- The loop comes or stays where it is not about to start a sync. -/
theorem Pending.phase {phase : LoopPhase} (h : s.Pending) (hdue : ¬Due s.phase) :
    ({ s with phase := phase } : WatchLoop P).Pending where
  delivered _ := h.delivered hdue
  reported _ := h.reported hdue

theorem pending_of_due (hdue : Due s.phase) : s.Pending where
  delivered hnot := absurd hdue hnot
  reported hnot := absurd hdue hnot

theorem pending_advance (h : s.Pending) (shutdownFirst : Bool) (outcome : Except String SyncResult) :
    (s.advance shutdownFirst outcome).Pending := by
  unfold advance
  cases hphase : s.phase with
  | waiting =>
    have hdue : ¬Due s.phase := by
      rw [hphase]
      simp [Due]
    dsimp only
    by_cases hstop : (s.shutdown && (shutdownFirst || s.watcher.queue.isEmpty)) = true
    · rw [if_pos hstop]
      exact h.phase hdue
    · rw [if_neg hstop]
      cases hqueue : s.watcher.queue with
      | cons change queue => exact pending_of_due (Or.inl rfl)
      | nil =>
        dsimp only
        by_cases hclosed : s.watcher.isClosed = true
        · rw [if_pos hclosed]
          exact h.phase hdue
        · rw [if_neg hclosed]
          exact h
  | settling => exact pending_of_due (Or.inr (Or.inl rfl))
  | draining =>
    cases hqueue : s.watcher.queue with
    | cons change queue => exact pending_of_due (Or.inr (Or.inl rfl))
    | nil => exact pending_of_due (Or.inr (Or.inr rfl))
  | starting =>
    exact ⟨fun _ _ => syncedSince_concat (Or.inl rfl) not_syncStarted_delivered,
      fun _ _ _ _ => syncedSince_concat (Or.inl rfl) not_syncStarted_reported⟩
  | syncing =>
    refine h.phase ?_
    rw [hphase]
    simp [Due]
  | stopped => exact h

theorem pending_turn (h : s.Pending) : (s.turn t).Pending := by
  cases t with
  | report event =>
    unfold turn
    dsimp only
    split_ifs
    · exact h
    · refine ⟨fun hdue hqueue => ?_, fun hdue hqueue hsending hall => ?_⟩
      · exact syncedSince_append_of_not (h.delivered hdue hqueue) not_delivered_of_reported
      · obtain ⟨hold, hnew⟩ := List.forall_mem_append.mp hall
        rw [hnew event (List.mem_singleton.mpr rfl), List.map_nil, List.append_nil]
        exact h.reported hdue hqueue hsending hold
  | drop => exact ⟨h.delivered, h.reported⟩
  | bridge => exact pending_bridge h
  | shutDown => exact ⟨h.delivered, h.reported⟩
  | loop shutdownFirst outcome => exact pending_advance h shutdownFirst outcome

end WatchLoop

/-- **The watch loop misses no change**, at whatever moment it comes and whatever comes of the
syncs. -/
theorem watch_misses_nothing {P : Type} (turns : List (WatchTurn P)) :
    Runs.Always WatchLoop.turn WatchLoop.MissesNothing WatchLoop.new turns := by
  rintro pre post rfl
  have hpending : (pre.foldl WatchLoop.turn (WatchLoop.new : WatchLoop P)).Pending := by
    induction pre using List.reverseRecOn with
    | nil => exact WatchLoop.pending_new
    | append_singleton pre t ih =>
      rw [List.foldl_concat]
      exact WatchLoop.pending_turn ih
  exact hpending.missesNothing

end FerriSync
