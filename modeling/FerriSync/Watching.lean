/-
# A watched folder and its peer

What `folder_loop` (`commands/watch.rs`) is for. Once nothing is reported any more, the loop
comes to rest, whoever's turn it is: every change that was reported has been followed by a
sync (`reported_changes_synced`). While the loop waits and nothing is on its way, the
watched folder is as the last sync left it; if that sync ran to its end, and
nobody has changed the other folder since it was started, the two hold the same files
(`watched_folders_agree`).

The operating system reports what somebody does in the watched folder. What happens there or in
the other folder during a sync may spoil it; then nothing is said about what it leaves.

Key definitions: `WatchLoop.rank`, `WatchedPair`, `WatchedPair.Step`.
Key theorems: `at_rest`, `reported_changes_synced`, `watched_folders_agree`.
-/
import FerriSync.Converge
import FerriSync.Lib.Rest
import FerriSync.WatchLoop

namespace FerriSync

open Machine

namespace WatchLoop

variable {P : Type}

/-! ### The loop comes to rest -/

/-- A turn of the bridge or of the loop. -/
def IsWork : WatchTurn P → Prop
  | .bridge | .loop _ _ => True
  | .report _ | .drop | .shutDown => False

def LoopPhase.rank : LoopPhase → ℕ
  | .settling => 5
  | .draining => 4
  | .starting => 3
  | .syncing => 2
  | .waiting => 1
  | .stopped => 0

/-- What is left to do: to take up an event, to send a change, to read it. -/
def rank (s : WatchLoop P) : ℕ :=
  (s.watcher.raw.map fun event => 8 * event.changes.length + 1).sum +
    8 * s.watcher.sending.length + 7 * s.watcher.queue.length + LoopPhase.rank s.phase

theorem rank_bridge (s : WatchLoop P) : s.bridge = s ∨ s.bridge.rank < s.rank := by
  unfold bridge
  cases hsending : s.watcher.sending with
  | cons change rest =>
    dsimp only
    split_ifs
    · refine Or.inr ?_
      simp only [rank, hsending, List.length_append, List.length_cons, List.length_nil]
      omega
    · exact Or.inl rfl
  | nil =>
    dsimp only
    cases hraw : s.watcher.raw with
    | nil => exact Or.inl rfl
    | cons event raw =>
      refine Or.inr ?_
      simp only [rank, hsending, hraw, List.map_cons, List.sum_cons, List.length_nil]
      omega

theorem rank_advance (s : WatchLoop P) (shutdownFirst : Bool) (outcome : Except String SyncResult) :
    s.advance shutdownFirst outcome = s ∨ (s.advance shutdownFirst outcome).rank < s.rank := by
  unfold advance
  cases hphase : s.phase with
  | waiting =>
    dsimp only
    by_cases hstop : (s.shutdown && (shutdownFirst || s.watcher.queue.isEmpty)) = true
    · rw [if_pos hstop]
      refine Or.inr ?_
      simp only [rank, hphase, LoopPhase.rank]
      omega
    · rw [if_neg hstop]
      cases hqueue : s.watcher.queue with
      | cons change queue =>
        refine Or.inr ?_
        simp only [rank, hphase, hqueue, LoopPhase.rank, List.length_cons]
        omega
      | nil =>
        dsimp only
        by_cases hclosed : s.watcher.isClosed = true
        · rw [if_pos hclosed]
          refine Or.inr ?_
          simp only [rank, hphase, hqueue, LoopPhase.rank, List.length_nil]
          omega
        · rw [if_neg hclosed]
          exact Or.inl rfl
  | draining =>
    refine Or.inr ?_
    cases hqueue : s.watcher.queue with
    | cons change queue =>
      simp only [rank, hphase, hqueue, LoopPhase.rank, List.length_cons]
      omega
    | nil =>
      simp only [rank, hphase, hqueue, LoopPhase.rank, List.length_nil]
      omega
  | settling | starting | syncing =>
    refine Or.inr ?_
    simp only [rank, hphase, LoopPhase.rank]
    omega
  | stopped => exact Or.inl rfl

theorem rank_turn {t : WatchTurn P} (ht : IsWork t) (s : WatchLoop P) :
    s.turn t = s ∨ (s.turn t).rank < s.rank := by
  cases t with
  | bridge => exact rank_bridge s
  | loop shutdownFirst outcome => exact rank_advance s shutdownFirst outcome
  | report event | drop | shutDown => exact ht.elim

/-- A bridge with nothing to do has taken up everything, or finds no room. -/
theorem bridge_at_rest {s : WatchLoop P} (h : s.bridge = s) :
    s.watcher.sending = [] ∧ s.watcher.raw = [] ∨ watcherCapacity ≤ s.watcher.queue.length := by
  by_contra hbusy
  obtain ⟨hleft, hroom⟩ := not_or.mp hbusy
  unfold bridge at h
  cases hsending : s.watcher.sending with
  | cons change rest =>
    rw [hsending] at h
    dsimp only at h
    rw [if_pos (not_le.mp hroom)] at h
    have hqueue := congrArg (fun t => t.watcher.queue.length) h
    simp at hqueue
  | nil =>
    rw [hsending] at h
    dsimp only at h
    cases hraw : s.watcher.raw with
    | nil => exact hleft ⟨hsending, hraw⟩
    | cons event raw =>
      rw [hraw] at h
      have hlength := congrArg (fun t => t.watcher.raw.length) h
      rw [hraw] at hlength
      simp at hlength

/-- A loop with nothing to do waits and has nothing to read, or has stopped. -/
theorem advance_at_rest {s : WatchLoop P} {shutdownFirst : Bool} {outcome : Except String SyncResult}
    (h : s.advance shutdownFirst outcome = s) :
    s.phase = .waiting ∧ s.watcher.queue = [] ∨ s.phase = .stopped := by
  have hphase := congrArg WatchLoop.phase h
  unfold advance at h hphase
  cases hp : s.phase with
  | waiting =>
    refine Or.inl ⟨rfl, ?_⟩
    rw [hp] at hphase
    dsimp only at hphase
    by_cases hstop : (s.shutdown && (shutdownFirst || s.watcher.queue.isEmpty)) = true
    · rw [if_pos hstop] at hphase
      cases hphase
    · rw [if_neg hstop] at hphase
      cases hqueue : s.watcher.queue with
      | nil => rfl
      | cons change queue =>
        rw [hqueue] at hphase
        cases hphase
  | draining =>
    rw [hp] at h hphase
    cases hqueue : s.watcher.queue with
    | nil =>
      rw [hqueue] at hphase
      cases hphase
    | cons change queue =>
      rw [hqueue] at h
      have hlength := congrArg (fun t => t.watcher.queue.length) h
      rw [hqueue] at hlength
      simp at hlength
  | stopped => exact Or.inr rfl
  | settling | starting | syncing =>
    rw [hp] at hphase
    cases hphase

/-- The loop stops when it is told to, or when nothing can come any more. -/
def StopsInTime (s : WatchLoop P) : Prop :=
  s.phase = .stopped → s.shutdown = true ∨ s.watcher.queue = [] ∧ s.watcher.isClosed = true

theorem isClosed_iff {w : FileWatcher P} :
    w.isClosed = true ↔ w.dropped = true ∧ w.raw = [] ∧ w.sending = [] := by
  simp [FileWatcher.isClosed, and_assoc]

theorem stopsInTime_turn {s : WatchLoop P} (h : s.StopsInTime) (t : WatchTurn P) :
    (s.turn t).StopsInTime := by
  intro hstopped
  cases t with
  | report event =>
    unfold turn at hstopped ⊢
    dsimp only at hstopped ⊢
    split_ifs at hstopped ⊢ with hdropped
    · exact h hstopped
    · rcases h hstopped with hshut | ⟨-, hclosed⟩
      · exact Or.inl hshut
      · exact absurd (isClosed_iff.mp hclosed).1 hdropped
  | drop =>
    rcases h hstopped with hshut | ⟨hqueue, hclosed⟩
    · exact Or.inl hshut
    · exact Or.inr ⟨hqueue, isClosed_iff.mpr ⟨rfl, (isClosed_iff.mp hclosed).2⟩⟩
  | bridge =>
    have hphase : s.bridge.phase = s.phase := by
      unfold bridge
      split
      · split_ifs <;> rfl
      · split <;> rfl
    rcases h (hphase ▸ hstopped) with hshut | ⟨hqueue, hclosed⟩
    · refine Or.inl ?_
      show s.bridge.shutdown = true
      unfold bridge
      split
      · split_ifs <;> exact hshut
      · split <;> exact hshut
    · obtain ⟨hdropped, hraw, hsending⟩ := isClosed_iff.mp hclosed
      have hsame : s.bridge = s := by
        unfold bridge
        rw [hsending, hraw]
      refine Or.inr ?_
      show s.bridge.watcher.queue = [] ∧ s.bridge.watcher.isClosed = true
      rw [hsame]
      exact ⟨hqueue, hclosed⟩
  | shutDown => exact Or.inl rfl
  | loop shutdownFirst outcome =>
    unfold turn advance at hstopped ⊢
    dsimp only at hstopped ⊢
    cases hphase : s.phase with
    | waiting =>
      rw [hphase] at hstopped
      dsimp only at hstopped ⊢
      by_cases hstop : (s.shutdown && (shutdownFirst || s.watcher.queue.isEmpty)) = true
      · rw [if_pos hstop]
        exact Or.inl (Bool.and_eq_true_iff.mp hstop).1
      · rw [if_neg hstop] at hstopped ⊢
        cases hqueue : s.watcher.queue with
        | cons change queue =>
          rw [hqueue] at hstopped
          cases hstopped
        | nil =>
          rw [hqueue] at hstopped
          dsimp only at hstopped ⊢
          by_cases hclosed : s.watcher.isClosed = true
          · rw [if_pos hclosed]
            exact Or.inr ⟨hqueue, hclosed⟩
          · rw [if_neg hclosed, hphase] at hstopped
            cases hstopped
    | draining =>
      rw [hphase] at hstopped
      dsimp only at hstopped
      cases hqueue : s.watcher.queue with
      | cons change queue =>
        rw [hqueue] at hstopped
        cases hstopped
      | nil =>
        rw [hqueue] at hstopped
        cases hstopped
    | settling | starting | syncing =>
      rw [hphase] at hstopped
      cases hstopped
    | stopped => exact h hphase

theorem kept_run (turns : List (WatchTurn P)) :
    (turns.foldl turn new).Pending ∧ (turns.foldl turn new).StopsInTime := by
  induction turns using List.reverseRecOn with
  | nil => exact ⟨pending_new, fun hstopped => by cases hstopped⟩
  | append_singleton turns t ih =>
    obtain ⟨hpending, hstops⟩ := ih
    rw [List.foldl_concat]
    exact ⟨pending_turn hpending, stopsInTime_turn hstops t⟩

/-- No work tells the loop to stop. -/
theorem shutdown_work {t : WatchTurn P} (ht : IsWork t) (s : WatchLoop P) :
    (s.turn t).shutdown = s.shutdown := by
  cases t with
  | bridge =>
    show s.bridge.shutdown = s.shutdown
    unfold bridge
    split
    · split_ifs <;> rfl
    · split <;> rfl
  | loop shutdownFirst outcome =>
    show (s.advance shutdownFirst outcome).shutdown = s.shutdown
    unfold advance
    cases s.phase with
    | waiting =>
      dsimp only
      by_cases hstop : (s.shutdown && (shutdownFirst || s.watcher.queue.isEmpty)) = true
      · rw [if_pos hstop]
      · rw [if_neg hstop]
        cases s.watcher.queue with
        | cons change queue => rfl
        | nil =>
          dsimp only
          split_ifs <;> rfl
    | draining => cases s.watcher.queue <;> rfl
    | settling | starting | syncing | stopped => rfl
  | report event | drop | shutDown => exact ht.elim

/-- A loop that has come to rest and was not told to stop has nothing on its way. -/
theorem at_rest {s : WatchLoop P} (hstops : s.StopsInTime) (hrunning : s.shutdown = false)
    (hbridge : s.bridge = s) (shutdownFirst : Bool) (outcome : Except String SyncResult)
    (hloop : s.advance shutdownFirst outcome = s) :
    (s.phase = .waiting ∨ s.phase = .stopped) ∧ s.watcher.queue = [] ∧ s.watcher.sending = [] ∧
      s.watcher.raw = [] := by
  rcases advance_at_rest hloop with ⟨hphase, hqueue⟩ | hphase
  · rcases bridge_at_rest hbridge with ⟨hsending, hraw⟩ | hfull
    · exact ⟨Or.inl hphase, hqueue, hsending, hraw⟩
    · rw [hqueue] at hfull
      exact absurd hfull (by simp [watcherCapacity])
  · rcases hstops hphase with hshut | ⟨hqueue, hclosed⟩
    · rw [hrunning] at hshut
      cases hshut
    · obtain ⟨-, hraw, hsending⟩ := isClosed_iff.mp hclosed
      exact ⟨Or.inr hphase, hqueue, hsending, hraw⟩

end WatchLoop

/-- **Every change that is reported is followed by a sync**: once no more is reported, and the
bridge and the loop are given turns again and again, in whatever order, they come to rest, with
nothing on its way and a sync started since the last report. -/
theorem reported_changes_synced {P : Type} (before : List (WatchTurn P)) (turns : ℕ → WatchTurn P)
    (hrunning : (before.foldl WatchLoop.turn WatchLoop.new).shutdown = false)
    (hwork : ∀ n, WatchLoop.IsWork (turns n)) (hbridge : ∀ n, ∃ m, n ≤ m ∧ turns m = .bridge)
    (hloop : ∀ n, ∃ m shutdownFirst outcome, n ≤ m ∧ turns m = .loop shutdownFirst outcome) :
    ∃ s, (∃ n, ∀ m, n ≤ m →
        Rest.after WatchLoop.turn (before.foldl WatchLoop.turn WatchLoop.new) turns m = s) ∧
      (s.phase = .waiting ∨ s.phase = .stopped) ∧
      (s.watcher.queue = [] ∧ s.watcher.sending = [] ∧ s.watcher.raw = []) ∧
      WatchLoop.SyncedSince s.log WatchLoop.IsReported := by
  let start : WatchLoop P := before.foldl WatchLoop.turn WatchLoop.new
  obtain ⟨n, hrest⟩ := Rest.comes_to_rest (s := start) WatchLoop.rank
    fun s m => WatchLoop.rank_turn (hwork m) s
  obtain ⟨hstartPending, hstartStops⟩ := WatchLoop.kept_run before
  obtain ⟨hpending, hstops, hshut⟩ : (Rest.after WatchLoop.turn start turns n).Pending ∧
      (Rest.after WatchLoop.turn start turns n).StopsInTime ∧
      (Rest.after WatchLoop.turn start turns n).shutdown = false :=
    Rest.after_inv (I := fun s => s.Pending ∧ s.StopsInTime ∧ s.shutdown = false)
      ⟨hstartPending, hstartStops, hrunning⟩ (fun s m ⟨hp, hs, hshut⟩ => ⟨WatchLoop.pending_turn hp,
        WatchLoop.stopsInTime_turn hs _, (WatchLoop.shutdown_work (hwork m) s).trans hshut⟩) n
  obtain ⟨i, hi, hbridged⟩ := hbridge n
  obtain ⟨j, shutdownFirst, outcome, hj, hlooped⟩ := hloop n
  have hfixed := Rest.rest_fixed hrest hi
  have hfixed' := Rest.rest_fixed hrest hj
  rw [hbridged] at hfixed
  rw [hlooped] at hfixed'
  obtain ⟨hphase, hqueue, hsending, hraw⟩ :=
    WatchLoop.at_rest hstops hshut hfixed shutdownFirst outcome hfixed'
  have hdue : ¬WatchLoop.Due (Rest.after WatchLoop.turn start turns n).phase := by
    rcases hphase with hphase | hphase <;> rw [hphase] <;> simp [WatchLoop.Due]
  refine ⟨_, ⟨n, hrest⟩, hphase, ⟨hqueue, hsending, hraw⟩, hpending.reported hdue hqueue hsending ?_⟩
  rw [hraw]
  exact fun event hevent => absurd hevent List.not_mem_nil

/-- One file is created; then the bridge and the loop take turns. -/
theorem reported_changes_synced_one : ∃ s : WatchLoop String, s.watcher.queue = [] ∧
    WatchLoop.SyncedSince s.log WatchLoop.IsReported := by
  let turns : ℕ → WatchTurn String := fun n => if n % 2 = 0 then .bridge else .loop false (.ok {})
  obtain ⟨s, -, -, ⟨hqueue, -, -⟩, hsynced⟩ := reported_changes_synced
    [.report ⟨.create, ["f"]⟩] turns rfl
    (fun n => by
      show WatchLoop.IsWork (if n % 2 = 0 then WatchTurn.bridge else .loop false (.ok {}))
      split_ifs <;> trivial)
    (fun n => ⟨2 * n, by omega, if_pos (by omega)⟩)
    (fun n => ⟨2 * n + 1, false, .ok {}, by omega, if_neg (by omega)⟩)
  exact ⟨s, hqueue, hsynced⟩

/-! ### Since the last sync was started -/

namespace WatchLoop

variable {P : Type} {s : WatchLoop P} {t : WatchTurn P} {log marks : List (WatchMark P)}
  {kind : WatchMark P → Prop}

theorem not_syncedSince_append (h : ¬SyncedSince log kind) (hmarks : .syncStarted ∉ marks) :
    ¬SyncedSince (log ++ marks) kind := by
  intro hall
  refine h fun before mark after hsplit hkind => ?_
  have hlater := hall before mark (after ++ marks) (by rw [hsplit]; simp) hkind
  exact (List.mem_append.mp hlater).resolve_right hmarks

theorem not_syncedSince_reported {event : NotifyEvent P} (h : event.changes ≠ []) :
    ¬SyncedSince (log ++ event.changes.map .reported) IsReported := by
  intro hall
  obtain ⟨changes, change, hchanges⟩ := List.eq_nil_or_concat' event.changes |>.resolve_left h
  have hlater := hall (log ++ changes.map .reported) (.reported change) []
    (by rw [hchanges]; simp) ⟨change, rfl⟩
  cases hlater

/-- Only the loop starts a sync. -/
theorem log_turn (s : WatchLoop P) (t : WatchTurn P)
    (h : ∀ shutdownFirst outcome, t = .loop shutdownFirst outcome → s.phase ≠ .starting) :
    ∃ marks, (s.turn t).log = s.log ++ marks ∧ .syncStarted ∉ marks := by
  cases t with
  | report event =>
    unfold turn
    dsimp only
    split_ifs
    · exact ⟨[], by simp, by simp⟩
    · exact ⟨_, rfl, by simp⟩
  | drop | shutDown => exact ⟨[], by simp [turn], by simp⟩
  | bridge =>
    show ∃ marks, s.bridge.log = _ ∧ _
    unfold bridge
    cases s.watcher.sending with
    | cons change rest =>
      dsimp only
      split_ifs
      · exact ⟨_, rfl, by simp⟩
      · exact ⟨[], by simp, by simp⟩
    | nil =>
      cases s.watcher.raw with
      | cons event raw => exact ⟨[], by simp, by simp⟩
      | nil => exact ⟨[], by simp, by simp⟩
  | loop shutdownFirst outcome =>
    refine ⟨[], ?_, by simp⟩
    rw [List.append_nil]
    show (s.advance shutdownFirst outcome).log = s.log
    unfold advance
    cases hphase : s.phase with
    | waiting =>
      dsimp only
      by_cases hstop : (s.shutdown && (shutdownFirst || s.watcher.queue.isEmpty)) = true
      · rw [if_pos hstop]
      · rw [if_neg hstop]
        cases s.watcher.queue with
        | cons change queue => rfl
        | nil =>
          dsimp only
          split_ifs <;> rfl
    | draining => cases s.watcher.queue <;> rfl
    | starting => exact absurd hphase (h _ _ rfl)
    | settling | syncing | stopped => rfl

theorem dropped_turn (h : s.watcher.dropped = true) : (s.turn t).watcher.dropped = true := by
  cases t with
  | report event =>
    unfold turn
    dsimp only
    rw [if_pos h]
    exact h
  | drop => rfl
  | shutDown => exact h
  | bridge =>
    show s.bridge.watcher.dropped = true
    unfold bridge
    cases s.watcher.sending with
    | cons change rest =>
      dsimp only
      split_ifs <;> exact h
    | nil => cases s.watcher.raw <;> exact h
  | loop shutdownFirst outcome =>
    show (s.advance shutdownFirst outcome).watcher.dropped = true
    unfold advance
    cases s.phase with
    | waiting =>
      dsimp only
      by_cases hstop : (s.shutdown && (shutdownFirst || s.watcher.queue.isEmpty)) = true
      · rw [if_pos hstop]
        exact h
      · rw [if_neg hstop]
        cases s.watcher.queue with
        | cons change queue => exact h
        | nil =>
          dsimp only
          split_ifs <;> exact h
    | draining => cases s.watcher.queue <;> exact h
    | settling | starting | syncing | stopped => exact h

/-- What was reported and not synced since is not synced by a turn that starts no sync. -/
theorem reported_turn (h : s.watcher.dropped = true ∨ ¬SyncedSince s.log IsReported)
    (hstart : ∀ shutdownFirst outcome, t = .loop shutdownFirst outcome → s.phase ≠ .starting) :
    (s.turn t).watcher.dropped = true ∨ ¬SyncedSince (s.turn t).log IsReported := by
  rcases h with hdropped | hsince
  · exact Or.inl (dropped_turn hdropped)
  · obtain ⟨marks, hlog, hmarks⟩ := log_turn s t hstart
    rw [hlog]
    exact Or.inr (not_syncedSince_append hsince hmarks)

end WatchLoop

/-! ### The two folders -/

/-- A watched folder, the loop that watches it, and the folder that it is synced with. -/
structure WatchedPair (P : Type) where
  loop : WatchLoop P
  here : Folder
  there : Folder
  /-- Somebody has changed the watched folder since the last sync was started, or the other. -/
  editedHere : Bool
  editedThere : Bool
  /-- The ends of the last sync, if it ran to its end and nobody changed anything meanwhile. -/
  last : Option Ends

namespace WatchedPair

variable {P : Type}

def new (here there : Folder) : WatchedPair P := ⟨.new, here, there, false, false, none⟩

/-- What is done to a watched folder is reported. A sync is started with what stands in the two
folders; if it fails, or somebody changes one of them before it is over, they may hold anything
afterwards. -/
inductive Step : WatchedPair P → WatchedPair P → Prop
  | editHere {s : WatchedPair P} (event : NotifyEvent P) (here : Folder) : event.changes ≠ [] →
      Step s { s with loop := s.loop.turn (.report event), here := here, editedHere := true }
  | editThere {s : WatchedPair P} (there : Folder) : Step s { s with there := there, editedThere := true }
  | turn {s : WatchedPair P} (t : WatchTurn P) :
      (∀ shutdownFirst outcome, t = .loop shutdownFirst outcome →
        s.loop.phase ≠ .starting ∧ s.loop.phase ≠ .syncing) →
      Step s { s with loop := s.loop.turn t }
  | start {s : WatchedPair P} (shutdownFirst : Bool) (outcome : Except String SyncResult) :
      s.loop.phase = .starting →
      Step s { s with
        loop := s.loop.turn (.loop shutdownFirst outcome)
        editedHere := false, editedThere := false, last := none }
  | ran {s : WatchedPair P} {e : Ends} {x : Duplex Party Party SyncMessage} (shutdownFirst : Bool) :
      s.loop.phase = .syncing → s.editedHere = false → s.editedThere = false →
      e.clientFolder = s.here → e.serverFolder = s.there → Regular e →
      Reach (Party.next e.client) (Party.next e.server) e.start x →
      RandomDescent.Final (Machine.Step (Party.next e.client) (Party.next e.server)) x →
      Step s { s with
        loop := s.loop.turn (.loop shutdownFirst (.ok x.left.result))
        here := x.left.folder, there := x.right.folder, last := some e }
  | spoiled {s : WatchedPair P} (shutdownFirst : Bool) (outcome : Except String SyncResult)
      (here there : Folder) : s.loop.phase = .syncing →
      Step s { s with
        loop := s.loop.turn (.loop shutdownFirst outcome), here := here, there := there, last := none }

/-- Both folders hold what the sync chose. -/
def AgreeOn (e : Ends) (here there : Folder) : Prop :=
  ∀ u, e.files u → ∃ b, e.chosen u = some b ∧ here.content u = some b ∧ there.content u = some b

/-- A change of the watched folder after the start of the last sync is still to be seen to. -/
structure Kept (s : WatchedPair P) : Prop where
  pending : s.loop.Pending
  reported : s.editedHere = true →
    s.loop.watcher.dropped = true ∨ ¬WatchLoop.SyncedSince s.loop.log WatchLoop.IsReported
  agrees : ∀ e, s.last = some e → s.editedHere = false → s.editedThere = false →
    AgreeOn e s.here s.there

theorem kept_new (here there : Folder) : (new here there : WatchedPair P).Kept where
  pending := WatchLoop.pending_new
  reported h := by cases h
  agrees e h := by cases h

theorem kept_step {s s' : WatchedPair P} (h : s.Kept) (hstep : s.Step s') : s'.Kept := by
  cases hstep with
  | editHere event here hchanges =>
    refine ⟨WatchLoop.pending_turn (t := .report event) h.pending, fun _ => ?_,
      fun e _ hedited => by cases hedited⟩
    by_cases hdropped : s.loop.watcher.dropped = true
    · exact Or.inl (WatchLoop.dropped_turn hdropped)
    · refine Or.inr ?_
      show ¬WatchLoop.SyncedSince (s.loop.turn (.report event)).log _
      unfold WatchLoop.turn
      dsimp only
      rw [if_neg hdropped]
      exact WatchLoop.not_syncedSince_reported hchanges
  | editThere there => exact ⟨h.pending, h.reported, fun e _ _ hedited => by cases hedited⟩
  | turn t hother =>
    exact ⟨WatchLoop.pending_turn h.pending, fun hedited => WatchLoop.reported_turn (h.reported hedited)
      fun b o ht => (hother b o ht).1, h.agrees⟩
  | start shutdownFirst outcome hphase =>
    exact ⟨WatchLoop.pending_turn (t := .loop shutdownFirst outcome) h.pending,
      fun hedited => (by cases hedited), fun e hlast => by cases hlast⟩
  | @ran e x shutdownFirst hphase hhere hthere hclient hserver hregular hreach hfinal =>
    refine ⟨WatchLoop.pending_turn (t := .loop shutdownFirst (.ok x.left.result)) h.pending,
      fun hedited => ?_, fun e' hlast _ _ => ?_⟩
    · rw [show s.editedHere = true from hedited] at hhere
      cases hhere
    · obtain rfl : e = e' := Option.some_inj.mp hlast
      exact (hregular.converges.2 x hreach hfinal).2.2.1
  | spoiled shutdownFirst outcome here there hphase =>
    refine ⟨WatchLoop.pending_turn (t := .loop shutdownFirst outcome) h.pending, fun hedited => ?_,
      fun e hlast => by cases hlast⟩
    exact WatchLoop.reported_turn (h.reported hedited) fun b o _ => by rw [hphase]; decide

theorem kept_run {s s' : WatchedPair P} (h : s.Kept) (hrun : Relation.ReflTransGen Step s s') : s'.Kept := by
  induction hrun with
  | refl => exact h
  | tail _ hstep ih => exact kept_step ih hstep

end WatchedPair

/-- **Watched folders agree.** The loop waits, nothing is on its way, and the last sync ran to its
end: unless somebody has changed the other folder since it was started, both hold what it chose at
every path that one of them had. -/
theorem watched_folders_agree {P : Type} {here there : Folder} {s : WatchedPair P} {e : Ends}
    (hrun : Relation.ReflTransGen WatchedPair.Step (WatchedPair.new here there) s)
    (hwaits : s.loop.phase = .waiting) (hwatches : s.loop.watcher.dropped = false)
    (hquiet : s.loop.watcher.queue = [] ∧ s.loop.watcher.sending = [] ∧ s.loop.watcher.raw = [])
    (hlast : s.last = some e) (hthere : s.editedThere = false) :
    ∀ u, e.files u →
      ∃ b, e.chosen u = some b ∧ s.here.content u = some b ∧ s.there.content u = some b := by
  have hkept := WatchedPair.kept_run (WatchedPair.kept_new here there) hrun
  obtain ⟨hqueue, hsending, hraw⟩ := hquiet
  refine hkept.agrees e hlast ?_ hthere
  by_contra hedited
  rcases hkept.reported (Bool.not_eq_false _ ▸ hedited) with hdropped | hsince
  · rw [hwatches] at hdropped
    cases hdropped
  · exact hsince (hkept.pending.missesNothing.reported hwaits hqueue hsending hraw)

/-- `f` is written in a watched folder, and synced. -/
theorem watched_folders_agree_written : ∃ s : WatchedPair String, ∃ b,
    s.here.content [sampleName] = some b ∧ s.there.content [sampleName] = some b := by
  let e := sampleEnds [(sampleName, [97])] []
  have hregular : Regular e := regular_sampleEnds _ _ (by decide +kernel) (by decide +kernel)
    (by decide +kernel) (by decide +kernel)
  obtain ⟨x, hreach, hfinal⟩ := hregular.converges.exists_end
  let s₀ : WatchedPair String := WatchedPair.new (sampleFolder []) (sampleFolder [])
  let event : NotifyEvent String := ⟨.create, ["f"]⟩
  let wait : WatchTurn String := .loop false (.ok {})
  let s₁ : WatchedPair String := { s₀ with
    loop := s₀.loop.turn (.report event), here := sampleFolder [(sampleName, [97])], editedHere := true }
  let s₂ : WatchedPair String := { s₁ with
    loop := (((((s₁.loop.turn .bridge).turn .bridge).turn wait).turn wait).turn wait) }
  have hwaiting : Relation.ReflTransGen WatchedPair.Step s₀ s₂ :=
    .tail (.tail (.tail (.tail (.tail (.single
      (.editHere event (sampleFolder [(sampleName, [97])]) (by simp [event, NotifyEvent.changes])))
      (.turn .bridge fun _ _ h => by cases h)) (.turn .bridge fun _ _ h => by cases h))
      (.turn wait fun _ _ _ => ⟨by decide, by decide⟩)) (.turn wait fun _ _ _ => ⟨by decide, by decide⟩))
      (.turn wait fun _ _ _ => ⟨by decide, by decide⟩)
  have hran := (hwaiting.tail (.start false (.ok {}) rfl)).tail
    (.ran (e := e) (x := x) false rfl rfl rfl rfl rfl hregular hreach hfinal)
  obtain ⟨b, -, hhere, hthere⟩ := watched_folders_agree hran rfl rfl ⟨rfl, rfl, rfl⟩ rfl rfl
    [sampleName] (Or.inl (by decide +kernel))
  exact ⟨_, b, hhere, hthere⟩

end FerriSync
