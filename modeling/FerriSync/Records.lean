/-
# What is recorded of a session

An end that has left its receive loop stamps its folder and records the session
(`record_session`); each file it has counted has a history row. Whatever the messages are,
the files that it has counted, and those it still has to count, are the files whose last
chunks it has written and those it has put in their places (`Ledger`).

The client's row leaves out the files that it sends on request. The server passes its counts
the other way round: the files it has received as pushed, and those it has planned to push,
read or not, and those requested as pulled. It always names the registered folder, also when
it has served another, and also in the history rows of a session that fails later. So the
rows are right in few runs (`session_recorded_iff`).

Key definitions: `SessionRecord`, `Deed`, `Ledger`, `RowsRight`, `CountedRight`.
Key theorems: `ledger_step`, `ledger_run`, `session_recorded_iff`.
-/
import FerriSync.DryRun

namespace FerriSync

open Machine

/-! ### The rows -/

/-- One finished sync session. -/
structure SessionRecord where
  direction : String
  peerDevice : String
  addr : String
  folderPath : String
  pushedCount : ℕ
  pulledCount : ℕ
  conflictsCount : ℕ
  /-- Total bytes sent to the peer during the session. -/
  pushedBytes : ℕ
  /-- Total bytes received from the peer during the session. -/
  pulledBytes : ℕ
deriving DecidableEq

/-- `record_session`, with its parameters in its order. -/
def recordSession (direction peerDevice addr folderPath : String)
    (pushed pulled conflicts pushedBytes pulledBytes : ℕ) : SessionRecord :=
  ⟨direction, peerDevice, addr, folderPath, pushed, pulled, conflicts, pushedBytes, pulledBytes⟩

section

variable (cfg : Config) (localPath addr : String)

def clientRecord (p : Party) : SessionRecord :=
  recordSession "outgoing" cfg.deviceId addr localPath
    p.result.pushed.length
    p.result.pulled.length
    p.result.conflicts.length
    p.result.pushedBytes
    p.result.pulledBytes

/-- Its `received_pushes` are `pulled`. -/
def serverRecord (p : Party) : SessionRecord :=
  recordSession "incoming" addr addr localPath
    p.result.pulled.length
    (p.toPush.length + p.servedRequests.length)
    p.result.conflicts.length
    p.result.pushedBytes
    p.result.pulledBytes

def sessionRecord (p : Party) : SessionRecord :=
  match cfg.role with
  | .client => clientRecord cfg localPath addr p
  | .server => serverRecord localPath addr p

/-- Where the folder is that is read and changed: for the server, where the index that it
reads says. -/
def servedRootPath (remotePath : Option String) : String :=
  match remotePath with
  | none => localPath
  | some rp => if rp.toList.all isWhitespace then localPath else rp

def rootPath (is : List (Input SyncMessage)) : String :=
  match cfg.role with
  | .client => localPath
  | .server =>
    match is.find? fun i => match i with | .go => false | _ => true with
    | some (.message (.index idx)) => servedRootPath localPath idx.remotePath
    | _ => localPath

end

/-- The folder of the server's session is the one at that path. -/
theorem servedRoot_eq (cfg : Config) (localPath : String) (registered : Folder)
    (h : cfg.rootAt localPath = .ok registered) (remotePath : Option String) :
    servedRoot cfg registered remotePath = cfg.rootAt (servedRootPath localPath remotePath) := by
  unfold servedRoot servedRootPath
  cases remotePath with
  | none => exact h.symm
  | some rp =>
    dsimp only
    split
    · exact h.symm
    · rfl

/-! ### What a session does -/

/-- What a step does that the rows are about. -/
inductive Deed
  | wrote (m : SyncMessage)
  /-- A requested file is read, to be sent. -/
  | answered (path : String)
  /-- A file to push cannot be read. -/
  | skipped (path : String)
  /-- A history row. -/
  | history (folderId : FolderId) (path : String)
  /-- `set_folder_last_sync`. -/
  | lastSync (folderId : FolderId)

def deeds (cfg : Config) (p : Party) (i : Input SyncMessage) : List Deed :=
  match p.todo, i with
  | .write m :: _, .go => [.wrote m]
  | .serve path :: _, .go => if readable p.folder path then [.answered path] else []
  | .pushFile path :: _, .go => if readable p.folder path then [] else [.skipped path]
  | .uploaded path _ :: _, .go => [.history cfg.folderId path]
  | .downloaded path _ :: _, .go => [.history cfg.folderId path]
  | [], .failed => match p.phase with
    | .draining => [.lastSync cfg.folderId]
    | _ => []
  | _, _ => []

/-- All that an end does in a session. -/
def sessionDeeds (cfg : Config) (f : Folder) (is : List (Input SyncMessage)) : List Deed :=
  collect (Party.next cfg) (deeds cfg) (start cfg f) is

/-- The end once it has taken all the answers. -/
def sessionEnd (cfg : Config) (f : Folder) (is : List (Input SyncMessage)) : Party :=
  run (Party.next cfg) (start cfg f) is

/-- The size of the file that a message is the last chunk of. -/
def lastChunk : SyncMessage → Option ℕ
  | .fileChunk c => if c.totalSize ≤ c.offset + c.data.length then some c.totalSize else none
  | _ => none

/-- The sizes of the files sent. -/
def sentSizes (ds : List Deed) : List ℕ :=
  ds.filterMap fun
    | .wrote m => lastChunk m
    | _ => none

/-- The sizes of the files received and put in their places. -/
def receivedSizes (p : Party) : List ℕ := p.committed.map fun x => x.2.length

def answeredPaths (ds : List Deed) : List String :=
  ds.filterMap fun
    | .answered path => some path
    | _ => none

def skippedPaths (ds : List Deed) : List String :=
  ds.filterMap fun
    | .skipped path => some path
    | _ => none

/-- The folders that history rows and stamps name. -/
def namedFolders (ds : List Deed) : List FolderId :=
  ds.filterMap fun
    | .history folderId _ => some folderId
    | .lastSync folderId => some folderId
    | _ => none

/-! ### What is left to be counted -/

namespace Action

/-- The size of the file of which it writes the last chunk. -/
@[simp] def sends : Action → Option ℕ
  | .write m => lastChunk m
  | _ => none

/-- The size of the file that it counts as sent. -/
@[simp] def books : Action → Option ℕ
  | .uploaded _ len => some len
  | .served _ len => some len
  | _ => none

@[simp] def booksServed : Action → Bool
  | .served _ _ => true
  | _ => false

@[simp] def pushes : Action → Bool
  | .pushFile _ => true
  | .uploaded _ _ => true
  | _ => false

/-- The size of the file that it puts in its place. -/
@[simp] def places : Action → Option ℕ
  | .install _ _ data => some data.length
  | _ => none

/-- The size of the file that it counts as received. -/
@[simp] def booksReceived : Action → Option ℕ
  | .downloaded _ len => some len
  | _ => none

end Action

/-- What has been counted, and what is left to be, is what has been done. -/
structure Ledger (p : Party) (ds : List Deed) : Prop where
  sent : (sentSizes ds).length + (p.todo.filterMap Action.sends).length =
    p.result.pushed.length + p.servedRequests.length + (p.todo.filterMap Action.books).length
  sentBytes : (sentSizes ds).sum + (p.todo.filterMap Action.sends).sum =
    p.result.pushedBytes + (p.todo.filterMap Action.books).sum
  answered : p.servedRequests.length + p.todo.countP Action.booksServed = (answeredPaths ds).length
  planned : p.result.pushed.length + p.todo.countP Action.pushes + (skippedPaths ds).length = p.toPush.length
  received : p.result.pulled.length + (p.todo.filterMap Action.booksReceived).length =
    (receivedSizes p).length + (p.todo.filterMap Action.places).length
  receivedBytes : p.result.pulledBytes + (p.todo.filterMap Action.booksReceived).sum =
    (receivedSizes p).sum + (p.todo.filterMap Action.places).sum
  fresh : p.phase = .awaitIndex → p.toPush = []
  done : p.stamped = true → p.todo = [] ∧ ∃ r, p.phase = .ended r

section

variable {cfg : Config} {p p' : Party} {ds : List Deed} {i : Input SyncMessage}

@[simp] theorem sentSizes_append (ds es : List Deed) : sentSizes (ds ++ es) = sentSizes ds ++ sentSizes es :=
  List.filterMap_append

@[simp] theorem answeredPaths_append (ds es : List Deed) :
    answeredPaths (ds ++ es) = answeredPaths ds ++ answeredPaths es :=
  List.filterMap_append

@[simp] theorem skippedPaths_append (ds es : List Deed) :
    skippedPaths (ds ++ es) = skippedPaths ds ++ skippedPaths es :=
  List.filterMap_append

/-- Of the chunks of a file the last one counts. -/
theorem lasts_chunksFrom (folderId path : String) (data : Bytes) : ∀ fuel offset,
    data.length - offset < fuel → offset ≤ data.length →
    (chunksFrom folderId path data fuel offset).filterMap (fun c => lastChunk (.fileChunk c)) = [data.length]
  | 0, _, hfuel, _ => absurd hfuel (Nat.not_lt_zero _)
  | fuel + 1, offset, hfuel, hoffset => by
    have hstop : (chunkAt folderId path data offset).offset + (chunkAt folderId path data offset).data.length =
        min (offset + chunkSize) data.length := chunkAt_stop folderId path data hoffset
    have htotal : (chunkAt folderId path data offset).totalSize = data.length := rfl
    have hpos : 0 < chunkSize := by decide
    rw [chunksFrom, List.filterMap_cons]
    simp only [lastChunk, hstop, htotal]
    by_cases hlast : data.length ≤ min (offset + chunkSize) data.length
    · rw [if_pos hlast, if_pos hlast]
      rfl
    · rw [if_neg hlast, if_neg hlast]
      exact lasts_chunksFrom folderId path data fuel _ (by omega) (Nat.min_le_right _ _)

@[simp] theorem chunkActions_sends (path : String) (data : Bytes) :
    (chunkActions cfg path data).filterMap Action.sends = [data.length] := by
  unfold chunkActions
  rw [List.filterMap_map]
  exact lasts_chunksFrom cfg.folderIdStr path data _ 0 (by omega) (Nat.zero_le _)

/-! The chunks of a file count for nothing else. -/

@[simp] theorem chunkActions_books (path : String) (data : Bytes) :
    (chunkActions cfg path data).filterMap Action.books = [] := chunkActions_none fun _ => rfl

@[simp] theorem chunkActions_places (path : String) (data : Bytes) :
    (chunkActions cfg path data).filterMap Action.places = [] := chunkActions_none fun _ => rfl

@[simp] theorem chunkActions_booksReceived (path : String) (data : Bytes) :
    (chunkActions cfg path data).filterMap Action.booksReceived = [] := chunkActions_none fun _ => rfl

theorem chunkActions_count_zero {g : Action → Bool} (h : ∀ m, g (.write m) = false)
    (path : String) (data : Bytes) : (chunkActions cfg path data).countP g = 0 := by
  unfold chunkActions
  rw [List.countP_map, List.countP_eq_zero]
  intro c _
  simp [h]

@[simp] theorem chunkActions_booksServed (path : String) (data : Bytes) :
    (chunkActions cfg path data).countP Action.booksServed = 0 := chunkActions_count_zero (fun _ => rfl) path data

@[simp] theorem chunkActions_pushes (path : String) (data : Bytes) :
    (chunkActions cfg path data).countP Action.pushes = 0 := chunkActions_count_zero (fun _ => rfl) path data

/-- An answer that does not let the end go on changes nothing, or ends the session. -/
theorem act_idle (p q : Party) (a : Action) (hi : i ≠ .go) :
    ((act cfg q a).answer p i).Failed ∨ (act cfg q a).answer p i = p := by
  cases a with
  | write m =>
    cases i with
    | go => exact absurd rfl hi
    | message m => exact Or.inr rfl
    | failed => exact Or.inl (.intro q _)
  | pushFile path | serve path =>
    simp only [act]
    cases safeJoin path with
    | error e => cases i <;> first | exact absurd rfl hi | exact Or.inr rfl
    | ok t =>
      dsimp only
      cases q.folder.read t <;> cases i <;> first | exact absurd rfl hi | exact Or.inr rfl
  | install path t data =>
    simp only [act]
    rcases FerriSync.install t data (cfg.mtime q.tick) q.folder with ⟨e | u, g⟩ <;>
      cases i <;> first | exact absurd rfl hi | exact Or.inr rfl
  | _ => cases i <;> first | exact absurd rfl hi | exact Or.inr rfl

theorem step_todo_idle {a : Action} {rest : List Action} (ht : p.todo = a :: rest) (hi : i ≠ .go) :
    ((step (Party.next cfg) p i).Failed ∨ step (Party.next cfg) p i = p) ∧ deeds cfg p i = [] := by
  constructor
  · have hstep : step (Party.next cfg) p i = (act cfg { p with todo := rest } a).answer p i := by
      unfold Machine.step Party.next
      rw [ht]
    rw [hstep]
    exact act_idle p _ a hi
  · unfold deeds
    rw [ht]
    cases i with
    | go => exact absurd rfl hi
    | message m => cases a <;> rfl
    | failed => cases a <;> rfl

/-- Nothing is counted for the thing. -/
structure Action.Uncounted (a : Action) : Prop where
  sends : a.sends = none
  books : a.books = none
  booksServed : a.booksServed = false
  pushes : a.pushes = false
  places : a.places = none
  booksReceived : a.booksReceived = none

theorem Ledger.uncounted {a : Action} {rest : List Action} (h : Ledger p ds) (ht : p.todo = a :: rest)
    (ha : a.Uncounted) (hstamped : p.stamped = false) : Ledger { p with todo := rest } ds := by
  have hsent := h.sent
  have hsentBytes := h.sentBytes
  have hanswered := h.answered
  have hplanned := h.planned
  have hreceived := h.received
  have hreceivedBytes := h.receivedBytes
  rw [ht] at hsent hsentBytes hanswered hplanned hreceived hreceivedBytes
  simp only [List.filterMap_cons, ha.sends, ha.books] at hsent hsentBytes
  simp only [List.filterMap_cons, ha.places, ha.booksReceived] at hreceived hreceivedBytes
  simp only [List.countP_cons, ha.booksServed, ha.pushes, Bool.false_eq_true, if_false, Nat.add_zero]
    at hanswered hplanned
  refine ⟨hsent, hsentBytes, hanswered, hplanned, hreceived, hreceivedBytes, h.fresh, fun hs => ?_⟩
  rw [hstamped] at hs
  cases hs

/-- Doing one thing. -/
theorem ledger_act {a : Action} {rest : List Action} (h : Ledger p ds) (ht : p.todo = a :: rest) :
    (step (Party.next cfg) p i).Failed ∨ Ledger (step (Party.next cfg) p i) (ds ++ deeds cfg p i) := by
  by_cases hi : i = .go
  · subst hi
    have hstamped : p.stamped = false := by
      rw [← Bool.not_eq_true]
      intro hs
      have hnil := (h.done hs).1
      rw [ht] at hnil
      cases hnil
    have hsent := h.sent
    have hsentBytes := h.sentBytes
    have hanswered := h.answered
    have hplanned := h.planned
    have hreceived := h.received
    have hreceivedBytes := h.receivedBytes
    have hfresh := h.fresh
    rw [ht] at hsent hsentBytes hanswered hplanned hreceived hreceivedBytes
    have hnot : ∀ {P : Prop}, p.stamped = true → P := fun hs => absurd (hs.symm.trans hstamped) (by decide)
    unfold Machine.step Party.next deeds
    rw [ht]
    dsimp only
    cases a with
    | write m =>
      simp only [act, Move.answer]
      refine Or.inr ⟨?_, ?_, ?_, ?_, hreceived, hreceivedBytes, hfresh, hnot⟩
      · cases hm : lastChunk m <;> simp [sentSizes, List.filterMap_cons, hm] at hsent ⊢ <;> omega
      · cases hm : lastChunk m <;> simp [sentSizes, List.filterMap_cons, hm] at hsentBytes ⊢ <;> omega
      · simpa [answeredPaths, List.countP_cons] using hanswered
      · simpa [skippedPaths, List.countP_cons] using hplanned
    | pushFile path =>
      cases hj : safeJoin path with
      | error e =>
        simp only [act, hj]
        exact Or.inl (.intro _ e)
      | ok t =>
        refine Or.inr ?_
        cases hr : p.folder.read t with
        | error e =>
          have hbad : readable p.folder path = false := by simp [readable, hj, hr]
          simp only [act, hj, hr, Move.answer, hbad]
          refine ⟨?_, ?_, ?_, ?_, hreceived, hreceivedBytes, hfresh, hnot⟩
          · simpa [sentSizes, List.filterMap_cons] using hsent
          · simpa [sentSizes, List.filterMap_cons] using hsentBytes
          · simpa [answeredPaths, List.countP_cons] using hanswered
          · simp [skippedPaths, List.countP_cons] at hplanned ⊢
            omega
        | ok data =>
          have hgood : readable p.folder path = true := by simp [readable, hj, hr]
          simp only [act, hj, hr, Move.answer, hgood]
          refine ⟨?_, ?_, ?_, ?_, ?_, ?_, hfresh, hnot⟩
          · simp [List.filterMap_cons] at hsent ⊢
            omega
          · simp [List.filterMap_cons] at hsentBytes ⊢
            omega
          · simpa [List.countP_cons] using hanswered
          · simpa [List.countP_cons] using hplanned
          · simpa [List.filterMap_cons, receivedSizes] using hreceived
          · simpa [List.filterMap_cons, receivedSizes] using hreceivedBytes
    | uploaded path len =>
      simp only [act, Move.answer]
      refine Or.inr ⟨?_, ?_, ?_, ?_, hreceived, hreceivedBytes, hfresh, hnot⟩
      · simp [sentSizes, List.filterMap_cons] at hsent ⊢
        omega
      · simp [sentSizes, List.filterMap_cons] at hsentBytes ⊢
        omega
      · simpa [answeredPaths, List.countP_cons] using hanswered
      · simp [skippedPaths, List.countP_cons] at hplanned ⊢
        omega
    | install path t data =>
      simp only [act]
      rcases FerriSync.install t data (cfg.mtime p.tick) p.folder with ⟨e | u, g⟩
      · exact Or.inl (.intro _ e)
      · simp only [Move.answer]
        refine Or.inr ⟨?_, ?_, ?_, ?_, ?_, ?_, hfresh, hnot⟩
        · simpa [sentSizes, List.filterMap_cons] using hsent
        · simpa [sentSizes, List.filterMap_cons] using hsentBytes
        · simpa [answeredPaths, List.countP_cons] using hanswered
        · simpa [skippedPaths, List.countP_cons] using hplanned
        · simp [receivedSizes, List.filterMap_cons] at hreceived ⊢
          omega
        · simp [receivedSizes, List.filterMap_cons] at hreceivedBytes ⊢
          omega
    | downloaded path len =>
      simp only [act, Move.answer]
      refine Or.inr ⟨?_, ?_, ?_, ?_, ?_, ?_, hfresh, hnot⟩
      · simpa [sentSizes, List.filterMap_cons] using hsent
      · simpa [sentSizes, List.filterMap_cons] using hsentBytes
      · simpa [answeredPaths, List.countP_cons] using hanswered
      · simpa [skippedPaths, List.countP_cons] using hplanned
      · simp [receivedSizes, List.filterMap_cons] at hreceived ⊢
        omega
      · simp [receivedSizes, List.filterMap_cons] at hreceivedBytes ⊢
        omega
    | serve path =>
      cases hj : safeJoin path with
      | error e =>
        simp only [act, hj]
        exact Or.inl (.intro _ e)
      | ok t =>
        refine Or.inr ?_
        cases hr : p.folder.read t with
        | error e =>
          have hbad : readable p.folder path = false := by simp [readable, hj, hr]
          simp only [act, hj, hr, Move.answer, hbad, Bool.false_eq_true, if_false, List.append_nil]
          exact h.uncounted ht ⟨rfl, rfl, rfl, rfl, rfl, rfl⟩ hstamped
        | ok data =>
          have hgood : readable p.folder path = true := by simp [readable, hj, hr]
          simp only [act, hj, hr, Move.answer, hgood]
          refine ⟨?_, ?_, ?_, ?_, ?_, ?_, hfresh, hnot⟩
          · simp [sentSizes, List.filterMap_cons] at hsent ⊢
            omega
          · simp [sentSizes, List.filterMap_cons] at hsentBytes ⊢
            omega
          · simp [answeredPaths, List.countP_cons] at hanswered ⊢
            omega
          · simpa [skippedPaths, List.countP_cons] using hplanned
          · simpa [List.filterMap_cons, receivedSizes] using hreceived
          · simpa [List.filterMap_cons, receivedSizes] using hreceivedBytes
    | served path len =>
      simp only [act, Move.answer]
      refine Or.inr ⟨?_, ?_, ?_, ?_, hreceived, hreceivedBytes, hfresh, hnot⟩
      · simp [sentSizes, List.filterMap_cons] at hsent ⊢
        omega
      · simp [sentSizes, List.filterMap_cons] at hsentBytes ⊢
        omega
      · simp [answeredPaths, List.countP_cons] at hanswered ⊢
        omega
      · simpa [skippedPaths, List.countP_cons] using hplanned
    | progress stage | filePushed path | conflict path | filePulled path =>
      have hrest := h.uncounted ht ⟨rfl, rfl, rfl, rfl, rfl, rfl⟩ hstamped
      simp only [act, Move.answer, List.append_nil]
      exact Or.inr ⟨hrest.sent, hrest.sentBytes, hrest.answered, hrest.planned, hrest.received,
        hrest.receivedBytes, hfresh, hnot⟩
    | finishDry =>
      have hrest := h.uncounted ht ⟨rfl, rfl, rfl, rfl, rfl, rfl⟩ hstamped
      simp only [act, Move.answer, List.append_nil]
      exact Or.inr ⟨hrest.sent, hrest.sentBytes, hrest.answered, hrest.planned, hrest.received,
        hrest.receivedBytes, fun hphase => (by cases hphase), hnot⟩
  · have hquiet : ((step (Party.next cfg) p i).Failed ∨ step (Party.next cfg) p i = p) ∧
        deeds cfg p i = [] := step_todo_idle ht hi
    obtain ⟨hidle, hnone⟩ := hquiet
    rw [hnone, List.append_nil]
    rcases hidle with hfailed | hsame
    · exact Or.inl hfailed
    · rw [hsame]
      exact Or.inr h

/-- With nothing to do, no row is about what a step does but the stamp. -/
theorem Ledger.deeds_nil (h : Ledger p' ds) (ht : p.todo = []) : Ledger p' (ds ++ deeds cfg p i) := by
  have hnone : sentSizes (deeds cfg p i) = [] ∧ answeredPaths (deeds cfg p i) = [] ∧
      skippedPaths (deeds cfg p i) = [] := by
    unfold deeds
    rw [ht]
    cases i with
    | go => exact ⟨rfl, rfl, rfl⟩
    | message m => exact ⟨rfl, rfl, rfl⟩
    | failed => cases p.phase <;> exact ⟨rfl, rfl, rfl⟩
  have hsent : sentSizes (ds ++ deeds cfg p i) = sentSizes ds := by
    rw [sentSizes_append, hnone.1, List.append_nil]
  have hanswers : answeredPaths (ds ++ deeds cfg p i) = answeredPaths ds := by
    rw [answeredPaths_append, hnone.2.1, List.append_nil]
  have hskips : skippedPaths (ds ++ deeds cfg p i) = skippedPaths ds := by
    rw [skippedPaths_append, hnone.2.2, List.append_nil]
  refine ⟨?_, ?_, ?_, ?_, h.received, h.receivedBytes, h.fresh, h.done⟩
  · rw [hsent]
    exact h.sent
  · rw [hsent]
    exact h.sentBytes
  · rw [hanswers]
    exact h.answered
  · rw [hskips]
    exact h.planned

/-- Things to do for which nothing is counted. -/
theorem Ledger.todo {todo : List Action} (h : Ledger p ds) (ht : p.todo = []) (hstamped : p.stamped = false)
    (htodo : ∀ a ∈ todo, a.Uncounted) : Ledger { p with todo := todo } ds := by
  have hnone : ∀ {β : Type} (g : Action → Option β), (∀ a : Action, a.Uncounted → g a = none) →
      todo.filterMap g = [] := fun g hg => List.filterMap_eq_nil_iff.mpr fun a ha => hg a (htodo a ha)
  have hzero : ∀ g : Action → Bool, (∀ a : Action, a.Uncounted → g a = false) → todo.countP g = 0 := by
    intro g hg
    rw [List.countP_eq_zero]
    intro a ha
    rw [hg a (htodo a ha)]
    decide
  have hsent := h.sent
  have hsentBytes := h.sentBytes
  have hanswered := h.answered
  have hplanned := h.planned
  have hreceived := h.received
  have hreceivedBytes := h.receivedBytes
  rw [ht] at hsent hsentBytes hanswered hplanned hreceived hreceivedBytes
  refine ⟨?_, ?_, ?_, ?_, ?_, ?_, h.fresh, fun hs => absurd (hs.symm.trans hstamped) (by decide)⟩
  · rw [hnone _ fun _ ha => ha.sends, hnone _ fun _ ha => ha.books]
    exact hsent
  · rw [hnone _ fun _ ha => ha.sends, hnone _ fun _ ha => ha.books]
    exact hsentBytes
  · rw [hzero _ fun _ ha => ha.booksServed]
    exact hanswered
  · rw [hzero _ fun _ ha => ha.pushes]
    exact hplanned
  · rw [hnone _ fun _ ha => ha.places, hnone _ fun _ ha => ha.booksReceived]
    exact hreceived
  · rw [hnone _ fun _ ha => ha.places, hnone _ fun _ ha => ha.booksReceived]
    exact hreceivedBytes

/-- A file that is complete is put in its place and counted. -/
theorem Ledger.commit (h : Ledger p ds) (ht : p.todo = []) (hstamped : p.stamped = false)
    (path : String) (t : Target) (data : Bytes) (conflicted : Bool) : Ledger { p with
      todo := (if conflicted then [.conflict path] else []) ++ commitActions cfg path t data } ds := by
  have hsent := h.sent
  have hsentBytes := h.sentBytes
  have hanswered := h.answered
  have hplanned := h.planned
  have hreceived := h.received
  have hreceivedBytes := h.receivedBytes
  rw [ht] at hsent hsentBytes hanswered hplanned hreceived hreceivedBytes
  have hcommit : ∀ {β : Type} (g : Action → Option β), g (.conflict path) = none →
      ((if conflicted then [Action.conflict path] else []) ++ commitActions cfg path t data).filterMap g =
        (commitActions cfg path t data).filterMap g := by
    intro β g hg
    cases conflicted <;> simp [hg]
  have hcount : ∀ g : Action → Bool, g (.conflict path) = false →
      ((if conflicted then [Action.conflict path] else []) ++ commitActions cfg path t data).countP g =
        (commitActions cfg path t data).countP g := by
    intro g hg
    cases conflicted <;> simp [hg]
  have hactions : (commitActions cfg path t data).filterMap Action.sends = [] ∧
      (commitActions cfg path t data).filterMap Action.books = [] ∧
      (commitActions cfg path t data).countP Action.booksServed = 0 ∧
      (commitActions cfg path t data).countP Action.pushes = 0 ∧
      (commitActions cfg path t data).filterMap Action.places = [data.length] ∧
      (commitActions cfg path t data).filterMap Action.booksReceived = [data.length] := by
    unfold commitActions
    cases cfg.role <;> exact ⟨rfl, rfl, rfl, rfl, rfl, rfl⟩
  obtain ⟨hsends, hbooks, hserved, hpushes, hplaces, hbooksReceived⟩ := hactions
  refine ⟨?_, ?_, ?_, ?_, ?_, ?_, h.fresh, fun hs => absurd (hs.symm.trans hstamped) (by decide)⟩
  · rw [hcommit _ rfl, hcommit _ rfl, hsends, hbooks]
    exact hsent
  · rw [hcommit _ rfl, hcommit _ rfl, hsends, hbooks]
    exact hsentBytes
  · rw [hcount _ rfl, hserved]
    exact hanswered
  · rw [hcount _ rfl, hpushes]
    exact hplanned
  · rw [hcommit _ rfl, hcommit _ rfl, hplaces, hbooksReceived]
    exact congrArg (· + 1) hreceived
  · rw [hcommit _ rfl, hcommit _ rfl, hplaces, hbooksReceived]
    exact congrArg (· + data.length) hreceivedBytes

/-- The files of a plan are still to be pushed. -/
theorem Ledger.plan {todo : List Action} {entries : List IndexEntry} (h : Ledger p ds) (ht : p.todo = [])
    (hphase : p.phase = .awaitIndex) (hstamped : p.stamped = false) (htodo : ∀ a ∈ todo, a.Uncounted)
    (own remote toPull : List IndexEntry) (folder : Folder) (totalFiles totalBytes : ℕ) : Ledger { p with
      folder := folder, own := own, remote := remote, toPush := entries, toPull := toPull
      totalFiles := totalFiles, totalBytes := totalBytes
      todo := todo ++ (entries.map (fun e => .pushFile e.path) ++ [.write sentinel])
      phase := .receiving } ds := by
  have hempty : p.toPush = [] := h.fresh hphase
  have hplanned := h.planned
  rw [ht, hempty] at hplanned
  have hpushed : p.result.pushed.length + (skippedPaths ds).length = 0 := by simpa using hplanned
  have hq : Ledger { p with todo := todo } ds := h.todo ht hstamped htodo
  have hsent := hq.sent
  have hsentBytes := hq.sentBytes
  have hanswered := hq.answered
  have hreceived := hq.received
  have hreceivedBytes := hq.receivedBytes
  have hnone : ∀ {β : Type} (g : Action → Option β), (∀ path, g (.pushFile path) = none) →
      g (.write sentinel) = none →
      (todo ++ (entries.map (fun e : IndexEntry => Action.pushFile e.path) ++ [Action.write sentinel])).filterMap g =
        todo.filterMap g := by
    intro β g hpush hwrite
    have hfiles : (entries.map fun e => Action.pushFile e.path).filterMap g = [] := by
      rw [List.filterMap_map]
      exact List.filterMap_eq_nil_iff.mpr fun e _ => hpush e.path
    rw [List.filterMap_append, List.filterMap_append, hfiles, List.filterMap_cons, hwrite]
    exact List.append_nil _
  have hcount : ∀ g : Action → Bool, (todo ++ (entries.map (fun e : IndexEntry => Action.pushFile e.path) ++
      [Action.write sentinel])).countP g = todo.countP g + ((entries.countP fun e => g (Action.pushFile e.path)) +
        [Action.write sentinel].countP g) := by
    intro g
    rw [List.countP_append, List.countP_append, List.countP_map]
    rfl
  have hserved : (entries.countP fun e => (Action.pushFile e.path).booksServed) = 0 := by
    rw [List.countP_eq_zero]
    exact fun _ _ => nofun
  have hpushes : (entries.countP fun e => (Action.pushFile e.path).pushes) = entries.length :=
    List.countP_eq_length.mpr fun _ _ => rfl
  have htodoPushes : todo.countP Action.pushes = 0 := by
    rw [List.countP_eq_zero]
    intro a ha
    rw [(htodo a ha).pushes]
    decide
  refine ⟨?_, ?_, ?_, ?_, ?_, ?_, nofun, fun hs => absurd (hs.symm.trans hstamped) (by decide)⟩
  · rw [hnone Action.sends (fun _ => rfl) rfl, hnone Action.books (fun _ => rfl) rfl]
    exact hsent
  · rw [hnone Action.sends (fun _ => rfl) rfl, hnone Action.books (fun _ => rfl) rfl]
    exact hsentBytes
  · rw [hcount, hserved]
    exact hanswered
  · rw [hcount, hpushes, htodoPushes]
    simp
    omega
  · rw [hnone Action.places (fun _ => rfl) rfl, hnone Action.booksReceived (fun _ => rfl) rfl]
    exact hreceived
  · rw [hnone Action.places (fun _ => rfl) rfl, hnone Action.booksReceived (fun _ => rfl) rfl]
    exact hreceivedBytes

theorem uncounted_write {m : SyncMessage} (h : lastChunk m = none) : (Action.write m).Uncounted :=
  ⟨h, rfl, rfl, rfl, rfl, rfl⟩

theorem bottom_ne_awaitIndex (cfg : Config) : bottom cfg ≠ .awaitIndex := by
  unfold bottom
  cases cfg.role <;> exact nofun

/-- Reading a chunk. -/
theorem ledger_chunk {c : FileChunk} (h : Ledger p ds) (ht : p.todo = []) (hstamped : p.stamped = false)
    (hc : ChunkEffect cfg p c p') : p'.Failed ∨ Ledger p' ds := by
  have hmoves : ∀ (inbox : Inbox) (folder : Folder) {phase : Phase}, phase ≠ .awaitIndex →
      Ledger { p with inbox := inbox, folder := folder, phase := phase } ds := fun inbox folder _ hloops =>
    ⟨h.sent, h.sentBytes, h.answered, h.planned, h.received, h.receivedBytes,
      fun hawait => absurd hawait hloops, fun hs => absurd (hs.symm.trans hstamped) (by decide)⟩
  cases hc with
  | refused e => exact Or.inl (.intro p e)
  | unsafePath e => exact Or.inl (.intro _ e)
  | prepareFailed _ _ _ _ _ => exact Or.inl (.intro _ _)
  | metadata => exact Or.inr (hmoves p.inbox p.folder nofun)
  | more => exact Or.inr (hmoves _ p.folder (bottom_ne_awaitIndex cfg))
  | @mismatch inbox data _ _ =>
    have hq : Ledger { p with inbox := inbox, phase := .receiving } ds := hmoves inbox p.folder nofun
    refine Or.inr (hq.todo ht hstamped fun a ha => ?_)
    rw [List.mem_singleton.mp ha]
    exact uncounted_write rfl
  | @prepared inbox data t conflicted g _ _ _ _ _ =>
    have hq : Ledger { p with inbox := inbox, folder := g, phase := bottom cfg } ds :=
      hmoves inbox g (bottom_ne_awaitIndex cfg)
    exact Or.inr (hq.commit ht hstamped c.path t data conflicted)

/-- Reading the index. -/
theorem ledger_index {m : SyncMessage} (hwet : cfg.role = .client → cfg.dryRun = false) (h : Ledger p ds)
    (ht : p.todo = []) (hphase : p.phase = .awaitIndex) (hstamped : p.stamped = false) :
    (onIndex cfg p m).Failed ∨ Ledger (onIndex cfg p m) ds := by
  unfold onIndex
  cases hrole : cfg.role with
  | client =>
    cases m with
    | index idx =>
      simp only [clientIndex]
      split
      · exact Or.inl (.intro p _)
      · rw [hwet hrole, if_neg (by decide)]
        refine Or.inr ?_
        have hprogress : ∀ a ∈ [Action.progress "starting"], a.Uncounted := by
          intro a ha
          rw [List.mem_singleton.mp ha]
          exact ⟨rfl, rfl, rfl, rfl, rfl, rfl⟩
        exact h.plan ht hphase hstamped hprogress _ _ _ _ _ _
    | _ => exact Or.inl (.intro p _)
  | server =>
    cases m with
    | index idx =>
      simp only [serverIndex]
      split
      · exact Or.inl (.intro p _)
      · cases servedRoot cfg p.folder idx.remotePath with
        | error e => exact Or.inl (.intro p e)
        | ok root =>
          refine Or.inr ?_
          have hfirst : ∀ own : Index, ∀ a ∈ [Action.write (.index own), .progress "starting"], a.Uncounted := by
            intro own a ha
            rcases List.mem_cons.mp ha with rfl | ha
            · exact uncounted_write rfl
            · rw [List.mem_singleton.mp ha]
              exact ⟨rfl, rfl, rfl, rfl, rfl, rfl⟩
          exact h.plan ht hphase hstamped (hfirst _) _ _ _ _ _ _
    | _ => exact Or.inl (.intro p _)

/-- **A step keeps the ledger**, unless the session fails. -/
theorem ledger_step (hwet : cfg.role = .client → cfg.dryRun = false) (h : Ledger p ds) :
    (step (Party.next cfg) p i).Failed ∨ Ledger (step (Party.next cfg) p i) (ds ++ deeds cfg p i) := by
  cases htodo : p.todo with
  | cons a rest => exact ledger_act h htodo
  | nil =>
    suffices hkeeps : (step (Party.next cfg) p i).Failed ∨ Ledger (step (Party.next cfg) p i) ds from
      hkeeps.imp_right fun hledger => hledger.deeds_nil htodo
    have hstamped : ∀ {phase : Phase}, p.phase = phase → (∀ r, phase ≠ .ended r) → p.stamped = false := by
      intro phase hphase hne
      rw [← Bool.not_eq_true]
      intro hs
      obtain ⟨r, hended⟩ := (h.done hs).2
      exact hne r (hphase.symm.trans hended)
    have hmoves : ∀ {phase phase' : Phase}, p.phase = phase → (∀ r, phase ≠ .ended r) →
        phase' ≠ .awaitIndex → Ledger { p with phase := phase' } ds := by
      intro phase phase' hphase hne hloops
      exact ⟨h.sent, h.sentBytes, h.answered, h.planned, h.received, h.receivedBytes,
        fun hawait => absurd hawait hloops,
        fun hs => absurd (hs.symm.trans (hstamped hphase hne)) (by decide)⟩
    have he := step_effect cfg p i
    generalize step (Party.next cfg) p i = p' at he
    cases he with
    | idle => exact Or.inr h
    | act ht => rw [htodo] at ht; cases ht
    | noIndex e => exact Or.inl (.intro p e)
    | index m _ hphase => exact ledger_index hwet h htodo hphase (hstamped hphase nofun)
    | complete _ _ hphase => exact Or.inr (hmoves hphase nofun nofun)
    | broken _ _ hphase => exact Or.inr (hmoves hphase nofun nofun)
    | check _ _ hphase =>
      refine Or.inr (hmoves hphase nofun ?_)
      split <;> exact nofun
    | stopped =>
      exact Or.inr ⟨h.sent, h.sentBytes, h.answered, h.planned, h.received, h.receivedBytes, nofun,
        fun _ => ⟨htodo, _, rfl⟩⟩
    | message _ hphase _ hm =>
      cases hm with
      | chunk hc => exact ledger_chunk h htodo (hstamped hphase nofun) hc
      | ack | ignored =>
        exact Or.inr ⟨h.sent, h.sentBytes, h.answered, h.planned, h.received, h.receivedBytes, h.fresh, h.done⟩
      | eof | unused | tooMany =>
        have hq : Ledger { p with phase := .receiving } ds := hmoves hphase nofun nofun
        exact Or.inr ⟨hq.sent, hq.sentBytes, hq.answered, hq.planned, hq.received, hq.receivedBytes, nofun,
          fun hs => absurd (hs.symm.trans (hstamped hphase nofun)) (by decide)⟩
      | request r paths =>
        have hq : Ledger { p with phase := bottom cfg } ds := hmoves hphase nofun (bottom_ne_awaitIndex cfg)
        refine Or.inr (hq.todo htodo (hstamped hphase nofun) fun a ha => ?_)
        obtain ⟨path, _, rfl⟩ := List.mem_map.mp ha
        exact ⟨rfl, rfl, rfl, rfl, rfl, rfl⟩

/-! ### Whole sessions -/

variable {f : Folder} {is : List (Input SyncMessage)}

theorem ledger_start (cfg : Config) (f : Folder) : Ledger (start cfg f) [] := by
  unfold start
  cases cfg.role with
  | client => exact ⟨rfl, rfl, rfl, rfl, rfl, rfl, fun _ => rfl, nofun⟩
  | server => exact ⟨rfl, rfl, rfl, rfl, rfl, rfl, fun _ => rfl, nofun⟩

/-- **A session keeps the ledger**, whatever it reads, unless it fails. -/
theorem ledger_run (hwet : cfg.role = .client → cfg.dryRun = false) (f : Folder) (is : List (Input SyncMessage)) :
    (sessionEnd cfg f is).Failed ∨ Ledger (sessionEnd cfg f is) (sessionDeeds cfg f is) := by
  have hstep : ∀ (p : Party) (i : Input SyncMessage) (ds : List Deed), p.Failed ∨ Ledger p ds →
      (step (Party.next cfg) p i).Failed ∨ Ledger (step (Party.next cfg) p i) (ds ++ deeds cfg p i) := by
    intro p i ds h
    rcases h with hfailed | hledger
    · exact Or.inl (hfailed.step i)
    · exact ledger_step hwet hledger
  exact @collect_inv _ _ _ _ _ _ (fun p ds => p.Failed ∨ Ledger p ds) hstep is _ [] (Or.inr (ledger_start cfg f))

/-- A dry client has not stamped its folder, and never reads on. -/
def DryUnstamped (p : Party) : Prop :=
  p.stamped = false ∧ (p.phase = .awaitIndex ∨ ∃ r, p.phase = .ended r)

theorem dryUnstamped_step (hrole : cfg.role = .client) (hdry : cfg.dryRun = true) (h : DryUnstamped p)
    (i : Input SyncMessage) : DryUnstamped (step (Party.next cfg) p i) := by
  have hphase : ∀ {ph : Phase}, p.phase = ph → ph = .awaitIndex ∨ ∃ r, ph = .ended r := fun hp => hp ▸ h.2
  have hfail : ∀ e, DryUnstamped (p.fail e) := fun _ => ⟨h.1, Or.inr ⟨_, rfl⟩⟩
  have he := step_effect cfg p i
  generalize step (Party.next cfg) p i = p' at he
  cases he with
  | idle => exact h
  | act _ ha =>
    cases ha with
    | failed | installFailed | finishDry => exact ⟨h.1, Or.inr ⟨_, rfl⟩⟩
    | _ => exact h
  | noIndex e => exact hfail e
  | index m _ hph =>
    unfold onIndex
    rw [hrole]
    cases m with
    | index idx =>
      unfold clientIndex
      dsimp only
      split_ifs
      · exact hfail _
      · exact h
    | _ => exact hfail _
  | complete _ _ hph => exact absurd (hphase hph) (by simp)
  | broken _ _ hph => exact absurd (hphase hph) (by simp)
  | message _ hph => exact absurd (hphase hph) (by simp)
  | check _ _ hph => exact absurd (hphase hph) (by simp)
  | stopped _ _ hph => exact absurd (hphase hph) (by simp)

/-- The end has come to its end and recorded the session. -/
def Recorded (p : Party) : Prop := p.phase = .ended (.ok ()) ∧ p.stamped = true

/-- What a session has counted once it is recorded. -/
structure Settled (p : Party) (ds : List Deed) : Prop where
  sent : (sentSizes ds).length = p.result.pushed.length + p.servedRequests.length
  sentBytes : (sentSizes ds).sum = p.result.pushedBytes
  answered : p.servedRequests.length = (answeredPaths ds).length
  planned : p.result.pushed.length + (skippedPaths ds).length = p.toPush.length
  received : p.result.pulled.length = (receivedSizes p).length
  receivedBytes : p.result.pulledBytes = (receivedSizes p).sum

theorem Ledger.settled (h : Ledger p ds) (ht : p.todo = []) : Settled p ds := by
  have hsent := h.sent
  have hsentBytes := h.sentBytes
  have hanswered := h.answered
  have hplanned := h.planned
  have hreceived := h.received
  have hreceivedBytes := h.receivedBytes
  rw [ht] at hsent hsentBytes hanswered hplanned hreceived hreceivedBytes
  exact ⟨hsent, hsentBytes, hanswered, hplanned, hreceived, hreceivedBytes⟩

theorem settled_of_recorded (cfg : Config) (f : Folder) (is : List (Input SyncMessage))
    (h : Recorded (sessionEnd cfg f is)) : Settled (sessionEnd cfg f is) (sessionDeeds cfg f is) := by
  by_cases hwet : cfg.role = .client → cfg.dryRun = false
  · rcases ledger_run hwet f is with hfailed | hledger
    · obtain ⟨_, e, hended⟩ := hfailed
      rw [h.1] at hended
      cases hended
    · exact hledger.settled (hledger.done h.2).1
  · obtain ⟨hrole, hdry⟩ := Classical.not_imp.mp hwet
    rw [Bool.not_eq_false] at hdry
    have hstart : DryUnstamped (start cfg f) := by
      unfold start
      rw [hrole]
      exact ⟨rfl, Or.inl rfl⟩
    have hrun : DryUnstamped (sessionEnd cfg f is) :=
      @run_inv _ _ _ _ DryUnstamped (fun _ => True) (fun p i hp _ => dryUnstamped_step hrole hdry hp i) _ _
        hstart fun _ _ => trivial
    exact absurd (h.2.symm.trans hrun.1) (by decide)

theorem namedFolders_deeds : namedFolders (deeds cfg p i) ⊆ [cfg.folderId] := by
  unfold deeds
  split <;> try split
  all_goals simp [namedFolders]

/-- All rows and stamps name the folder of the session. -/
theorem namedFolders_eq (cfg : Config) : ∀ (is : List (Input SyncMessage)) (p : Party),
    ∀ folderId ∈ namedFolders (collect (Party.next cfg) (deeds cfg) p is), folderId = cfg.folderId
  | [], _, _, h => absurd h List.not_mem_nil
  | i :: is, p, folderId, h => by
    rw [collect, namedFolders, List.filterMap_append, List.mem_append] at h
    rcases h with h | h
    · exact List.mem_singleton.mp (namedFolders_deeds h)
    · exact namedFolders_eq cfg is _ folderId h

end

/-! ### Right rows -/

section

variable {β : Type} (cfg : Config) (locate : String → β) (registered : FolderId → String) (addr : String)
  (f : Folder) (is : List (Input SyncMessage))

/-- The row of the session has the files sent and received, and names the folder that was
read and changed; `locate` finds the folder at a path. -/
structure RowRight : Prop where
  pushedCount : (sessionRecord cfg (registered cfg.folderId) addr (sessionEnd cfg f is)).pushedCount =
    (sentSizes (sessionDeeds cfg f is)).length
  pushedBytes : (sessionRecord cfg (registered cfg.folderId) addr (sessionEnd cfg f is)).pushedBytes =
    (sentSizes (sessionDeeds cfg f is)).sum
  pulledCount : (sessionRecord cfg (registered cfg.folderId) addr (sessionEnd cfg f is)).pulledCount =
    (receivedSizes (sessionEnd cfg f is)).length
  pulledBytes : (sessionRecord cfg (registered cfg.folderId) addr (sessionEnd cfg f is)).pulledBytes =
    (receivedSizes (sessionEnd cfg f is)).sum
  folderPath : locate (sessionRecord cfg (registered cfg.folderId) addr (sessionEnd cfg f is)).folderPath =
    locate (rootPath cfg (registered cfg.folderId) is)

/-- The row of the session is right if there is one; and so are all history rows and stamps,
also those of a session that fails. -/
structure RowsRight : Prop where
  session : Recorded (sessionEnd cfg f is) → RowRight cfg locate registered addr f is
  folders : ∀ folderId ∈ namedFolders (sessionDeeds cfg f is),
    locate (registered folderId) = locate (rootPath cfg (registered cfg.folderId) is)

/-- A client sends no file on request. A server receives as many files as it sends, and can
read each file that it has planned to send. -/
def SameCounts : Prop :=
  match cfg.role with
  | .client => answeredPaths (sessionDeeds cfg f is) = []
  | .server => (receivedSizes (sessionEnd cfg f is)).length = (sentSizes (sessionDeeds cfg f is)).length ∧
      skippedPaths (sessionDeeds cfg f is) = []

/-- The counts are the same where the session is recorded; a server that is recorded, or
writes a history row or a stamp, serves the folder that is registered. -/
structure CountedRight : Prop where
  counts : Recorded (sessionEnd cfg f is) → SameCounts cfg f is
  folder : cfg.role = .server → Recorded (sessionEnd cfg f is) ∨ namedFolders (sessionDeeds cfg f is) ≠ [] →
    locate (registered cfg.folderId) = locate (rootPath cfg (registered cfg.folderId) is)

end

section

variable {β : Type} {cfg : Config} {locate : String → β} {registered : FolderId → String} {addr : String}
  {f : Folder} {is : List (Input SyncMessage)}

theorem sessionRecord_client (hrole : cfg.role = .client) (localPath : String) (p : Party) :
    sessionRecord cfg localPath addr p = clientRecord cfg localPath addr p := by
  unfold sessionRecord
  rw [hrole]

theorem sessionRecord_server (hrole : cfg.role = .server) (localPath : String) (p : Party) :
    sessionRecord cfg localPath addr p = serverRecord localPath addr p := by
  unfold sessionRecord
  rw [hrole]

/-- A client reads and changes the folder that is registered. -/
theorem rootPath_client (hrole : cfg.role = .client) (localPath : String) :
    rootPath cfg localPath is = localPath := by
  unfold rootPath
  rw [hrole]

/-- The row names the registered folder, for either role. -/
theorem sessionRecord_folderPath (localPath : String) (p : Party) :
    (sessionRecord cfg localPath addr p).folderPath = localPath := by
  unfold sessionRecord
  cases cfg.role <;> rfl

/-- **The row of a client** is right if it has sent nothing on request. -/
theorem client_row_iff (hrole : cfg.role = .client) (hrecorded : Recorded (sessionEnd cfg f is)) :
    RowRight cfg locate registered addr f is ↔ answeredPaths (sessionDeeds cfg f is) = [] := by
  have hsettled := settled_of_recorded cfg f is hrecorded
  have hsent := hsettled.sent
  have hanswered := hsettled.answered
  have hrow := @sessionRecord_client cfg addr hrole (registered cfg.folderId) (sessionEnd cfg f is)
  constructor
  · intro h
    have hcount : (sessionEnd cfg f is).result.pushed.length = (sentSizes (sessionDeeds cfg f is)).length := by
      have hpushed := h.pushedCount
      rwa [hrow] at hpushed
    apply List.eq_nil_of_length_eq_zero
    omega
  · intro hnone
    rw [hnone] at hanswered
    refine ⟨?_, ?_, ?_, ?_, ?_⟩
    · rw [hrow, hsent, hanswered]
      rfl
    · rw [hrow]
      exact hsettled.sentBytes.symm
    · rw [hrow]
      exact hsettled.received
    · rw [hrow]
      exact hsettled.receivedBytes
    · rw [sessionRecord_folderPath, rootPath_client hrole]

/-- **The row of a server** is right if the counts happen to be those it is given, and the
folder is the registered one. -/
theorem server_row_iff (hrole : cfg.role = .server) (hrecorded : Recorded (sessionEnd cfg f is)) :
    RowRight cfg locate registered addr f is ↔
      ((receivedSizes (sessionEnd cfg f is)).length = (sentSizes (sessionDeeds cfg f is)).length ∧
        skippedPaths (sessionDeeds cfg f is) = []) ∧
      locate (registered cfg.folderId) = locate (rootPath cfg (registered cfg.folderId) is) := by
  have hsettled := settled_of_recorded cfg f is hrecorded
  have hsent := hsettled.sent
  have hanswered := hsettled.answered
  have hplanned := hsettled.planned
  have hreceived := hsettled.received
  have hrow := @sessionRecord_server cfg addr hrole (registered cfg.folderId) (sessionEnd cfg f is)
  constructor
  · intro h
    have hpushed : (sessionEnd cfg f is).result.pulled.length =
        (sentSizes (sessionDeeds cfg f is)).length := by
      have hcount := h.pushedCount
      rwa [hrow] at hcount
    have hpulled : (sessionEnd cfg f is).toPush.length + (sessionEnd cfg f is).servedRequests.length =
        (receivedSizes (sessionEnd cfg f is)).length := by
      have hcount := h.pulledCount
      rwa [hrow] at hcount
    refine ⟨⟨by omega, List.eq_nil_of_length_eq_zero (by omega)⟩, ?_⟩
    have hpath := h.folderPath
    rwa [sessionRecord_folderPath] at hpath
  · rintro ⟨⟨hsame, hskips⟩, hpath⟩
    rw [hskips, List.length_nil] at hplanned
    refine ⟨?_, ?_, ?_, ?_, ?_⟩
    · rw [hrow, ← hsame, ← hreceived]
      rfl
    · rw [hrow]
      exact hsettled.sentBytes.symm
    · rw [hrow]
      have hpulled : (sessionEnd cfg f is).toPush.length + (sessionEnd cfg f is).servedRequests.length =
          (receivedSizes (sessionEnd cfg f is)).length := by omega
      exact hpulled
    · rw [hrow]
      exact hsettled.receivedBytes
    · rw [sessionRecord_folderPath]
      exact hpath

/-- History rows and stamps all name the registered folder, so that one of them decides. -/
theorem folders_right_iff :
    (∀ folderId ∈ namedFolders (sessionDeeds cfg f is),
        locate (registered folderId) = locate (rootPath cfg (registered cfg.folderId) is)) ↔
      (namedFolders (sessionDeeds cfg f is) ≠ [] →
        locate (registered cfg.folderId) = locate (rootPath cfg (registered cfg.folderId) is)) := by
  have hnames : ∀ folderId ∈ namedFolders (sessionDeeds cfg f is), folderId = cfg.folderId :=
    namedFolders_eq cfg is (start cfg f)
  constructor
  · intro h hsome
    obtain ⟨folderId, hfolder⟩ := List.exists_mem_of_ne_nil _ hsome
    have hright := h folderId hfolder
    rwa [hnames folderId hfolder] at hright
  · intro h folderId hfolder
    rw [hnames folderId hfolder]
    exact h (List.ne_nil_of_mem hfolder)

end

/-- **A session is recorded right** exactly if the counts of its row happen to be those that
it is given, and no row of a server is about another folder than the registered one. -/
theorem session_recorded_iff {β : Type} (cfg : Config) (locate : String → β) (registered : FolderId → String)
    (addr : String) (f : Folder) (is : List (Input SyncMessage)) :
    RowsRight cfg locate registered addr f is ↔ CountedRight cfg locate registered f is := by
  cases hrole : cfg.role with
  | client =>
    have hcounts : SameCounts cfg f is ↔ answeredPaths (sessionDeeds cfg f is) = [] := by
      unfold SameCounts
      rw [hrole]
    constructor
    · intro h
      refine ⟨fun hrecorded => hcounts.mpr ((client_row_iff hrole hrecorded).mp (h.session hrecorded)), ?_⟩
      intro hserver
      rw [hrole] at hserver
      cases hserver
    · intro h
      refine ⟨fun hrecorded => (client_row_iff hrole hrecorded).mpr (hcounts.mp (h.counts hrecorded)), ?_⟩
      rw [folders_right_iff, rootPath_client hrole]
      exact fun _ => rfl
  | server =>
    have hcounts : SameCounts cfg f is ↔
        (receivedSizes (sessionEnd cfg f is)).length = (sentSizes (sessionDeeds cfg f is)).length ∧
          skippedPaths (sessionDeeds cfg f is) = [] := by
      unfold SameCounts
      rw [hrole]
    constructor
    · intro h
      refine ⟨fun hrecorded => hcounts.mpr ((server_row_iff hrole hrecorded).mp (h.session hrecorded)).1,
        fun _ hwrites => ?_⟩
      rcases hwrites with hrecorded | hsome
      · exact ((server_row_iff hrole hrecorded).mp (h.session hrecorded)).2
      · exact folders_right_iff.mp h.folders hsome
    · intro h
      refine ⟨fun hrecorded => (server_row_iff hrole hrecorded).mpr ⟨?_, ?_⟩, ?_⟩
      · exact hcounts.mp (h.counts hrecorded)
      · exact h.folder hrole (Or.inl hrecorded)
      · exact folders_right_iff.mpr fun hsome => h.folder hrole (Or.inr hsome)

/-- A client that has nothing reads the file that the server pushes. -/
def servesF : List (Input SyncMessage) :=
  [.message (.index ⟨"1", "phone", none, []⟩), .go, .go, .go, .go, .go, .go, .go, .message sentinel, .go, .failed]

/-- **A server that sends a file records one received.** -/
theorem server_counts_swapped :
    ¬RowsRight (sampleConfig .server) id (fun _ => "/home/music") "10.0.0.2:22000"
      (sampleFolder [(sampleName, [97])]) servesF := by
  intro h
  have hrecorded : Recorded (sessionEnd (sampleConfig .server) (sampleFolder [(sampleName, [97])]) servesF) :=
    ⟨by rfl, by rfl⟩
  have hcount := (h.session hrecorded).pushedCount
  revert hcount
  decide +kernel

end FerriSync
