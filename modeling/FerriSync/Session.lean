/-
# The two ends of a session

`run_sync_session` (the client) and `handle_server_session` (the server) from
the exchange of the indexes on, each as a machine (`Party.next`): what is
still to be done before the next message is read stands in `todo`, in the
order of the source, and `phase` says where the code is when nothing is.

Both ends compute their plan, push their files one after the other, write a
sentinel and go into a receive loop. The loops differ: the client checks at
the top whether all it waits for has come, the server at the bottom whether
the client's sentinel has; after a commit the client acknowledges before it
reports its progress, the server after. An end that leaves its loop discards
what still comes for 200 ms and returns `Ok`, also when it left because a read
failed or timed out.

What the file system, the clock and a hash set's order add is in `Config`: it
may be anything. The sums of sizes are `u64`s and wrap around.

Key definitions: `Config`, `Party`, `act`, `onChunk`, `clientMessage`,
`serverMessage`, `Party.next`, `clientStart`, `serverStart`.
-/
import FerriSync.Commit
import FerriSync.Plan
import FerriSync.Transfer
import FerriSync.Lib.Duplex
import Mathlib.Data.Finset.Card

namespace FerriSync

open Machine

inductive Role
  | client
  | server
deriving DecidableEq, Repr

/-- The events a session reports. -/
inductive SyncEvent
  | filePulled (path device : String)
  | filePushed (path device : String)
  | conflict (path winner loser : String)
  | progress (folderId stage : String) (filesDone filesTotal bytesDone bytesTotal : ℕ)
deriving DecidableEq, Repr

/-- One end's arguments and surroundings. -/
structure Config where
  role : Role
  blake3 : Bytes → FileHash
  serialize : SyncMessage → Bytes
  /-- The clock, in seconds, at the n-th commit. -/
  secs : ℕ → ℕ
  /-- The modification time the file system gives the n-th file. -/
  mtime : ℕ → ℤ
  order : ∀ l r : Snapshot, PathOrder l r
  folderId : FolderId
  /-- The label its index carries. -/
  deviceId : String
  dryRun : Bool := false
  remotePath : Option String := none
  /-- The folder at a path that the client names, created if missing. -/
  rootAt : String → Except String Folder := fun _ => .error "no such directory"

namespace Config

variable (cfg : Config)

def folderIdStr : String := toString cfg.folderId.val.toInt

/-- The device label of the end's events, and of its copy in a conflict. -/
def label : String :=
  match cfg.role with
  | .client => cfg.deviceId
  | .server => "remote"

end Config

/-- The label of the copy that loses to `winnerLabel`'s. -/
def loserString (winnerLabel : String) : String :=
  if winnerLabel = "remote" then "local" else "remote"

example (w : String) : loserString w = String.ofList (loserLabel w).chars := by
  unfold loserString loserLabel
  split_ifs <;> decide

/-- What is still to be done. -/
inductive Action
  | write (m : SyncMessage)
  /-- `emit_progress` with this stage. -/
  | progress (stage : String)
  /-- A dry run reports that it is done, and ends. -/
  | finishDry
  | pushFile (path : String)
  | uploaded (path : String) (len : ℕ)
  | filePushed (path : String)
  | conflict (path : String)
  | install (path : String) (t : Target) (data : Bytes)
  | downloaded (path : String) (len : ℕ)
  | filePulled (path : String)
  | serve (path : String)
  | served (path : String) (len : ℕ)

inductive Phase
  | awaitIndex
  /-- The top of the receive loop. -/
  | receiving
  /-- The bottom of the server's receive loop. -/
  | checking
  | draining
  | ended (result : Except String Unit)

/-- Outcomes of a sync session. The server keeps the same counts in variables
of its own: its `received_pushes` are `pulled`. -/
structure SyncResult where
  pulled : List String := []
  pushed : List String := []
  conflicts : List String := []
  pulledBytes : ℕ := 0
  pushedBytes : ℕ := 0
deriving DecidableEq, Repr

/-- The state of one end. -/
structure Party where
  folder : Folder
  phase : Phase
  todo : List Action := []
  /-- The end's index and its peer's. -/
  own : List IndexEntry := []
  remote : List IndexEntry := []
  /-- What the plan has it send and expect; the server's `to_push_to_client` and
  `client_to_push`. -/
  toPush : List IndexEntry := []
  toPull : List IndexEntry := []
  inbox : Inbox := .empty
  totalFiles : ℕ := 0
  totalBytes : ℕ := 0
  doneFiles : ℕ := 0
  doneBytes : ℕ := 0
  result : SyncResult := {}
  /-- Of the client: the pushed paths it has an Ack for, and its pulls. -/
  acked : Finset String := ∅
  receivedPulls : ℕ := 0
  /-- Of the server: the client's sentinel has come. -/
  gotEof : Bool := false
  servedRequests : List String := []
  /-- `last_sync` has been stamped. -/
  stamped : Bool := false
  tick : ℕ := 0
  /-- What has been renamed to its target; only the proofs look at it. -/
  committed : List (String × Bytes) := []

namespace Party

/-- Return the error. -/
def fail (p : Party) (e : String) : Party := { p with todo := [], phase := .ended (.error e) }

/-- The client's reasons to leave its loop. -/
def complete (p : Party) : Bool :=
  decide (p.result.pushed.length ≤ p.acked.card) && decide (p.toPull.length ≤ p.receivedPulls) &&
    p.inbox.isEmpty

end Party

section

variable (cfg : Config)

/-- The parameters of `emit_progress`, in its order. -/
def emitProgress (stage : String) (filesDone filesTotal bytesDone bytesTotal : ℕ) : SyncEvent :=
  .progress cfg.folderIdStr stage filesDone filesTotal bytesDone bytesTotal

/-- `emit_progress` as a session calls it: with the files and bytes done, then
the files and bytes in all. -/
def Party.progress (p : Party) (stage : String) : SyncEvent :=
  emitProgress cfg stage p.doneFiles p.doneBytes p.totalFiles p.totalBytes

/-- Where the loop goes on after a message. -/
def bottom : Phase :=
  match cfg.role with
  | .client => .receiving
  | .server => .checking

/-- `send_file_chunks` as things to do. -/
def chunkActions (path : String) (data : Bytes) : List Action :=
  (sendFileChunks cfg.folderIdStr path data).map fun c => .write (.fileChunk c)

/-- Do one thing. -/
def act (p : Party) : Action → Move Party SyncMessage SyncEvent
  | .write m => .write m p (p.fail "write failed")
  | .progress stage => .trySend (p.progress cfg stage) p
  | .finishDry =>
    .trySend (emitProgress cfg "done" p.totalFiles p.totalBytes p.totalFiles p.totalBytes)
      { p with phase := .ended (.ok ()) }
  | .pushFile path =>
    match safeJoin path with
    | .error e => .tau (p.fail e)
    | .ok t =>
      match p.folder.read t with
      | .error _ => .tau p
      | .ok data => .tau { p with
          todo := chunkActions cfg path data ++
            (.uploaded path data.length :: .filePushed path :: p.todo) }
  | .uploaded path len =>
    let p := { p with
      result := { p.result with
        pushed := p.result.pushed ++ [path], pushedBytes := p.result.pushedBytes + len }
      doneFiles := p.doneFiles + 1, doneBytes := p.doneBytes + len }
    .trySend (p.progress cfg "uploading") p
  | .filePushed path => .send (.filePushed path cfg.label) p
  | .conflict path =>
    .send (.conflict path cfg.label (loserString cfg.label))
      { p with result := { p.result with conflicts := p.result.conflicts ++ [path] } }
  | .install path t data =>
    match install t data (cfg.mtime p.tick) p.folder with
    | (.error e, g) => .tau ({ p with folder := g }.fail e)
    | (.ok (), g) => .tau { p with
        folder := g, tick := p.tick + 1, committed := p.committed ++ [(path, data)] }
  | .downloaded path len =>
    let p := { p with
      result := { p.result with
        pulled := p.result.pulled ++ [path], pulledBytes := p.result.pulledBytes + len }
      doneFiles := p.doneFiles + 1, doneBytes := p.doneBytes + len }
    .trySend (p.progress cfg "downloading") p
  | .filePulled path =>
    .send (.filePulled path cfg.label) { p with receivedPulls := p.receivedPulls + 1 }
  | .serve path =>
    match safeJoin path with
    | .error e => .tau (p.fail e)
    | .ok t =>
      match p.folder.read t with
      | .error _ => .tau p
      | .ok data => .tau { p with
          todo := chunkActions cfg path data ++ (.served path data.length :: p.todo) }
  | .served path len => .tau { p with
      servedRequests := p.servedRequests ++ [path]
      result := { p.result with pushedBytes := p.result.pushedBytes + len } }

/-! ### The index -/

def sumSizes (entries : List IndexEntry) : ℕ := (entries.map (·.size)).sum % UInt64.size

/-- The client's answer to the first message. -/
def clientIndex (p : Party) : SyncMessage → Party
  | .index remote =>
    if maxIndexEntries < remote.entries.length then p.fail "remote index too large"
    else
      let own : Index := ⟨cfg.folderIdStr, cfg.deviceId, cfg.remotePath, p.own⟩
      let plan := clientPlan own remote cfg.folderId (cfg.order _ _)
      let p := { p with
        remote := remote.entries
        toPush := plan.toPush
        toPull := plan.toPull
        totalFiles := plan.toPush.length + plan.toPull.length
        totalBytes := sumSizes (plan.toPush ++ plan.toPull) }
      if cfg.dryRun then { p with
        todo := [.progress "starting", .finishDry]
        result := {
          pushed := plan.toPush.map (·.path), pulled := plan.toPull.map (·.path)
          pushedBytes := sumSizes plan.toPush, pulledBytes := sumSizes plan.toPull
          conflicts := plan.plan.conflicts.map (·.path.val) } }
      else { p with
        todo := .progress "starting" :: (plan.toPush.map (fun e => .pushFile e.path) ++
          [.write sentinel])
        phase := .receiving }
  | _ => p.fail "expected Index message"

/-- `char::is_whitespace`. -/
def isWhitespace (c : Char) : Bool :=
  c.val ∈ [0x9, 0xA, 0xB, 0xC, 0xD, 0x20, 0x85, 0xA0, 0x1680, 0x2028, 0x2029, 0x202F, 0x205F, 0x3000] ||
    (0x2000 ≤ c.val && c.val ≤ 0x200A)

/-- The folder a session serves: the one registered, or where the client keeps
its peer's copy. -/
def servedRoot (registered : Folder) (remotePath : Option String) : Except String Folder :=
  match remotePath with
  | none => .ok registered
  | some rp => if rp.toList.all isWhitespace then .ok registered else cfg.rootAt rp

/-- The server's answer to the first message. -/
def serverIndex (p : Party) : SyncMessage → Party
  | .index remote =>
    if maxIndexEntries < remote.entries.length then p.fail "remote index too large"
    else match servedRoot cfg p.folder remote.remotePath with
    | .error e => p.fail e
    | .ok root =>
      let entries := buildProtocolIndex cfg.blake3 root cfg.deviceId
      let own : Index := ⟨cfg.folderIdStr, cfg.deviceId, none, entries⟩
      let plan := serverPlan own remote cfg.folderId (cfg.order _ _)
      { p with
        folder := root
        own := entries
        remote := remote.entries
        toPush := plan.toPushToClient
        toPull := plan.clientToPush
        totalFiles := plan.toPushToClient.length + plan.clientToPush.length
        totalBytes := sumSizes (plan.toPushToClient ++ plan.clientToPush)
        todo := .write (.index own) :: .progress "starting" ::
          (plan.toPushToClient.map (fun e => .pushFile e.path) ++ [.write sentinel])
        phase := .receiving }
  | _ => p.fail "expected Hello or Index"

/-! ### The receive loops -/

/-- What follows the backup of a received file's target. -/
def commitActions (path : String) (t : Target) (data : Bytes) : List Action :=
  match cfg.role with
  | .client => [.install path t data, .write (.ack ⟨path, true, none⟩), .downloaded path data.length,
      .filePulled path]
  | .server => [.install path t data, .downloaded path data.length, .write (.ack ⟨path, true, none⟩),
      .filePulled path]

/-- The `FileChunk` branch of both loops. -/
def onChunk (p : Party) (c : FileChunk) : Party :=
  if c.path = "metadata.db" then { p with phase := .receiving }
  else match receiveChunk p.inbox c with
  | .refused e => p.fail e
  | .more inbox => { p with inbox := inbox, phase := bottom cfg }
  | .complete inbox data =>
    let p := { p with inbox := inbox }
    if hashMatches cfg.blake3 p.remote c.path data = false then { p with
      todo := [.write (.ack ⟨c.path, false, some "hash mismatch"⟩)], phase := .receiving }
    else match safeJoin c.path with
    | .error e => p.fail e
    | .ok t =>
      match prepare cfg.blake3 (cfg.secs p.tick) cfg.label t data p.folder with
      | (.error e, g) => { p with folder := g }.fail e
      | (.ok conflicted, g) => { p with
          folder := g
          todo := (if conflicted then [.conflict c.path] else []) ++ commitActions cfg c.path t data
          phase := bottom cfg }

/-- The `FileRequest` branch of both loops. -/
def onRequest (p : Party) (r : FileRequest) : Party :=
  if maxFileRequestPaths < r.paths.length then { p with phase := .receiving }
  else { p with
    todo := (r.paths.filter fun path =>
      decide (path ≠ "metadata.db") && decide (path.utf8ByteSize ≤ maxPathLen)).map .serve
    phase := bottom cfg }

/-- One turn of the client's loop. -/
def clientMessage (p : Party) : SyncMessage → Party
  | .fileChunk c => onChunk cfg p c
  | .ack a =>
    if a.path ≠ "" ∧ a.path ∈ p.result.pushed then { p with acked := insert a.path p.acked } else p
  | .fileRequest r => onRequest cfg p r
  | _ => p

/-- One turn of the server's loop. -/
def serverMessage (p : Party) : SyncMessage → Party
  | .fileChunk c => onChunk cfg p c
  | .fileRequest r => onRequest cfg p r
  | .ack a => { p with gotEof := p.gotEof || decide (a.path = ""), phase := .checking }
  | _ => { p with phase := .checking }

def onIndex (p : Party) (m : SyncMessage) : Party :=
  match cfg.role with
  | .client => clientIndex cfg p m
  | .server => serverIndex cfg p m

def onMessage (p : Party) (m : SyncMessage) : Party :=
  match cfg.role with
  | .client => clientMessage cfg p m
  | .server => serverMessage cfg p m

/-- A read: a frame that is too large is an error. -/
def readMessage (got : SyncMessage → Party) (failed : Party) : Move Party SyncMessage SyncEvent :=
  .read (fun m => if frameTooLarge cfg.serialize m then failed else got m) failed

/-- **What an end does next.** -/
def Party.next (p : Party) : Move Party SyncMessage SyncEvent :=
  match p.todo with
  | a :: rest => act cfg { p with todo := rest } a
  | [] =>
    match p.phase with
    | .awaitIndex => readMessage cfg (onIndex cfg p) (p.fail "connection closed")
    | .receiving =>
      if cfg.role = .client ∧ p.complete = true then .tau { p with phase := .draining }
      else readMessage cfg (onMessage cfg p) { p with phase := .draining }
    | .checking => .tau { p with
        phase := if p.gotEof && p.inbox.isEmpty then .draining else .receiving }
    | .draining => .drain { p with phase := .ended (.ok ()), stamped := true }
    | .ended _ => .halt

/-- The client has its index ready to send. -/
def clientStart (f : Folder) : Party :=
  let own := buildProtocolIndex cfg.blake3 f cfg.deviceId
  { folder := f, phase := .awaitIndex, own := own
    todo := [.write (.index ⟨cfg.folderIdStr, cfg.deviceId, cfg.remotePath, own⟩)] }

/-- The server waits for the client's index. -/
def serverStart (f : Folder) : Party := { folder := f, phase := .awaitIndex }

/-- How each end starts. -/
def start (f : Folder) : Party :=
  match cfg.role with
  | .client => clientStart cfg f
  | .server => serverStart f

end

/-- An end of a session for examples: hash sets in the order in which they are
filled, and every commit in one second. -/
def sampleConfig (role : Role) : Config where
  role := role
  blake3 := sampleBlake3
  serialize := Bincode.serialize
  secs := fun _ => 1700000000
  mtime := fun n => 1700000000000000000 + n
  order := PathOrder.firstSeen
  folderId := ⟨1⟩
  deviceId := "laptop"

end FerriSync
