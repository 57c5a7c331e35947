/-
# Sessions between two devices

An owner shares folders, a requester asks for them and wires what it is granted to its own
(`request_folder_pairing` in `api/mod.rs`, `PairGate` in `server.rs`). A session for a pair
scans the initiator's folder; the responder reads, creates and writes the directory that
the initiator has stored as its peer's (`handle_server_session`), or else the folder of
whichever listener was dialed.

One value is stored on both sides: the path of a grant is the requester's copy to the owner
(`folder_pair_remote_path`) and the owner's to the requester. The sessions are between the
two paths that are registered exactly if whatever is stored is the other device's path, and
every listener serves it where nothing is (`sessions_meet_iff`).

Key definitions: `sessionDirectories`, `Couple`, `PairAct`, `Couple.step`, `MeetRight`,
`LeadsTo`, `Couple.Agrees`.
Key theorems: `directories_of_session`, `meetRight_step`, `sessions_meet_iff`.
-/
import FerriSync.Lib.Runs
import FerriSync.PairedFolders
import FerriSync.Records

namespace FerriSync

open Machine Transactions

/-! ### The directories of a session -/

/-- The directories in which the initiator and the responder read, create and write. -/
structure SessionDirectories where
  initiator : String
  responder : String
deriving DecidableEq, Repr

/-- A session of the call with a listener that serves the path. -/
def sessionDirectories (call : SessionCall) (listenerPath : String) : SessionDirectories :=
  ⟨call.localPath, servedRootPath listenerPath call.remotePath⟩

/-- **Where the two ends of a session are**: the client sends the path that is stored with
its index, and the server is where the index that it reads says. -/
theorem directories_of_session (call : SessionCall) (listenerPath : String) (client server : Config)
    (hclient : client.role = .client) (hserver : server.role = .server) (idx : Index)
    (hindex : idx.remotePath = call.remotePath) (is is' : List (Input SyncMessage)) :
    sessionDirectories call listenerPath = ⟨rootPath client call.localPath is,
      rootPath server listenerPath (.message (.index idx) :: is')⟩ := by
  unfold sessionDirectories rootPath
  rw [hclient, hserver, ← hindex]
  rfl

/-- `run_sync` for a folder and a peer. -/
def Database.syncCall (db : Database) (f : SyncFolderRow) (peerId addr : String) (dryRun : Bool) :
    SessionCall :=
  ⟨f.localPath, addr, f.id, peerId, dryRun, db.folderPairRemotePath f.id peerId⟩

/-! ### Two devices -/

/-- A listener: the folder that it serves, and its gate. -/
structure FolderListener where
  path : String
  gate : PairGateInner

/-- A device and its listeners, all over one database. -/
structure PairingDevice where
  ownId : String
  host : Host
  listeners : List FolderListener

namespace PairingDevice

variable (d : PairingDevice)

def db : Database := d.host.db.val

/-- The folders that the listeners serve. -/
def paths : List String := d.listeners.map (·.path)

def after (x : Sql Unit) : PairingDevice :=
  { d with host := { d.host with db := Effects.after x d.host.db } }

/-- What a connection to the n-th listener finds. -/
def node? (n : ℕ) : Option Node := d.listeners[n]?.map fun l => ⟨d.ownId, d.host, l.gate⟩

/-- The n-th listener's gate and the database as the node has them. -/
def put (n : ℕ) (node : Node) : PairingDevice := { d with
  host := node.host
  listeners := d.listeners.modify n fun l => { l with gate := node.gate } }

/-- Reuse an existing row for this path, or create one owned by this device. -/
def registerFolder (blake3 : Bytes → FileHash) (name path : String) : PairingDevice :=
  if d.db.listSyncFolders.any fun p => decide (p.localPath = path) then d
  else d.after do
    Database.upsertDevice d.ownId name none none
    discard (Database.addSyncFolder blake3 d.host.processId path d.ownId "bidirectional")

/-- One more listener. -/
def serveFolder (blake3 : Bytes → FileHash) (name path : String) : PairingDevice :=
  let d := d.registerFolder blake3 name path
  { d with listeners := d.listeners ++ [⟨path, PairGateInner.new⟩] }

end PairingDevice

/-- The owner of shares, a requester, and the grants that the requester has been given. -/
structure Couple where
  owner : PairingDevice
  requester : PairingDevice
  granted : List RemoteFolderPair

/-- One of the two. -/
inductive Side
  | owner
  | requester
deriving DecidableEq, Repr

/-- What the two do: both register devices and folders and start listeners, the owner
shares and decides, the requester asks and wires. -/
inductive PairAct
  | registerDevice (side : Side) (id name : String) (certDer : Option Bytes) (lastAddr : Option String)
  | registerFolder (side : Side) (name path : String)
  | serve (side : Side) (name path : String)
  | share (folderGuid name localPath : String)
  | setDiscoverable (id : ℕ) (discoverable : Bool)
  | unshare (id : ℕ)
  /-- A request that the requester sends to the owner's n-th listener. -/
  | ask (n : ℕ) (deviceName folderGuid name : String)
  /-- A decision at the n-th listener's gate. -/
  | approve (n : ℕ) (deviceId folderGuid name localPath : String) (remotePath : Option String)
  | deny (n : ℕ) (deviceId folderGuid : String)
  /-- The requester stores what it has been granted. -/
  | wire (grant : RemoteFolderPair) (localPath name addr : String)

/-- The grant that an answer carries. -/
def FolderPairOutcome.grant : FolderPairOutcome → List RemoteFolderPair
  | .approved grant => [grant]
  | .pending | .rejected => []

namespace Couple

variable (blake3 : Bytes → FileHash) (c : Couple)

/-- Something is done on one side. -/
def on (side : Side) (act : PairingDevice → PairingDevice) : Couple :=
  match side with
  | .owner => { c with owner := act c.owner }
  | .requester => { c with requester := act c.requester }

def step : PairAct → Couple
  | .registerDevice side id name certDer lastAddr =>
    c.on side fun d => d.after (Database.upsertDevice id name certDer lastAddr)
  | .registerFolder side name path => c.on side fun d => d.registerFolder blake3 name path
  | .serve side name path => c.on side fun d => d.serveFolder blake3 name path
  | .share folderGuid name localPath =>
    c.on .owner fun d => d.after (Database.shareFolder folderGuid d.ownId name localPath)
  | .setDiscoverable id discoverable =>
    c.on .owner fun d => d.after (Database.setSharedDiscoverable id discoverable)
  | .unshare id => c.on .owner fun d => d.after (Database.unshareFolder id)
  | .ask n deviceName folderGuid name =>
    match c.owner.node? n with
    | none => c
    | some node =>
      let (outcome, node) := node.answerFolderPair
        ⟨c.requester.ownId, deviceName, folderGuid, name, "bidirectional"⟩
      { c with owner := c.owner.put n node, granted := outcome.grant ++ c.granted }
  | .approve n deviceId folderGuid name localPath remotePath =>
    match c.owner.node? n with
    | none => c
    | some node =>
      { c with
        owner := c.owner.put n (node.approveFolderPair deviceId folderGuid name localPath remotePath).2 }
  | .deny n deviceId folderGuid =>
    match c.owner.node? n with
    | none => c
    | some node => { c with owner := c.owner.put n (node.denyFolderPair deviceId folderGuid) }
  | .wire grant localPath name addr =>
    if grant ∈ c.granted then
      c.on .requester fun d => d.after do
        discard (Database.wireFolderPair grant.folderGuid localPath name d.ownId c.owner.ownId
          grant.remotePath)
        Database.setDeviceLastAddr c.owner.ownId addr
    else c

end Couple

/-- Each session that a device starts for a folder that both have paired with one another, with
any listener of the other, is between the paths that the two have for it. -/
def SessionsMeet (initiator responder : PairingDevice) : Prop :=
  ∀ f ∈ initiator.db.syncFolders, ∀ g ∈ responder.db.syncFolders,
    f.folderGuid.isSome = true → f.folderGuid = g.folderGuid →
    (f.id, responder.ownId) ∈ initiator.db.pairKeys → (g.id, initiator.ownId) ∈ responder.db.pairKeys →
    ∀ l ∈ responder.listeners, ∀ addr dryRun,
      sessionDirectories (initiator.db.syncCall f responder.ownId addr dryRun) l.path =
        ⟨f.localPath, g.localPath⟩

/-- Whoever starts the session. -/
structure Couple.MeetRight (c : Couple) : Prop where
  fromOwner : SessionsMeet c.owner c.requester
  fromRequester : SessionsMeet c.requester c.owner

/-! ### When they meet -/

/-- What is stored is the path, if there is a listener to be told; if it is blank or nothing
is, every listener serves the path. -/
def LeadsTo (remotePath : Option String) (paths : List String) (path : String) : Prop :=
  match remotePath with
  | none => ∀ l ∈ paths, l = path
  | some rp => if rp.toList.all isWhitespace then ∀ l ∈ paths, l = path else paths = [] ∨ rp = path

instance : ∀ (remotePath : Option String) (paths : List String) (path : String),
    Decidable (LeadsTo remotePath paths path)
  | none, paths, path => inferInstanceAs (Decidable (∀ l ∈ paths, l = path))
  | some rp, paths, path => inferInstanceAs (Decidable
      (if rp.toList.all isWhitespace then ∀ l ∈ paths, l = path else paths = [] ∨ rp = path))

/-- A share is approved for the peer at once: it is open, nothing is decided about the peer,
and a certificate of it is stored. -/
def Node.autoApproved (n : Node) (deviceId folderGuid : String) : Option SharedFolderRow :=
  (n.db.sharedFolderByGuid n.ownId folderGuid).filter fun row =>
    row.discoverable && row.enabled && (n.gate.folderApproved.lookup (deviceId, folderGuid)).isNone &&
      decide ((deviceId, folderGuid) ∉ n.gate.folderDenied) && (n.db.getDeviceCert deviceId).isSome

namespace Couple

variable (c : Couple)

/-- The owner's folders that are paired with the requester, and the other way round. -/
def owned : List PairedFolder := c.owner.db.pairedFolders c.requester.ownId

def wired : List PairedFolder := c.requester.db.pairedFolders c.owner.ownId

/-- A folder of the owner and one of the requester lead to one another. -/
def Fits (p q : PairedFolder) : Prop :=
  LeadsTo p.remotePath c.requester.paths q.path ∧ LeadsTo q.remotePath c.owner.paths p.path

instance (p q : PairedFolder) : Decidable (c.Fits p q) := inferInstanceAs (Decidable (_ ∧ _))

/-- What is paired leads to the other device's folder and is led to by it; and so does what is
paired already, with a new listener. -/
def Agrees : PairAct → Prop
  | .ask n _ folderGuid _ => ∀ node, c.owner.node? n = some node →
      ∀ row, node.autoApproved c.requester.ownId folderGuid = some row →
      ∀ q ∈ c.wired, q.guid = some folderGuid → c.Fits (c.owner.db.approvedFolder c.requester.ownId
        folderGuid row.localPath (some row.localPath)) q
  | .approve n deviceId folderGuid _ localPath remotePath => n < c.owner.listeners.length →
      deviceId = c.requester.ownId → c.owner.db.Attachable c.owner.ownId folderGuid →
      ∀ q ∈ c.wired, q.guid = some folderGuid → c.Fits (c.owner.db.approvedFolder c.requester.ownId
        folderGuid localPath remotePath) q
  | .wire grant localPath _ _ => grant ∈ c.granted →
      c.requester.db.Wirable c.requester.ownId c.owner.ownId grant.folderGuid localPath →
      ∀ p ∈ c.owned, p.guid = some grant.folderGuid → c.Fits p (c.requester.db.wiredPair
        c.owner.ownId grant.folderGuid localPath grant.remotePath)
  | .serve .owner _ path => ∀ p ∈ c.owned, ∀ q ∈ c.wired, p.guid.isSome = true →
      p.guid = q.guid → LeadsTo q.remotePath [path] p.path
  | .serve .requester _ path => ∀ p ∈ c.owned, ∀ q ∈ c.wired, p.guid.isSome = true →
      p.guid = q.guid → LeadsTo p.remotePath [path] q.path
  | _ => True

end Couple

section

variable {remotePath : Option String} {paths : List String} {path : String} {c : Couple}

theorem leadsTo_iff : LeadsTo remotePath paths path ↔ ∀ l ∈ paths, servedRootPath l remotePath = path := by
  unfold LeadsTo servedRootPath
  cases remotePath with
  | none => exact Iff.rfl
  | some rp =>
    dsimp only
    by_cases hblank : (rp.toList.all isWhitespace) = true
    · simp only [if_pos hblank]
    · simp only [if_neg hblank]
      constructor
      · rintro (rfl | hpath) l hl
        · cases hl
        · exact hpath
      · intro h
        cases paths with
        | nil => exact Or.inl rfl
        | cons l ls => exact Or.inr (h l List.mem_cons_self)

theorem leadsTo_append {ls : List String} :
    LeadsTo remotePath (paths ++ ls) path ↔ LeadsTo remotePath paths path ∧ LeadsTo remotePath ls path := by
  simp only [leadsTo_iff, List.forall_mem_append]

/-- All folders of one guid lead to one another. -/
def AllFit (owned wired : List PairedFolder) (ownerPaths requesterPaths : List String) : Prop :=
  ∀ p ∈ owned, ∀ q ∈ wired, p.guid.isSome = true → p.guid = q.guid →
    LeadsTo p.remotePath requesterPaths q.path ∧ LeadsTo q.remotePath ownerPaths p.path

theorem sessionsMeet_iff {d e : PairingDevice} : SessionsMeet d e ↔
    ∀ p ∈ d.db.pairedFolders e.ownId, ∀ q ∈ e.db.pairedFolders d.ownId,
      p.guid.isSome = true → p.guid = q.guid → LeadsTo p.remotePath e.paths q.path := by
  simp only [leadsTo_iff]
  constructor
  · intro h p hp q hq hsome hguid l hl
    obtain ⟨f, hf, hpair, rfl⟩ := Database.mem_pairedFolders.mp hp
    obtain ⟨g, hg, hpair', rfl⟩ := Database.mem_pairedFolders.mp hq
    obtain ⟨listener, hlistener, rfl⟩ := List.mem_map.mp hl
    have hmeet := h f hf g hg hsome hguid hpair hpair' listener hlistener "" false
    exact congrArg SessionDirectories.responder hmeet
  · intro h f hf g hg hsome hguid hpair hpair' l hl addr dryRun
    have hserved := h _ (Database.mem_pairedFolders.mpr ⟨f, hf, hpair, rfl⟩) _
      (Database.mem_pairedFolders.mpr ⟨g, hg, hpair', rfl⟩) hsome hguid l.path (List.mem_map_of_mem hl)
    exact congrArg (SessionDirectories.mk f.localPath) hserved

theorem meetRight_iff : c.MeetRight ↔ AllFit c.owned c.wired c.owner.paths c.requester.paths := by
  constructor
  · intro h p hp q hq hsome hguid
    have hsome' : q.guid.isSome = true := hguid ▸ hsome
    exact ⟨sessionsMeet_iff.mp h.fromOwner p hp q hq hsome hguid,
      sessionsMeet_iff.mp h.fromRequester q hq p hp hsome' hguid.symm⟩
  · intro h
    refine ⟨sessionsMeet_iff.mpr fun p hp q hq hsome hguid => (h p hp q hq hsome hguid).1,
      sessionsMeet_iff.mpr fun q hq p hp hsome hguid => ?_⟩
    exact (h p hp q hq (hguid ▸ hsome) hguid.symm).2

/-! ### What one act does -/

variable {owned owned' wired wired' : List PairedFolder} {xs ys : List String} {new : PairedFolder}

/-- A folder of the owner is paired. -/
theorem allFit_owned (hthere : new ∈ owned') (hothers : ∀ p ∈ owned', p = new ∨ p ∈ owned)
    (h : AllFit owned wired xs ys) : AllFit owned' wired xs ys ↔
      ∀ q ∈ wired, new.guid.isSome = true → new.guid = q.guid →
        LeadsTo new.remotePath ys q.path ∧ LeadsTo q.remotePath xs new.path := by
  constructor
  · exact fun hall => hall new hthere
  · intro hnew p hp
    rcases hothers p hp with rfl | hold
    · exact hnew
    · exact h p hold

/-- A folder of the requester is paired. -/
theorem allFit_wired (hthere : new ∈ wired') (hothers : ∀ q ∈ wired', q = new ∨ q ∈ wired)
    (h : AllFit owned wired xs ys) : AllFit owned wired' xs ys ↔
      ∀ p ∈ owned, p.guid.isSome = true → p.guid = new.guid →
        LeadsTo p.remotePath ys new.path ∧ LeadsTo new.remotePath xs p.path := by
  constructor
  · exact fun hall p hp => hall p hp new hthere
  · intro hnew p hp q hq
    rcases hothers q hq with rfl | hold
    · exact hnew p hp
    · exact h p hp q hold

end

/-! ### Devices -/

namespace PairingDevice

variable {d : PairingDevice} {peerId : String} {n : ℕ} {node : Node}

theorem node?_eq_some (h : d.node? n = some node) :
    n < d.listeners.length ∧ node.ownId = d.ownId ∧ node.host = d.host := by
  obtain ⟨l, hl, rfl⟩ := Option.map_eq_some_iff.mp h
  exact ⟨(List.getElem?_eq_some_iff.mp hl).1, rfl, rfl⟩

theorem node?_eq_none : d.node? n = none ↔ d.listeners.length ≤ n := by
  simp [node?]

@[simp] theorem paths_put : (d.put n node).paths = d.paths := by
  apply List.ext_getElem?
  intro i
  simp only [paths, put, List.getElem?_map, List.getElem?_modify]
  cases d.listeners[i]? with
  | none => rfl
  | some l =>
    simp only [Option.map_some]
    split <;> rfl

theorem pairedFolders_after {x : Sql Unit} (h : Effects.Does (Database.SamePaired peerId) x) :
    (d.after x).db.pairedFolders peerId = d.db.pairedFolders peerId := h d.host.db

theorem pairedFolders_registerFolder (blake3 : Bytes → FileHash) (name path : String)
    (h : d.ownId ≠ peerId) :
    (d.registerFolder blake3 name path).db.pairedFolders peerId = d.db.pairedFolders peerId := by
  have hcomposes := Database.samePaired_composes peerId
  unfold registerFolder
  split
  · rfl
  · exact pairedFolders_after (.bind hcomposes (Database.samePaired_execute (fun _ => rfl) fun _ => rfl)
      fun _ => Does.discard hcomposes
        (Database.samePaired_addSyncFolder blake3 d.host.processId path "bidirectional" h))

@[simp] theorem ownId_registerFolder (blake3 : Bytes → FileHash) (name path : String) :
    (d.registerFolder blake3 name path).ownId = d.ownId := by
  unfold registerFolder
  split <;> rfl

@[simp] theorem paths_registerFolder (blake3 : Bytes → FileHash) (name path : String) :
    (d.registerFolder blake3 name path).paths = d.paths := by
  unfold registerFolder
  split <;> rfl

theorem paths_serveFolder (blake3 : Bytes → FileHash) (name path : String) :
    (d.serveFolder blake3 name path).paths = d.paths ++ [path] := by
  have hpaths := @paths_registerFolder d blake3 name path
  unfold serveFolder paths at *
  rw [List.map_append, hpaths]
  rfl

end PairingDevice

namespace Node

variable {n : Node} {deviceId folderGuid name localPath : String} {remotePath : Option String}

theorem db_approveFolderPair : (n.approveFolderPair deviceId folderGuid name localPath remotePath).2.host.db =
    Effects.after (Database.approveFolderPair n.ownId deviceId folderGuid name localPath remotePath)
      n.host.db := by
  unfold approveFolderPair
  dsimp only
  split <;> rfl

/-- **The answer to a request** changes the folders only where it is an approval at once. -/
theorem db_answerFolderPair (req : RemoteFolderPairRequest) : (n.answerFolderPair req).2.host.db =
    match n.autoApproved req.deviceId req.folderGuid with
    | none => n.host.db
    | some row => Effects.after (Database.approveFolderPair n.ownId req.deviceId req.folderGuid req.name
        row.localPath (some row.localPath)) n.host.db := by
  unfold answerFolderPair autoApproved
  cases n.db.sharedFolderByGuid n.ownId req.folderGuid with
  | none => rfl
  | some row =>
    rw [Option.filter_some]
    dsimp only
    by_cases hopen : (row.discoverable && row.enabled) = true
    · rw [if_pos hopen, hopen, Bool.true_and]
      unfold requestFolderPair
      cases n.gate.folderApproved.lookup (req.deviceId, req.folderGuid) with
      | some grant => rfl
      | none =>
        by_cases hdenied : (req.deviceId, req.folderGuid) ∈ n.gate.folderDenied
        · simp [hdenied]
        · by_cases htrusted : (n.db.getDeviceCert req.deviceId).isSome = true
          · simp only [hdenied, htrusted, not_false_eq_true, decide_true, Option.isNone_none,
              Bool.and_self, if_true, if_false, ← db_approveFolderPair]
            rcases n.approveFolderPair req.deviceId req.folderGuid req.name row.localPath
              (some row.localPath) with ⟨_ | grant, n'⟩ <;> rfl
          · simp [hdenied, htrusted]
    · simp [hopen]

theorem shared_of_autoApproved {row : SharedFolderRow}
    (h : n.autoApproved deviceId folderGuid = some row) :
    n.db.sharedFolderByGuid n.ownId folderGuid = some row :=
  (Option.filter_eq_some_iff.mp h).1

/-- The device has a row, to which its share refers. -/
theorem attachable_of_autoApproved {row : SharedFolderRow}
    (h : n.autoApproved deviceId folderGuid = some row) : n.db.Attachable n.ownId folderGuid := by
  have hrow := List.mem_of_getLast? (shared_of_autoApproved h)
  obtain ⟨hshared, hkey⟩ := List.mem_filter.mp hrow
  have hown : row.deviceId = n.ownId := by
    rw [Bool.and_eq_true, decide_eq_true_eq] at hkey
    exact hkey.1
  exact Or.inr (hown ▸ n.host.db.references.share row hshared)

end Node

/-! ### Runs -/

namespace Couple

variable {blake3 : Bytes → FileHash} {c c' : Couple}

/-- Where neither the pairs nor the listeners change. -/
theorem meetRight_same (howned : c'.owned = c.owned) (hwired : c'.wired = c.wired)
    (hxs : c'.owner.paths = c.owner.paths) (hys : c'.requester.paths = c.requester.paths) :
    c'.MeetRight ↔ c.MeetRight := by
  rw [meetRight_iff, meetRight_iff, howned, hwired, hxs, hys]

theorem meetRight_on {side : Side} {act : PairingDevice → PairingDevice}
    (hid : ∀ d, (act d).ownId = d.ownId) (hpaths : ∀ d, (act d).paths = d.paths)
    (hpaired : ∀ d peerId, d.ownId ≠ peerId → (act d).db.pairedFolders peerId = d.db.pairedFolders peerId)
    (h : c.owner.ownId ≠ c.requester.ownId) : (c.on side act).MeetRight ↔ c.MeetRight := by
  cases side with
  | owner =>
    refine meetRight_same (hpaired c.owner _ h) ?_ (hpaths c.owner) rfl
    show c.requester.db.pairedFolders (act c.owner).ownId = _
    rw [hid]
    rfl
  | requester =>
    refine meetRight_same ?_ (hpaired c.requester _ h.symm) rfl (hpaths c.requester)
    show c.owner.db.pairedFolders (act c.requester).ownId = _
    rw [hid]
    rfl

/-- A statement that leaves all pairs alone. -/
theorem meetRight_after (side : Side) (x : PairingDevice → Sql Unit)
    (hx : ∀ d peerId, Effects.Does (Database.SamePaired peerId) (x d))
    (h : c.owner.ownId ≠ c.requester.ownId) :
    (c.on side fun d => d.after (x d)).MeetRight ↔ c.MeetRight :=
  meetRight_on (fun _ => rfl) (fun _ => rfl)
    (fun d peerId _ => PairingDevice.pairedFolders_after (hx d peerId)) h

/-- The identifiers of the two stay what they are. -/
theorem ownIds_step (c : Couple) (act : PairAct) :
    (c.step blake3 act).owner.ownId = c.owner.ownId ∧
      (c.step blake3 act).requester.ownId = c.requester.ownId := by
  have hon : ∀ (side : Side) (f : PairingDevice → PairingDevice), (∀ d, (f d).ownId = d.ownId) →
      (c.on side f).owner.ownId = c.owner.ownId ∧ (c.on side f).requester.ownId = c.requester.ownId := by
    intro side f hf
    cases side with
    | owner => exact ⟨hf _, rfl⟩
    | requester => exact ⟨rfl, hf _⟩
  cases act with
  | registerDevice side => exact hon side _ fun _ => rfl
  | registerFolder side name path => exact hon side _ fun d => d.ownId_registerFolder blake3 name path
  | serve side name path => exact hon side _ fun d => d.ownId_registerFolder blake3 name path
  | share | setDiscoverable | unshare => exact ⟨rfl, rfl⟩
  | ask | approve | deny =>
    unfold step
    dsimp only
    split <;> exact ⟨rfl, rfl⟩
  | wire =>
    unfold step
    dsimp only
    split <;> exact ⟨rfl, rfl⟩

/-- The owner pairs a folder with the requester. -/
theorem meetRight_owned {n : ℕ} {node : Node} {new : PairedFolder} {granted : List RemoteFolderPair}
    (hpairs : Database.Pairs c.requester.ownId new c.owner.db node.host.db.val) (h : c.MeetRight) :
    (Couple.mk (c.owner.put n node) c.requester granted).MeetRight ↔
      ∀ q ∈ c.wired, new.guid.isSome = true → new.guid = q.guid → c.Fits new q := by
  rw [meetRight_iff]
  show AllFit _ c.wired (c.owner.put n node).paths c.requester.paths ↔ _
  rw [PairingDevice.paths_put]
  exact allFit_owned hpairs.there hpairs.others (meetRight_iff.mp h)

/-- The owner's folders stay paired as they are. -/
theorem meetRight_put {n : ℕ} {node : Node} {granted : List RemoteFolderPair}
    (hsame : node.host.db.val.pairedFolders c.requester.ownId = c.owned) :
    (Couple.mk (c.owner.put n node) c.requester granted).MeetRight ↔ c.MeetRight :=
  meetRight_same hsame rfl PairingDevice.paths_put rfl

theorem guid_approvedFolder {db : Database} {peerId guid localPath : String} {remotePath : Option String} :
    (db.approvedFolder peerId guid localPath remotePath).guid = some guid := by
  unfold Database.approvedFolder
  split <;> rfl

theorem guid_wiredPair {db : Database} {peerId guid localPath : String} {remotePath : Option String} :
    (db.wiredPair peerId guid localPath remotePath).guid = some guid := by
  unfold Database.wiredPair
  split
  · rfl
  · exact guid_approvedFolder

/-- The owner stores an approval for the requester. -/
theorem meetRight_approved {n : ℕ} {node : Node} {granted : List RemoteFolderPair}
    {folderGuid name localPath : String} {remotePath : Option String}
    (hdb : node.host.db = Effects.after (Database.approveFolderPair c.owner.ownId c.requester.ownId
      folderGuid name localPath remotePath) c.owner.host.db)
    (hready : c.owner.db.Attachable c.owner.ownId folderGuid) (h : c.MeetRight) :
    (Couple.mk (c.owner.put n node) c.requester granted).MeetRight ↔
      ∀ q ∈ c.wired, q.guid = some folderGuid → c.Fits (c.owner.db.approvedFolder c.requester.ownId
        folderGuid localPath remotePath) q := by
  obtain ⟨t, ht, hpairs⟩ := @Database.approveFolderPair_pairs c.owner.host.db c.requester.ownId folderGuid
    c.owner.ownId name localPath remotePath hready
  rw [Effects.after_ok ht] at hdb
  rw [← hdb] at hpairs
  rw [meetRight_owned hpairs h, guid_approvedFolder]
  refine forall₂_congr fun q _ => ?_
  constructor
  · exact fun hfits hguid => hfits rfl hguid.symm
  · exact fun hfits _ hguid => hfits hguid.symm

theorem meetRight_ask (n : ℕ) (deviceName folderGuid name : String) (h : c.MeetRight) :
    (c.step blake3 (.ask n deviceName folderGuid name)).MeetRight ↔
      c.Agrees (.ask n deviceName folderGuid name) := by
  unfold step Agrees
  dsimp only
  cases hnode : c.owner.node? n with
  | none => exact iff_of_true h fun node hsome => by cases hsome
  | some node =>
    obtain ⟨-, hid, hhost⟩ := PairingDevice.node?_eq_some hnode
    have hdb := node.db_answerFolderPair
      ⟨c.requester.ownId, deviceName, folderGuid, name, "bidirectional"⟩
    dsimp only at hdb ⊢
    simp only [Option.some.injEq, forall_eq']
    cases hrow : node.autoApproved c.requester.ownId folderGuid with
    | none =>
      rw [hrow] at hdb
      refine iff_of_true ((meetRight_put ?_).mpr h) fun row happroved => by cases happroved
      rw [hdb, hhost]
      rfl
    | some row =>
      rw [hrow] at hdb
      have hready := node.attachable_of_autoApproved hrow
      unfold Node.db at hready
      rw [hid, hhost] at hdb hready
      simp only [Option.some.injEq, forall_eq']
      exact meetRight_approved hdb hready h

theorem meetRight_approve (n : ℕ) (deviceId folderGuid name localPath : String)
    (remotePath : Option String) (hne : c.owner.ownId ≠ c.requester.ownId) (h : c.MeetRight) :
    (c.step blake3 (.approve n deviceId folderGuid name localPath remotePath)).MeetRight ↔
      c.Agrees (.approve n deviceId folderGuid name localPath remotePath) := by
  unfold step Agrees
  dsimp only
  cases hnode : c.owner.node? n with
  | none => exact iff_of_true h fun hlt => absurd (PairingDevice.node?_eq_none.mp hnode) (not_le.mpr hlt)
  | some node =>
    obtain ⟨hlt, hid, hhost⟩ := PairingDevice.node?_eq_some hnode
    have hdb := @Node.db_approveFolderPair node deviceId folderGuid name localPath remotePath
    rw [hid, hhost] at hdb
    by_cases hdevice : deviceId = c.requester.ownId
    · rw [hdevice] at hdb ⊢
      by_cases hready : c.owner.db.Attachable c.owner.ownId folderGuid
      · rw [meetRight_approved hdb hready h]
        exact ⟨fun hfits _ _ _ => hfits, fun hfits => hfits hlt rfl hready⟩
      · obtain ⟨e, t, ht, hsame⟩ := @Database.approveFolderPair_fails c.owner.host.db c.requester.ownId
          folderGuid c.owner.ownId name localPath remotePath hne hready
        rw [Effects.after_error ht] at hdb
        refine iff_of_true ((meetRight_put ?_).mpr h) fun _ _ hthere => absurd hthere hready
        rw [hdb]
        exact hsame
    · refine iff_of_true ((meetRight_put ?_).mpr h) fun _ hsame => absurd hsame hdevice
      rw [hdb]
      exact Database.samePaired_approveFolderPair _ _ _ _ _ hdevice _

/-- The requester's folders stay paired as they are. -/
theorem meetRight_requester {d : PairingDevice} (hid : d.ownId = c.requester.ownId)
    (hpaths : d.paths = c.requester.paths) (hsame : d.db.pairedFolders c.owner.ownId = c.wired) :
    (Couple.mk c.owner d c.granted).MeetRight ↔ c.MeetRight := by
  refine meetRight_same ?_ hsame rfl hpaths
  show c.owner.db.pairedFolders d.ownId = _
  rw [hid]
  rfl

theorem meetRight_wire (grant : RemoteFolderPair) (localPath name addr : String)
    (hne : c.owner.ownId ≠ c.requester.ownId) (h : c.MeetRight) :
    (c.step blake3 (.wire grant localPath name addr)).MeetRight ↔
      c.Agrees (.wire grant localPath name addr) := by
  let s := c.requester.host.db
  let wire := Database.wireFolderPair grant.folderGuid localPath name c.requester.ownId c.owner.ownId
    grant.remotePath
  have haddr : Effects.Does (Database.SamePaired c.owner.ownId)
      (Database.setDeviceLastAddr c.owner.ownId addr) :=
    Database.samePaired_execute (fun _ => rfl) fun _ => rfl
  unfold step Agrees
  dsimp only
  by_cases hgrant : grant ∈ c.granted
  · rw [if_pos hgrant]
    by_cases hready : s.val.Wirable c.requester.ownId c.owner.ownId grant.folderGuid localPath
    · obtain ⟨id, t, ht, hpairs⟩ := Database.wireFolderPair_pairs name grant.remotePath hne.symm hready
      have hafter : Effects.after (discard wire >>= fun _ =>
          Database.setDeviceLastAddr c.owner.ownId addr) s =
          Effects.after (Database.setDeviceLastAddr c.owner.ownId addr) t := by
        rw [Effects.after, Effects.bind_ok (discard_eq_ok.mpr ⟨id, ht⟩), Effects.after]
      have hpaired : (Effects.after (discard wire >>= fun _ =>
          Database.setDeviceLastAddr c.owner.ownId addr) s).val.pairedFolders c.owner.ownId =
          t.val.pairedFolders c.owner.ownId := by
        rw [hafter]
        exact haddr t
      rw [meetRight_iff]
      show AllFit c.owned ((Effects.after _ s).val.pairedFolders c.owner.ownId) c.owner.paths
        c.requester.paths ↔ _
      rw [hpaired, allFit_wired hpairs.there hpairs.others (meetRight_iff.mp h), guid_wiredPair]
      constructor
      · exact fun hfits _ _ p hp hguid => hfits p hp (by rw [hguid]; rfl) hguid
      · exact fun hfits p hp _ hguid => hfits hgrant hready p hp hguid
    · refine iff_of_true ((@meetRight_requester c (c.requester.after _) rfl rfl ?_).mpr h)
        fun _ hthere => absurd hthere hready
      have hwire : Database.SamePaired c.owner.ownId s (Effects.after wire s) :=
        Database.samePaired_wireFolderPair name grant.remotePath hready
      rcases Effects.after_bind (discard wire)
        (fun _ => Database.setDeviceLastAddr c.owner.ownId addr) s with hsame | ⟨_, t, ht, hlast⟩
      · show (Effects.after _ s).val.pairedFolders c.owner.ownId = _
        rw [hsame, after_discard]
        exact hwire
      · show (Effects.after _ s).val.pairedFolders c.owner.ownId = _
        rw [hlast]
        rw [← after_discard, Effects.after_ok ht] at hwire
        exact (haddr t).trans hwire
  · rw [if_neg hgrant]
    exact iff_of_true h fun hthere => absurd hthere hgrant

theorem meetRight_serve (side : Side) (name path : String) (hne : c.owner.ownId ≠ c.requester.ownId)
    (h : c.MeetRight) : (c.step blake3 (.serve side name path)).MeetRight ↔
      c.Agrees (.serve side name path) := by
  have hfit := meetRight_iff.mp h
  rw [meetRight_iff]
  cases side with
  | owner =>
    have howned : (c.step blake3 (.serve .owner name path)).owned = c.owned :=
      PairingDevice.pairedFolders_registerFolder blake3 name path hne
    have hwired : (c.step blake3 (.serve .owner name path)).wired = c.wired :=
      congrArg c.requester.db.pairedFolders (PairingDevice.ownId_registerFolder blake3 name path)
    have hpaths : (c.step blake3 (.serve .owner name path)).owner.paths = c.owner.paths ++ [path] :=
      PairingDevice.paths_serveFolder blake3 name path
    rw [howned, hwired, hpaths]
    refine forall₂_congr fun p hp => forall₂_congr fun q hq => forall₂_congr fun hsome hguid => ?_
    rw [leadsTo_append]
    obtain ⟨hto, hfrom⟩ := hfit p hp q hq hsome hguid
    exact ⟨fun hall => hall.2.2, fun hnew => ⟨hto, hfrom, hnew⟩⟩
  | requester =>
    have howned : (c.step blake3 (.serve .requester name path)).owned = c.owned :=
      congrArg c.owner.db.pairedFolders (PairingDevice.ownId_registerFolder blake3 name path)
    have hwired : (c.step blake3 (.serve .requester name path)).wired = c.wired :=
      PairingDevice.pairedFolders_registerFolder blake3 name path hne.symm
    have hpaths : (c.step blake3 (.serve .requester name path)).requester.paths =
        c.requester.paths ++ [path] := PairingDevice.paths_serveFolder blake3 name path
    rw [howned, hwired, hpaths]
    refine forall₂_congr fun p hp => forall₂_congr fun q hq => forall₂_congr fun hsome hguid => ?_
    rw [leadsTo_append]
    obtain ⟨hto, hfrom⟩ := hfit p hp q hq hsome hguid
    exact ⟨fun hall => hall.1.2, fun hnew => ⟨⟨hto, hnew⟩, hfrom⟩⟩

/-- **One act**: where the sessions meet, they still do exactly if the act agrees. -/
theorem meetRight_step (hne : c.owner.ownId ≠ c.requester.ownId) (h : c.MeetRight) (act : PairAct) :
    (c.step blake3 act).MeetRight ↔ c.Agrees act := by
  cases act with
  | registerDevice side id name certDer lastAddr =>
    have hsame := meetRight_after side (fun _ => Database.upsertDevice id name certDer lastAddr)
      (fun _ _ => Database.samePaired_execute (fun _ => rfl) fun _ => rfl) hne
    exact iff_of_true (hsame.mpr h) trivial
  | registerFolder side name path =>
    exact iff_of_true ((meetRight_on (fun d => d.ownId_registerFolder blake3 name path)
      (fun d => d.paths_registerFolder blake3 name path)
      (fun d _ hown => d.pairedFolders_registerFolder blake3 name path hown) hne).mpr h) trivial
  | serve side name path => exact meetRight_serve side name path hne h
  | share folderGuid name localPath =>
    have hsame := meetRight_after .owner (fun d => Database.shareFolder folderGuid d.ownId name localPath)
      (fun _ _ => Database.samePaired_execute (fun _ => by split <;> rfl)
        fun _ => by split <;> rfl) hne
    exact iff_of_true (hsame.mpr h) trivial
  | setDiscoverable id discoverable =>
    have hsame := meetRight_after .owner (fun _ => Database.setSharedDiscoverable id discoverable)
      (fun _ _ => Database.samePaired_execute (fun _ => rfl) fun _ => rfl) hne
    exact iff_of_true (hsame.mpr h) trivial
  | unshare id =>
    have hsame := meetRight_after .owner (fun _ => Database.unshareFolder id)
      (fun _ _ => Database.samePaired_execute (fun _ => rfl) fun _ => rfl) hne
    exact iff_of_true (hsame.mpr h) trivial
  | ask n deviceName folderGuid name => exact meetRight_ask n deviceName folderGuid name h
  | approve n deviceId folderGuid name localPath remotePath =>
    exact meetRight_approve n deviceId folderGuid name localPath remotePath hne h
  | deny n deviceId folderGuid =>
    unfold step
    dsimp only
    cases hnode : c.owner.node? n with
    | none => exact iff_of_true h trivial
    | some node =>
      obtain ⟨-, -, hhost⟩ := PairingDevice.node?_eq_some hnode
      refine iff_of_true ((meetRight_put ?_).mpr h) trivial
      show node.host.db.val.pairedFolders _ = _
      rw [hhost]
      rfl
  | wire grant localPath name addr => exact meetRight_wire grant localPath name addr hne h

end Couple

/-- Two devices that have nothing. -/
def Couple.new (ownerId requesterId : String) (ownerProcess requesterProcess : ℕ) : Couple :=
  ⟨⟨ownerId, Host.new ownerProcess, []⟩, ⟨requesterId, Host.new requesterProcess, []⟩, []⟩

theorem Couple.meetRight_new (ownerId requesterId : String) (ownerProcess requesterProcess : ℕ) :
    (Couple.new ownerId requesterId ownerProcess requesterProcess).MeetRight :=
  ⟨fun _ hf => absurd hf List.not_mem_nil, fun _ hf => absurd hf List.not_mem_nil⟩

/-- **The sessions meet all along** exactly if every act agrees. -/
theorem sessions_meet_iff (blake3 : Bytes → FileHash) (ownerId requesterId : String)
    (ownerProcess requesterProcess : ℕ) (acts : List PairAct) (h : ownerId ≠ requesterId) :
    Runs.Always (Couple.step blake3) Couple.MeetRight
        (Couple.new ownerId requesterId ownerProcess requesterProcess) acts ↔
      Runs.Meets (Couple.step blake3) Couple.Agrees
        (Couple.new ownerId requesterId ownerProcess requesterProcess) acts := by
  refine Runs.always_iff_meets (J := fun c => c.owner.ownId ≠ c.requester.ownId)
    (fun c act hne => ?_) (fun c act hne hmeet => Couple.meetRight_step hne hmeet act) h
    (Couple.meetRight_new ownerId requesterId ownerProcess requesterProcess)
  obtain ⟨howner, hrequester⟩ : (c.step blake3 act).owner.ownId = c.owner.ownId ∧
      (c.step blake3 act).requester.ownId = c.requester.ownId := Couple.ownIds_step c act
  rw [howner, hrequester]
  exact hne

/-- The guid of the owner's first folder. -/
def photosGuid : String := newFolderGuid sampleBlake3 1 1

/-- Both serve their photos; the operator approves, and the requester wires what it is granted. -/
def manualApproval : List PairAct :=
  [.serve .owner "Laptop" "/home/photos", .share photosGuid "Photos" "/home/photos",
    .serve .requester "Phone" "/sdcard/photos",
    .registerDevice .requester "laptop" "Laptop" (some [1]) none,
    .approve 0 "phone" photosGuid "Phone" "/home/photos" none, .ask 0 "Phone" photosGuid "Photos",
    .wire ⟨photosGuid, "Phone", "bidirectional", none⟩ "/sdcard/photos" "Photos" "192.168.1.2:9000"]

theorem sessions_meet_manual : Runs.Always (Couple.step sampleBlake3) Couple.MeetRight
    (Couple.new "laptop" "phone" 1 2) manualApproval := by
  refine (sessions_meet_iff sampleBlake3 "laptop" "phone" 1 2 manualApproval (by decide)).mpr ?_
  unfold manualApproval
  simp only [Runs.meets_cons]
  refine ⟨?_, trivial, ?_, trivial, fun _ _ _ => ?_, fun _ _ _ _ q hq => ?_, fun _ _ => ?_, Runs.meets_nil⟩
  · show ∀ p ∈ Couple.owned _, ∀ q ∈ Couple.wired _, _
    decide +kernel
  · show ∀ p ∈ Couple.owned _, ∀ q ∈ Couple.wired _, _
    decide +kernel
  · decide +kernel
  · -- the requester has paired nothing before it wires
    exact absurd hq (List.eq_nil_iff_forall_not_mem.mp (by decide +kernel) q)
  · decide +kernel

/-- Both serve their photos, and the owner knows the requester's certificate. -/
def autoApproval : List PairAct :=
  [.serve .owner "Laptop" "/home/photos", .share photosGuid "Photos" "/home/photos",
    .registerDevice .owner "phone" "Phone" (some [2]) none, .serve .requester "Phone" "/sdcard/photos",
    .registerDevice .requester "laptop" "Laptop" (some [1]) none, .ask 0 "Phone" photosGuid "Photos",
    .wire ⟨photosGuid, "Photos", "bidirectional", some "/home/photos"⟩ "/sdcard/photos" "Photos"
      "192.168.1.2:9000"]

/-- The owner tells the requester to serve the owner's own path. -/
theorem sessions_miss : ¬Runs.Always (Couple.step sampleBlake3) Couple.MeetRight
    (Couple.new "laptop" "phone" 1 2) autoApproval := by
  intro h
  have hmeet := h autoApproval [] rfl
  let c := autoApproval.foldl (Couple.step sampleBlake3) (Couple.new "laptop" "phone" 1 2)
  have howned : c.owned = [⟨some photosGuid, "/home/photos", some "/home/photos"⟩] := by decide +kernel
  have hwired : c.wired = [⟨some photosGuid, "/sdcard/photos", some "/home/photos"⟩] := by decide +kernel
  have hpaths : c.requester.paths = ["/sdcard/photos"] := by decide +kernel
  have hfit : AllFit c.owned c.wired c.owner.paths c.requester.paths := meetRight_iff.mp hmeet
  rw [howned, hwired, hpaths] at hfit
  have hleads := (hfit _ (List.mem_singleton_self _) _ (List.mem_singleton_self _) rfl rfl).1
  revert hleads
  decide

end FerriSync
