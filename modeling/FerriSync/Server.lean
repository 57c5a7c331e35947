/-
# The folder server

A server that holds unknown devices for its operator (`sync_engine/server.rs`,
and the listener in `session.rs`). A connection has presented a certificate
and sent its first messages; the operator approves and denies devices and
folders. Each is a task (`ServerTask`) that goes from one access of the
gate's lock or of the database to the next (`serverStep`), and the tasks'
steps come in any order.

A database call can fail at any time: `faults` says which of those to come do.
A send into the event channel waits for nobody here.

Key definitions: `PairGateInner`, `Inbound`, `Server`, `ServerTask`, `serverStep`.
Key theorems: `peer_serverStep`.
-/
import FerriSync.Protocol
import FerriSync.Registry
import Mathlib.Data.Finset.Insert

namespace FerriSync

/-- How pairing requests of unknown devices are handled. -/
inductive PairPolicy
  /-- Accept every request. -/
  | autoAccept
  /-- Hold unknown devices until the operator approves them. -/
  | confirm
deriving DecidableEq, Repr

def pendingReason : String := "pending confirmation"

def deniedReason : String := "pairing denied by host"

/-- Who the serving device is. -/
structure DeviceInfo where
  id : String
  name : String
  certFingerprint : Bytes
deriving DecidableEq, Repr

/-! ### Messages that are checked before anything else -/

def protocolVersion : UInt32 := 3

def maxHelloFolders : ℕ := 256

inductive HelloError
  | versionMismatch (remote max : UInt32)
  | emptyDeviceId
  | deviceIdTooLong (len max : ℕ)
  | tooManyFolders (count max : ℕ)
  | emptyFolderName (index : ℕ)
deriving DecidableEq, Repr

def Hello.validate (h : Hello) : Except HelloError Unit :=
  if h.protocolVersion > FerriSync.protocolVersion then
    .error (.versionMismatch h.protocolVersion FerriSync.protocolVersion)
  else if h.deviceId = "" then .error .emptyDeviceId
  else if h.deviceId.utf8ByteSize > 128 then
    .error (.deviceIdTooLong h.deviceId.utf8ByteSize 128)
  else if h.folders.length > maxHelloFolders then
    .error (.tooManyFolders h.folders.length maxHelloFolders)
  else match h.folders.findIdx? fun f : HelloFolder => decide (f.name = "") with
    | some index => .error (.emptyFolderName index)
    | none => .ok ()

/-- A connection: the certificate it has presented, the address it comes from,
and what it sends. -/
structure Inbound where
  cert : Option Bytes
  peerIp : Option String
  messages : List SyncMessage

/-- Who a peer is: what its certificate says, not what it claims. -/
def Inbound.identity (blake3 : Bytes → FileHash) (c : Inbound) (claimed : String) : String :=
  match c.cert with
  | some cert => certToDeviceId blake3 cert
  | none => claimed

/-! ### The gate -/

structure PendingPairing where
  deviceId : String
  deviceName : String
  certDer : Option Bytes
deriving DecidableEq, Repr

/-- What is held for the operator, and what the operator has decided. -/
structure PairGateInner where
  pending : List PendingPairing
  denied : Finset String
  folderPending : List RemoteFolderPairRequest
  folderApproved : AList fun _ : String × String => RemoteFolderPair
  folderDenied : Finset (String × String)

namespace PairGateInner

def new : PairGateInner := ⟨[], ∅, [], ∅, ∅⟩

variable (g : PairGateInner)

def isHeld (deviceId : String) : Bool := g.pending.any fun p => decide (p.deviceId = deviceId)

def dropPending (deviceId : String) : PairGateInner :=
  { g with pending := g.pending.filter fun p => decide (p.deviceId ≠ deviceId) }

def dropFolderPending (deviceId folderGuid : String) : PairGateInner :=
  { g with folderPending := g.folderPending.filter fun p =>
      decide (p.deviceId ≠ deviceId) || decide (p.folderGuid ≠ folderGuid) }

/-- A folder request is held once. -/
def holdFolder (req : RemoteFolderPairRequest) : PairGateInner :=
  if g.folderPending.any fun p =>
      decide (p.deviceId = req.deviceId) && decide (p.folderGuid = req.folderGuid) then g
  else { g with folderPending := g.folderPending ++ [req] }

end PairGateInner

inductive Admission
  | accept
  | hold
  | deny
deriving DecidableEq, Repr

/-- What the server reports to its operator. -/
inductive ServerEvent
  | pairRequested (name id : String)
  | folderPairRequested (name id folder : String)
  | devicePaired (name id : String)
deriving DecidableEq, Repr

structure Server where
  policy : PairPolicy
  info : DeviceInfo
  gate : PairGateInner
  storage : Storage
  events : List ServerEvent
  /-- Which of the database calls to come fail. -/
  faults : List Bool

namespace Server

variable (s : Server)

/-- The database call under way fails. -/
def failing : Bool := s.faults.headD false

/-- The database call under way is over. -/
def called : Server := { s with faults := s.faults.tail }

def emit (e : ServerEvent) : Server := { s with events := s.events ++ [e] }

def pairResponse (accepted : Bool) (reason : Option String) : SyncMessage :=
  .pairResponse ⟨accepted, s.info.id, s.info.name, s.info.certFingerprint, reason⟩

end Server

/-! ### What runs on a server -/

/-- The approval of a folder request: by the operator, or at once for the
request of a trusted device. -/
structure FolderApproval where
  deviceId : String
  folderGuid : String
  name : String
  localPath : String
  remotePath : Option String
  origin : Option (Inbound × RemoteFolderPairRequest)

def FolderApproval.grant (a : FolderApproval) : RemoteFolderPair :=
  ⟨a.folderGuid, a.name, "bidirectional", a.remotePath⟩

/-- A connection or an operator's command, by what it does next. -/
inductive ServerTask
  | accepted (c : Inbound)
  | admission (c : Inbound) (req : PairRequest)
  | hold (c : Inbound) (req : PairRequest)
  | respond (c : Inbound) (req : PairRequest) (a : Admission)
  | store (c : Inbound) (req : PairRequest)
  | recordAddr (c : Inbound) (req : PairRequest)
  | authenticate (c : Inbound) (idx : Index)
  | session (c : Inbound) (idx : Index)
  | listShares (c : Inbound)
  | lookupShare (c : Inbound) (req : RemoteFolderPairRequest)
  | lookupGrant (c : Inbound) (req : RemoteFolderPairRequest) (localPath : String)
  | lookupDenial (c : Inbound) (req : RemoteFolderPairRequest) (localPath : String)
  | lookupTrust (c : Inbound) (req : RemoteFolderPairRequest) (localPath : String)
  | holdFolder (c : Inbound) (req : RemoteFolderPairRequest)
  | refileFolder (c : Inbound) (req : RemoteFolderPairRequest)
  | approvePairing (deviceId deviceName : String)
  | storeApproved (deviceId deviceName : String) (certDer : Option Bytes)
  | dropPending (deviceId : String)
  | denyPairing (deviceId : String)
  | approveFolder (a : FolderApproval)
  | storeGrantee (a : FolderApproval)
  | ensureFolder (a : FolderApproval)
  | attachDevice (a : FolderApproval) (folderId : ℕ)
  | denyFolder (deviceId folderGuid : String)
  | closed (c : Option Inbound) (sent : Option SyncMessage)

namespace ServerTask

/-- The connection a task serves. -/
def peer : ServerTask → Option Inbound
  | accepted c => some c
  | admission c _ => some c
  | hold c _ => some c
  | respond c _ _ => some c
  | store c _ => some c
  | recordAddr c _ => some c
  | authenticate c _ => some c
  | session c _ => some c
  | listShares c => some c
  | lookupShare c _ => some c
  | lookupGrant c _ _ => some c
  | lookupDenial c _ _ => some c
  | lookupTrust c _ _ => some c
  | holdFolder c _ => some c
  | refileFolder c _ => some c
  | approvePairing _ _ => none
  | storeApproved _ _ _ => none
  | dropPending _ => none
  | denyPairing _ => none
  | approveFolder a => a.origin.map (·.1)
  | storeGrantee a => a.origin.map (·.1)
  | ensureFolder a => a.origin.map (·.1)
  | attachDevice a _ => a.origin.map (·.1)
  | denyFolder _ _ => none
  | closed c _ => c

/-- A connection that has just been accepted, or a command just given. -/
def begins : ServerTask → Bool
  | accepted _ => true
  | approvePairing _ _ => true
  | denyPairing _ => true
  | approveFolder a => a.origin.isNone
  | denyFolder _ _ => true
  | _ => false

/-- The server has told the peer that it is paired, or serves it the folder. -/
def admitted : ServerTask → Bool
  | store _ _ => true
  | recordAddr _ _ => true
  | session _ _ => true
  | closed (some _) (some (.pairResponse r)) => r.accepted
  | _ => false

/-- What the message that follows the greeting asks for. -/
def dispatch (c : Inbound) : SyncMessage → ServerTask
  | .pairRequest req => admission c req
  | .index idx => authenticate c idx
  | .listSharedFolders => listShares c
  | .requestFolderPair req => lookupShare c req
  | _ => closed (some c) none

/-- The first message may be a greeting, whose claimed identity must be that
of the certificate. -/
def receive (blake3 : Bytes → FileHash) (c : Inbound) : ServerTask :=
  match c.messages with
  | [] => closed (some c) none
  | .hello h :: rest =>
    match h.validate with
    | .error _ => closed (some c) none
    | .ok () =>
      if h.deviceId ≠ c.identity blake3 h.deviceId then closed (some c) none
      else match rest with
        | [] => closed (some c) none
        | m :: _ => dispatch c m
  | m :: _ => dispatch c m

/-- A folder approval that fails: a peer's request is held after all. -/
def approvalFailed (a : FolderApproval) : ServerTask :=
  match a.origin with
  | some (c, req) => refileFolder c req
  | none => closed none none

def approvalDone (a : FolderApproval) : ServerTask :=
  match a.origin with
  | some (c, _) => closed (some c) (some (.folderPairApproved a.grant))
  | none => closed none none

end ServerTask

/-- Where devices listen unless told otherwise. -/
def defaultPort : ℕ := 9847

section

variable (blake3 : Bytes → FileHash)

open ServerTask

/-- A task's next step. -/
def serverStep : ServerTask → Server → ServerTask × Server
  | accepted c, s => (receive blake3 c, s)
  | admission c req, s =>
    match c.cert with
    | some cert =>
      if (!s.failing && (s.storage.getDeviceByCertFingerprint blake3 (blake3 cert)).isSome) ||
          decide (s.policy = .autoAccept) then (respond c req .accept, s.called)
      else (hold c req, s.called)
    | none => if s.policy = .autoAccept then (respond c req .accept, s) else (hold c req, s)
  | hold c req, s =>
    let id := c.identity blake3 req.deviceId
    if id ∈ s.gate.denied then (respond c req .deny, s)
    else if s.gate.isHeld id then (respond c req .hold, s)
    else (respond c req .hold, Server.emit { s with
      gate := { s.gate with pending := s.gate.pending ++ [⟨id, req.deviceName, c.cert⟩] } }
        (.pairRequested req.deviceName id))
  | respond c req .accept, s => (store c req, s)
  | respond c _ .hold, s => (closed (some c) (some (s.pairResponse false (some pendingReason))), s)
  | respond c _ .deny, s => (closed (some c) (some (s.pairResponse false (some deniedReason))), s)
  | store c req, s =>
    if s.failing then (recordAddr c req, s.called)
    else
      let id := c.identity blake3 req.deviceId
      (recordAddr c req, Server.emit { s.called with
        storage := s.storage.upsertDevice id req.deviceName c.cert none }
          (.devicePaired req.deviceName id))
  | recordAddr c req, s =>
    match c.peerIp with
    | none => (closed (some c) (some (s.pairResponse true none)), s)
    | some ip =>
      if s.failing then (closed (some c) (some (s.pairResponse true none)), s.called)
      else (closed (some c) (some (s.pairResponse true none)), { s.called with
        storage := s.storage.setDeviceLastAddr (c.identity blake3 req.deviceId)
          s!"{ip}:{defaultPort}" })
  | authenticate c idx, s =>
    match c.cert with
    | none => (closed (some c) none, s)
    | some cert =>
      if !s.failing && (s.storage.getDeviceByCertFingerprint blake3 (blake3 cert)).isSome then
        (session c idx, s.called)
      else (closed (some c) none, s.called)
  | session c idx, s => (session c idx, s)
  | listShares c, s =>
    let rows := if s.failing then [] else s.storage.listSharedFolders s.info.id
    (closed (some c) (some (.sharedFolders ((rows.filter fun r => r.discoverable && r.enabled).map
      fun r => ⟨r.folderGuid, r.name, "both", r.localPath⟩))), s.called)
  | lookupShare c req, s =>
    let row := if s.failing then none else s.storage.sharedFolderByGuid s.info.id req.folderGuid
    match row with
    | some row =>
      if row.discoverable && row.enabled then
        (lookupGrant c { req with deviceId := c.identity blake3 req.deviceId } row.localPath,
          s.called)
      else (closed (some c) (some (.folderPairRejected "unknown or not shared folder")), s.called)
    | none => (closed (some c) (some (.folderPairRejected "unknown or not shared folder")), s.called)
  | lookupGrant c req localPath, s =>
    match s.gate.folderApproved.lookup (req.deviceId, req.folderGuid) with
    | some grant => (closed (some c) (some (.folderPairApproved grant)), s)
    | none => (lookupDenial c req localPath, s)
  | lookupDenial c req localPath, s =>
    if (req.deviceId, req.folderGuid) ∈ s.gate.folderDenied then
      (closed (some c) (some (.folderPairRejected "denied")), s)
    else (lookupTrust c req localPath, s)
  | lookupTrust c req localPath, s =>
    if !s.failing && (s.storage.getDeviceCert req.deviceId).isSome then
      (approveFolder ⟨req.deviceId, req.folderGuid, req.name, localPath, some localPath,
        some (c, req)⟩, s.called)
    else (holdFolder c req, s.called)
  | holdFolder c req, s =>
    (closed (some c) (some .folderPairPending),
      Server.emit { s with gate := s.gate.holdFolder req }
        (.folderPairRequested req.deviceName req.deviceId req.folderGuid))
  | refileFolder c req, s =>
    (closed (some c) (some .folderPairPending),
      Server.emit { s with gate := { s.gate with folderPending := s.gate.folderPending ++ [req] } }
        (.folderPairRequested req.deviceName req.deviceId req.folderGuid))
  | approvePairing id name, s =>
    (storeApproved id name
      ((s.gate.pending.find? fun p => decide (p.deviceId = id)).bind (·.certDer)), s)
  | storeApproved id name certDer, s =>
    if s.failing then (closed none none, s.called)
    else (dropPending id, { s.called with
      storage := s.storage.upsertDevice id name certDer none })
  | dropPending id, s => (closed none none, { s with gate := s.gate.dropPending id })
  | denyPairing id, s =>
    (closed none none, { s with
      gate := { s.gate.dropPending id with denied := insert id s.gate.denied } })
  | approveFolder a, s =>
    (storeGrantee a, { s with
      gate := { s.gate.dropFolderPending a.deviceId a.folderGuid with
        folderApproved := s.gate.folderApproved.insert (a.deviceId, a.folderGuid) a.grant } })
  | storeGrantee a, s =>
    if s.failing then (approvalFailed a, s.called)
    else (ensureFolder a, { s.called with
      storage := s.storage.upsertDevice a.deviceId a.name none none })
  | ensureFolder a, s =>
    if s.failing then (approvalFailed a, s.called)
    else match s.storage.ensureFolderByGuid a.folderGuid a.localPath a.name s.info.id with
      | .error _ => (approvalFailed a, s.called)
      | .ok (folderId, storage) => (attachDevice a folderId, { s.called with storage := storage })
  | attachDevice a folderId, s =>
    if s.failing then (approvalFailed a, s.called)
    else match s.storage.addFolderDevice folderId a.deviceId "bidirectional" a.remotePath with
      | .error _ => (approvalFailed a, s.called)
      | .ok storage => (approvalDone a, { s.called with storage := storage })
  | denyFolder id guid, s =>
    (closed none none, { s with
      gate := { s.gate.dropFolderPending id guid with
        folderDenied := insert (id, guid) s.gate.folderDenied } })
  | closed c sent, s => (closed c sent, s)

end

end FerriSync
