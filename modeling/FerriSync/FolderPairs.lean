/-
# Requests for folders

How the owner of a share answers a peer that asks to be paired with it, over its
database (`session.rs`, `PairGate` in `server.rs`): a share that is not open is refused,
a grant is given again, a refusal repeated, a peer with a stored certificate approved
at once, and any other held for the operator.

The certificate of the connection has taken the place of the claimed identifier in the
request already (`Inbound.identity`).

Key definitions: `Node`, `approveFolderPair`, `Node.approveFolderPair`,
`Node.requestFolderPair`, `Node.answerFolderPair`.
-/
import FerriSync.Database
import FerriSync.Server

namespace FerriSync

open Transactions

namespace Database

/-- The shares of a device, the latest first. -/
def listSharedFolders (deviceId : String) (db : Database) : List SharedFolderRow :=
  (db.sharedFolders.filter fun r => decide (r.deviceId = deviceId)).mergeSort
    fun a b => decide (b.id ≤ a.id)

/-- The share of a device under a guid. -/
def sharedFolderByGuid (deviceId folderGuid : String) (db : Database) : Option SharedFolderRow :=
  (db.sharedFolders.filter fun r =>
    decide (r.deviceId = deviceId) && decide (r.folderGuid = folderGuid)).getLast?

def getDeviceCert (id : String) (db : Database) : Option Bytes :=
  (db.devices.find? fun d => decide (d.id = id)).bind (·.certDer)

/-- Attach a peer to the folder of a guid, which is made at the path if there is
none. -/
def approveFolderPair (ownerId deviceId folderGuid name localPath : String)
    (remotePath : Option String) : Sql Unit := do
  upsertDevice deviceId name none none
  let folderId ← ensureFolderByGuid folderGuid localPath name ownerId
  addFolderDevice folderId deviceId "bidirectional" remotePath

end Database

/-- Outcome of a folder-pairing request. -/
inductive FolderPairOutcome
  | pending
  | approved (grant : RemoteFolderPair)
  | rejected
deriving DecidableEq, Repr

/-- A device that serves its folders: its identifier, its database and its gate. -/
structure Node where
  ownId : String
  host : Host
  gate : PairGateInner

namespace Node

def new (processId : ℕ) (ownId : String) : Node := ⟨ownId, Host.new processId, PairGateInner.new⟩

variable (n : Node)

def db : Database := n.host.db.val

/-- The node after some statements, whether they fail or not. -/
def after (x : Sql Unit) : Node := { n with host := { n.host with db := Effects.after x n.host.db } }

/-- The grant is recorded before the peer is attached, and stays if that fails. -/
def approveFolderPair (deviceId folderGuid name localPath : String) (remotePath : Option String) :
    Option RemoteFolderPair × Node :=
  let grant : RemoteFolderPair := ⟨folderGuid, name, "bidirectional", remotePath⟩
  let n := { n with
    gate := { n.gate.dropFolderPending deviceId folderGuid with
      folderApproved := n.gate.folderApproved.insert (deviceId, folderGuid) grant } }
  let attach := Database.approveFolderPair n.ownId deviceId folderGuid name localPath remotePath
  match attach n.host.db with
  | .ok _ _ => (some grant, n.after attach)
  | .error _ _ => (none, n.after attach)

/-- Process a folder-level pairing request. -/
def requestFolderPair (req : RemoteFolderPairRequest) (localPath : String) : FolderPairOutcome × Node :=
  match n.gate.folderApproved.lookup (req.deviceId, req.folderGuid) with
  | some grant => (.approved grant, n)
  | none =>
    if (req.deviceId, req.folderGuid) ∈ n.gate.folderDenied then (.rejected, n)
    else if (n.db.getDeviceCert req.deviceId).isSome then
      match n.approveFolderPair req.deviceId req.folderGuid req.name localPath (some localPath) with
      | (some grant, n) => (.approved grant, n)
      | (none, n) =>
        (.pending, { n with gate := { n.gate with folderPending := n.gate.folderPending ++ [req] } })
    else (.pending, { n with gate := n.gate.holdFolder req })

/-- Only ever pair to a share that is discoverable. -/
def answerFolderPair (req : RemoteFolderPairRequest) : FolderPairOutcome × Node :=
  match n.db.sharedFolderByGuid n.ownId req.folderGuid with
  | some row =>
    if row.discoverable && row.enabled then n.requestFolderPair req row.localPath else (.rejected, n)
  | none => (.rejected, n)

def denyFolderPair (deviceId folderGuid : String) : Node := { n with
  gate := { n.gate.dropFolderPending deviceId folderGuid with
    folderDenied := insert (deviceId, folderGuid) n.gate.folderDenied } }

/-- What is listed to whoever asks. -/
def visibleShares : List SharedFolderRow :=
  (n.db.listSharedFolders n.ownId).filter fun r => r.discoverable && r.enabled

end Node

end FerriSync
