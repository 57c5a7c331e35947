/-
# The two state stores

The interface `StateStore` (`persistence/traits.rs`) as the calls that can be made
of it and the replies to them, and its two implementations: maps in memory
(`memory.rs`) and tables in SQLite (`sqlite.rs`), whose statements fail where a
reference would lead nowhere.

The maps are iterated in an order of their own (`HashOrder`), which comes with each
call. The times at which a device was last seen are left out, and `recorded_at`.

Key definitions: `StoreOp`, `StoreReply`, `StateStore`, `InMemoryStateStore.perform`,
`SqliteStateStore.perform`.
Key theorems: `SqliteStateStore.violation_eq_none`.
-/
import FerriSync.Direction
import FerriSync.Lib.Keyed
import FerriSync.Lib.Transactions

namespace FerriSync

namespace Persistence

/-! ### The interface -/

/-- BLAKE3 hash of a TLS certificate. -/
structure CertificateFingerprint where
  bytes : Bytes
deriving DecidableEq

def CertificateFingerprint.fromDer (blake3 : Bytes → FileHash) (der : Bytes) :
    CertificateFingerprint := ⟨(blake3 der).bytes⟩

structure Device where
  id : DeviceId
  name : String
  fingerprint : Option CertificateFingerprint
  lastAddr : Option String
deriving DecidableEq

structure Folder where
  id : FolderId
  localPath : String
  deviceId : DeviceId
  direction : SyncDirection
  lastSyncAt : Option ℤ
deriving DecidableEq

structure FileMetadata where
  path : FilePath
  folderId : FolderId
  kind : EntryKind
  mtime : ℤ
  size : ℤ
  hash : FileHash
  deviceId : DeviceId
  version : ℤ
  localVersion : ℤ
  remoteVersion : ℤ
  localMtime : ℤ
  remoteMtime : ℤ
deriving DecidableEq

structure HistoryEntry where
  folderId : FolderId
  path : FilePath
  deviceId : DeviceId
  action : String
  version : ℤ
  mtime : ℤ
  hash : Bytes
  size : ℤ
deriving DecidableEq

/-- A finished sync session. The counts are `usize`, the bytes `u64`. -/
structure SessionRecord where
  ts : ℤ
  direction : String
  peerDevice : String
  addr : String
  folderPath : String
  pushedCount : UInt64
  pulledCount : UInt64
  conflictsCount : UInt64
  pushedBytes : UInt64
  pulledBytes : UInt64
deriving DecidableEq

/-- Summary of what a device removal deleted. -/
structure DeviceCleanup where
  sessionsRemoved : ℕ
  historyRemoved : ℕ
  metadataRemoved : ℕ
  foldersRemoved : ℕ
  deviceRemoved : ℕ
deriving DecidableEq

/-- A call. -/
inductive StoreOp
  | getDevice (id : DeviceId)
  | upsertDevice (device : Device)
  | listDevices
  | removeDevice (id : DeviceId)
  | getDeviceCert (id : DeviceId)
  | setDeviceCert (id : DeviceId) (certDer : Bytes)
  | getDeviceByCertFingerprint (fingerprint : CertificateFingerprint)
  | deviceLastAddr (id : DeviceId)
  | setDeviceLastAddr (id : DeviceId) (addr : String)
  | getFolder (id : FolderId)
  | listFolders
  | addFolder (localPath : String) (deviceId : DeviceId) (direction : String)
  | removeFolder (id : FolderId)
  | setFolderLastSync (id : FolderId) (ts : ℤ)
  | setFolderDevice (id : FolderId) (deviceId : DeviceId)
  | getFileMetadata (folderId : FolderId) (path : FilePath)
  | upsertFileMetadata (row : FileMetadata)
  | recordHistory (entry : HistoryEntry)
  | getTombstones (folderId : FolderId) (since : UInt64)
  | addTombstone (tomb : Tombstone)
  | recordSession (session : SessionRecord)
  | listRecentSessions (limit : ℕ)
  | clearAllSyncState
  | removeSyncFolders (localPath : String) (deviceId : Option DeviceId)

/-- What a call that succeeds returns. -/
inductive StoreReply
  | done
  | device (device : Option Device)
  | devices (devices : List Device)
  | cleanup (summary : DeviceCleanup)
  | cert (certDer : Option Bytes)
  | deviceId (id : Option DeviceId)
  | addr (addr : Option String)
  | folder (folder : Option Folder)
  | folders (folders : List Folder)
  | folderId (id : FolderId)
  | metadata (row : Option FileMetadata)
  | tombstones (tombs : List Tombstone)
  | sessions (sessions : List SessionRecord)
  | cleared (folders devices : ℕ)
  | removed (rows : ℕ)
deriving DecidableEq

/-- Why a call fails. -/
inductive StoreError
  /-- A reference would lead nowhere. -/
  | foreignKeyFailed
  /-- No number is left for a row. -/
  | full
  /-- A number that is read does not fit the type it is read as. -/
  | outOfRange
deriving DecidableEq

/-- An order in which a map gives its entries. -/
structure HashOrder (α : Type) where
  order : List α → List α
  perm : ∀ rows, (order rows).Perm rows

/-- The order of insertion. -/
def HashOrder.inserted (α : Type) : HashOrder α := ⟨id, fun rows => List.Perm.refl rows⟩

/-- An implementation of the interface. -/
structure StateStore (σ : Type) where
  perform : HashOrder Device → StoreOp → σ → Except StoreError StoreReply × σ

/-- The direction a string stands for; any other is taken as the default. -/
def parseDirection (s : String) : SyncDirection :=
  match SyncDirection.fromStr s with
  | .ok d => d
  | .error _ => .bidirectional

/-- `n as i64`. -/
def folderNumber (n : ℕ) : FolderId := ⟨Int64.ofNat n⟩

/-- Rows with the first key first. -/
def sortById {α : Type} (id : α → FolderId) (rows : List α) : List α :=
  rows.mergeSort fun a b => decide ((id a).val ≤ (id b).val)

/-! ### In memory -/

structure InMemoryStateStore where
  devices : Keyed Device.id
  folders : Keyed Folder.id
  fileMetadata : Keyed fun m : FileMetadata => (m.folderId, m.path)
  history : List HistoryEntry
  tombstones : List Tombstone
  sessions : List SessionRecord
  /-- How many folders have been added. -/
  nextFolderId : ℕ

namespace InMemoryStateStore

def new : InMemoryStateStore := ⟨.empty, .empty, .empty, [], [], [], 0⟩

variable (blake3 : Bytes → FileHash)

def setDeviceCert (id : DeviceId) (certDer : Bytes) (s : InMemoryStateStore) : InMemoryStateStore :=
  let fp := CertificateFingerprint.fromDer blake3 certDer
  match s.devices.find id with
  | some device => { s with devices := s.devices.put { device with fingerprint := some fp } }
  | none => { s with devices := s.devices.put ⟨id, "", some fp, none⟩ }

def removeDevice (id : DeviceId) (s : InMemoryStateStore) : DeviceCleanup × InMemoryStateStore :=
  let devices := s.devices.filter fun d => !decide (d.id = id)
  let owned := fun f : Folder => decide (f.deviceId = id)
  let ids := (s.folders.filter owned).keys
  let folders := s.folders.filter fun f => !owned f
  let metadata := s.fileMetadata.filter fun m => !decide (m.folderId ∈ ids)
  let history := s.history.filter fun e => !decide (e.deviceId = id) && !decide (e.folderId ∈ ids)
  let sessions := s.sessions.filter fun r => !decide (r.peerDevice = id.val)
  ({ sessionsRemoved := s.sessions.length - sessions.length
     historyRemoved := s.history.length - history.length
     metadataRemoved := s.fileMetadata.rows.length - metadata.rows.length
     foldersRemoved := s.folders.rows.length - folders.rows.length
     deviceRemoved := s.devices.rows.length - devices.rows.length },
    { s with
      devices := devices
      folders := folders
      fileMetadata := metadata
      history := history
      sessions := sessions })

def addFolder (localPath : String) (deviceId : DeviceId) (direction : String)
    (s : InMemoryStateStore) : FolderId × InMemoryStateStore :=
  let id := folderNumber (s.nextFolderId + 1)
  (id, { s with
    nextFolderId := s.nextFolderId + 1
    folders := s.folders.put ⟨id, localPath, deviceId, parseDirection direction, none⟩ })

/-- The folders that a removal leaves. -/
def spared (localPath : String) (deviceId : Option DeviceId) (f : Folder) : Bool :=
  if f.localPath ≠ localPath then true
  else match deviceId with
    | some dev => !decide (f.deviceId = dev)
    | none => false

def perform (order : HashOrder Device) (op : StoreOp) (s : InMemoryStateStore) :
    Except StoreError StoreReply × InMemoryStateStore :=
  match op with
  | .getDevice id => (.ok (.device (s.devices.find id)), s)
  | .upsertDevice device => (.ok .done, { s with devices := s.devices.put device })
  | .listDevices => (.ok (.devices (order.order s.devices.rows)), s)
  | .removeDevice id => (.ok (.cleanup (s.removeDevice id).1), (s.removeDevice id).2)
  | .getDeviceCert id =>
    (.ok (.cert (((s.devices.find id).bind (·.fingerprint)).map (·.bytes))), s)
  | .setDeviceCert id certDer => (.ok .done, s.setDeviceCert blake3 id certDer)
  | .getDeviceByCertFingerprint fp =>
    (.ok (.deviceId (((order.order s.devices.rows).find? fun d =>
      decide (d.fingerprint = some fp)).map (·.id))), s)
  | .deviceLastAddr id => (.ok (.addr ((s.devices.find id).bind (·.lastAddr))), s)
  | .setDeviceLastAddr id addr =>
    (.ok .done, { s with devices := s.devices.modify id fun d => { d with lastAddr := some addr } })
  | .getFolder id => (.ok (.folder (s.folders.find id)), s)
  | .listFolders => (.ok (.folders (sortById Folder.id s.folders.rows)), s)
  | .addFolder localPath deviceId direction =>
    let added := s.addFolder localPath deviceId direction
    (.ok (.folderId added.1), added.2)
  | .removeFolder id =>
    (.ok .done, { s with folders := s.folders.filter fun f => !decide (f.id = id) })
  | .setFolderLastSync id ts =>
    (.ok .done, { s with folders := s.folders.modify id fun f => { f with lastSyncAt := some ts } })
  | .setFolderDevice id deviceId =>
    (.ok .done, { s with folders := s.folders.modify id fun f => { f with deviceId := deviceId } })
  | .getFileMetadata folderId path => (.ok (.metadata (s.fileMetadata.find (folderId, path))), s)
  | .upsertFileMetadata row => (.ok .done, { s with fileMetadata := s.fileMetadata.put row })
  | .recordHistory entry => (.ok .done, { s with history := s.history ++ [entry] })
  | .getTombstones folderId since =>
    (.ok (.tombstones (s.tombstones.filter fun t =>
      decide (t.folderId = folderId) && decide (since ≤ t.deletedAt))), s)
  | .addTombstone tomb => (.ok .done, { s with tombstones := s.tombstones ++ [tomb] })
  | .recordSession session => (.ok .done, { s with sessions := s.sessions ++ [session] })
  | .listRecentSessions limit => (.ok (.sessions (s.sessions.reverse.take limit)), s)
  | .clearAllSyncState =>
    (.ok (.cleared s.folders.rows.length s.devices.rows.length),
      { s with folders := .empty, devices := .empty, fileMetadata := .empty, history := [] })
  | .removeSyncFolders localPath deviceId =>
    let folders := s.folders.filter (spared localPath deviceId)
    (.ok (.removed (s.folders.rows.length - folders.rows.length)), { s with folders := folders })

def store : StateStore InMemoryStateStore := ⟨perform blake3⟩

end InMemoryStateStore

/-! ### In SQLite -/

namespace Sqlite

structure DeviceRow where
  id : DeviceId
  name : String
  certDer : Option Bytes
  lastAddr : Option String
deriving DecidableEq

structure FolderRow where
  id : FolderId
  localPath : String
  deviceId : DeviceId
  direction : String
  lastSyncAt : Option ℤ
deriving DecidableEq

structure MetadataRow where
  path : FilePath
  folderId : FolderId
  mtime : ℤ
  size : ℤ
  hash : Bytes
  deviceId : DeviceId
  version : ℤ := 0
  localVersion : ℤ := 0
  remoteVersion : ℤ := 0
  localMtime : ℤ := 0
  remoteMtime : ℤ := 0
deriving DecidableEq

structure SessionRow where
  ts : ℤ
  direction : String
  peerDevice : String
  addr : String
  folderPath : String
  pushedCount : Int64
  pulledCount : Int64
  conflictsCount : Int64
  pushedBytes : Int64
  pulledBytes : Int64
deriving DecidableEq

structure TombstoneRow where
  folderId : FolderId
  path : FilePath
  deviceId : DeviceId
  deletedAt : Int64
deriving DecidableEq

/-- The tables. -/
structure Tables where
  devices : Keyed DeviceRow.id
  syncFolders : Keyed FolderRow.id
  fileMetadata : Keyed fun m : MetadataRow => (m.folderId, m.path)
  fileHistory : List HistoryEntry
  syncSessions : List SessionRow
  tombstones : List TombstoneRow
  /-- The largest number that a row of `sync_folders` has had. -/
  folderSeq : ℕ

/-- Every reference leads to a row. -/
structure Tables.References (t : Tables) : Prop where
  folder : ∀ f ∈ t.syncFolders.rows, f.deviceId ∈ t.devices.keys
  metadata : ∀ m ∈ t.fileMetadata.rows, m.folderId ∈ t.syncFolders.keys
  history : ∀ h ∈ t.fileHistory, h.folderId ∈ t.syncFolders.keys
  tombstone : ∀ t' ∈ t.tombstones, t'.folderId ∈ t.syncFolders.keys

instance (t : Tables) : Decidable t.References :=
  decidable_of_iff ((∀ f ∈ t.syncFolders.rows, f.deviceId ∈ t.devices.keys) ∧
      (∀ m ∈ t.fileMetadata.rows, m.folderId ∈ t.syncFolders.keys) ∧
      (∀ h ∈ t.fileHistory, h.folderId ∈ t.syncFolders.keys) ∧
      ∀ t' ∈ t.tombstones, t'.folderId ∈ t.syncFolders.keys)
    ⟨fun ⟨h1, h2, h3, h4⟩ => ⟨h1, h2, h3, h4⟩, fun ⟨h1, h2, h3, h4⟩ => ⟨h1, h2, h3, h4⟩⟩

def violation (t : Tables) : Option StoreError :=
  if t.References then none else some .foreignKeyFailed

theorem violation_eq_none {t : Tables} : violation t = none ↔ t.References := by
  unfold violation
  split_ifs with h
  · exact iff_of_true rfl h
  · exact iff_of_false (fun heq => by cases heq) h

abbrev Sql (α : Type) := Transactions.Sql violation α

open Transactions

/-- `CertificateFingerprint` of what the column holds. -/
def DeviceRow.device (row : DeviceRow) : Device :=
  ⟨row.id, row.name, row.certDer.map CertificateFingerprint.mk, row.lastAddr⟩

def FolderRow.folder (row : FolderRow) : Folder :=
  ⟨row.id, row.localPath, row.deviceId, parseDirection row.direction, row.lastSyncAt⟩

def MetadataRow.metadata (row : MetadataRow) : FileMetadata where
  path := row.path
  folderId := row.folderId
  kind := .file
  mtime := row.mtime
  size := row.size
  hash := FileHash.ofVec row.hash
  deviceId := row.deviceId
  version := row.version
  localVersion := row.localVersion
  remoteVersion := row.remoteVersion
  localMtime := row.localMtime
  remoteMtime := row.remoteMtime

def TombstoneRow.tombstone (row : TombstoneRow) : Tombstone :=
  ⟨row.path, row.folderId, row.deviceId, row.deletedAt.toUInt64⟩

/-- A count is read as a `usize`. -/
def readCount (n : Int64) : Option UInt64 :=
  if n < 0 then none else some n.toUInt64

def SessionRow.session (row : SessionRow) : Option SessionRecord := do
  let pushed ← readCount row.pushedCount
  let pulled ← readCount row.pulledCount
  let conflicts ← readCount row.conflictsCount
  return ⟨row.ts, row.direction, row.peerDevice, row.addr, row.folderPath, pushed, pulled, conflicts,
    row.pushedBytes.toUInt64, row.pulledBytes.toUInt64⟩

/-- `INSERT .. ON CONFLICT(id) DO UPDATE`: what is not given is kept. -/
def putDevice (device : Device) (t : Tables) : Tables := { t with
  devices := t.devices.put
    (match t.devices.find device.id with
    | some old => ⟨device.id, device.name, (device.fingerprint.map (·.bytes)).or old.certDer,
        device.lastAddr.or old.lastAddr⟩
    | none => ⟨device.id, device.name, device.fingerprint.map (·.bytes), device.lastAddr⟩) }

def setCert (id : DeviceId) (certDer : Bytes) (t : Tables) : Tables :=
  { t with devices := t.devices.modify id fun d => { d with certDer := some certDer } }

def setLastAddr (id : DeviceId) (addr : String) (t : Tables) : Tables :=
  { t with devices := t.devices.modify id fun d => { d with lastAddr := some addr } }

/-- `DELETE FROM sync_folders`. -/
def deleteFolders (doomed : FolderRow → Bool) (t : Tables) : Tables :=
  { t with syncFolders := t.syncFolders.filter fun f => !doomed f }

/-- Delete rows of a table; how many there were. -/
def delete {α : Type} (rows : Tables → List α) (doomed : Tables → α → Bool) (erase : Tables → Tables) :
    Sql ℕ := do
  let n ← query fun t => ((rows t).filter (doomed t)).length
  execute erase
  return n

/-- The folders of a device. -/
def ownedIds (id : DeviceId) (t : Tables) : List FolderId :=
  (t.syncFolders.filter fun f => decide (f.deviceId = id)).keys

/-- The history that goes with a device. -/
def historyOf (id : DeviceId) (t : Tables) (h : HistoryEntry) : Bool :=
  decide (h.deviceId = id) || decide (h.folderId ∈ ownedIds id t)

def metadataOf (id : DeviceId) (t : Tables) (m : MetadataRow) : Bool :=
  decide (m.folderId ∈ ownedIds id t)

def removeDevice (id : DeviceId) : Sql DeviceCleanup := transaction do
  let sessions ← delete (·.syncSessions) (fun _ r => decide (r.peerDevice = id.val))
    fun t => { t with syncSessions := t.syncSessions.filter fun r => !decide (r.peerDevice = id.val) }
  let history ← delete (·.fileHistory) (historyOf id)
    fun t => { t with fileHistory := t.fileHistory.filter fun h => !historyOf id t h }
  let metadata ← delete (·.fileMetadata.rows) (metadataOf id)
    fun t => { t with fileMetadata := t.fileMetadata.filter fun m => !metadataOf id t m }
  let folders ← delete (·.syncFolders.rows) (fun _ f => decide (f.deviceId = id))
    (deleteFolders fun f => decide (f.deviceId = id))
  let device ← delete (·.devices.rows) (fun _ d => decide (d.id = id))
    fun t => { t with devices := t.devices.filter fun d => !decide (d.id = id) }
  return ⟨sessions, history, metadata, folders, device⟩

/-- The largest number of a row. -/
def maxNumber : ℕ := 9223372036854775807

def addFolder (localPath : String) (deviceId : DeviceId) (direction : String) : Sql FolderId := do
  let seq ← query (·.folderSeq)
  if maxNumber ≤ seq then throw .full
  else
    execute fun t => { t with
      folderSeq := seq + 1
      syncFolders := t.syncFolders.put ⟨folderNumber (seq + 1), localPath, deviceId, direction, none⟩ }
    return folderNumber (seq + 1)

/-- The statement of `upsert_file_metadata` names six columns. -/
def putMetadata (row : FileMetadata) (t : Tables) : Tables := { t with
  fileMetadata := t.fileMetadata.put
    (match t.fileMetadata.find (row.folderId, row.path) with
    | some old => { old with
        mtime := row.mtime, size := row.size, hash := row.hash.bytes, deviceId := row.deviceId }
    | none =>
      { path := row.path, folderId := row.folderId, mtime := row.mtime, size := row.size,
        hash := row.hash.bytes, deviceId := row.deviceId }) }

/-- The folders that a removal deletes. -/
def doomed (localPath : String) (deviceId : Option DeviceId) (f : FolderRow) : Bool :=
  decide (f.localPath = localPath) &&
    match deviceId with
    | some dev => decide (f.deviceId = dev)
    | none => true

def clearAllSyncState : Sql (ℕ × ℕ) := transaction do
  execute fun t => { t with fileHistory := [] }
  execute fun t => { t with fileMetadata := .empty }
  let folders ← delete (·.syncFolders.rows) (fun _ _ => true) fun t => { t with syncFolders := .empty }
  let devices ← delete (·.devices.rows) (fun _ _ => true) fun t => { t with devices := .empty }
  return (folders, devices)

def sessionRow (r : SessionRecord) : SessionRow :=
  ⟨r.ts, r.direction, r.peerDevice, r.addr, r.folderPath, r.pushedCount.toInt64, r.pulledCount.toInt64,
    r.conflictsCount.toInt64, r.pushedBytes.toInt64, r.pulledBytes.toInt64⟩

/-- The sessions of the last rows, if all of them can be read. -/
def listRecentSessions (limit : ℕ) : Sql (List SessionRecord) := do
  let rows ← query fun t => t.syncSessions.reverse.take limit
  match rows.mapM SessionRow.session with
  | some sessions => return sessions
  | none => throw .outOfRange

variable (blake3 : Bytes → FileHash)

/-- The row, of those with a certificate the first one, whose certificate has the
fingerprint. -/
def deviceByCertFingerprint (fp : CertificateFingerprint) (t : Tables) : Option DeviceId :=
  (t.devices.rows.find? fun d =>
    decide (d.certDer.map (CertificateFingerprint.fromDer blake3) = some fp)).map (·.id)

def statement (op : StoreOp) : Sql StoreReply :=
  match op with
  | .getDevice id => query fun t => .device ((t.devices.find id).map (·.device))
  | .upsertDevice device => do execute (putDevice device); return .done
  | .listDevices => query fun t => .devices (t.devices.rows.map (·.device))
  | .removeDevice id => do return .cleanup (← removeDevice id)
  | .getDeviceCert id => query fun t => .cert ((t.devices.find id).bind (·.certDer))
  | .setDeviceCert id certDer => do execute (setCert id certDer); return .done
  | .getDeviceByCertFingerprint fp =>
    query fun t => .deviceId (deviceByCertFingerprint blake3 fp t)
  | .deviceLastAddr id => query fun t => .addr ((t.devices.find id).bind (·.lastAddr))
  | .setDeviceLastAddr id addr => do execute (setLastAddr id addr); return .done
  | .getFolder id => query fun t => .folder ((t.syncFolders.find id).map (·.folder))
  | .listFolders =>
    query fun t => .folders ((sortById FolderRow.id t.syncFolders.rows).map (·.folder))
  | .addFolder localPath deviceId direction => do
    return .folderId (← addFolder localPath deviceId direction)
  | .removeFolder id => do execute (deleteFolders fun f => decide (f.id = id)); return .done
  | .setFolderLastSync id ts => do
    execute fun t => { t with
      syncFolders := t.syncFolders.modify id fun f => { f with lastSyncAt := some ts } }
    return .done
  | .setFolderDevice id deviceId => do
    execute fun t => { t with
      syncFolders := t.syncFolders.modify id fun f => { f with deviceId := deviceId } }
    return .done
  | .getFileMetadata folderId path =>
    query fun t => .metadata ((t.fileMetadata.find (folderId, path)).map (·.metadata))
  | .upsertFileMetadata row => do execute (putMetadata row); return .done
  | .recordHistory entry => do
    execute fun t => { t with fileHistory := t.fileHistory ++ [entry] }
    return .done
  | .getTombstones folderId since =>
    query fun t => .tombstones ((t.tombstones.filter fun r =>
      decide (r.folderId = folderId) && decide (since.toInt64 ≤ r.deletedAt)).map (·.tombstone))
  | .addTombstone tomb => do
    execute fun t => { t with tombstones := t.tombstones ++
      [⟨tomb.folderId, tomb.path, tomb.deviceId, tomb.deletedAt.toInt64⟩] }
    return .done
  | .recordSession session => do
    execute fun t => { t with syncSessions := t.syncSessions ++ [sessionRow session] }
    return .done
  | .listRecentSessions limit => do return .sessions (← listRecentSessions limit)
  | .clearAllSyncState => do
    let (folders, devices) ← clearAllSyncState
    return .cleared folders devices
  | .removeSyncFolders localPath deviceId => do
    return .removed (← delete (·.syncFolders.rows) (fun _ => doomed localPath deviceId)
      (deleteFolders (doomed localPath deviceId)))

end Sqlite

abbrev SqliteStateStore := Transactions.State Sqlite.violation

namespace SqliteStateStore

/-- An empty database. -/
def opened : SqliteStateStore where
  val := ⟨.empty, .empty, .empty, [], [], [], 0⟩
  valid := Sqlite.violation_eq_none.mpr ⟨by simp [Keyed.empty], by simp [Keyed.empty], by simp, by simp⟩

def perform (blake3 : Bytes → FileHash) (_ : HashOrder Device) (op : StoreOp) (s : SqliteStateStore) :
    Except StoreError StoreReply × SqliteStateStore :=
  match Sqlite.statement blake3 op s with
  | .ok reply s' => (.ok reply, s')
  | .error e s' => (.error e, s')

def store (blake3 : Bytes → FileHash) : StateStore SqliteStateStore := ⟨perform blake3⟩

end SqliteStateStore

end Persistence

end FerriSync
