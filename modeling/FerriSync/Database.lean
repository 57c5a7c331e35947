/-
# The database's operations

The operations of `Storage` that change something (`storage/mod.rs`), statement by
statement, and `Storage::open` (`reopen`). Where the source opens a transaction so
does the model; elsewhere each statement is committed by itself.

The process in which they run has a number, from which the identifiers of its folders
are made (`newFolderGuid`).

Key definitions: `newFolderGuid`, `addSyncFolder`, `wireFolderPair`, `removeDevice`,
`remapOf`, `reconcileDevicesByCert`, `reopen`, `StorageOp`, `Host.perform`.
Key theorems: `reopen_valid`.
-/
import FerriSync.Session
import FerriSync.Tables

namespace FerriSync

open Transactions

/-! ### Identifiers of folders -/

/-- `to_le_bytes`. -/
def leBytes : ℕ → ℕ → Bytes
  | 0, _ => []
  | n + 1, x => UInt8.ofNat x :: leBytes n (x / 256)

/-- Mint a stable, globally-unique folder id. -/
def newFolderGuid (blake3 : Bytes → FileHash) (processId folderId : ℕ) : String :=
  "f-" ++ String.ofList (hexBytes (blake3
    ("ferrisync-folder-guid-v1".toUTF8.toList ++ leBytes 8 folderId ++ leBytes 4 processId)).bytes)

/-- How many finished sessions to keep in `sync_sessions`. -/
def maxSessionHistory : ℕ := 100

section

variable (blake3 : Bytes → FileHash)

/-! ### Devices -/

/-- A certificate or address that is not given is kept. -/
def putDevice (id name : String) (certDer : Option Bytes) (lastAddr : Option String)
    (db : Database) : Database := { db with
  devices := upsert (fun d : Db.Device => decide (d.id = id))
    (fun d => ⟨d.id, name, certDer.or d.certDer, lastAddr.or d.lastAddr⟩)
    ⟨id, name, certDer, lastAddr⟩ db.devices }

namespace Database

def upsertDevice (id name : String) (certDer : Option Bytes) (lastAddr : Option String) : Sql Unit :=
  execute (putDevice id name certDer lastAddr)

/-- A name that is empty does not replace the old one. -/
def ensureSelfRow (id : String) (certDer : Bytes) (name : String) : Sql Unit :=
  execute fun db => { db with
    devices := upsert (fun d : Db.Device => decide (d.id = id))
      (fun d => ⟨d.id, if name = "" then d.name else name, some certDer, d.lastAddr⟩)
      ⟨id, name, some certDer, none⟩ db.devices }

def setDeviceLastAddr (id addr : String) : Sql Unit :=
  execute fun db => { db with
    devices := db.devices.map fun d => if d.id = id then { d with lastAddr := some addr } else d }

def setDeviceCert (id : String) (certDer : Bytes) : Sql Unit :=
  execute fun db => { db with
    devices := upsert (fun d : Db.Device => decide (d.id = id))
      (fun d => { d with certDer := some certDer }) ⟨id, id, some certDer, none⟩ db.devices }

/-! ### Folders and their pairs -/

/-- A pair that is there gets the mode, keeps its remote path, and is enabled. -/
def putPair (folderId : ℕ) (deviceId mode : String) (remotePath : Option String) (db : Database) :
    Database := { db with
  folderDevices := upsert
    (fun p : Db.FolderDevice => decide (p.folderId = folderId) && decide (p.deviceId = deviceId))
    (fun p => { p with mode := mode, remotePath := remotePath.or p.remotePath, enabled := true })
    ⟨folderId, deviceId, mode, remotePath, true⟩ db.folderDevices }

/-- `INSERT INTO sync_folders`; the number it gets. -/
def insertSyncFolder (localPath name deviceId direction folderGuid : String) : Sql ℕ := do
  execute fun db => db.insertFolder localPath (some name) deviceId direction (some folderGuid)
  query (·.folderSeq)

/-- Attach a device to the folder at a path, which is registered if it is not yet. -/
def addSyncFolder (processId : ℕ) (localPath deviceId direction : String) : Sql ℕ := transaction do
  let folderId ← do
    match ← query fun db => db.syncFolders.find? fun f => decide (f.localPath = localPath) with
    | some f => pure f.id
    | none =>
      let nextId ← query fun db => db.maxFolderId + 1
      insertSyncFolder localPath (Storage.pathLabel localPath) deviceId direction
        (newFolderGuid blake3 processId nextId)
  execute (putPair folderId deviceId direction none)
  return folderId

def addFolderDevice (folderId : ℕ) (deviceId mode : String) (remotePath : Option String) : Sql Unit :=
  execute (putPair folderId deviceId mode remotePath)

/-- Change the row of a folder. -/
def updateFolder (folderId : ℕ) (update : SyncFolderRow → SyncFolderRow) (db : Database) : Database :=
  { db with syncFolders := db.syncFolders.map fun f => if f.id = folderId then update f else f }

def setFolderName (folderId : ℕ) (name : String) : Sql Unit :=
  execute (updateFolder folderId fun f => { f with name := some name })

def setFolderLocalPath (folderId : ℕ) (newPath : String) : Sql Unit :=
  execute (updateFolder folderId fun f => { f with localPath := newPath })

/-- The first folder with the guid. -/
def folderByGuid (guid : String) (db : Database) : Option SyncFolderRow :=
  db.syncFolders.find? fun f => decide (f.folderGuid = some guid)

def ensureFolderByGuid (guid localPath name deviceId : String) : Sql ℕ := do
  match ← query (folderByGuid guid) with
  | some f => return f.id
  | none => insertSyncFolder localPath name deviceId "bidirectional" guid

/-- The folder to which a peer is attached: that at the path, whose guid becomes the
shared one, or that of the guid, or a new one. -/
def wiredFolder (guid localPath name ownDeviceId : String) : Sql ℕ := do
  match ← query fun db => db.syncFolders.find? fun f => decide (f.localPath = localPath) with
  | some wired =>
    execute (updateFolder wired.id fun f => { f with folderGuid := some guid })
    match wired.folderGuid with
    | some oldGuid => execute fun db => { db with
        sharedFolders := db.sharedFolders.map fun s =>
          if s.deviceId = ownDeviceId ∧ s.folderGuid = oldGuid then { s with folderGuid := guid }
          else s }
    | none => pure ()
    return wired.id
  | none =>
    match ← query (folderByGuid guid) with
    | some f => return f.id
    | none =>
      let name := if name.toList.all isWhitespace then Storage.pathLabel localPath else name
      let id ← insertSyncFolder localPath name ownDeviceId "bidirectional" guid
      execute fun db => { db with
        folderDevices := db.folderDevices ++ [⟨id, ownDeviceId, "bidirectional", none, true⟩] }
      return id

/-- Resolve the folder inside a transaction, then attach the peer after it. -/
def wireFolderPair (guid localPath name ownDeviceId peerDeviceId : String)
    (peerPath : Option String) : Sql ℕ := do
  let folderId ← transaction (wiredFolder guid localPath name ownDeviceId)
  addFolderDevice folderId peerDeviceId "bidirectional" peerPath
  return folderId

/-- Re-key the oldest pair of a folder to another device. -/
def setFolderDevice (folderId : ℕ) (newDeviceId : String) : Sql Unit := transaction do
  match ← query fun db => db.folderDevices.find? fun p => decide (p.folderId = folderId) with
  | none => pure ()
  | some own =>
    if own.deviceId ≠ newDeviceId then do
      execute fun db => { db with
        devices := upsert (fun d : Db.Device => decide (d.id = newDeviceId)) (fun d => d)
          ⟨newDeviceId, newDeviceId, none, none⟩ db.devices }
      execute fun db => { db with
        folderDevices := db.folderDevices.map fun p =>
          if p.folderId = folderId ∧ p.deviceId = own.deviceId then { p with deviceId := newDeviceId }
          else p }

/-! ### Sessions, files and shares -/

def recordSession (row : Db.SyncSession) : Sql Unit := do
  execute fun db => { db with syncSessions := db.syncSessions ++ [row] }
  execute fun db => { db with
    syncSessions := db.syncSessions.drop (db.syncSessions.length - maxSessionHistory) }

def upsertFileMetadata (row : Db.FileMetadata) : Sql Unit :=
  execute fun db => { db with
    fileMetadata := upsert
      (fun m : Db.FileMetadata => decide (m.folderId = row.folderId) && decide (m.path = row.path))
      (fun m => { row with folderId := m.folderId, path := m.path }) row db.fileMetadata }

def recordHistory (row : Db.FileHistory) : Sql Unit :=
  execute fun db => { db with fileHistory := db.fileHistory ++ [row] }

/-- The number an inserted share gets. -/
def nextShareId (db : Database) : ℕ := max db.shareSeq ((db.sharedFolders.map (·.id)).foldr max 0) + 1

/-- A folder that is shared already stays as it is. -/
def shareFolder (folderGuid deviceId name localPath : String) : Sql Unit :=
  execute fun db =>
    if db.sharedFolders.any fun s =>
        decide (s.folderGuid = folderGuid) && decide (s.deviceId = deviceId) then db
    else { db with
      sharedFolders := db.sharedFolders ++
        [⟨nextShareId db, folderGuid, deviceId, name, localPath, true, true, "read_write"⟩]
      shareSeq := nextShareId db }

def setSharedDiscoverable (id : ℕ) (discoverable : Bool) : Sql Unit :=
  execute fun db => { db with
    sharedFolders := db.sharedFolders.map fun s =>
      if s.id = id then { s with discoverable := discoverable } else s }

def unshareFolder (id : ℕ) : Sql Unit :=
  execute fun db => { db with sharedFolders := db.sharedFolders.filter fun s => decide (s.id ≠ id) }

/-! ### Removals -/

/-- A folder is dropped once no pairs remain. -/
def dropIfUnpaired (folderId : ℕ) : Sql Unit := do
  let remaining ← query fun db => db.folderDevices.countP fun p => decide (p.folderId = folderId)
  if remaining = 0 then execute fun db => db.deleteFolders fun f => decide (f.id = folderId)

/-- The pairs of a folder, or the one of a device. -/
def isPairOf (folderId : ℕ) (deviceId : Option String) (p : Db.FolderDevice) : Bool :=
  decide (p.folderId = folderId) && (deviceId.all fun d => decide (p.deviceId = d))

/-- Remove the pairs of the folders at a path, all or one device's. -/
def removeSyncFolders (localPath : String) (deviceId : Option String) : Sql ℕ := transaction do
  let folderIds ← query fun db =>
    (db.syncFolders.filter fun f => decide (f.localPath = localPath)).map (·.id)
  folderIds.foldlM (fun deleted folderId => do
    let n ← query fun db => db.folderDevices.countP (isPairOf folderId deviceId)
    execute fun db => db.deletePairs (isPairOf folderId deviceId)
    dropIfUnpaired folderId
    return deleted + n) 0

def removeSyncFolderById (folderId : ℕ) : Sql Unit := do
  execute fun db => db.deletePairs (isPairOf folderId none)
  execute fun db => db.deleteFolders fun f => decide (f.id = folderId)

def removeFolderDevice (folderId : ℕ) (deviceId : String) : Sql Bool := transaction do
  let n ← query fun db => db.folderDevices.countP (isPairOf folderId (some deviceId))
  execute fun db => db.deletePairs (isPairOf folderId (some deviceId))
  if n = 0 then return false
  else
    dropIfUnpaired folderId
    return true

/-- Wipe every pairing and folder mapping. -/
def clearAllSyncState : Sql (ℕ × ℕ) := transaction do
  execute fun db => db.deleteHistory fun _ => true
  execute fun db => db.deleteMetadata fun _ => true
  execute fun db => db.deletePairs fun _ => true
  let folders ← query (·.syncFolders.length)
  execute fun db => db.deleteFolders fun _ => true
  let devices ← query (·.devices.length)
  execute fun db => db.deleteDevices fun _ => true
  return (folders, devices)

/-- Breakdown of a device removal. -/
structure DeviceCleanup where
  sessionsRemoved : ℕ
  historyRemoved : ℕ
  metadataRemoved : ℕ
  foldersRemoved : ℕ
  deviceRemoved : ℕ
deriving DecidableEq, Repr

/-- The device is attached to the folder. -/
def pairedWith (db : Database) (deviceId : String) (folderId : ℕ) : Bool :=
  db.folderDevices.any fun p => decide (p.deviceId = deviceId) && decide (p.folderId = folderId)

def isPaired (db : Database) (f : SyncFolderRow) : Bool :=
  db.folderDevices.any fun p => decide (p.folderId = f.id)

/-- The history that goes with a device: its own, and that of its folders. -/
def historyOf (deviceId : String) (db : Database) (h : Db.FileHistory) : Bool :=
  decide (h.deviceId = deviceId) || db.pairedWith deviceId h.folderId

/-- Remove a paired device and all associated data. -/
def removeDevice (deviceId : String) : Sql DeviceCleanup := transaction do
  let sessions ← query fun db => db.syncSessions.countP fun s => decide (s.peerDevice = deviceId)
  execute fun db => db.deleteSessions fun s => decide (s.peerDevice = deviceId)
  let history ← query fun db => db.fileHistory.countP (historyOf deviceId db)
  execute fun db => db.deleteHistory (historyOf deviceId db)
  let metadata ← query fun db => db.fileMetadata.countP fun m => db.pairedWith deviceId m.folderId
  execute fun db => db.deleteMetadata fun m => db.pairedWith deviceId m.folderId
  execute fun db => db.deletePairs fun p => decide (p.deviceId = deviceId)
  let folders ← query fun db => db.syncFolders.countP fun f => !db.isPaired f
  execute fun db => db.deleteFolders fun f => !db.isPaired f
  let device ← query fun db => db.devices.countP fun d => decide (d.id = deviceId)
  execute fun db => db.deleteDevices fun d => decide (d.id = deviceId)
  return ⟨sessions, history, metadata, folders, device⟩

/-! ### One row for each device -/

/-- The tables in which `reconcile_devices_by_cert` renames a device, in its order. -/
inductive DeviceColumn
  | folderDevices
  | syncFolders
  | sharedFolders
  | fileHistory
  | syncSessions
deriving DecidableEq, Repr

def DeviceColumn.all : List DeviceColumn :=
  [folderDevices, syncFolders, sharedFolders, fileHistory, syncSessions]

/-- `UPDATE table SET column = new WHERE column = old`. -/
def rename (old new : String) (id : String) : String := if id = old then new else id

/-- Map the identifiers in one column. -/
def mapColumn (f : String → String) (db : Database) : DeviceColumn → Database
  | .folderDevices => { db with
      folderDevices := db.folderDevices.map fun p => { p with deviceId := f p.deviceId } }
  | .syncFolders => { db with
      syncFolders := db.syncFolders.map fun r => { r with deviceId := f r.deviceId } }
  | .sharedFolders => { db with
      sharedFolders := db.sharedFolders.map fun s => { s with deviceId := f s.deviceId } }
  | .fileHistory => { db with
      fileHistory := db.fileHistory.map fun h => { h with deviceId := f h.deviceId } }
  | .syncSessions => { db with
      syncSessions := db.syncSessions.map fun s => { s with peerDevice := f s.peerDevice } }

/-- The rows that carry a certificate under the name, and where the last of them
belongs. -/
def certCountByName (rows : List Db.Device) (name : String) : ℕ :=
  rows.countP fun r => r.certDer.isSome && decide (r.name = name)

def certIdByName (rows : List Db.Device) (name : String) : Option String :=
  ((rows.filter fun r => r.certDer.isSome && decide (r.name = name)).getLast?.bind (·.certDer)).map
    (certToDeviceId blake3)

/-- A row whose key is not made from its certificate. -/
def remapCert (m : AList fun _ : String => String) (r : Db.Device) : AList fun _ : String => String :=
  match r.certDer with
  | none => m
  | some cert =>
    if certToDeviceId blake3 cert ≠ r.id then m.insert r.id (certToDeviceId blake3 cert) else m

/-- Another row with our own certificate. -/
def remapOwn (ownId : String) (m : AList fun _ : String => String) (r : Db.Device) :
    AList fun _ : String => String :=
  match r.certDer with
  | none => m
  | some cert =>
    if certToDeviceId blake3 cert = ownId ∧ r.id ≠ ownId then m.insert r.id ownId else m

/-- A row without a certificate, beside the only one of its name that has one. -/
def remapStub (rows : List Db.Device) (ownId : String) (m : AList fun _ : String => String)
    (r : Db.Device) : AList fun _ : String => String :=
  if r.certDer.isSome = true ∨ r.id ∈ m then m
  else if certCountByName rows r.name ≠ 1 then m
  else match certIdByName blake3 rows r.name with
    | none => m
    | some canonical => if canonical = ownId then m else m.insert r.id canonical

/-- Map from an old id to the canonical id it should become. -/
def remapOf (rows : List Db.Device) (ownId : String) (legacySelfId : Option String) :
    AList fun _ : String => String :=
  let legacy : AList fun _ : String => String :=
    match legacySelfId with
    | none => ∅
    | some legacy => AList.singleton legacy ownId
  let certs := (rows.foldl (remapCert blake3) legacy).erase ownId
  let owns := rows.foldl (remapOwn blake3 ownId) certs
  rows.foldl (remapStub blake3 rows ownId) owns

/-- The order in which a hash map is iterated over. -/
structure IterationOrder where
  list : (AList fun _ : String => String) → List (String × String)
  perm : ∀ m, (list m).Perm (m.entries.map fun e => (e.1, e.2))

/-- Merge the rows of one device. Nothing holds the statements together. -/
def reconcileDevicesByCert (order : IterationOrder) (certDer : Bytes) (legacySelfId : Option String)
    (ownName : String) : Sql Unit := do
  let ownId := certToDeviceId blake3 certDer
  let rows ← query (·.devices)
  let remap := order.list (remapOf blake3 rows ownId legacySelfId)
  DeviceColumn.all.forM fun column =>
    remap.forM fun old => execute fun db => db.mapColumn (rename old.1 old.2) column
  remap.forM fun old => execute fun db => db.deleteDevices fun d => decide (d.id = old.1)
  ensureSelfRow ownId certDer ownName

/-! ### Opening -/

/-- A pair for a folder that lacks one with the device in its row. -/
def backfillPair (db : Database) (f : SyncFolderRow) : Database :=
  if db.folderDevices.any fun p => decide (p.folderId = f.id) && decide (p.deviceId = f.deviceId)
  then db
  else { db with
    folderDevices := db.folderDevices ++ [⟨f.id, f.deviceId, f.direction, none, true⟩] }

def backfillPairs (db : Database) : Database := db.syncFolders.foldl backfillPair db

def mintGuid (processId : ℕ) (f : SyncFolderRow) : SyncFolderRow :=
  if f.folderGuid = none ∨ f.folderGuid = some "" then
    { f with folderGuid := some (newFolderGuid blake3 processId f.id) }
  else f

def deriveName (f : SyncFolderRow) : SyncFolderRow :=
  if f.name = none ∨ f.name = some "" then { f with name := some (Storage.pathLabel f.localPath) }
  else f

/-- `Storage::open` on a database that has the tables. Nothing fails here: the device
in a folder's row has a row (`reopen_valid`). -/
def reopen (processId : ℕ) (db : Database) : Database :=
  let db := backfillPairs db
  { db with syncFolders := db.syncFolders.map fun f => deriveName (mintGuid blake3 processId f) }

/-! ### What opening keeps -/

def pairKeys (db : Database) : List (ℕ × String) :=
  db.folderDevices.map fun p => (p.folderId, p.deviceId)

variable {db : Database}

theorem any_pair_iff {folderId : ℕ} {deviceId : String} :
    (db.folderDevices.any fun p => decide (p.folderId = folderId) && decide (p.deviceId = deviceId)) =
      true ↔ (folderId, deviceId) ∈ db.pairKeys := by
  unfold pairKeys
  simp [List.any_eq_true, List.mem_map]

theorem pairKeys_backfillPair (f : SyncFolderRow) : (db.backfillPair f).pairKeys =
    if (f.id, f.deviceId) ∈ db.pairKeys then db.pairKeys else db.pairKeys ++ [(f.id, f.deviceId)] := by
  unfold backfillPair
  by_cases h : (f.id, f.deviceId) ∈ db.pairKeys
  · rw [if_pos h, if_pos (any_pair_iff.mpr h)]
  · rw [if_neg h, if_neg (mt any_pair_iff.mp h)]
    unfold pairKeys
    rw [List.map_append]
    rfl

/-- All but the pairs is as it was. -/
theorem backfillPair_eq (db : Database) (f : SyncFolderRow) :
    ∃ pairs, db.backfillPair f = { db with folderDevices := pairs } := by
  unfold backfillPair
  split
  · exact ⟨db.folderDevices, rfl⟩
  · exact ⟨_, rfl⟩

theorem mem_backfillPair {f : SyncFolderRow} {p : Db.FolderDevice}
    (h : p ∈ (db.backfillPair f).folderDevices) :
    p ∈ db.folderDevices ∨ p.folderId = f.id ∧ p.deviceId = f.deviceId := by
  unfold backfillPair at h
  split at h
  · exact Or.inl h
  · rcases List.mem_append.mp h with h | h
    · exact Or.inl h
    · rw [List.mem_singleton.mp h]
      exact Or.inr ⟨rfl, rfl⟩

/-- A pair with the device of a folder's row violates nothing. -/
theorem backfillPair_valid {f : SyncFolderRow} (hf : f ∈ db.syncFolders)
    (h : db.violation = none) : (db.backfillPair f).violation = none := by
  obtain ⟨hkeys, hrefs⟩ := violation_eq_none.mp h
  have hnodup : (db.backfillPair f).pairKeys.Nodup := by
    rw [pairKeys_backfillPair]
    split
    · exact hkeys.folderDevices
    · rename_i hnew
      exact List.nodup_append.mpr ⟨hkeys.folderDevices, List.nodup_singleton _, fun a ha b hb => by
        rw [List.mem_singleton.mp hb]
        exact fun heq => hnew (heq ▸ ha)⟩
  have hpairs : ∀ p ∈ (db.backfillPair f).folderDevices,
      p.folderId ∈ db.folderIds ∧ p.deviceId ∈ db.deviceIds := by
    intro p hp
    rcases mem_backfillPair hp with hp | ⟨hfolder, hdevice⟩
    · exact ⟨hrefs.pairFolder p hp, hrefs.pairDevice p hp⟩
    · rw [hfolder, hdevice]
      exact ⟨List.mem_map_of_mem hf, hrefs.folderOwner f hf⟩
  obtain ⟨pairs, heq⟩ := db.backfillPair_eq f
  rw [heq] at hnodup hpairs ⊢
  exact violation_eq_none.mpr ⟨⟨hkeys.devices, hkeys.syncFolders, hnodup, hkeys.fileMetadata,
      hkeys.sharedFolders⟩,
    ⟨hrefs.folderOwner, fun p hp => (hpairs p hp).1, fun p hp => (hpairs p hp).2, hrefs.metadata,
      hrefs.history, hrefs.share⟩⟩

/-- The pairs of some folders. -/
theorem backfill_spec {fs : List SyncFolderRow} (hfs : fs ⊆ db.syncFolders)
    (h : db.violation = none) : (fs.foldl backfillPair db).violation = none ∧
      (∃ pairs, fs.foldl backfillPair db = { db with folderDevices := pairs }) ∧
      ∀ k, k ∈ (fs.foldl backfillPair db).pairKeys ↔
        k ∈ db.pairKeys ∨ ∃ f ∈ fs, k = (f.id, f.deviceId) := by
  induction fs generalizing db with
  | nil => exact ⟨h, ⟨db.folderDevices, rfl⟩, fun k => by simp⟩
  | cons f fs ih =>
    have hvalid := backfillPair_valid (hfs List.mem_cons_self) h
    obtain ⟨pairs, heq⟩ := db.backfillPair_eq f
    have hfs' : fs ⊆ (db.backfillPair f).syncFolders := by
      rw [heq]
      exact fun g hg => hfs (List.mem_cons_of_mem f hg)
    obtain ⟨hvalid', ⟨pairs', heq'⟩, hkeys⟩ := ih hfs' hvalid
    refine ⟨hvalid', ⟨pairs', ?_⟩, fun k => ?_⟩
    · rw [List.foldl_cons, heq', heq]
    · rw [List.foldl_cons, hkeys, pairKeys_backfillPair]
      by_cases hmem : (f.id, f.deviceId) ∈ db.pairKeys
      · rw [if_pos hmem]
        constructor
        · rintro (hk | ⟨g, hg, rfl⟩)
          · exact Or.inl hk
          · exact Or.inr ⟨g, List.mem_cons_of_mem f hg, rfl⟩
        · rintro (hk | ⟨g, hg, rfl⟩)
          · exact Or.inl hk
          · rcases List.mem_cons.mp hg with rfl | hg
            · exact Or.inl hmem
            · exact Or.inr ⟨g, hg, rfl⟩
      · rw [if_neg hmem, List.mem_append, List.mem_singleton]
        constructor
        · rintro ((hk | rfl) | ⟨g, hg, rfl⟩)
          · exact Or.inl hk
          · exact Or.inr ⟨f, List.mem_cons_self, rfl⟩
          · exact Or.inr ⟨g, List.mem_cons_of_mem f hg, rfl⟩
        · rintro (hk | ⟨g, hg, rfl⟩)
          · exact Or.inl (Or.inl hk)
          · rcases List.mem_cons.mp hg with rfl | hg
            · exact Or.inl (Or.inr rfl)
            · exact Or.inr ⟨g, hg, rfl⟩

/-- Rows of folders that keep their numbers and devices. -/
theorem violation_mapFolders {g : SyncFolderRow → SyncFolderRow} (hid : ∀ f, (g f).id = f.id)
    (hdevice : ∀ f, (g f).deviceId = f.deviceId) (h : db.violation = none) :
    ({ db with syncFolders := db.syncFolders.map g } : Database).violation = none := by
  obtain ⟨hkeys, hrefs⟩ := violation_eq_none.mp h
  have hids : ({ db with syncFolders := db.syncFolders.map g } : Database).folderIds = db.folderIds := by
    unfold folderIds
    rw [List.map_map]
    exact List.map_congr_left fun f _ => hid f
  refine violation_eq_none.mpr ⟨⟨hkeys.devices, ?_, hkeys.folderDevices, hkeys.fileMetadata,
    hkeys.sharedFolders⟩, ⟨fun f hf => ?_, fun p hp => ?_, hrefs.pairDevice, fun m hm => ?_,
    fun r hr => ?_, hrefs.share⟩⟩
  · rw [hids]
    exact hkeys.syncFolders
  · obtain ⟨f', hf', rfl⟩ := List.mem_map.mp hf
    rw [hdevice]
    exact hrefs.folderOwner f' hf'
  · rw [hids]
    exact hrefs.pairFolder p hp
  · rw [hids]
    exact hrefs.metadata m hm
  · rw [hids]
    exact hrefs.history r hr

/-- **Opening violates nothing.** -/
theorem reopen_valid (processId : ℕ) (h : db.violation = none) :
    (db.reopen blake3 processId).violation = none := by
  have hpairs : db.backfillPairs.violation = none :=
    (backfill_spec (List.Subset.refl db.syncFolders) h).1
  refine violation_mapFolders (fun f => ?_) (fun f => ?_) hpairs
  · unfold deriveName mintGuid
    split_ifs <;> rfl
  · unfold deriveName mintGuid
    split_ifs <;> rfl

end Database

/-! ### Any operations -/

/-- An operation with its arguments. -/
inductive StorageOp
  | upsertDevice (id name : String) (certDer : Option Bytes) (lastAddr : Option String)
  | ensureSelfRow (id : String) (certDer : Bytes) (name : String)
  | setDeviceLastAddr (id addr : String)
  | setDeviceCert (id : String) (certDer : Bytes)
  | addSyncFolder (localPath deviceId direction : String)
  | addFolderDevice (folderId : ℕ) (deviceId mode : String) (remotePath : Option String)
  | setFolderName (folderId : ℕ) (name : String)
  | setFolderLocalPath (folderId : ℕ) (newPath : String)
  | ensureFolderByGuid (guid localPath name deviceId : String)
  | wireFolderPair (guid localPath name ownDeviceId peerDeviceId : String) (peerPath : Option String)
  | setFolderDevice (folderId : ℕ) (newDeviceId : String)
  | recordSession (row : Db.SyncSession)
  | upsertFileMetadata (row : Db.FileMetadata)
  | recordHistory (row : Db.FileHistory)
  | shareFolder (folderGuid deviceId name localPath : String)
  | setSharedDiscoverable (id : ℕ) (discoverable : Bool)
  | unshareFolder (id : ℕ)
  | removeSyncFolders (localPath : String) (deviceId : Option String)
  | removeSyncFolderById (folderId : ℕ)
  | removeFolderDevice (folderId : ℕ) (deviceId : String)
  | clearAllSyncState
  | removeDevice (deviceId : String)
  | reconcileDevicesByCert (order : Database.IterationOrder) (certDer : Bytes)
      (legacySelfId : Option String) (ownName : String)
  /-- The process ends, and another opens the database. -/
  | reopen (processId : ℕ)

/-- A database and the process that has it open. -/
structure Host where
  processId : ℕ
  db : DbState

/-- A new database. -/
def Host.new (processId : ℕ) : Host := ⟨processId, Database.empty, by decide⟩

namespace Host

/-- The statements of an operation; the process that opens the database runs none. -/
def statements (h : Host) : StorageOp → Sql Unit
  | .upsertDevice id name certDer lastAddr => Database.upsertDevice id name certDer lastAddr
  | .ensureSelfRow id certDer name => Database.ensureSelfRow id certDer name
  | .setDeviceLastAddr id addr => Database.setDeviceLastAddr id addr
  | .setDeviceCert id certDer => Database.setDeviceCert id certDer
  | .addSyncFolder localPath deviceId direction =>
    discard (Database.addSyncFolder blake3 h.processId localPath deviceId direction)
  | .addFolderDevice folderId deviceId mode remotePath =>
    Database.addFolderDevice folderId deviceId mode remotePath
  | .setFolderName folderId name => Database.setFolderName folderId name
  | .setFolderLocalPath folderId newPath => Database.setFolderLocalPath folderId newPath
  | .ensureFolderByGuid guid localPath name deviceId =>
    discard (Database.ensureFolderByGuid guid localPath name deviceId)
  | .wireFolderPair guid localPath name ownDeviceId peerDeviceId peerPath =>
    discard (Database.wireFolderPair guid localPath name ownDeviceId peerDeviceId peerPath)
  | .setFolderDevice folderId newDeviceId => Database.setFolderDevice folderId newDeviceId
  | .recordSession row => Database.recordSession row
  | .upsertFileMetadata row => Database.upsertFileMetadata row
  | .recordHistory row => Database.recordHistory row
  | .shareFolder folderGuid deviceId name localPath =>
    Database.shareFolder folderGuid deviceId name localPath
  | .setSharedDiscoverable id discoverable => Database.setSharedDiscoverable id discoverable
  | .unshareFolder id => Database.unshareFolder id
  | .removeSyncFolders localPath deviceId => discard (Database.removeSyncFolders localPath deviceId)
  | .removeSyncFolderById folderId => Database.removeSyncFolderById folderId
  | .removeFolderDevice folderId deviceId => discard (Database.removeFolderDevice folderId deviceId)
  | .clearAllSyncState => discard Database.clearAllSyncState
  | .removeDevice deviceId => discard (Database.removeDevice deviceId)
  | .reconcileDevicesByCert order certDer legacySelfId ownName =>
    Database.reconcileDevicesByCert blake3 order certDer legacySelfId ownName
  | .reopen _ => pure ()

/-- The host after an operation, whether it fails or not. -/
def perform (h : Host) (op : StorageOp) : Host :=
  match op with
  | .reopen processId =>
    ⟨processId, h.db.val.reopen blake3 processId, Database.reopen_valid blake3 processId h.db.valid⟩
  | op => { h with db := Effects.after (h.statements blake3 op) h.db }

/-- The host after some operations. -/
def run (h : Host) (ops : List StorageOp) : Host := ops.foldl (perform blake3) h

end Host

end

end FerriSync
