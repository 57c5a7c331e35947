/-
# The device registry

What a server keeps in its database (`storage/mod.rs`): the devices with their
certificates and last addresses, the folders and the devices attached to them,
and the folders it shares. A row refers to another through a foreign key,
which SQLite as it is built here enforces: `FOREIGN KEY constraint failed`.

A device's identifier is made from the BLAKE3 hash of its certificate
(`certToDeviceId`), and a device is looked up by that hash, which the table
does not hold but each lookup computes anew.

Left out are the times (`last_seen`, `last_sync_at`) and the tables of files,
history and sessions.

Key definitions: `certToDeviceId`, `Storage.upsertDevice`,
`Storage.getDeviceByCertFingerprint`, `Storage.ensureFolderByGuid`.
Key theorems: `Storage.cert_upsertDevice`, `Storage.getDeviceByCertFingerprint_isSome`.
-/
import FerriSync.Path

namespace FerriSync

/-! ### Identity -/

/-- Two hexadecimal digits a byte, as `Uuid` prints them. -/
def hexBytes (bs : Bytes) : List Char := bs.flatMap hexByte

/-- `Uuid::to_string` of sixteen bytes. -/
def uuidString (bs : Bytes) : String :=
  String.ofList (hexBytes (bs.take 4) ++ '-' :: hexBytes ((bs.drop 4).take 2) ++
    '-' :: hexBytes ((bs.drop 6).take 2) ++ '-' :: hexBytes ((bs.drop 8).take 2) ++
    '-' :: hexBytes (bs.drop 10))

/-- The identifier of the device with a certificate: the first sixteen bytes of
the hash, made a UUID of version 5. -/
def certToDeviceId (blake3 : Bytes → FileHash) (cert : Bytes) : String :=
  uuidString (((((blake3 cert).bytes.take 16).modify 6 fun b => (b &&& 0x0f) ||| 0x50)).modify 8
    fun b => (b &&& 0x3f) ||| 0x80)

/-- Certificates of one hash have one identifier. -/
theorem certToDeviceId_congr {blake3 : Bytes → FileHash} {c d : Bytes} (h : blake3 c = blake3 d) :
    certToDeviceId blake3 c = certToDeviceId blake3 d := by
  rw [certToDeviceId, h, certToDeviceId]

/-! ### The tables -/

structure DeviceRow where
  name : String
  certDer : Option Bytes
  lastAddr : Option String
deriving DecidableEq, Repr

structure SyncFolderRow where
  id : ℕ
  localPath : String
  name : Option String
  deviceId : String
  direction : String
  folderGuid : Option String
deriving DecidableEq, Repr

/-- A device attached to a folder. -/
structure FolderDeviceRow where
  mode : String
  remotePath : Option String
  enabled : Bool
deriving DecidableEq, Repr

structure SharedFolderRow where
  id : ℕ
  folderGuid : String
  deviceId : String
  name : String
  localPath : String
  discoverable : Bool
  enabled : Bool
  permissions : String
deriving DecidableEq, Repr

/-- An enabled pair of a folder and a device. -/
structure SyncPair where
  id : ℕ
  localPath : String
  deviceId : String
  mode : String
deriving DecidableEq, Repr

structure Storage where
  devices : AList fun _ : String => DeviceRow
  syncFolders : List SyncFolderRow
  folderDevices : AList fun _ : ℕ × String => FolderDeviceRow
  sharedFolders : List SharedFolderRow
  /-- The next row number of `sync_folders`. -/
  nextFolderId : ℕ

namespace Storage

def foreignKeyFailed : String := "FOREIGN KEY constraint failed"

variable (s : Storage)

/-- Insert a device, or rename it; a certificate or address that is not given
is kept. -/
def upsertDevice (id name : String) (certDer : Option Bytes) (lastAddr : Option String) : Storage :=
  let row : DeviceRow :=
    match s.devices.lookup id with
    | none => ⟨name, certDer, lastAddr⟩
    | some old => ⟨name, certDer.or old.certDer, lastAddr.or old.lastAddr⟩
  { s with devices := s.devices.insert id row }

/-- Record the last address of a device that has a row. -/
def setDeviceLastAddr (id addr : String) : Storage :=
  match s.devices.lookup id with
  | none => s
  | some old => { s with devices := s.devices.insert id { old with lastAddr := some addr } }

def getDeviceCert (id : String) : Option Bytes := (s.devices.lookup id).bind (·.certDer)

/-- Set the certificate of a device, which gets a row if it has none. -/
def setDeviceCert (id : String) (certDer : Bytes) : Storage :=
  let row : DeviceRow :=
    match s.devices.lookup id with
    | none => ⟨id, some certDer, none⟩
    | some old => { old with certDer := some certDer }
  { s with devices := s.devices.insert id row }

/-- The devices that have a certificate and an address. -/
def listTrustedDeviceAddrs : List (String × String) :=
  s.devices.entries.filterMap fun row =>
    match row.2.lastAddr with
    | none => none
    | some addr => if addr ≠ "" ∧ row.2.certDer.isSome = true then some (row.1, addr) else none

/-- The device whose certificate has this hash. -/
def getDeviceByCertFingerprint (blake3 : Bytes → FileHash) (fingerprint : FileHash) :
    Option String :=
  (s.devices.entries.find? fun row =>
    match row.2.certDer with
    | none => false
    | some der => decide (blake3 der = fingerprint)).map (·.1)

/-- The folder of this guid; a new one if there is none. -/
def ensureFolderByGuid (guid localPath name deviceId : String) : Except String (ℕ × Storage) :=
  match s.syncFolders.find? fun row => decide (row.folderGuid = some guid) with
  | some row => .ok (row.id, s)
  | none =>
    if deviceId ∈ s.devices then
      .ok (s.nextFolderId, { s with
        syncFolders := s.syncFolders ++
          [⟨s.nextFolderId, localPath, some name, deviceId, "bidirectional", some guid⟩]
        nextFolderId := s.nextFolderId + 1 })
    else .error foreignKeyFailed

/-- Attach a device to a folder; a remote path that is not given is kept. -/
def addFolderDevice (folderId : ℕ) (deviceId mode : String) (remotePath : Option String) :
    Except String Storage :=
  match s.folderDevices.lookup (folderId, deviceId) with
  | some old => .ok { s with
      folderDevices := s.folderDevices.insert (folderId, deviceId)
        ⟨mode, remotePath.or old.remotePath, true⟩ }
  | none =>
    if (s.syncFolders.any fun row => decide (row.id = folderId)) ∧ deviceId ∈ s.devices then
      .ok { s with
        folderDevices := s.folderDevices.insert (folderId, deviceId) ⟨mode, remotePath, true⟩ }
    else .error foreignKeyFailed

/-- The row number that `MAX(id) + 1` gives. -/
def nextId : ℕ := (s.syncFolders.map (·.id)).foldr max 0 + 1

/-- The last component of a path, or the path if it has none. -/
def pathLabel (path : String) : String :=
  (((path.toList.splitOnP fun c => c = '/' || c = '\\').filter (!·.isEmpty)).getLast?.map
    String.ofList).getD path

/-- Attach a device to the folder at a path, which is registered if it is not
yet. The guid of a new folder is made from a row number. -/
def addSyncFolder (newFolderGuid : ℕ → String) (localPath deviceId direction : String) :
    Except String (ℕ × Storage) :=
  if deviceId ∈ s.devices then
    let pair (folderId : ℕ) : FolderDeviceRow :=
      match s.folderDevices.lookup (folderId, deviceId) with
      | some old => ⟨direction, old.remotePath, true⟩
      | none => ⟨direction, none, true⟩
    match s.syncFolders.find? fun row => decide (row.localPath = localPath) with
    | some row => .ok (row.id, { s with
        folderDevices := s.folderDevices.insert (row.id, deviceId) (pair row.id) })
    | none => .ok (s.nextFolderId, { s with
        syncFolders := s.syncFolders ++ [⟨s.nextFolderId, localPath, some (pathLabel localPath),
          deviceId, direction, some (newFolderGuid s.nextId)⟩]
        folderDevices := s.folderDevices.insert (s.nextFolderId, deviceId) (pair s.nextFolderId)
        nextFolderId := s.nextFolderId + 1 })
  else .error foreignKeyFailed

/-- Re-key the oldest pair of a folder to another device. Which pair is the
oldest is not in the table. -/
def setFolderDevice (oldest : Option String) (folderId : ℕ) (newDeviceId : String) :
    Except String Storage :=
  match oldest with
  | none => .ok s
  | some old =>
    if old = newDeviceId then .ok s
    else if (folderId, newDeviceId) ∈ s.folderDevices then
      .error "UNIQUE constraint failed: folder_devices.folder_id, folder_devices.device_id"
    else
      let devices :=
        if newDeviceId ∈ s.devices then s.devices
        else s.devices.insert newDeviceId ⟨newDeviceId, none, none⟩
      match s.folderDevices.lookup (folderId, old) with
      | none => .ok { s with devices := devices }
      | some row => .ok { s with
          devices := devices
          folderDevices := (s.folderDevices.erase (folderId, old)).insert
            (folderId, newDeviceId) row }

/-- Remove a device, its pairs, and the folders left without a pair. A folder or
a share that still refers to it prevents that. -/
def removeDevice (id : String) : Except String Storage :=
  let pairs : AList fun _ : ℕ × String => FolderDeviceRow :=
    ⟨s.folderDevices.entries.filter fun p => decide (p.1.2 ≠ id),
      s.folderDevices.nodupKeys.sublist List.filter_sublist⟩
  let folders := s.syncFolders.filter fun row => pairs.entries.any fun p => decide (p.1.1 = row.id)
  if id ∈ s.devices ∧ ((folders.any fun row => decide (row.deviceId = id)) ∨
      s.sharedFolders.any fun row => decide (row.deviceId = id)) then .error foreignKeyFailed
  else .ok { s with
    devices := s.devices.erase id
    syncFolders := folders
    folderDevices := pairs }

/-- Where the device keeps its copy of the folder, if that is stored. -/
def folderPairRemotePath (folderId : ℕ) (deviceId : String) : Option String :=
  (s.folderDevices.lookup (folderId, deviceId)).bind (·.remotePath)

/-- The share of a device under a guid. -/
def sharedFolderByGuid (deviceId folderGuid : String) : Option SharedFolderRow :=
  s.sharedFolders.find? fun row =>
    decide (row.deviceId = deviceId) && decide (row.folderGuid = folderGuid)

/-- The shares of a device, the latest first. -/
def listSharedFolders (deviceId : String) : List SharedFolderRow :=
  (s.sharedFolders.filter fun row => decide (row.deviceId = deviceId)).mergeSort
    fun a b => decide (b.id ≤ a.id)

/-- The enabled pairs, by folder and then by device. -/
def listSyncFolders : List SyncPair :=
  (s.syncFolders.flatMap fun f =>
    (s.folderDevices.entries.filter fun p => decide (p.1.1 = f.id) && p.2.enabled).map fun p =>
      ⟨f.id, f.localPath, p.1.2, p.2.mode⟩).mergeSort fun a b =>
    decide (a.id < b.id) || decide (a.id = b.id) && decide (a.deviceId ≤ b.deviceId)

/-! ### Certificates -/

/-- The certificate is stored for some device. -/
def Stores (c : Bytes) : Prop := ∃ id, s.getDeviceCert id = some c

variable {s}

/-- An upsert stores the certificate it is given, and no other. -/
theorem cert_upsertDevice {id name : String} {certDer : Option Bytes} {lastAddr : Option String}
    (i : String) : (s.upsertDevice id name certDer lastAddr).getDeviceCert i =
      if i = id then certDer.or (s.getDeviceCert id) else s.getDeviceCert i := by
  unfold getDeviceCert upsertDevice
  by_cases hi : i = id
  · subst hi
    rw [if_pos rfl, AList.lookup_insert]
    cases s.devices.lookup i with
    | none => cases certDer <;> rfl
    | some old => rfl
  · rw [if_neg hi, AList.lookup_insert_ne hi]

/-- Without a certificate, an upsert leaves the certificates as they are. -/
theorem cert_upsertDevice_none {id name : String} {lastAddr : Option String} (i : String) :
    (s.upsertDevice id name none lastAddr).getDeviceCert i = s.getDeviceCert i := by
  rw [cert_upsertDevice, Option.none_or]
  split_ifs with hi
  · rw [hi]
  · rfl

theorem cert_setDeviceLastAddr {id addr : String} (i : String) :
    (s.setDeviceLastAddr id addr).getDeviceCert i = s.getDeviceCert i := by
  unfold getDeviceCert setDeviceLastAddr
  cases hid : s.devices.lookup id with
  | none => rfl
  | some old =>
    by_cases hi : i = id
    · subst hi
      simp only [AList.lookup_insert, hid, Option.bind_some]
    · simp only [AList.lookup_insert_ne hi]

theorem lookup_upsertDevice_ne {id name i : String} {certDer : Option Bytes}
    {lastAddr : Option String} (hi : i ≠ id) :
    (s.upsertDevice id name certDer lastAddr).devices.lookup i = s.devices.lookup i :=
  AList.lookup_insert_ne hi

theorem lookup_setDeviceCert_ne {id i : String} {certDer : Bytes} (hi : i ≠ id) :
    (s.setDeviceCert id certDer).devices.lookup i = s.devices.lookup i :=
  AList.lookup_insert_ne hi

theorem cert_setDeviceCert {id : String} {certDer : Bytes} (i : String) :
    (s.setDeviceCert id certDer).getDeviceCert i =
      if i = id then some certDer else s.getDeviceCert i := by
  unfold getDeviceCert
  by_cases hi : i = id
  · subst hi
    unfold setDeviceCert
    rw [if_pos rfl, AList.lookup_insert]
    cases s.devices.lookup i <;> rfl
  · rw [if_neg hi, lookup_setDeviceCert_ne hi]

theorem cert_removeDevice {id : String} {s' : Storage} (h : s.removeDevice id = .ok s')
    (i : String) : s'.getDeviceCert i = if i = id then none else s.getDeviceCert i := by
  unfold removeDevice at h
  dsimp only at h
  split_ifs at h
  cases h
  unfold getDeviceCert
  by_cases hi : i = id
  · subst hi
    rw [if_pos rfl, AList.lookup_erase]
    rfl
  · rw [if_neg hi, AList.lookup_erase_ne hi]

theorem devices_ensureFolderByGuid {guid localPath name deviceId : String} {n : ℕ} {s' : Storage}
    (h : s.ensureFolderByGuid guid localPath name deviceId = .ok (n, s')) :
    s'.devices = s.devices := by
  unfold ensureFolderByGuid at h
  split at h
  · cases h
    rfl
  · split_ifs at h
    cases h
    rfl

theorem devices_addFolderDevice {folderId : ℕ} {deviceId mode : String}
    {remotePath : Option String} {s' : Storage}
    (h : s.addFolderDevice folderId deviceId mode remotePath = .ok s') :
    s'.devices = s.devices := by
  unfold addFolderDevice at h
  split at h
  · cases h
    rfl
  · split_ifs at h
    cases h
    rfl

/-- A device is found by a hash if a certificate of that hash is stored. -/
theorem getDeviceByCertFingerprint_isSome {blake3 : Bytes → FileHash} {fingerprint : FileHash} :
    (s.getDeviceByCertFingerprint blake3 fingerprint).isSome = true ↔
      ∃ c, s.Stores c ∧ blake3 c = fingerprint := by
  unfold getDeviceByCertFingerprint
  rw [Option.isSome_map, List.find?_isSome]
  constructor
  · rintro ⟨⟨id, row⟩, hmem, hrow⟩
    have hlookup : s.devices.lookup id = some row := AList.mem_lookup_iff.mpr hmem
    cases hcert : row.certDer with
    | none => simp [hcert] at hrow
    | some der =>
      refine ⟨der, ⟨id, ?_⟩, by simpa [hcert] using hrow⟩
      rw [getDeviceCert, hlookup, Option.bind_some, hcert]
  · rintro ⟨c, ⟨id, hid⟩, hhash⟩
    obtain ⟨row, hlookup, hcert⟩ := Option.bind_eq_some_iff.mp hid
    exact ⟨⟨id, row⟩, AList.mem_lookup_iff.mp hlookup, by simp [hcert, hhash]⟩

end Storage

end FerriSync
