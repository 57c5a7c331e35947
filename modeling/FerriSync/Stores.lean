/-
# One store in the place of the other

The two state stores are given the same calls. Stores that hold the same rows answer a
call alike, and hold the same rows after it, exactly if SQLite takes it as the maps do
(`Sqlite.AsInMemory`): the tables lack columns for some of a file's metadata, keep a
certificate or an address that a new row lacks, hash a certificate where they look
for it and not where they store it, compare times as signed numbers, and refuse what
leaves a reference that leads nowhere. Here for the calls that are one statement.

Key definitions: `SameResult`, `Both`, `Both.Alike`, `Both.Agrees`, `Sqlite.AsInMemory`.
Key theorems: `agrees_query`, `agrees_execute`, `deleteFolders_references`.
-/
import FerriSync.Verifier

namespace FerriSync

namespace Persistence

open Transactions

/-- The same result, up to the order of a list. -/
inductive SameResult : Except StoreError StoreReply → Except StoreError StoreReply → Prop
  | same (r : Except StoreError StoreReply) : SameResult r r
  | devices {ds ds' : List Device} : ds.Perm ds' → SameResult (.ok (.devices ds)) (.ok (.devices ds'))
  | folders {fs fs' : List Folder} : fs.Perm fs' → SameResult (.ok (.folders fs)) (.ok (.folders fs'))
  | tombstones {ts ts' : List Tombstone} :
      ts.Perm ts' → SameResult (.ok (.tombstones ts)) (.ok (.tombstones ts'))
  | sessions {rs rs' : List SessionRecord} :
      rs.Perm rs' → SameResult (.ok (.sessions rs)) (.ok (.sessions rs'))

/-- The two stores. -/
structure Both where
  memory : InMemoryStateStore
  sqlite : SqliteStateStore

namespace Both

variable (blake3 : Bytes → FileHash)

/-- Both stores get the call; the order in which a map is iterated is in the answers only. -/
def perform (b : Both) (op : StoreOp) : Both where
  memory := (InMemoryStateStore.perform blake3 (.inserted Device) op b.memory).2
  sqlite := (SqliteStateStore.perform blake3 (.inserted Device) op b.sqlite).2

/-- Two new stores. -/
def new : Both := ⟨.new, .opened⟩

/-- The rows of the one read as the maps have them. -/
structure Alike (m : InMemoryStateStore) (t : Sqlite.Tables) : Prop where
  devices : m.devices.rows = t.devices.rows.map Sqlite.DeviceRow.device
  folders : m.folders.rows = t.syncFolders.rows.map Sqlite.FolderRow.folder
  metadata : m.fileMetadata.rows = t.fileMetadata.rows.map Sqlite.MetadataRow.metadata
  history : m.history = t.fileHistory
  tombstones : m.tombstones = t.tombstones.map Sqlite.TombstoneRow.tombstone
  sessions : t.syncSessions = m.sessions.map Sqlite.sessionRow
  nextFolderId : m.nextFolderId = t.folderSeq

/-- They answer a call alike, and hold the same rows after it. -/
structure Agrees (b : Both) (op : StoreOp) : Prop where
  answers : ∀ order order', SameResult (InMemoryStateStore.perform blake3 order op b.memory).1
    (SqliteStateStore.perform blake3 order' op b.sqlite).1
  rows : Alike (b.perform blake3 op).memory (b.perform blake3 op).sqlite.val

end Both

/-- What the columns of `file_metadata` that are written can tell. -/
def FileMetadata.IsPlain (row : FileMetadata) : Prop :=
  row.kind = .file ∧ row.version = 0 ∧ row.localVersion = 0 ∧ row.remoteVersion = 0 ∧
    row.localMtime = 0 ∧ row.remoteMtime = 0

namespace Sqlite

/-- No file, history entry or tombstone refers to the folder. -/
structure Tables.Unreferenced (t : Tables) (id : FolderId) : Prop where
  metadata : ∀ m ∈ t.fileMetadata.rows, m.folderId ≠ id
  history : ∀ h ∈ t.fileHistory, h.folderId ≠ id
  tombstone : ∀ r ∈ t.tombstones, r.folderId ≠ id

variable (blake3 : Bytes → FileHash)

/-- The certificate of the device has the fingerprint. -/
def DeviceRow.HasFingerprint (d : DeviceRow) (fp : CertificateFingerprint) : Prop :=
  d.certDer.map (CertificateFingerprint.fromDer blake3) = some fp

instance (d : DeviceRow) (fp : CertificateFingerprint) : Decidable (d.HasFingerprint blake3 fp) :=
  inferInstanceAs (Decidable (_ = _))

/-- The counts of a session fit an `i64`. -/
def SessionRow.IsReadable (r : SessionRow) : Prop :=
  ¬r.pushedCount < 0 ∧ ¬r.pulledCount < 0 ∧ ¬r.conflictsCount < 0

instance (r : SessionRow) : Decidable r.IsReadable := inferInstanceAs (Decidable (_ ∧ _ ∧ _))

/-- A call that SQLite takes as the maps do. -/
def AsInMemory (t : Tables) : StoreOp → Prop
  -- what is not given is not stored already
  | .upsertDevice device => ∀ old ∈ t.devices.find device.id,
      (device.fingerprint = none → old.certDer = none) ∧ (device.lastAddr = none → old.lastAddr = none)
  | .setDeviceCert id certDer =>
    id ∈ t.devices.keys ∧ (CertificateFingerprint.fromDer blake3 certDer).bytes = certDer
  -- the bytes of the fingerprint are stored for the first device whose certificate has it only
  | .getDeviceByCertFingerprint fp => ∀ d ∈ t.devices.rows, d.certDer = some fp.bytes ↔
      d.HasFingerprint blake3 fp ∧
        ∀ d' ∈ t.devices.rows, d'.id ∈ t.devices.before d.id → ¬d'.HasFingerprint blake3 fp
  | .removeDevice id => ∀ r ∈ t.tombstones, r.folderId ∉ ownedIds id t
  | .addFolder _ deviceId _ => deviceId ∈ t.devices.keys ∧ t.folderSeq < maxNumber
  | .removeFolder id => t.Unreferenced id
  | .setFolderDevice id deviceId => id ∈ t.syncFolders.keys → deviceId ∈ t.devices.keys
  | .upsertFileMetadata row => row.folderId ∈ t.syncFolders.keys ∧ row.IsPlain
  | .recordHistory entry => entry.folderId ∈ t.syncFolders.keys
  | .addTombstone tomb => tomb.folderId ∈ t.syncFolders.keys
  -- both times fit an `i64`, or neither does
  | .getTombstones folderId since => ∀ r ∈ t.tombstones, r.folderId = folderId →
      (r.deletedAt < 0 ↔ since.toInt64 < 0)
  | .listRecentSessions limit => ∀ r ∈ t.syncSessions.reverse.take limit, r.IsReadable
  | .clearAllSyncState => t.tombstones = []
  | .removeSyncFolders localPath deviceId => ∀ f ∈ t.syncFolders.rows,
      doomed localPath deviceId f = true → t.Unreferenced f.id
  | .getDevice _ | .listDevices | .getDeviceCert _ | .deviceLastAddr _ | .setDeviceLastAddr _ _
  | .getFolder _ | .listFolders | .setFolderLastSync _ _ | .getFileMetadata _ _ | .recordSession _ =>
    True

end Sqlite

/-! ### One call -/

namespace Both

section

variable {blake3 : Bytes → FileHash} {b : Both} {op : StoreOp}

/-- A call that reads. -/
theorem agrees_query {answer : HashOrder Device → StoreReply} (f : Sqlite.Tables → StoreReply)
    (h : Alike b.memory b.sqlite.val)
    (hmemory : ∀ order, InMemoryStateStore.perform blake3 order op b.memory = (.ok (answer order), b.memory))
    (hsqlite : Sqlite.statement blake3 op = query f) :
    b.Agrees blake3 op ↔ ∀ order, SameResult (.ok (answer order)) (.ok (f b.sqlite.val)) := by
  have hperform : ∀ order, SqliteStateStore.perform blake3 order op b.sqlite =
      (.ok (f b.sqlite.val), b.sqlite) := fun order => by
    rw [SqliteStateStore.perform, hsqlite]
    rfl
  constructor
  · intro hagrees order
    have hanswers := hagrees.answers order (.inserted Device)
    rwa [hmemory, hperform] at hanswers
  · intro hsame
    refine ⟨fun order order' => ?_, ?_⟩
    · rw [hmemory, hperform]
      exact hsame order
    · unfold perform
      rw [hmemory, hperform]
      exact h

/-- A call that writes. -/
theorem agrees_execute {m : InMemoryStateStore} {g : Sqlite.Tables → Sqlite.Tables} {reply : StoreReply}
    (hmemory : ∀ order, InMemoryStateStore.perform blake3 order op b.memory = (.ok reply, m))
    (hsqlite : Sqlite.statement blake3 op b.sqlite = (do execute g; return reply : Sqlite.Sql _) b.sqlite) :
    b.Agrees blake3 op ↔ (g b.sqlite.val).References ∧ Alike m (g b.sqlite.val) := by
  by_cases hreferences : (g b.sqlite.val).References
  · have hvalid := Sqlite.violation_eq_none.mpr hreferences
    have hperform : ∀ order, SqliteStateStore.perform blake3 order op b.sqlite = (.ok reply, ⟨_, hvalid⟩) :=
      fun order => by
        rw [SqliteStateStore.perform, hsqlite, Effects.bind_ok (execute_ok hvalid)]
        rfl
    rw [and_iff_right hreferences]
    constructor
    · intro hagrees
      have hrows := hagrees.rows
      unfold perform at hrows
      rwa [hmemory, hperform] at hrows
    · intro hrows
      refine ⟨fun order order' => ?_, ?_⟩
      · rw [hmemory, hperform]
        exact .same _
      · unfold perform
        rw [hmemory, hperform]
        exact hrows
  · refine iff_of_false (fun hagrees => ?_) fun hboth => hreferences hboth.1
    have hanswers := hagrees.answers (.inserted Device) (.inserted Device)
    have hfails : Sqlite.violation (g b.sqlite.val) = some .foreignKeyFailed := if_neg hreferences
    rw [hmemory, SqliteStateStore.perform, hsqlite, Effects.bind_error (execute_error hfails)] at hanswers
    cases hanswers

end

end Both

namespace Sqlite

section

variable {t : Tables}

/-! ### References -/

theorem deleteFolders_references (h : t.References) (gone : FolderRow → Bool) :
    (deleteFolders gone t).References ↔ ∀ f ∈ t.syncFolders.rows, gone f = true → t.Unreferenced f.id := by
  have hkeys : ∀ f ∈ t.syncFolders.rows, f.id ∈ (deleteFolders gone t).syncFolders.keys ↔ ¬gone f = true := by
    intro f hf
    constructor
    · intro hid
      obtain ⟨f', hf', heq⟩ := List.mem_map.mp hid
      obtain ⟨hf', hstays⟩ := List.mem_filter.mp hf'
      obtain rfl : f' = f := List.inj_on_of_nodup_map t.syncFolders.nodup hf' hf heq
      simpa using hstays
    · intro hstays
      exact List.mem_map_of_mem (List.mem_filter.mpr ⟨hf, by simpa using hstays⟩)
  constructor
  · intro hafter f hf hgone
    have hout := mt (hkeys f hf).mp (not_not.mpr hgone)
    exact ⟨fun m hm heq => hout (heq ▸ hafter.metadata m hm), fun e he heq => hout (heq ▸ hafter.history e he),
      fun r hr heq => hout (heq ▸ hafter.tombstone r hr)⟩
  · intro hfree
    have hstays : ∀ id ∈ t.syncFolders.keys, ¬t.Unreferenced id →
        id ∈ (deleteFolders gone t).syncFolders.keys := by
      intro id hid hreferenced
      obtain ⟨f, hf, rfl⟩ := List.mem_map.mp hid
      exact (hkeys f hf).mpr fun hgone => hreferenced (hfree f hf hgone)
    exact ⟨fun f hf => h.folder f (List.mem_filter.mp hf).1,
      fun m hm => hstays _ (h.metadata m hm) fun hnone => hnone.metadata m hm rfl,
      fun e he => hstays _ (h.history e he) fun hnone => hnone.history e he rfl,
      fun r hr => hstays _ (h.tombstone r hr) fun hnone => hnone.tombstone r hr rfl⟩

theorem putMetadata_references (h : t.References) (row : FileMetadata) :
    (putMetadata row t).References ↔ row.folderId ∈ t.syncFolders.keys := by
  have hid : ∀ new : MetadataRow, new.folderId = row.folderId →
      (({ t with fileMetadata := t.fileMetadata.put new } : Tables).References ↔
        row.folderId ∈ t.syncFolders.keys) := by
    intro new hnew
    constructor
    · intro hafter
      exact hnew ▸ hafter.metadata new ((Keyed.mem_put _).mpr (Or.inl rfl))
    · intro hthere
      refine ⟨h.folder, fun m hm => ?_, h.history, h.tombstone⟩
      rcases (Keyed.mem_put _).mp hm with rfl | ⟨hm, -⟩
      · exact hnew ▸ hthere
      · exact h.metadata m hm
  unfold putMetadata
  cases hold : t.fileMetadata.find (row.folderId, row.path) with
  | none => exact hid _ rfl
  | some old => exact hid _ (congrArg Prod.fst (t.fileMetadata.key_of_find hold))

theorem modifyFolder_references (h : t.References) {id : FolderId} {change : FolderRow → FolderRow}
    (hkey : ∀ f, (change f).id = f.id)
    (hdevice : ∀ f ∈ t.syncFolders.find id, (change f).deviceId ∈ t.devices.keys) :
    ({ t with syncFolders := t.syncFolders.modify id change } : Tables).References := by
  have hkeys := t.syncFolders.keys_modify (k := id) hkey
  refine ⟨fun f hf => ?_, fun m hm => ?_, fun e he => ?_, fun r hr => ?_⟩
  · cases hold : t.syncFolders.find id with
    | none =>
      have hsame : t.syncFolders.modify id change = t.syncFolders := by
        unfold Keyed.modify
        rw [hold]
      exact h.folder f (hsame ▸ hf)
    | some old =>
      have hput : t.syncFolders.modify id change = t.syncFolders.put (change old) := by
        unfold Keyed.modify
        rw [hold]
      rcases (Keyed.mem_put _).mp (hput ▸ hf) with rfl | ⟨hf, -⟩
      · exact hdevice old hold
      · exact h.folder f hf
  · exact hkeys ▸ h.metadata m hm
  · exact hkeys ▸ h.history e he
  · exact hkeys ▸ h.tombstone r hr

end

end Sqlite

/-! ### Calls that read -/

namespace Both

section

variable {blake3 : Bytes → FileHash} {b : Both} (h : Alike b.memory b.sqlite.val)

include h

theorem Alike.findDevice (id : DeviceId) :
    b.memory.devices.find id = (b.sqlite.val.devices.find id).map Sqlite.DeviceRow.device :=
  Keyed.find_map _ _ (fun _ => rfl) h.devices id

theorem Alike.findFolder (id : FolderId) :
    b.memory.folders.find id = (b.sqlite.val.syncFolders.find id).map Sqlite.FolderRow.folder :=
  Keyed.find_map _ _ (fun _ => rfl) h.folders id

theorem Alike.findMetadata (k : FolderId × FilePath) :
    b.memory.fileMetadata.find k = (b.sqlite.val.fileMetadata.find k).map Sqlite.MetadataRow.metadata :=
  Keyed.find_map _ _ (fun _ => rfl) h.metadata k

theorem agrees_getDevice (id : DeviceId) : b.Agrees blake3 (.getDevice id) := by
  refine (agrees_query (fun t => .device ((t.devices.find id).map (·.device))) h
    (fun _ => rfl) rfl).mpr fun _ => ?_
  rw [h.findDevice]
  exact .same _

theorem agrees_getDeviceCert (id : DeviceId) : b.Agrees blake3 (.getDeviceCert id) := by
  refine (agrees_query (fun t => .cert ((t.devices.find id).bind (·.certDer))) h
    (fun _ => rfl) rfl).mpr fun _ => ?_
  rw [h.findDevice]
  cases b.sqlite.val.devices.find id with
  | none => exact .same _
  | some d =>
    have hbytes : (d.device.fingerprint.map (·.bytes)) = d.certDer := by
      simp [Sqlite.DeviceRow.device, Function.comp_def]
    rw [Option.map_some, Option.bind_some, Option.bind_some, hbytes]
    exact .same _

theorem agrees_deviceLastAddr (id : DeviceId) : b.Agrees blake3 (.deviceLastAddr id) := by
  refine (agrees_query (fun t => .addr ((t.devices.find id).bind (·.lastAddr))) h
    (fun _ => rfl) rfl).mpr fun _ => ?_
  rw [h.findDevice]
  cases b.sqlite.val.devices.find id with
  | none => exact .same _
  | some d => exact .same _

theorem agrees_getFolder (id : FolderId) : b.Agrees blake3 (.getFolder id) := by
  refine (agrees_query (fun t => .folder ((t.syncFolders.find id).map (·.folder))) h
    (fun _ => rfl) rfl).mpr fun _ => ?_
  rw [h.findFolder]
  exact .same _

theorem agrees_getFileMetadata (folderId : FolderId) (path : FilePath) :
    b.Agrees blake3 (.getFileMetadata folderId path) := by
  refine (agrees_query (fun t => .metadata ((t.fileMetadata.find (folderId, path)).map (·.metadata))) h
    (fun _ => rfl) rfl).mpr fun _ => ?_
  rw [h.findMetadata]
  exact .same _

theorem agrees_listDevices : b.Agrees blake3 .listDevices := by
  refine (agrees_query (fun t => .devices (t.devices.rows.map (·.device))) h
    (fun _ => rfl) rfl).mpr fun order => .devices ?_
  rw [← h.devices]
  exact order.perm _

theorem agrees_listFolders : b.Agrees blake3 .listFolders := by
  refine (agrees_query (fun t => .folders ((sortById Sqlite.FolderRow.id t.syncFolders.rows).map (·.folder))) h
    (fun _ => rfl) rfl).mpr fun _ => .folders ?_
  have hmemory : (sortById Folder.id b.memory.folders.rows).Perm b.memory.folders.rows :=
    List.mergeSort_perm _ _
  have hsqlite := (List.mergeSort_perm b.sqlite.val.syncFolders.rows
    fun f f' => decide (f.id.val ≤ f'.id.val)).map Sqlite.FolderRow.folder
  rw [h.folders] at hmemory ⊢
  exact hmemory.trans hsqlite.symm

/-! ### A device by its fingerprint -/

end

/-- The order that has a device first. -/
def orderFrom (d : Device) : HashOrder Device where
  order rows := rows.filter (fun d' => decide (d' = d)) ++ rows.filter fun d' => !decide (d' = d)
  perm rows := List.filter_append_perm _ rows

/-- What the maps find, if they look at the device first. -/
theorem find?_orderFrom {d : Device} {rows : List Device} {p : Device → Bool} (hd : d ∈ rows) (hp : p d = true) :
    ((orderFrom d).order rows).find? p = some d := by
  have hmem : d ∈ rows.filter fun d' => decide (d' = d) := List.mem_filter.mpr ⟨hd, decide_eq_true rfl⟩
  have hfirst : (rows.filter fun d' => decide (d' = d)).find? p = some d := by
    cases hfind : (rows.filter fun d' => decide (d' = d)).find? p with
    | none => exact absurd hp (List.find?_eq_none.mp hfind d hmem)
    | some d' =>
      have hsame := (List.mem_filter.mp (List.mem_of_find?_eq_some hfind)).2
      rw [of_decide_eq_true hsame]
  show ((rows.filter fun d' => decide (d' = d)) ++ _).find? p = some d
  rw [List.find?_append, hfirst, Option.some_or]

section

variable {blake3 : Bytes → FileHash} {fp : CertificateFingerprint} {t : Sqlite.Tables}

theorem sameResult_deviceId_iff {id id' : Option DeviceId} :
    SameResult (.ok (.deviceId id)) (.ok (.deviceId id')) ↔ id = id' := by
  constructor
  · intro h
    cases h
    rfl
  · rintro rfl
    exact .same _

theorem sameResult_tombstones_iff {ts ts' : List Tombstone} :
    SameResult (.ok (.tombstones ts)) (.ok (.tombstones ts')) ↔ ts.Perm ts' := by
  constructor
  · intro h
    cases h with
    | same => exact List.Perm.refl _
    | tombstones hperm => exact hperm
  · exact .tombstones

/-- The first device whose certificate has the fingerprint. -/
theorem deviceByCertFingerprint_iff {d : Sqlite.DeviceRow} (hd : d ∈ t.devices.rows) :
    Sqlite.deviceByCertFingerprint blake3 fp t = some d.id ↔ d.HasFingerprint blake3 fp ∧
      ∀ d' ∈ t.devices.rows, d'.id ∈ t.devices.before d.id → ¬d'.HasFingerprint blake3 fp := by
  have hfirst : d.HasFingerprint blake3 fp → (Sqlite.deviceByCertFingerprint blake3 fp t = some d.id ↔
      ∀ d' ∈ t.devices.rows, d'.id ∈ t.devices.before d.id → ¬d'.HasFingerprint blake3 fp) := by
    intro hhas
    refine (t.devices.first_eq_iff hd (decide_eq_true hhas)).trans ?_
    refine forall₃_congr fun d' _ _ => ?_
    rw [decide_eq_false_iff_not]
    exact Iff.rfl
  constructor
  · intro hfound
    have hhas : d.HasFingerprint blake3 fp := by
      obtain ⟨d', hd', hid⟩ := Option.map_eq_some_iff.mp hfound
      obtain rfl : d' = d :=
        List.inj_on_of_nodup_map t.devices.nodup (List.mem_of_find?_eq_some hd') hd hid
      simpa [Sqlite.DeviceRow.HasFingerprint] using List.find?_some hd'
    exact ⟨hhas, (hfirst hhas).mp hfound⟩
  · rintro ⟨hhas, hnone⟩
    exact (hfirst hhas).mpr hnone

end

section

variable {blake3 : Bytes → FileHash} {b : Both} (h : Alike b.memory b.sqlite.val)

include h

/-- A device of the maps with the bytes of the fingerprint. -/
theorem Alike.device_iff {d : Device} : d ∈ b.memory.devices.rows ↔
    ∃ row ∈ b.sqlite.val.devices.rows, row.device = d := by
  rw [h.devices, List.mem_map]

theorem agrees_getDeviceByCertFingerprint (fp : CertificateFingerprint) :
    b.Agrees blake3 (.getDeviceByCertFingerprint fp) ↔
      Sqlite.AsInMemory blake3 b.sqlite.val (.getDeviceByCertFingerprint fp) := by
  let found := Sqlite.deviceByCertFingerprint blake3 fp b.sqlite.val
  let p : Device → Bool := fun d => decide (d.fingerprint = some fp)
  have hcert : ∀ row : Sqlite.DeviceRow, p row.device = true ↔ row.certDer = some fp.bytes := by
    intro row
    show decide (row.certDer.map CertificateFingerprint.mk = some fp) = true ↔ _
    rw [decide_eq_true_eq, Option.map_eq_some_iff]
    constructor
    · rintro ⟨c, hc, rfl⟩
      exact hc
    · exact fun hc => ⟨fp.bytes, hc, rfl⟩
  have hfirst : Sqlite.AsInMemory blake3 b.sqlite.val (.getDeviceByCertFingerprint fp) ↔
      ∀ row ∈ b.sqlite.val.devices.rows, row.certDer = some fp.bytes ↔ found = some row.id :=
    forall₂_congr fun row hrow => by rw [deviceByCertFingerprint_iff hrow]
  have hsame : b.Agrees blake3 (.getDeviceByCertFingerprint fp) ↔ ∀ order : HashOrder Device,
      ((order.order b.memory.devices.rows).find? p).map (·.id) = found := by
    refine (agrees_query (fun t => .deviceId (Sqlite.deviceByCertFingerprint blake3 fp t)) h
      (fun _ => rfl) rfl).trans (forall_congr' fun order => ?_)
    exact sameResult_deviceId_iff
  rw [hsame, hfirst]
  constructor
  · intro hall row hrow
    have hmem : row.device ∈ b.memory.devices.rows := h.device_iff.mpr ⟨row, hrow, rfl⟩
    constructor
    · intro hc
      have hanswer := hall (orderFrom row.device)
      rw [find?_orderFrom hmem ((hcert row).mpr hc)] at hanswer
      exact hanswer.symm
    · intro hfound
      have hanswer := hall (.inserted Device)
      rw [hfound] at hanswer
      obtain ⟨d, hd, hid⟩ := Option.map_eq_some_iff.mp hanswer
      obtain ⟨row', hrow', rfl⟩ := h.device_iff.mp (List.mem_of_find?_eq_some hd)
      obtain rfl : row' = row := List.inj_on_of_nodup_map b.sqlite.val.devices.nodup hrow' hrow hid
      exact (hcert row').mp (List.find?_some hd)
  · intro hall order
    cases hfind : (order.order b.memory.devices.rows).find? p with
    | some d =>
      have hd := (order.perm _).mem_iff.mp (List.mem_of_find?_eq_some hfind)
      obtain ⟨row, hrow, rfl⟩ := h.device_iff.mp hd
      exact ((hall row hrow).mp ((hcert row).mp (List.find?_some hfind))).symm
    | none =>
      cases hfound : found with
      | none => rfl
      | some id =>
        obtain ⟨row, hrow, rfl⟩ := Option.map_eq_some_iff.mp hfound
        have hrow := List.mem_of_find?_eq_some hrow
        have hmem := (order.perm _).mem_iff.mpr (h.device_iff.mpr ⟨row, hrow, rfl⟩)
        exact absurd ((hcert row).mpr ((hall row hrow).mpr hfound)) (List.find?_eq_none.mp hfind _ hmem)

/-! ### Tombstones -/

end

theorem toInt_toInt64 (a : UInt64) :
    a.toInt64.toInt = if a.toNat < 2 ^ 63 then (a.toNat : ℤ) else a.toNat - 2 ^ 64 := by
  show a.toBitVec.toInt = _
  have hnat : a.toBitVec.toNat = a.toNat := rfl
  have hlt : a.toNat < 2 ^ 64 := a.toNat_lt
  rw [BitVec.toInt_eq_toNat_cond, hnat]
  split_ifs <;> omega

section

variable {a b : UInt64}

/-- As signed numbers, times compare as they do if both have the same sign. -/
theorem signed_le_iff : (a ≤ b ↔ a.toInt64 ≤ b.toInt64) ↔ (b.toInt64 < 0 ↔ a.toInt64 < 0) := by
  have ha : a.toNat < 2 ^ 64 := a.toNat_lt
  have hb : b.toNat < 2 ^ 64 := b.toNat_lt
  have hzero : (0 : Int64).toInt = 0 := rfl
  rw [UInt64.le_iff_toNat_le, Int64.le_iff_toInt_le, Int64.lt_iff_toInt_lt, Int64.lt_iff_toInt_lt, hzero,
    toInt_toInt64, toInt_toInt64]
  split_ifs <;> omega

theorem signed_le_of_neg (h : a.toInt64 < 0) (hle : a ≤ b) : a.toInt64 ≤ b.toInt64 := by
  have ha : a.toNat < 2 ^ 64 := a.toNat_lt
  have hb : b.toNat < 2 ^ 64 := b.toNat_lt
  have hzero : (0 : Int64).toInt = 0 := rfl
  rw [UInt64.le_iff_toNat_le] at hle
  rw [Int64.lt_iff_toInt_lt, hzero, toInt_toInt64] at h
  rw [Int64.le_iff_toInt_le, toInt_toInt64, toInt_toInt64]
  split_ifs at h ⊢ <;> omega

theorem le_of_signed_le (h : ¬a.toInt64 < 0) (hle : a.toInt64 ≤ b.toInt64) : a ≤ b := by
  have ha : a.toNat < 2 ^ 64 := a.toNat_lt
  have hb : b.toNat < 2 ^ 64 := b.toNat_lt
  have hzero : (0 : Int64).toInt = 0 := rfl
  rw [Int64.le_iff_toInt_le, toInt_toInt64, toInt_toInt64] at hle
  rw [Int64.lt_iff_toInt_lt, hzero, toInt_toInt64] at h
  rw [UInt64.le_iff_toNat_le]
  split_ifs at h hle <;> omega

end

/-- Of two selections, one within the other, with as many rows. -/
theorem filter_agree {α : Type} {rows : List α} {p q : α → Bool}
    (hwithin : ∀ r ∈ rows, q r = true → p r = true)
    (hlength : (rows.filter p).length = (rows.filter q).length) : ∀ r ∈ rows, p r = true → q r = true := by
  have hsame : (rows.filter p).filter q = rows.filter q := by
    rw [List.filter_filter]
    refine List.filter_congr fun r hr => ?_
    cases hq : q r with
    | false => rfl
    | true => rw [hwithin r hr hq, Bool.true_and]
  have hall := List.length_filter_eq_length_iff.mp (hsame ▸ hlength.symm)
  exact fun r hr hp => hall r (List.mem_filter.mpr ⟨hr, hp⟩)

section

variable {blake3 : Bytes → FileHash} {b : Both} (h : Alike b.memory b.sqlite.val)

include h

theorem agrees_getTombstones (folderId : FolderId) (since : UInt64) :
    b.Agrees blake3 (.getTombstones folderId since) ↔
      Sqlite.AsInMemory blake3 b.sqlite.val (.getTombstones folderId since) := by
  let p : Sqlite.TombstoneRow → Bool := fun r =>
    decide (r.folderId = folderId) && decide (since ≤ r.deletedAt.toUInt64)
  let q : Sqlite.TombstoneRow → Bool := fun r =>
    decide (r.folderId = folderId) && decide (since.toInt64 ≤ r.deletedAt)
  have hmemory : (b.memory.tombstones.filter fun r =>
      decide (r.folderId = folderId) && decide (since ≤ r.deletedAt)) =
      (b.sqlite.val.tombstones.filter p).map Sqlite.TombstoneRow.tombstone := by
    rw [h.tombstones, List.filter_map]
    rfl
  have hsame : b.Agrees blake3 (.getTombstones folderId since) ↔
      ((b.sqlite.val.tombstones.filter p).map Sqlite.TombstoneRow.tombstone).Perm
        ((b.sqlite.val.tombstones.filter q).map Sqlite.TombstoneRow.tombstone) := by
    refine (agrees_query (fun t => .tombstones ((t.tombstones.filter fun r =>
      decide (r.folderId = folderId) && decide (since.toInt64 ≤ r.deletedAt)).map (·.tombstone))) h
      (fun _ => rfl) rfl).trans ?_
    rw [hmemory]
    exact ⟨fun hanswers => sameResult_tombstones_iff.mp (hanswers (.inserted Device)),
      fun hperm _ => sameResult_tombstones_iff.mpr hperm⟩
  have hsigns : ∀ r : Sqlite.TombstoneRow, r.folderId = folderId →
      ((p r = true ↔ q r = true) ↔ (r.deletedAt < 0 ↔ since.toInt64 < 0)) := by
    intro r hfolder
    have hle := @signed_le_iff since r.deletedAt.toUInt64
    rw [Int64.toInt64_toUInt64] at hle
    have hp : p r = true ↔ since ≤ r.deletedAt.toUInt64 := by simp [p, hfolder]
    have hq : q r = true ↔ since.toInt64 ≤ r.deletedAt := by
      rw [Bool.and_eq_true, decide_eq_true_eq, decide_eq_true_eq, and_iff_right hfolder]
    rw [hp, hq]
    exact hle
  have hfolders : ∀ r, r.folderId ≠ folderId → (p r = true ↔ q r = true) := fun r hne => by simp [p, q, hne]
  rw [hsame]
  constructor
  · intro hperm r hr hfolder
    have hlength := hperm.length_eq
    rw [List.length_map, List.length_map] at hlength
    refine (hsigns r hfolder).mp ?_
    by_cases hneg : since.toInt64 < 0
    · have hwithin : ∀ r : Sqlite.TombstoneRow, p r = true → q r = true := by
        intro r hp
        simp only [p, q, Bool.and_eq_true, decide_eq_true_eq] at hp ⊢
        exact ⟨hp.1, signed_le_of_neg hneg hp.2⟩
      exact ⟨hwithin r, filter_agree (fun r _ => hwithin r) hlength.symm r hr⟩
    · have hwithin : ∀ r : Sqlite.TombstoneRow, q r = true → p r = true := by
        intro r hq
        simp only [p, q, Bool.and_eq_true, decide_eq_true_eq] at hq ⊢
        refine ⟨hq.1, le_of_signed_le hneg ?_⟩
        rw [Int64.toInt64_toUInt64]
        exact hq.2
      exact ⟨filter_agree (fun r _ => hwithin r) hlength r hr, hwithin r⟩
  · intro hall
    have heq : b.sqlite.val.tombstones.filter p = b.sqlite.val.tombstones.filter q := by
      refine List.filter_congr fun r hr => Bool.eq_iff_iff.mpr ?_
      by_cases hfolder : r.folderId = folderId
      · exact (hsigns r hfolder).mpr (hall r hr hfolder)
      · exact hfolders r hfolder
    rw [heq]

/-! ### Sessions -/

end

/-- A session is read as it was recorded, or not at all. -/
theorem session_sessionRow (r : SessionRecord) : (Sqlite.sessionRow r).session =
    if (Sqlite.sessionRow r).IsReadable then some r else none := by
  unfold Sqlite.SessionRow.session Sqlite.readCount
  by_cases hpushed : (Sqlite.sessionRow r).pushedCount < 0
  · have hnot : ¬(Sqlite.sessionRow r).IsReadable := fun hreadable => hreadable.1 hpushed
    rw [if_neg hnot, if_pos hpushed]
    rfl
  by_cases hpulled : (Sqlite.sessionRow r).pulledCount < 0
  · have hnot : ¬(Sqlite.sessionRow r).IsReadable := fun hreadable => hreadable.2.1 hpulled
    rw [if_neg hnot, if_neg hpushed, if_pos hpulled]
    rfl
  by_cases hconflicts : (Sqlite.sessionRow r).conflictsCount < 0
  · have hnot : ¬(Sqlite.sessionRow r).IsReadable := fun hreadable => hreadable.2.2 hconflicts
    rw [if_neg hnot, if_neg hpushed, if_neg hpulled, if_pos hconflicts]
    rfl
  · have hreadable : (Sqlite.sessionRow r).IsReadable := ⟨hpushed, hpulled, hconflicts⟩
    rw [if_pos hreadable, if_neg hpushed, if_neg hpulled, if_neg hconflicts]
    rfl

/-- All of them can be read, or the list cannot. -/
theorem mapM_session (rs : List SessionRecord) : (rs.map Sqlite.sessionRow).mapM Sqlite.SessionRow.session =
    if ∀ r ∈ rs.map Sqlite.sessionRow, r.IsReadable then some rs else none := by
  induction rs with
  | nil => rfl
  | cons r rs ih =>
    rw [List.map_cons, List.mapM_cons, session_sessionRow, ih]
    by_cases hfirst : (Sqlite.sessionRow r).IsReadable
    · by_cases hrest : ∀ r ∈ rs.map Sqlite.sessionRow, r.IsReadable
      · rw [if_pos hfirst, if_pos hrest, if_pos (List.forall_mem_cons.mpr ⟨hfirst, hrest⟩)]
        rfl
      · rw [if_pos hfirst, if_neg hrest, if_neg fun hall => hrest (List.forall_mem_cons.mp hall).2]
        rfl
    · rw [if_neg hfirst, if_neg fun hall => hfirst (List.forall_mem_cons.mp hall).1]
      rfl

section

variable {blake3 : Bytes → FileHash} {b : Both} (h : Alike b.memory b.sqlite.val)

include h

theorem agrees_listRecentSessions (limit : ℕ) : b.Agrees blake3 (.listRecentSessions limit) ↔
    Sqlite.AsInMemory blake3 b.sqlite.val (.listRecentSessions limit) := by
  let recent := b.memory.sessions.reverse.take limit
  have hrows : b.sqlite.val.syncSessions.reverse.take limit = recent.map Sqlite.sessionRow := by
    rw [h.sessions, ← List.map_reverse, ← List.map_take]
  have hperform : ∀ order, SqliteStateStore.perform blake3 order (.listRecentSessions limit) b.sqlite =
      if ∀ r ∈ recent.map Sqlite.sessionRow, r.IsReadable then (.ok (.sessions recent), b.sqlite)
      else (.error .outOfRange, b.sqlite) := by
    intro order
    have hread : Sqlite.listRecentSessions limit b.sqlite =
        if ∀ r ∈ recent.map Sqlite.sessionRow, r.IsReadable then .ok recent b.sqlite
        else .error .outOfRange b.sqlite := by
      unfold Sqlite.listRecentSessions
      rw [Effects.bind_ok (query_apply _), hrows, mapM_session]
      by_cases hreadable : ∀ r ∈ recent.map Sqlite.sessionRow, r.IsReadable
      · rw [if_pos hreadable, if_pos hreadable]
        rfl
      · rw [if_neg hreadable, if_neg hreadable]
        rfl
    have hstatement : Sqlite.statement blake3 (.listRecentSessions limit) =
        (do return .sessions (← Sqlite.listRecentSessions limit)) := rfl
    rw [SqliteStateStore.perform, hstatement]
    by_cases hreadable : ∀ r ∈ recent.map Sqlite.sessionRow, r.IsReadable
    · rw [if_pos hreadable] at hread ⊢
      rw [Effects.bind_ok hread]
      rfl
    · rw [if_neg hreadable] at hread ⊢
      rw [Effects.bind_error hread]
  show b.Agrees blake3 _ ↔ ∀ r ∈ b.sqlite.val.syncSessions.reverse.take limit, r.IsReadable
  rw [hrows]
  constructor
  · intro hagrees
    by_contra hreadable
    have hanswers := hagrees.answers (.inserted Device) (.inserted Device)
    rw [hperform, if_neg hreadable] at hanswers
    cases hanswers
  · intro hreadable
    refine ⟨fun order order' => ?_, ?_⟩
    · rw [hperform, if_pos hreadable]
      exact .same _
    · unfold perform
      rw [hperform, if_pos hreadable]
      exact h

end

end Both

/-! ### Calls that write -/

namespace Both

section

variable {m : InMemoryStateStore} {t : Sqlite.Tables} (h : Alike m t)

include h

theorem Alike.with_devices {ds : Keyed Device.id} {ds' : Keyed Sqlite.DeviceRow.id} :
    Alike { m with devices := ds } { t with devices := ds' } ↔
      ds.rows = ds'.rows.map Sqlite.DeviceRow.device :=
  ⟨fun h' => h'.devices,
    fun hrows => ⟨hrows, h.folders, h.metadata, h.history, h.tombstones, h.sessions, h.nextFolderId⟩⟩

theorem Alike.with_folders {fs : Keyed Folder.id} {fs' : Keyed Sqlite.FolderRow.id} :
    Alike { m with folders := fs } { t with syncFolders := fs' } ↔
      fs.rows = fs'.rows.map Sqlite.FolderRow.folder :=
  ⟨fun h' => h'.folders,
    fun hrows => ⟨h.devices, hrows, h.metadata, h.history, h.tombstones, h.sessions, h.nextFolderId⟩⟩

theorem Alike.with_metadata {ms : Keyed fun m : FileMetadata => (m.folderId, m.path)}
    {ms' : Keyed fun m : Sqlite.MetadataRow => (m.folderId, m.path)} :
    Alike { m with fileMetadata := ms } { t with fileMetadata := ms' } ↔
      ms.rows = ms'.rows.map Sqlite.MetadataRow.metadata :=
  ⟨fun h' => h'.metadata,
    fun hrows => ⟨h.devices, h.folders, hrows, h.history, h.tombstones, h.sessions, h.nextFolderId⟩⟩

/-- A device that is put in both. -/
theorem Alike.put_device {device : Device} {row : Sqlite.DeviceRow} (hid : row.id = device.id) :
    Alike { m with devices := m.devices.put device } { t with devices := t.devices.put row } ↔
      device = row.device := by
  have hput := t.devices.rows_put_map m.devices (fun _ => rfl) h.devices row
  rw [h.with_devices, ← hput]
  exact m.devices.rows_put_inj hid.symm

end

section

variable {blake3 : Bytes → FileHash} {b : Both} (h : Alike b.memory b.sqlite.val)

include h

/-- What is not given is kept in the tables only. -/
theorem agrees_upsertDevice (device : Device) : b.Agrees blake3 (.upsertDevice device) ↔
    Sqlite.AsInMemory blake3 b.sqlite.val (.upsertDevice device) := by
  have hreferences : (Sqlite.putDevice device b.sqlite.val).References :=
    Sqlite.violation_eq_none.mp (Sqlite.putDevice_valid device b.sqlite)
  refine (agrees_execute (fun _ => rfl) rfl).trans ((and_iff_right hreferences).trans ?_)
  show _ ↔ ∀ old ∈ b.sqlite.val.devices.find device.id,
    (device.fingerprint = none → old.certDer = none) ∧ (device.lastAddr = none → old.lastAddr = none)
  unfold Sqlite.putDevice
  refine (h.put_device (by split <;> rfl)).trans ?_
  cases hold : b.sqlite.val.devices.find device.id with
  | none =>
    refine iff_of_true ?_ (by simp)
    obtain ⟨id, name, fingerprint, lastAddr⟩ := device
    simp [Sqlite.DeviceRow.device, Function.comp_def]
  | some old =>
    obtain ⟨id, name, fingerprint, lastAddr⟩ := device
    cases fingerprint <;> cases lastAddr <;>
      simp [Sqlite.DeviceRow.device, eq_comm]

/-- A certificate that is its own hash, for a device that is there. -/
theorem agrees_setDeviceCert (id : DeviceId) (certDer : Bytes) : b.Agrees blake3 (.setDeviceCert id certDer) ↔
    Sqlite.AsInMemory blake3 b.sqlite.val (.setDeviceCert id certDer) := by
  have hreferences : (Sqlite.setCert id certDer b.sqlite.val).References :=
    Sqlite.violation_eq_none.mp (@Sqlite.modify_valid id (fun d => { d with certDer := some certDer })
      (fun _ => rfl) b.sqlite)
  refine (agrees_execute (fun _ => rfl) rfl).trans ((and_iff_right hreferences).trans ?_)
  show _ ↔ id ∈ b.sqlite.val.devices.keys ∧ (CertificateFingerprint.fromDer blake3 certDer).bytes = certDer
  unfold InMemoryStateStore.setDeviceCert Sqlite.setCert Keyed.modify
  rw [h.findDevice]
  cases hold : b.sqlite.val.devices.find id with
  | none =>
    have habsent := (Keyed.find_eq_none_iff _).mp hold
    refine iff_of_false (fun hafter => habsent ?_) fun hboth => habsent hboth.1
    have hkeys : (b.memory.devices.put _).keys = b.sqlite.val.devices.keys :=
      Keyed.keys_map _ _ (fun _ => rfl) hafter.devices
    rw [← hkeys]
    exact List.mem_map_of_mem ((Keyed.mem_put _).mpr (Or.inl rfl))
  | some old =>
    have hthere : id ∈ b.sqlite.val.devices.keys :=
      List.mem_map.mpr ⟨old, Keyed.mem_of_find _ hold, Keyed.key_of_find _ hold⟩
    rw [and_iff_right hthere]
    refine (h.put_device rfl).trans ?_
    rw [Device.mk.injEq]
    simp only [Sqlite.DeviceRow.device, Option.map_some, Option.some.injEq, true_and, and_true]
    exact ⟨fun heq => congrArg CertificateFingerprint.bytes heq,
      fun heq => congrArg CertificateFingerprint.mk heq⟩

theorem agrees_setDeviceLastAddr (id : DeviceId) (addr : String) :
    b.Agrees blake3 (.setDeviceLastAddr id addr) := by
  have hreferences : (Sqlite.setLastAddr id addr b.sqlite.val).References :=
    Sqlite.violation_eq_none.mp (@Sqlite.modify_valid id (fun d => { d with lastAddr := some addr })
      (fun _ => rfl) b.sqlite)
  refine (agrees_execute (fun _ => rfl) rfl).mpr ⟨hreferences, h.with_devices.mpr ?_⟩
  exact Keyed.rows_modify_map _ _ (fun _ => rfl) h.devices (fun _ => rfl) id

theorem agrees_removeFolder (id : FolderId) : b.Agrees blake3 (.removeFolder id) ↔
    Sqlite.AsInMemory blake3 b.sqlite.val (.removeFolder id) := by
  have hreferences := Sqlite.violation_eq_none.mp b.sqlite.valid
  have hrows : Alike { b.memory with folders := b.memory.folders.filter fun f => !decide (f.id = id) }
      (Sqlite.deleteFolders (fun f => decide (f.id = id)) b.sqlite.val) :=
    h.with_folders.mpr (Keyed.rows_filter_map _ _ h.folders fun _ => rfl)
  refine (agrees_execute (fun _ => rfl) rfl).trans ((and_iff_left hrows).trans ?_)
  rw [Sqlite.deleteFolders_references hreferences]
  constructor
  · intro hall
    have hrow : id ∈ b.sqlite.val.syncFolders.keys → b.sqlite.val.Unreferenced id := by
      intro hid
      obtain ⟨f, hf, rfl⟩ := List.mem_map.mp hid
      exact hall f hf (decide_eq_true rfl)
    exact ⟨fun m hm heq => (hrow (heq ▸ hreferences.metadata m hm)).metadata m hm heq,
      fun e he heq => (hrow (heq ▸ hreferences.history e he)).history e he heq,
      fun r hr heq => (hrow (heq ▸ hreferences.tombstone r hr)).tombstone r hr heq⟩
  · intro hfree f _ hf
    rw [of_decide_eq_true hf]
    exact hfree

theorem agrees_setFolderLastSync (id : FolderId) (ts : ℤ) : b.Agrees blake3 (.setFolderLastSync id ts) := by
  have hreferences := Sqlite.violation_eq_none.mp b.sqlite.valid
  refine (agrees_execute (fun _ => rfl) rfl).mpr ⟨?_, h.with_folders.mpr ?_⟩
  · exact Sqlite.modifyFolder_references hreferences (fun _ => rfl)
      fun f hf => hreferences.folder f (Keyed.mem_of_find _ hf)
  · exact Keyed.rows_modify_map _ _ (fun _ => rfl) h.folders (fun _ => rfl) id

theorem agrees_setFolderDevice (id : FolderId) (deviceId : DeviceId) :
    b.Agrees blake3 (.setFolderDevice id deviceId) ↔
      Sqlite.AsInMemory blake3 b.sqlite.val (.setFolderDevice id deviceId) := by
  have hreferences := Sqlite.violation_eq_none.mp b.sqlite.valid
  have hrows : Alike { b.memory with
        folders := b.memory.folders.modify id fun f => { f with deviceId := deviceId } }
      { b.sqlite.val with
        syncFolders := b.sqlite.val.syncFolders.modify id fun f => { f with deviceId := deviceId } } :=
    h.with_folders.mpr (Keyed.rows_modify_map _ _ (fun _ => rfl) h.folders (fun _ => rfl) id)
  refine (agrees_execute (fun _ => rfl) rfl).trans ((and_iff_left hrows).trans ?_)
  constructor
  · intro hafter hid
    obtain ⟨old, hold, rfl⟩ := List.mem_map.mp hid
    refine hafter.folder { old with deviceId := deviceId } ?_
    unfold Keyed.modify
    rw [(Keyed.find_eq_some_iff _).mpr ⟨hold, rfl⟩]
    exact (Keyed.mem_put _).mpr (Or.inl rfl)
  · intro hdevice
    refine Sqlite.modifyFolder_references hreferences (fun _ => rfl) fun f hf => hdevice ?_
    exact List.mem_map.mpr ⟨f, Keyed.mem_of_find _ hf, Keyed.key_of_find _ hf⟩

/-- A row whose other columns are as they come. -/
theorem agrees_upsertFileMetadata (hplain : ∀ row ∈ b.memory.fileMetadata.rows, row.IsPlain)
    (row : FileMetadata) : b.Agrees blake3 (.upsertFileMetadata row) ↔
      Sqlite.AsInMemory blake3 b.sqlite.val (.upsertFileMetadata row) := by
  have hreferences := Sqlite.violation_eq_none.mp b.sqlite.valid
  refine (agrees_execute (fun _ => rfl) rfl).trans
    (and_congr (Sqlite.putMetadata_references hreferences row) ?_)
  have hput : ∀ new : Sqlite.MetadataRow, (new.folderId, new.path) = (row.folderId, row.path) →
      (Alike { b.memory with fileMetadata := b.memory.fileMetadata.put row }
        { b.sqlite.val with fileMetadata := b.sqlite.val.fileMetadata.put new } ↔ row = new.metadata) := by
    intro new hkey
    have hrows := Keyed.rows_put_map b.sqlite.val.fileMetadata b.memory.fileMetadata (fun _ => rfl) h.metadata new
    rw [h.with_metadata, ← hrows]
    exact Keyed.rows_put_inj _ hkey.symm
  unfold Sqlite.putMetadata
  cases hold : b.sqlite.val.fileMetadata.find (row.folderId, row.path) with
  | none =>
    refine (hput _ rfl).trans ?_
    obtain ⟨path, folderId, kind, mtime, size, hash, deviceId, version, lv, rv, lm, rm⟩ := row
    simp [Sqlite.MetadataRow.metadata, FileMetadata.IsPlain]
  | some old =>
    have hkey := Keyed.key_of_find _ hold
    obtain ⟨hfolder, hpath⟩ := Prod.mk.inj hkey
    have hzero := hplain old.metadata (by
      rw [h.metadata]
      exact List.mem_map_of_mem (Keyed.mem_of_find _ hold))
    obtain ⟨-, hversion, hlocal, hremote, hlocalMtime, hremoteMtime⟩ := hzero
    refine (hput { old with
      mtime := row.mtime, size := row.size, hash := row.hash.bytes, deviceId := row.deviceId } hkey).trans ?_
    obtain ⟨path, folderId, kind, mtime, size, hash, deviceId, version, lv, rv, lm, rm⟩ := row
    simp only [Sqlite.MetadataRow.metadata] at hversion hlocal hremote hlocalMtime hremoteMtime
    simp [Sqlite.MetadataRow.metadata, FileMetadata.IsPlain, hversion, hlocal, hremote, hlocalMtime,
      hremoteMtime, hfolder, hpath]

theorem agrees_recordHistory (entry : HistoryEntry) : b.Agrees blake3 (.recordHistory entry) ↔
    Sqlite.AsInMemory blake3 b.sqlite.val (.recordHistory entry) := by
  have hreferences := Sqlite.violation_eq_none.mp b.sqlite.valid
  have hrows : Alike { b.memory with history := b.memory.history ++ [entry] }
      { b.sqlite.val with fileHistory := b.sqlite.val.fileHistory ++ [entry] } :=
    ⟨h.devices, h.folders, h.metadata, congrArg (· ++ [entry]) h.history, h.tombstones, h.sessions,
      h.nextFolderId⟩
  refine (agrees_execute (fun _ => rfl) rfl).trans ((and_iff_left hrows).trans ?_)
  constructor
  · exact fun hafter => hafter.history entry (List.mem_append_right _ (List.mem_singleton_self _))
  · intro hthere
    refine ⟨hreferences.folder, hreferences.metadata, fun e he => ?_, hreferences.tombstone⟩
    rcases List.mem_append.mp he with he | he
    · exact hreferences.history e he
    · rw [List.mem_singleton.mp he]
      exact hthere

theorem agrees_addTombstone (tomb : Tombstone) : b.Agrees blake3 (.addTombstone tomb) ↔
    Sqlite.AsInMemory blake3 b.sqlite.val (.addTombstone tomb) := by
  have hreferences := Sqlite.violation_eq_none.mp b.sqlite.valid
  have hrows : Alike { b.memory with tombstones := b.memory.tombstones ++ [tomb] }
      { b.sqlite.val with tombstones := b.sqlite.val.tombstones ++
        [⟨tomb.folderId, tomb.path, tomb.deviceId, tomb.deletedAt.toInt64⟩] } := by
    refine ⟨h.devices, h.folders, h.metadata, h.history, ?_, h.sessions, h.nextFolderId⟩
    rw [List.map_append, ← h.tombstones]
    rfl
  refine (agrees_execute (fun _ => rfl) rfl).trans ((and_iff_left hrows).trans ?_)
  constructor
  · exact fun hafter => hafter.tombstone _ (List.mem_append_right _ (List.mem_singleton_self _))
  · intro hthere
    refine ⟨hreferences.folder, hreferences.metadata, hreferences.history, fun r hr => ?_⟩
    rcases List.mem_append.mp hr with hr | hr
    · exact hreferences.tombstone r hr
    · rw [List.mem_singleton.mp hr]
      exact hthere

theorem agrees_recordSession (session : SessionRecord) : b.Agrees blake3 (.recordSession session) := by
  have hreferences := Sqlite.violation_eq_none.mp b.sqlite.valid
  refine (agrees_execute (fun _ => rfl) rfl).mpr ⟨⟨hreferences.folder, hreferences.metadata,
    hreferences.history, hreferences.tombstone⟩, ⟨h.devices, h.folders, h.metadata, h.history, h.tombstones,
      ?_, h.nextFolderId⟩⟩
  rw [List.map_append, ← h.sessions]
  rfl

end

end Both

end Persistence

end FerriSync
