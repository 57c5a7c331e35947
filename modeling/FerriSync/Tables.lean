/-
# The tables of the database

The seven tables of `storage/mod.rs` with their keys and references
(`initialize_schema`). A row refers to another by a device's identifier or a folder's
number; SQLite as it is built here enforces that: a statement after which a reference
leads nowhere fails, as one after which a key occurs twice does
(`Database.violation`).

A table is the list of its rows in the order in which they were inserted, which is
the order of their row numbers. Left out are the times (`last_seen`, `last_sync_at`,
`ts`, `recorded_at`), `active`, which is always set, the columns of `file_metadata`
that no statement sets, and the numbers of history and session rows.

Key definitions: `Database`, `Database.Keys`, `Database.References`,
`Database.violation`.
Key theorems: `violation_eq_none`, `Database.deleteFolders_valid`,
`Database.deleteDevices_valid`, `upsert_keys`.
-/
import FerriSync.Lib.Transactions
import FerriSync.Registry

namespace FerriSync

namespace Db

structure Device where
  id : String
  name : String
  certDer : Option Bytes
  lastAddr : Option String
deriving DecidableEq, Repr

/-- A device attached to a folder. -/
structure FolderDevice where
  folderId : ℕ
  deviceId : String
  mode : String
  remotePath : Option String
  enabled : Bool
deriving DecidableEq, Repr

structure FileMetadata where
  path : String
  folderId : ℕ
  mtime : ℤ
  size : ℤ
  hash : Bytes
  deviceId : String
deriving DecidableEq, Repr

structure FileHistory where
  folderId : ℕ
  path : String
  deviceId : String
  action : String
  version : ℤ
  mtime : ℤ
  hash : Bytes
  size : ℤ
deriving DecidableEq, Repr

structure SyncSession where
  direction : String
  peerDevice : String
  addr : String
  folderPath : String
  pushedCount : ℕ
  pulledCount : ℕ
  conflictsCount : ℕ
  pushedBytes : ℕ
  pulledBytes : ℕ
deriving DecidableEq, Repr

/-- The constraint that a statement violates. -/
inductive Error
  | uniqueFailed
  | foreignKeyFailed
deriving DecidableEq, Repr

end Db

structure Database where
  devices : List Db.Device
  syncFolders : List SyncFolderRow
  folderDevices : List Db.FolderDevice
  fileMetadata : List Db.FileMetadata
  fileHistory : List Db.FileHistory
  syncSessions : List Db.SyncSession
  sharedFolders : List SharedFolderRow
  /-- The largest numbers that rows of `sync_folders` and `shared_folders` have had. -/
  folderSeq : ℕ
  shareSeq : ℕ
deriving DecidableEq

namespace Database

def empty : Database := ⟨[], [], [], [], [], [], [], 0, 0⟩

variable (db : Database)

def deviceIds : List String := db.devices.map (·.id)

def folderIds : List ℕ := db.syncFolders.map (·.id)

/-- No key occurs twice. -/
structure Keys : Prop where
  devices : db.deviceIds.Nodup
  syncFolders : db.folderIds.Nodup
  folderDevices : (db.folderDevices.map fun p => (p.folderId, p.deviceId)).Nodup
  fileMetadata : (db.fileMetadata.map fun m => (m.folderId, m.path)).Nodup
  sharedFolders : (db.sharedFolders.map fun s => (s.folderGuid, s.deviceId)).Nodup

/-- Every reference leads to a row. -/
structure References : Prop where
  folderOwner : ∀ f ∈ db.syncFolders, f.deviceId ∈ db.deviceIds
  pairFolder : ∀ p ∈ db.folderDevices, p.folderId ∈ db.folderIds
  pairDevice : ∀ p ∈ db.folderDevices, p.deviceId ∈ db.deviceIds
  metadata : ∀ m ∈ db.fileMetadata, m.folderId ∈ db.folderIds
  history : ∀ h ∈ db.fileHistory, h.folderId ∈ db.folderIds
  share : ∀ s ∈ db.sharedFolders, s.deviceId ∈ db.deviceIds

instance : Decidable db.Keys :=
  decidable_of_iff (db.deviceIds.Nodup ∧ db.folderIds.Nodup ∧
      (db.folderDevices.map fun p => (p.folderId, p.deviceId)).Nodup ∧
      (db.fileMetadata.map fun m => (m.folderId, m.path)).Nodup ∧
      (db.sharedFolders.map fun s => (s.folderGuid, s.deviceId)).Nodup)
    ⟨fun ⟨h1, h2, h3, h4, h5⟩ => ⟨h1, h2, h3, h4, h5⟩, fun ⟨h1, h2, h3, h4, h5⟩ => ⟨h1, h2, h3, h4, h5⟩⟩

instance : Decidable db.References :=
  decidable_of_iff ((∀ f ∈ db.syncFolders, f.deviceId ∈ db.deviceIds) ∧
      (∀ p ∈ db.folderDevices, p.folderId ∈ db.folderIds) ∧
      (∀ p ∈ db.folderDevices, p.deviceId ∈ db.deviceIds) ∧
      (∀ m ∈ db.fileMetadata, m.folderId ∈ db.folderIds) ∧
      (∀ h ∈ db.fileHistory, h.folderId ∈ db.folderIds) ∧
      ∀ s ∈ db.sharedFolders, s.deviceId ∈ db.deviceIds)
    ⟨fun ⟨h1, h2, h3, h4, h5, h6⟩ => ⟨h1, h2, h3, h4, h5, h6⟩,
      fun ⟨h1, h2, h3, h4, h5, h6⟩ => ⟨h1, h2, h3, h4, h5, h6⟩⟩

/-- The constraint that the tables violate. A key that occurs twice shows while the
statement runs, a reference that leads nowhere at its end. -/
def violation : Option Db.Error :=
  if ¬db.Keys then some .uniqueFailed
  else if ¬db.References then some .foreignKeyFailed
  else none

end Database

/-- A database as it stands between two statements, and what is done with it. -/
abbrev DbState := Transactions.State Database.violation

abbrev Sql (α : Type) := Transactions.Sql Database.violation α

/-! ### Statements -/

/-- `INSERT .. ON CONFLICT DO UPDATE`. -/
def upsert {α : Type} (conflicts : α → Bool) (update : α → α) (row : α) (rows : List α) : List α :=
  if rows.any conflicts then rows.map fun r => if conflicts r then update r else r
  else rows ++ [row]

namespace Database

variable (db : Database)

/-- `DELETE FROM sync_folders`. A folder's pairs go with it. -/
def deleteFolders (doomed : SyncFolderRow → Bool) : Database := { db with
  syncFolders := db.syncFolders.filter fun f => !doomed f
  folderDevices := db.folderDevices.filter fun p =>
    !db.syncFolders.any fun f => doomed f && decide (f.id = p.folderId) }

def deleteDevices (doomed : Db.Device → Bool) : Database :=
  { db with devices := db.devices.filter fun d => !doomed d }

def deletePairs (doomed : Db.FolderDevice → Bool) : Database :=
  { db with folderDevices := db.folderDevices.filter fun p => !doomed p }

def deleteMetadata (doomed : Db.FileMetadata → Bool) : Database :=
  { db with fileMetadata := db.fileMetadata.filter fun m => !doomed m }

def deleteHistory (doomed : Db.FileHistory → Bool) : Database :=
  { db with fileHistory := db.fileHistory.filter fun h => !doomed h }

def deleteSessions (doomed : Db.SyncSession → Bool) : Database :=
  { db with syncSessions := db.syncSessions.filter fun s => !doomed s }

/-- `COALESCE(MAX(id), 0)` of `sync_folders`. -/
def maxFolderId : ℕ := db.folderIds.foldr max 0

/-- The number an inserted folder gets; none is given twice. -/
def nextFolderId : ℕ := max db.folderSeq db.maxFolderId + 1

def insertFolder (localPath : String) (name : Option String) (deviceId direction : String)
    (folderGuid : Option String) : Database := { db with
  syncFolders := db.syncFolders ++
    [⟨db.nextFolderId, localPath, name, deviceId, direction, folderGuid⟩]
  folderSeq := db.nextFolderId }

end Database

/-! ### Constraints -/

section

variable {db db' : Database}

theorem violation_eq_none : db.violation = none ↔ db.Keys ∧ db.References := by
  unfold Database.violation
  by_cases hkeys : db.Keys
  · by_cases hrefs : db.References
    · simp [hkeys, hrefs]
    · simp [hkeys, hrefs]
  · simp [hkeys]

theorem DbState.keys (s : DbState) : s.val.Keys := (violation_eq_none.mp s.valid).1

theorem DbState.references (s : DbState) : s.val.References := (violation_eq_none.mp s.valid).2

/-- Tables that have lost rows. -/
theorem Database.Keys.of_sublist (h : db.Keys) (hd : db'.devices.Sublist db.devices)
    (hf : db'.syncFolders.Sublist db.syncFolders) (hp : db'.folderDevices.Sublist db.folderDevices)
    (hm : db'.fileMetadata.Sublist db.fileMetadata)
    (hs : db'.sharedFolders.Sublist db.sharedFolders) : db'.Keys where
  devices := h.devices.sublist (hd.map _)
  syncFolders := h.syncFolders.sublist (hf.map _)
  folderDevices := h.folderDevices.sublist (hp.map _)
  fileMetadata := h.fileMetadata.sublist (hm.map _)
  sharedFolders := h.sharedFolders.sublist (hs.map _)

/-- Tables that have lost rows, but none that another refers to. -/
theorem Database.References.of_subset (h : db.References)
    (hd : ∀ id ∈ db.deviceIds, (∃ f ∈ db'.syncFolders, f.deviceId = id) ∨
      (∃ p ∈ db'.folderDevices, p.deviceId = id) ∨ (∃ s ∈ db'.sharedFolders, s.deviceId = id) →
      id ∈ db'.deviceIds)
    (hi : ∀ id ∈ db.folderIds, (∃ p ∈ db'.folderDevices, p.folderId = id) ∨
      (∃ m ∈ db'.fileMetadata, m.folderId = id) ∨ (∃ r ∈ db'.fileHistory, r.folderId = id) →
      id ∈ db'.folderIds)
    (hf : db'.syncFolders ⊆ db.syncFolders) (hp : db'.folderDevices ⊆ db.folderDevices)
    (hm : db'.fileMetadata ⊆ db.fileMetadata) (hh : db'.fileHistory ⊆ db.fileHistory)
    (hs : db'.sharedFolders ⊆ db.sharedFolders) : db'.References where
  folderOwner f hf' := hd _ (h.folderOwner f (hf hf')) (Or.inl ⟨f, hf', rfl⟩)
  pairFolder p hp' := hi _ (h.pairFolder p (hp hp')) (Or.inl ⟨p, hp', rfl⟩)
  pairDevice p hp' := hd _ (h.pairDevice p (hp hp')) (Or.inr (Or.inl ⟨p, hp', rfl⟩))
  metadata m hm' := hi _ (h.metadata m (hm hm')) (Or.inr (Or.inl ⟨m, hm', rfl⟩))
  history r hr := hi _ (h.history r (hh hr)) (Or.inr (Or.inr ⟨r, hr, rfl⟩))
  share r hr := hd _ (h.share r (hs hr)) (Or.inr (Or.inr ⟨r, hr, rfl⟩))

/-! ### Deletions -/

/-- Which keys are left of a table. -/
theorem mem_map_filter_iff {α κ : Type} {key : α → κ} {rows : List α} {left : α → Bool} {r : α}
    (hkeys : (rows.map key).Nodup) (hr : r ∈ rows) :
    key r ∈ (rows.filter left).map key ↔ left r = true := by
  constructor
  · intro h
    obtain ⟨r', hr', hkey⟩ := List.mem_map.mp h
    obtain ⟨hr', hleft⟩ := List.mem_filter.mp hr'
    have hsame : r' = r := List.inj_on_of_nodup_map hkeys hr' hr hkey
    rw [← hsame]
    exact hleft
  · intro hleft
    exact List.mem_map_of_mem (List.mem_filter.mpr ⟨hr, hleft⟩)

namespace Database

/-- Rows that no other refers to can be deleted. -/
theorem violation_of_fewer (h : db.violation = none) (hd : db'.devices = db.devices)
    (hf : db'.syncFolders = db.syncFolders) (hp : db'.folderDevices.Sublist db.folderDevices)
    (hm : db'.fileMetadata.Sublist db.fileMetadata) (hh : db'.fileHistory.Sublist db.fileHistory)
    (hs : db'.sharedFolders.Sublist db.sharedFolders) : db'.violation = none := by
  obtain ⟨hkeys, hrefs⟩ := violation_eq_none.mp h
  refine violation_eq_none.mpr ⟨hkeys.of_sublist (hd ▸ List.Sublist.refl _) (hf ▸ List.Sublist.refl _)
    hp hm hs, hrefs.of_subset ?_ ?_ (hf ▸ List.Subset.refl _) hp.subset hm.subset hh.subset hs.subset⟩
  · intro id hid _
    unfold deviceIds
    rw [hd]
    exact hid
  · intro id hid _
    unfold folderIds
    rw [hf]
    exact hid

variable (h : db.violation = none)

include h

theorem deletePairs_valid (doomed : Db.FolderDevice → Bool) : (db.deletePairs doomed).violation = none :=
  violation_of_fewer h rfl rfl List.filter_sublist (List.Sublist.refl _) (List.Sublist.refl _)
    (List.Sublist.refl _)

theorem deleteMetadata_valid (doomed : Db.FileMetadata → Bool) :
    (db.deleteMetadata doomed).violation = none :=
  violation_of_fewer h rfl rfl (List.Sublist.refl _) List.filter_sublist (List.Sublist.refl _)
    (List.Sublist.refl _)

theorem deleteHistory_valid (doomed : Db.FileHistory → Bool) :
    (db.deleteHistory doomed).violation = none :=
  violation_of_fewer h rfl rfl (List.Sublist.refl _) (List.Sublist.refl _) List.filter_sublist
    (List.Sublist.refl _)

theorem deleteSessions_valid (doomed : Db.SyncSession → Bool) :
    (db.deleteSessions doomed).violation = none :=
  violation_of_fewer h rfl rfl (List.Sublist.refl _) (List.Sublist.refl _) (List.Sublist.refl _)
    (List.Sublist.refl _)

/-- **Folders can be deleted exactly if nothing is recorded of their files.** -/
theorem deleteFolders_valid (doomed : SyncFolderRow → Bool) :
    (db.deleteFolders doomed).violation = none ↔ ∀ f ∈ db.syncFolders, doomed f = true →
      (∀ m ∈ db.fileMetadata, m.folderId ≠ f.id) ∧ ∀ r ∈ db.fileHistory, r.folderId ≠ f.id := by
  obtain ⟨hkeys, hrefs⟩ := violation_eq_none.mp h
  have hleft : ∀ f ∈ db.syncFolders,
      f.id ∈ (db.deleteFolders doomed).folderIds ↔ (!doomed f) = true := fun f hf =>
    mem_map_filter_iff hkeys.syncFolders hf
  have hgone : ∀ f ∈ db.syncFolders, doomed f = true → f.id ∉ (db.deleteFolders doomed).folderIds := by
    intro f hf hdoomed
    rw [hleft f hf, hdoomed]
    simp
  constructor
  · intro hvalid f hf hdoomed
    have hrefs' := (violation_eq_none.mp hvalid).2
    exact ⟨fun m hm heq => hgone f hf hdoomed (heq ▸ hrefs'.metadata m hm),
      fun r hr heq => hgone f hf hdoomed (heq ▸ hrefs'.history r hr)⟩
  · intro hfree
    have hkept : ∀ id ∈ db.folderIds, (∀ f ∈ db.syncFolders, doomed f = true → f.id ≠ id) →
        id ∈ (db.deleteFolders doomed).folderIds := by
      intro id hid hnone
      obtain ⟨f, hf, rfl⟩ := List.mem_map.mp hid
      rw [hleft f hf, Bool.not_eq_true']
      by_contra hdoomed
      exact hnone f hf (Bool.not_eq_false _ ▸ hdoomed) rfl
    refine violation_eq_none.mpr ⟨hkeys.of_sublist (List.Sublist.refl _) List.filter_sublist
      List.filter_sublist (List.Sublist.refl _) (List.Sublist.refl _), hrefs.of_subset
      (fun id hid _ => hid) (fun id hid hused => hkept id hid ?_) List.filter_sublist.subset
      List.filter_sublist.subset (List.Subset.refl _) (List.Subset.refl _) (List.Subset.refl _)⟩
    rintro f hf hdoomed rfl
    rcases hused with ⟨p, hp, heq⟩ | ⟨m, hm, heq⟩ | ⟨r, hr, heq⟩
    · obtain ⟨_, hfree'⟩ := List.mem_filter.mp hp
      rw [Bool.not_eq_true', List.any_eq_false] at hfree'
      refine hfree' f hf ?_
      rw [hdoomed, heq]
      simp
    · exact (hfree f hf hdoomed).1 m hm heq
    · exact (hfree f hf hdoomed).2 r hr heq

/-- **Devices can be deleted exactly if no folder, pair or share is theirs.** -/
theorem deleteDevices_valid (doomed : Db.Device → Bool) :
    (db.deleteDevices doomed).violation = none ↔ ∀ d ∈ db.devices, doomed d = true →
      (∀ f ∈ db.syncFolders, f.deviceId ≠ d.id) ∧ (∀ p ∈ db.folderDevices, p.deviceId ≠ d.id) ∧
        ∀ s ∈ db.sharedFolders, s.deviceId ≠ d.id := by
  obtain ⟨hkeys, hrefs⟩ := violation_eq_none.mp h
  have hleft : ∀ d ∈ db.devices,
      d.id ∈ (db.deleteDevices doomed).deviceIds ↔ (!doomed d) = true := fun d hd =>
    mem_map_filter_iff hkeys.devices hd
  have hgone : ∀ d ∈ db.devices, doomed d = true → d.id ∉ (db.deleteDevices doomed).deviceIds := by
    intro d hd hdoomed
    rw [hleft d hd, hdoomed]
    simp
  constructor
  · intro hvalid d hd hdoomed
    have hrefs' := (violation_eq_none.mp hvalid).2
    exact ⟨fun f hf heq => hgone d hd hdoomed (heq ▸ hrefs'.folderOwner f hf),
      fun p hp heq => hgone d hd hdoomed (heq ▸ hrefs'.pairDevice p hp),
      fun s hs heq => hgone d hd hdoomed (heq ▸ hrefs'.share s hs)⟩
  · intro hfree
    have hkept : ∀ id ∈ db.deviceIds, (∀ d ∈ db.devices, doomed d = true → d.id ≠ id) →
        id ∈ (db.deleteDevices doomed).deviceIds := by
      intro id hid hnone
      obtain ⟨d, hd, rfl⟩ := List.mem_map.mp hid
      rw [hleft d hd, Bool.not_eq_true']
      by_contra hdoomed
      exact hnone d hd (Bool.not_eq_false _ ▸ hdoomed) rfl
    refine violation_eq_none.mpr ⟨hkeys.of_sublist List.filter_sublist (List.Sublist.refl _)
      (List.Sublist.refl _) (List.Sublist.refl _) (List.Sublist.refl _), hrefs.of_subset
      (fun id hid hused => hkept id hid ?_) (fun id hid _ => hid) (List.Subset.refl _)
      (List.Subset.refl _) (List.Subset.refl _) (List.Subset.refl _) (List.Subset.refl _)⟩
    rintro d hd hdoomed rfl
    rcases hused with ⟨f, hf, heq⟩ | ⟨p, hp, heq⟩ | ⟨s, hs, heq⟩
    · exact (hfree d hd hdoomed).1 f hf heq
    · exact (hfree d hd hdoomed).2.1 p hp heq
    · exact (hfree d hd hdoomed).2.2 s hs heq

end Database

/-! ### Upserts -/

section

variable {α κ : Type} [DecidableEq κ] {key : α → κ} {conflicts : α → Bool} {update : α → α}
  {row : α} {rows : List α}

/-- The keys after an upsert. -/
theorem upsert_keys (hsame : ∀ r, conflicts r = true ↔ key r = key row)
    (hupdate : ∀ r, key (update r) = key r) :
    (upsert conflicts update row rows).map key = if key row ∈ rows.map key then rows.map key
      else rows.map key ++ [key row] := by
  have hmem : rows.any conflicts = true ↔ key row ∈ rows.map key := by
    rw [List.any_eq_true, List.mem_map]
    exact exists_congr fun r => and_congr_right fun _ => hsame r
  unfold upsert
  by_cases hany : rows.any conflicts = true
  · rw [if_pos hany, if_pos (hmem.mp hany), List.map_map]
    refine List.map_congr_left fun r _ => ?_
    show key (if conflicts r then update r else r) = key r
    split
    · exact hupdate r
    · rfl
  · rw [if_neg hany, if_neg (mt hmem.mpr hany), List.map_append]
    rfl

/-- An upsert keeps the keys apart. -/
theorem nodup_upsert (hsame : ∀ r, conflicts r = true ↔ key r = key row)
    (hupdate : ∀ r, key (update r) = key r) (h : (rows.map key).Nodup) :
    ((upsert conflicts update row rows).map key).Nodup := by
  rw [upsert_keys hsame hupdate]
  split
  · exact h
  · rename_i hnew
    exact List.nodup_append.mpr ⟨h, List.nodup_singleton _, fun a ha b hb => by
      rw [List.mem_singleton.mp hb]
      exact fun heq => hnew (heq ▸ ha)⟩

theorem subset_upsert_keys (hsame : ∀ r, conflicts r = true ↔ key r = key row)
    (hupdate : ∀ r, key (update r) = key r) :
    rows.map key ⊆ (upsert conflicts update row rows).map key := by
  rw [upsert_keys hsame hupdate]
  split
  · exact List.Subset.refl _
  · exact List.subset_append_left _ _

theorem mem_upsert_keys (hsame : ∀ r, conflicts r = true ↔ key r = key row)
    (hupdate : ∀ r, key (update r) = key r) :
    key row ∈ (upsert conflicts update row rows).map key := by
  rw [upsert_keys hsame hupdate]
  split
  · assumption
  · exact List.mem_append_right _ (List.mem_singleton_self _)

omit [DecidableEq κ] in
/-- The rows of other keys are as they were. -/
theorem mem_upsert_of_ne (hsame : ∀ r, conflicts r = true ↔ key r = key row)
    (hupdate : ∀ r, key (update r) = key r) {r : α} (hr : key r ≠ key row) :
    r ∈ upsert conflicts update row rows ↔ r ∈ rows := by
  unfold upsert
  split
  · constructor
    · intro h
      obtain ⟨r', hr', rfl⟩ := List.mem_map.mp h
      by_cases hc : conflicts r' = true
      · rw [if_pos hc] at hr
        exact absurd ((hupdate r').trans ((hsame r').mp hc)) hr
      · rwa [if_neg hc]
    · intro h
      exact List.mem_map.mpr ⟨r, h, if_neg (mt (hsame r).mp hr)⟩
  · rw [List.mem_append, List.mem_singleton]
    exact or_iff_left fun heq => hr (congrArg key heq)

/-- Nothing changes where the row is there already as it would be updated. -/
theorem upsert_eq_self (hthere : rows.any conflicts = true)
    (hsame : ∀ r ∈ rows, conflicts r = true → update r = r) : upsert conflicts update row rows = rows := by
  unfold upsert
  rw [if_pos hthere]
  conv_rhs => rw [← List.map_id rows]
  refine List.map_congr_left fun r hr => ?_
  by_cases hc : conflicts r = true
  · rw [if_pos hc]
    exact hsame r hr hc
  · rw [if_neg hc]
    rfl

/-- What is in a table after an upsert. -/
theorem mem_upsert {r : α} (h : r ∈ upsert conflicts update row rows) :
    r ∈ rows ∨ (∃ r' ∈ rows, conflicts r' = true ∧ r = update r') ∨ r = row := by
  unfold upsert at h
  split at h
  · obtain ⟨r', hr', rfl⟩ := List.mem_map.mp h
    by_cases hc : conflicts r' = true
    · rw [if_pos hc]
      exact Or.inr (Or.inl ⟨r', hr', hc, rfl⟩)
    · rw [if_neg hc]
      exact Or.inl hr'
  · rcases List.mem_append.mp h with h | h
    · exact Or.inl h
    · exact Or.inr (Or.inr (List.mem_singleton.mp h))

end

/-- A device's row is written. -/
theorem violation_upsertDevice {db : Database} {conflicts : Db.Device → Bool}
    {update : Db.Device → Db.Device} {row : Db.Device}
    (hsame : ∀ d, conflicts d = true ↔ d.id = row.id) (hupdate : ∀ d, (update d).id = d.id)
    (h : db.violation = none) :
    ({ db with devices := upsert conflicts update row db.devices } : Database).violation = none := by
  obtain ⟨hkeys, hrefs⟩ := violation_eq_none.mp h
  have hmore : db.devices.map (·.id) ⊆ (upsert conflicts update row db.devices).map (·.id) :=
    subset_upsert_keys hsame hupdate
  exact violation_eq_none.mpr ⟨⟨nodup_upsert hsame hupdate hkeys.devices, hkeys.syncFolders,
      hkeys.folderDevices, hkeys.fileMetadata, hkeys.sharedFolders⟩,
    ⟨fun f hf => hmore (hrefs.folderOwner f hf), hrefs.pairFolder,
      fun p hp => hmore (hrefs.pairDevice p hp), hrefs.metadata, hrefs.history,
      fun s hs => hmore (hrefs.share s hs)⟩⟩

end

end FerriSync
