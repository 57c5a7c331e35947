/-
# Removals

What must hold for a removal to work: it succeeds, and nothing refers any more to the
devices and folders that are gone (`Tidy`). References are not only those the schema
declares: sessions, the history and the files name devices, and a share names a folder
by its identifier.

The removals of folders delete pairs, and a folder without a pair, but nothing that is
recorded of its files; that of a device deletes no share (`removal_works_iff`).

Key definitions: `NoneOfDevice`, `NoneOfFolder`, `Tidy`, `Removal`,
`Removal.Possible`.
Key theorems: `removal_works_iff`.
-/
import FerriSync.Database

namespace FerriSync

open Transactions

namespace Database

/-- No row refers to the device. -/
structure NoneOfDevice (db : Database) (id : String) : Prop where
  folder : ∀ f ∈ db.syncFolders, f.deviceId ≠ id
  pair : ∀ p ∈ db.folderDevices, p.deviceId ≠ id
  metadata : ∀ m ∈ db.fileMetadata, m.deviceId ≠ id
  history : ∀ r ∈ db.fileHistory, r.deviceId ≠ id
  session : ∀ s ∈ db.syncSessions, s.peerDevice ≠ id
  share : ∀ s ∈ db.sharedFolders, s.deviceId ≠ id

/-- No row refers to the folder, by its number or its identifier. -/
structure NoneOfFolder (db : Database) (f : SyncFolderRow) : Prop where
  pair : ∀ p ∈ db.folderDevices, p.folderId ≠ f.id
  metadata : ∀ m ∈ db.fileMetadata, m.folderId ≠ f.id
  history : ∀ r ∈ db.fileHistory, r.folderId ≠ f.id
  share : ∀ s ∈ db.sharedFolders, f.folderGuid ≠ some s.folderGuid

/-- What is gone is referred to no more. -/
structure Tidy (db db' : Database) : Prop where
  devices : ∀ id ∈ db.deviceIds, id ∉ db'.deviceIds → db'.NoneOfDevice id
  folders : ∀ f ∈ db.syncFolders, f.id ∉ db'.folderIds → db'.NoneOfFolder f

/-- Nothing is recorded of the folder's files, and it is not shared. -/
structure Unrecorded (db : Database) (f : SyncFolderRow) : Prop where
  metadata : ∀ m ∈ db.fileMetadata, m.folderId ≠ f.id
  history : ∀ r ∈ db.fileHistory, r.folderId ≠ f.id
  share : ∀ s ∈ db.sharedFolders, f.folderGuid ≠ some s.folderGuid

/-- A pair of the folder is left without those of the device, or without any. -/
def Keeps (db : Database) (folderId : ℕ) (deviceId : Option String) : Prop :=
  ∃ p ∈ db.folderDevices, p.folderId = folderId ∧ isPairOf folderId deviceId p = false

/-- What stands in the way of removing a device: what is recorded of a folder that no
other device is attached to, be it this device's or nobody's, unless it goes with the
device; a folder of others that has the device in its row; a share of the device, or of
a folder that goes with it; and a file of the device in a folder it is not attached
to. -/
structure DeviceRemovable (db : Database) (id : String) : Prop where
  recorded : ∀ f ∈ db.syncFolders, (∀ p ∈ db.folderDevices, p.folderId = f.id → p.deviceId = id) →
    db.pairedWith id f.id = true ∨ (∀ m ∈ db.fileMetadata, m.folderId ≠ f.id) ∧
      ∀ r ∈ db.fileHistory, r.folderId = f.id → r.deviceId = id
  shared : ∀ f ∈ db.syncFolders, (∀ p ∈ db.folderDevices, p.folderId = f.id → p.deviceId = id) →
    ∀ s ∈ db.sharedFolders, f.folderGuid ≠ some s.folderGuid
  owner : ∀ f ∈ db.syncFolders, f.deviceId = id →
    ∀ p ∈ db.folderDevices, p.folderId = f.id → p.deviceId = id
  share : ∀ s ∈ db.sharedFolders, s.deviceId ≠ id
  metadata : ∀ m ∈ db.fileMetadata, m.deviceId = id → db.pairedWith id m.folderId = true

end Database

open Database

/-- A removal with its arguments. -/
inductive Removal
  | device (deviceId : String)
  | folderDevice (folderId : ℕ) (deviceId : String)
  | syncFolders (localPath : String) (deviceId : Option String)
  | syncFolderById (folderId : ℕ)
  | all
deriving DecidableEq, Repr

namespace Removal

def statements : Removal → Sql Unit
  | device deviceId => discard (removeDevice deviceId)
  | folderDevice folderId deviceId => discard (removeFolderDevice folderId deviceId)
  | syncFolders localPath deviceId => discard (removeSyncFolders localPath deviceId)
  | syncFolderById folderId => removeSyncFolderById folderId
  | all => discard clearAllSyncState

/-- What is to be removed is there. -/
def Exists (db : Database) : Removal → Prop
  | device deviceId => deviceId ∈ db.deviceIds
  | folderDevice folderId deviceId => (folderId, deviceId) ∈ db.pairKeys
  | syncFolders localPath deviceId => ∃ f ∈ db.syncFolders, f.localPath = localPath ∧
      ∀ d ∈ deviceId, (f.id, d) ∈ db.pairKeys
  | syncFolderById folderId => folderId ∈ db.folderIds
  | all => True

/-- Nothing stands in the way. -/
def Possible (db : Database) : Removal → Prop
  | device deviceId => db.DeviceRemovable deviceId
  | folderDevice folderId deviceId => ∀ f ∈ db.syncFolders, f.id = folderId →
      db.Keeps f.id (some deviceId) ∨ db.Unrecorded f
  | syncFolders localPath deviceId => ∀ f ∈ db.syncFolders, f.localPath = localPath →
      db.Keeps f.id deviceId ∨ db.Unrecorded f
  | syncFolderById folderId => ∀ f ∈ db.syncFolders, f.id = folderId → db.Unrecorded f
  | all => db.sharedFolders = [] ∧ ∀ s ∈ db.syncSessions, s.peerDevice ∉ db.deviceIds

/-- It succeeds, and what is gone is referred to no more. -/
def Works (r : Removal) (s : DbState) : Prop :=
  ∃ s', r.statements s = .ok () s' ∧ Tidy s.val s'.val

end Removal

/-! ### What is left to refer to -/

namespace Database

section

variable {db db' : Database}

/-- The schema sees to the declared references. -/
theorem tidy_iff (h : db'.violation = none) : Tidy db db' ↔
    (∀ id ∈ db.deviceIds, id ∉ db'.deviceIds → (∀ m ∈ db'.fileMetadata, m.deviceId ≠ id) ∧
      (∀ r ∈ db'.fileHistory, r.deviceId ≠ id) ∧ ∀ s ∈ db'.syncSessions, s.peerDevice ≠ id) ∧
    ∀ f ∈ db.syncFolders, f.id ∉ db'.folderIds →
      ∀ s ∈ db'.sharedFolders, f.folderGuid ≠ some s.folderGuid := by
  have hrefs := (violation_eq_none.mp h).2
  constructor
  · intro htidy
    refine ⟨fun id hid hgone => ?_, fun f hf hgone => (htidy.folders f hf hgone).share⟩
    have hnone := htidy.devices id hid hgone
    exact ⟨hnone.metadata, hnone.history, hnone.session⟩
  · rintro ⟨hdevices, hfolders⟩
    refine ⟨fun id hid hgone => ?_, fun f hf hgone => ?_⟩
    · obtain ⟨hmetadata, hhistory, hsession⟩ := hdevices id hid hgone
      exact {
        folder := fun f hf heq => hgone (heq ▸ hrefs.folderOwner f hf)
        pair := fun p hp heq => hgone (heq ▸ hrefs.pairDevice p hp)
        metadata := hmetadata
        history := hhistory
        session := hsession
        share := fun s hs heq => hgone (heq ▸ hrefs.share s hs) }
    · exact {
        pair := fun p hp heq => hgone (heq ▸ hrefs.pairFolder p hp)
        metadata := fun m hm heq => hgone (heq ▸ hrefs.metadata m hm)
        history := fun r hr heq => hgone (heq ▸ hrefs.history r hr)
        share := hfolders f hf hgone }

/-! ### A folder without pairs -/

/-- Drop a folder if it has no pair. -/
def dropUnpaired (folderId : ℕ) (db : Database) : Database :=
  if db.folderDevices.countP (fun p => decide (p.folderId = folderId)) = 0 then
    db.deleteFolders fun f => decide (f.id = folderId)
  else db

/-- Remove pairs of a folder, and the folder with the last of them. -/
def removePairs (deviceId : Option String) (folderId : ℕ) (db : Database) : Database :=
  (db.deletePairs (isPairOf folderId deviceId)).dropUnpaired folderId

theorem dropIfUnpaired_eq_ok {folderId : ℕ} {s s' : DbState} :
    dropIfUnpaired folderId s = .ok () s' ↔ s'.val = s.val.dropUnpaired folderId := by
  unfold dropIfUnpaired dropUnpaired
  rw [Effects.bind_ok (query_apply _)]
  split
  · exact execute_eq_ok
  · constructor
    · intro h
      cases h
      rfl
    · intro h
      rw [State.ext h]
      rfl

theorem not_keeps_none {folderId : ℕ} : ¬db.Keeps folderId none := by
  rintro ⟨p, _, hfolder, hnot⟩
  unfold isPairOf at hnot
  rw [hfolder] at hnot
  simp at hnot

/-- Any of its pairs are left. -/
theorem countP_deletePairs {folderId : ℕ} {deviceId : Option String} :
    (db.deletePairs (isPairOf folderId deviceId)).folderDevices.countP
      (fun p => decide (p.folderId = folderId)) = 0 ↔ ¬db.Keeps folderId deviceId := by
  rw [List.countP_eq_zero]
  constructor
  · rintro h ⟨p, hp, hfolder, hnot⟩
    refine h p (List.mem_filter.mpr ⟨hp, ?_⟩) (decide_eq_true hfolder)
    rw [hnot]
    rfl
  · intro h p hp hfolder
    obtain ⟨hp, hnot⟩ := List.mem_filter.mp hp
    exact h ⟨p, hp, of_decide_eq_true hfolder, by simpa using hnot⟩

theorem removePairs_of_keeps {folderId : ℕ} {deviceId : Option String}
    (h : db.Keeps folderId deviceId) :
    db.removePairs deviceId folderId = db.deletePairs (isPairOf folderId deviceId) := by
  unfold removePairs dropUnpaired
  rw [if_neg (mt countP_deletePairs.mp (not_not.mpr h))]

theorem removePairs_of_not_keeps {folderId : ℕ} {deviceId : Option String}
    (h : ¬db.Keeps folderId deviceId) : db.removePairs deviceId folderId =
      (db.deletePairs (isPairOf folderId deviceId)).deleteFolders fun f => decide (f.id = folderId) := by
  unfold removePairs dropUnpaired
  rw [if_pos (countP_deletePairs.mpr h)]

/-- All but folders and pairs is as it was. -/
theorem removePairs_eq (deviceId : Option String) (folderId : ℕ) (db : Database) :
    ∃ folders pairs, db.removePairs deviceId folderId =
      { db with syncFolders := folders, folderDevices := pairs } := by
  by_cases h : db.Keeps folderId deviceId
  · rw [removePairs_of_keeps h]
    exact ⟨_, _, rfl⟩
  · rw [removePairs_of_not_keeps h]
    exact ⟨_, _, rfl⟩

theorem mem_removePairs {folderId : ℕ} {deviceId : Option String} {f : SyncFolderRow} :
    f ∈ (db.removePairs deviceId folderId).syncFolders ↔
      f ∈ db.syncFolders ∧ (f.id = folderId → db.Keeps folderId deviceId) := by
  by_cases h : db.Keeps folderId deviceId
  · rw [removePairs_of_keeps h]
    exact ⟨fun hf => ⟨hf, fun _ => h⟩, fun hf => hf.1⟩
  · rw [removePairs_of_not_keeps h]
    unfold deleteFolders
    rw [List.mem_filter]
    simp only [h, imp_false, Bool.not_eq_true', decide_eq_false_iff_not]
    exact Iff.rfl

/-- What is left of a folder's pairs is left later too. -/
theorem keeps_removePairs {folderId id : ℕ} {deviceId : Option String} :
    (db.removePairs deviceId folderId).Keeps id deviceId ↔ db.Keeps id deviceId := by
  have hfewer : (db.removePairs deviceId folderId).folderDevices ⊆ db.folderDevices := by
    by_cases h : db.Keeps folderId deviceId
    · rw [removePairs_of_keeps h]
      exact List.filter_sublist.subset
    · rw [removePairs_of_not_keeps h]
      exact (List.filter_sublist.trans List.filter_sublist).subset
  constructor
  · rintro ⟨p, hp, hleft⟩
    exact ⟨p, hfewer hp, hleft⟩
  · rintro ⟨p, hp, hfolder, hnot⟩
    refine ⟨p, ?_, hfolder, hnot⟩
    have hstays : p ∈ (db.deletePairs (isPairOf folderId deviceId)).folderDevices := by
      refine List.mem_filter.mpr ⟨hp, ?_⟩
      by_cases hid : folderId = id
      · rw [hid, hnot]
        rfl
      · unfold isPairOf
        rw [hfolder, decide_eq_false (Ne.symm hid)]
        rfl
    by_cases h : db.Keeps folderId deviceId
    · rw [removePairs_of_keeps h]
      exact hstays
    · rw [removePairs_of_not_keeps h]
      refine List.mem_filter.mpr ⟨hstays, ?_⟩
      rw [Bool.not_eq_true', List.any_eq_false]
      intro f _ hboth
      obtain ⟨hf, hfp⟩ := Bool.and_eq_true_iff.mp hboth
      have heq : folderId = id := by rw [← of_decide_eq_true hf, of_decide_eq_true hfp, hfolder]
      rw [heq] at h
      exact h ⟨p, hp, hfolder, hnot⟩

/-- **Pairs can be removed unless what is recorded stands in the way.** -/
theorem removePairs_valid {folderId : ℕ} {deviceId : Option String} (h : db.violation = none) :
    (db.removePairs deviceId folderId).violation = none ↔
      ∀ f ∈ db.syncFolders, f.id = folderId → db.Keeps folderId deviceId ∨
        (∀ m ∈ db.fileMetadata, m.folderId ≠ f.id) ∧ ∀ r ∈ db.fileHistory, r.folderId ≠ f.id := by
  have hpairs := deletePairs_valid h (isPairOf folderId deviceId)
  by_cases hkeeps : db.Keeps folderId deviceId
  · rw [removePairs_of_keeps hkeeps]
    exact ⟨fun _ f _ _ => Or.inl hkeeps, fun _ => hpairs⟩
  · rw [removePairs_of_not_keeps hkeeps, deleteFolders_valid hpairs]
    simp only [hkeeps, false_or, decide_eq_true_eq]
    exact Iff.rfl

/-! ### The removals of folders -/

section

variable {deviceId : Option String} {folderIds : List ℕ} {s s' : DbState}

theorem chain_removePairs (h : Chain (folderIds.map (removePairs deviceId)) s s') :
    (∃ folders pairs, s'.val = { s.val with syncFolders := folders, folderDevices := pairs }) ∧
      ∀ f, f ∈ s'.val.syncFolders ↔
        f ∈ s.val.syncFolders ∧ (f.id ∈ folderIds → s.val.Keeps f.id deviceId) := by
  induction folderIds generalizing s with
  | nil =>
    cases h
    exact ⟨⟨_, _, rfl⟩, fun f => by simp⟩
  | cons id ids ih =>
    obtain ⟨t, ht, h⟩ := h
    obtain ⟨⟨folders, pairs, hs'⟩, hmem⟩ := ih h
    obtain ⟨folders', pairs', ht'⟩ := removePairs_eq deviceId id s.val
    refine ⟨⟨folders, pairs, ?_⟩, fun f => ?_⟩
    · rw [hs', ht, ht']
    · rw [hmem, ht, mem_removePairs, keeps_removePairs, List.mem_cons]
      constructor
      · rintro ⟨⟨hf, hone⟩, hrest⟩
        refine ⟨hf, fun hid => ?_⟩
        rcases hid with hid | hid
        · rw [hid]
          exact hone hid
        · exact hrest hid
      · rintro ⟨hf, hall⟩
        exact ⟨⟨hf, fun hid => hid ▸ hall (Or.inl hid)⟩, fun hid => hall (Or.inr hid)⟩

theorem exists_chain_removePairs : (∃ s', Chain (folderIds.map (removePairs deviceId)) s s') ↔
    ∀ f ∈ s.val.syncFolders, f.id ∈ folderIds → s.val.Keeps f.id deviceId ∨
      (∀ m ∈ s.val.fileMetadata, m.folderId ≠ f.id) ∧
        ∀ r ∈ s.val.fileHistory, r.folderId ≠ f.id := by
  induction folderIds generalizing s with
  | nil => exact ⟨fun _ f _ hf => absurd hf List.not_mem_nil, fun _ => ⟨s, rfl⟩⟩
  | cons id ids ih =>
    obtain ⟨folders, pairs, hsame⟩ := removePairs_eq deviceId id s.val
    have hmetadata : (s.val.removePairs deviceId id).fileMetadata = s.val.fileMetadata := by rw [hsame]
    have hhistory : (s.val.removePairs deviceId id).fileHistory = s.val.fileHistory := by rw [hsame]
    constructor
    · rintro ⟨s', t, ht, h⟩ f hf hid
      have hone := (removePairs_valid s.valid).mp (ht ▸ t.valid)
      by_cases heq : f.id = id
      · have hfree := hone f hf heq
        rw [← heq] at hfree
        exact hfree
      · have hrest := ih.mp ⟨s', h⟩ f (ht ▸ mem_removePairs.mpr ⟨hf, fun h => absurd h heq⟩)
          ((List.mem_cons.mp hid).resolve_left heq)
        rw [ht, keeps_removePairs, hmetadata, hhistory] at hrest
        exact hrest
    · intro hall
      have hvalid : (s.val.removePairs deviceId id).violation = none :=
        (removePairs_valid s.valid).mpr fun f hf heq => by
          rw [← heq]
          exact hall f hf (List.mem_cons.mpr (Or.inl heq))
      let t : DbState := ⟨s.val.removePairs deviceId id, hvalid⟩
      have hrest : ∃ s', Chain (ids.map (removePairs deviceId)) t s' := by
        refine ih.mpr fun f hf hid => ?_
        rw [keeps_removePairs, hmetadata, hhistory]
        exact hall f (mem_removePairs.mp hf).1 (List.mem_cons_of_mem id hid)
      obtain ⟨s', h⟩ := hrest
      exact ⟨s', t, rfl, h⟩

/-- Folders that lose pairs. -/
theorem removePairs_works : (∃ s', Chain (folderIds.map (removePairs deviceId)) s s' ∧
      Tidy s.val s'.val) ↔
    ∀ f ∈ s.val.syncFolders, f.id ∈ folderIds → s.val.Keeps f.id deviceId ∨ s.val.Unrecorded f := by
  have hids : ∀ s', Chain (folderIds.map (removePairs deviceId)) s s' →
      ∀ f ∈ s.val.syncFolders, f.id ∉ s'.val.folderIds ↔
        f.id ∈ folderIds ∧ ¬s.val.Keeps f.id deviceId := by
    intro s' h f hf
    obtain ⟨_, hmem⟩ := chain_removePairs h
    rw [← not_iff_not, not_not, not_and, not_not]
    constructor
    · intro hid
      obtain ⟨g, hg, hgf⟩ := List.mem_map.mp hid
      obtain ⟨_, hkept⟩ := (hmem g).mp hg
      rw [← hgf]
      exact hkept
    · intro hkept
      exact List.mem_map_of_mem ((hmem f).mpr ⟨hf, hkept⟩)
  constructor
  · rintro ⟨s', h, htidy⟩ f hf hid
    rcases exists_chain_removePairs.mp ⟨s', h⟩ f hf hid with hkeeps | ⟨hmetadata, hhistory⟩
    · exact Or.inl hkeeps
    · by_cases hkeeps : s.val.Keeps f.id deviceId
      · exact Or.inl hkeeps
      · have hnone := htidy.folders f hf ((hids s' h f hf).mpr ⟨hid, hkeeps⟩)
        obtain ⟨⟨folders, pairs, hs'⟩, _⟩ := chain_removePairs h
        have hshare := hnone.share
        rw [hs'] at hshare
        exact Or.inr ⟨hmetadata, hhistory, hshare⟩
  · intro hall
    obtain ⟨s', h⟩ := exists_chain_removePairs.mpr fun f hf hid =>
      (hall f hf hid).imp_right fun hfree => ⟨hfree.metadata, hfree.history⟩
    obtain ⟨⟨folders, pairs, hs'⟩, _⟩ := chain_removePairs h
    refine ⟨s', h, (tidy_iff s'.valid).mpr ⟨fun id hid hgone => ?_, fun f hf hgone => ?_⟩⟩
    · unfold deviceIds at hgone hid
      rw [hs'] at hgone
      exact absurd hid hgone
    · obtain ⟨hid, hnot⟩ := (hids s' h f hf).mp hgone
      have hshare := ((hall f hf hid).resolve_left hnot).share
      rw [hs']
      exact hshare

theorem removeSyncFolders_eq_ok {localPath : String} :
    discard (removeSyncFolders localPath deviceId) s = .ok () s' ↔
      Chain (((s.val.syncFolders.filter fun f => decide (f.localPath = localPath)).map (·.id)).map
        (removePairs deviceId)) s s' := by
  rw [discard_eq_ok]
  unfold removeSyncFolders
  simp only [transaction_eq_ok]
  rw [Effects.bind_ok (query_apply _)]
  refine foldlM_eq_ok (fun deleted id t t' => ?_) _ 0
  have hpairs := deletePairs_valid t.valid (isPairOf id deviceId)
  rw [Effects.bind_ok (query_apply _), Effects.bind_ok (execute_ok hpairs)]
  simp only [bind_eq_ok]
  constructor
  · rintro ⟨b, _, u, hu, h⟩
    cases h
    exact dropIfUnpaired_eq_ok.mp hu
  · intro hu
    exact ⟨_, (), t', dropIfUnpaired_eq_ok.mpr hu, rfl⟩

theorem removeFolderDevice_eq_ok {folderId : ℕ} {device : String}
    (h : (folderId, device) ∈ s.val.pairKeys) :
    discard (removeFolderDevice folderId device) s = .ok () s' ↔
      Chain ([folderId].map (removePairs (some device))) s s' := by
  have hpairs := deletePairs_valid s.valid (isPairOf folderId (some device))
  have hsome : s.val.folderDevices.countP (isPairOf folderId (some device)) ≠ 0 := by
    obtain ⟨p, hp, heq⟩ := List.mem_map.mp h
    obtain ⟨hfolder, hdevice⟩ := Prod.mk.inj heq
    intro hzero
    refine List.countP_eq_zero.mp hzero p hp ?_
    unfold isPairOf
    rw [hfolder, hdevice]
    simp
  rw [discard_eq_ok]
  unfold removeFolderDevice
  simp only [transaction_eq_ok]
  rw [Effects.bind_ok (query_apply _), Effects.bind_ok (execute_ok hpairs)]
  simp only [if_neg hsome, bind_eq_ok]
  constructor
  · rintro ⟨b, _, u, hu, h⟩
    cases h
    exact ⟨s', dropIfUnpaired_eq_ok.mp hu, rfl⟩
  · rintro ⟨t, ht, rfl⟩
    exact ⟨true, (), _, dropIfUnpaired_eq_ok.mpr ht, rfl⟩

theorem removeSyncFolderById_eq_ok {folderId : ℕ} :
    removeSyncFolderById folderId s = .ok () s' ↔ Chain ([folderId].map (removePairs none)) s s' := by
  have hpairs := deletePairs_valid s.valid (isPairOf folderId none)
  unfold removeSyncFolderById
  rw [Effects.bind_ok (execute_ok hpairs), execute_eq_ok, ← removePairs_of_not_keeps not_keeps_none]
  constructor
  · exact fun h => ⟨s', h, rfl⟩
  · rintro ⟨t, ht, rfl⟩
    exact ht

end

end

/-! ### Everything -/

/-- Folders and devices gone, and what is recorded of files. -/
def cleared (db : Database) : Database := { db with
  devices := []
  syncFolders := []
  folderDevices := []
  fileMetadata := []
  fileHistory := [] }

section

variable {s s' : DbState}

theorem clearAllSyncState_eq_ok :
    discard clearAllSyncState s = .ok () s' ↔ s'.val = s.val.cleared := by
  have hhistory := deleteHistory_valid s.valid fun _ => true
  have hmetadata := deleteMetadata_valid hhistory fun _ => true
  have hpairs := deletePairs_valid hmetadata fun _ => true
  have hfolders := (deleteFolders_valid hpairs fun _ => true).mpr fun f _ _ => by
    simp [deletePairs, deleteMetadata, deleteHistory]
  rw [discard_eq_ok]
  unfold clearAllSyncState
  simp only [transaction_eq_ok]
  rw [Effects.bind_ok (execute_ok hhistory), Effects.bind_ok (execute_ok hmetadata),
    Effects.bind_ok (execute_ok hpairs), Effects.bind_ok (query_apply _),
    Effects.bind_ok (execute_ok hfolders), Effects.bind_ok (query_apply _)]
  rw [exists_execute_ok]
  have hcleared : (((((s.val.deleteHistory fun _ => true).deleteMetadata fun _ => true).deletePairs
      fun _ => true).deleteFolders fun _ => true).deleteDevices fun _ => true) = s.val.cleared := by
    simp [deletePairs, deleteMetadata, deleteHistory, deleteFolders, deleteDevices, cleared]
  rw [hcleared]

theorem cleared_valid : s.val.cleared.violation = none ↔ s.val.sharedFolders = [] := by
  rw [violation_eq_none]
  constructor
  · rintro ⟨_, hrefs⟩
    exact List.eq_nil_iff_forall_not_mem.mpr fun r hr => absurd (hrefs.share r hr) List.not_mem_nil
  · intro h
    refine ⟨⟨List.nodup_nil, List.nodup_nil, List.nodup_nil, List.nodup_nil, s.keys.sharedFolders⟩, ?_⟩
    refine ⟨?_, ?_, ?_, ?_, ?_, ?_⟩ <;> simp [cleared, h]

theorem clearAll_works : (∃ s', discard clearAllSyncState s = .ok () s' ∧ Tidy s.val s'.val) ↔
    s.val.sharedFolders = [] ∧ ∀ r ∈ s.val.syncSessions, r.peerDevice ∉ s.val.deviceIds := by
  have hdo : (∃ s', discard clearAllSyncState s = .ok () s' ∧ Tidy s.val s'.val) ↔
      s.val.cleared.violation = none ∧ Tidy s.val s.val.cleared := by
    rw [← exists_state]
    exact exists_congr fun s' => and_congr_left' clearAllSyncState_eq_ok
  rw [hdo, cleared_valid]
  refine and_congr_right fun hshares => ?_
  rw [tidy_iff (cleared_valid.mpr hshares)]
  constructor
  · rintro ⟨hdevices, _⟩ r hr hid
    exact (hdevices _ hid List.not_mem_nil).2.2 r hr rfl
  · intro hsessions
    refine ⟨fun id hid _ => ⟨fun m hm => ?_, fun m hm => ?_, fun r hr heq => ?_⟩, fun f _ _ r hr => ?_⟩
    · cases hm
    · cases hm
    · exact hsessions r hr (heq ▸ hid)
    · have hr : r ∈ s.val.sharedFolders := hr
      rw [hshares] at hr
      cases hr

end

/-! ### A device -/

/-- A device's sessions, history, files and pairs gone. -/
def withoutRecords (id : String) (db : Database) : Database := { db with
  syncSessions := db.syncSessions.filter fun s => !decide (s.peerDevice = id)
  fileHistory := db.fileHistory.filter fun r => !historyOf id db r
  fileMetadata := db.fileMetadata.filter fun m => !db.pairedWith id m.folderId
  folderDevices := db.folderDevices.filter fun p => !decide (p.deviceId = id) }

/-- And the folders that no device is attached to any more. -/
def withoutFolders (id : String) (db : Database) : Database :=
  (db.withoutRecords id).deleteFolders fun f => !(db.withoutRecords id).isPaired f

def withoutDevice (id : String) (db : Database) : Database :=
  (db.withoutFolders id).deleteDevices fun d => decide (d.id = id)

section

variable {id : String} {s s' : DbState}

theorem withoutRecords_valid : (s.val.withoutRecords id).violation = none :=
  violation_of_fewer s.valid rfl rfl List.filter_sublist List.filter_sublist List.filter_sublist
    (List.Sublist.refl _)

theorem removeDevice_eq_ok : discard (removeDevice id) s = .ok () s' ↔
    (s.val.withoutFolders id).violation = none ∧ s'.val = s.val.withoutDevice id := by
  have hsessions := deleteSessions_valid s.valid fun s => decide (s.peerDevice = id)
  have hhistory := deleteHistory_valid hsessions (historyOf id
    (s.val.deleteSessions fun s => decide (s.peerDevice = id)))
  have hmetadata := deleteMetadata_valid hhistory fun m => s.val.pairedWith id m.folderId
  have hpairs := deletePairs_valid hmetadata fun p => decide (p.deviceId = id)
  rw [discard_eq_ok]
  unfold removeDevice
  simp only [transaction_eq_ok]
  rw [Effects.bind_ok (query_apply _), Effects.bind_ok (execute_ok hsessions),
    Effects.bind_ok (query_apply _), Effects.bind_ok (execute_ok hhistory),
    Effects.bind_ok (query_apply _), Effects.bind_ok (execute_ok hmetadata),
    Effects.bind_ok (execute_ok hpairs), Effects.bind_ok (query_apply _)]
  let t : DbState := ⟨s.val.withoutRecords id, withoutRecords_valid⟩
  let drop : Sql Unit := execute fun db : Database => db.deleteFolders fun f => !db.isPaired f
  show (∃ a, (drop >>= _) t = .ok a s') ↔ _
  cases hfolders : (s.val.withoutFolders id).violation with
  | none =>
    have hdrop : drop t = .ok () ⟨s.val.withoutFolders id, hfolders⟩ := execute_eq_ok.mpr rfl
    rw [Effects.bind_ok hdrop, Effects.bind_ok (query_apply _), exists_execute_ok]
    exact ⟨fun h => ⟨rfl, h⟩, fun h => h.2⟩
  | some e =>
    have hdrop : drop t = .error e t := execute_eq_error.mpr ⟨hfolders, rfl⟩
    rw [Effects.bind_error hdrop]
    constructor
    · rintro ⟨a, h⟩
      cases h
    · rintro ⟨h, _⟩
      cases h

theorem isPaired_withoutRecords {db : Database} {f : SyncFolderRow} :
    (!(db.withoutRecords id).isPaired f) = true ↔
      ∀ p ∈ db.folderDevices, p.folderId = f.id → p.deviceId = id := by
  unfold isPaired withoutRecords
  rw [Bool.not_eq_true', List.any_eq_false]
  constructor
  · intro h p hp hfolder
    by_contra hne
    exact h p (List.mem_filter.mpr ⟨hp, by simpa using hne⟩) (decide_eq_true hfolder)
  · intro h p hp hfolder
    obtain ⟨hp, hne⟩ := List.mem_filter.mp hp
    rw [h p hp (of_decide_eq_true hfolder)] at hne
    simp at hne

/-- The folders that are left without a device can go. -/
theorem withoutFolders_valid : (s.val.withoutFolders id).violation = none ↔
    ∀ f ∈ s.val.syncFolders, (∀ p ∈ s.val.folderDevices, p.folderId = f.id → p.deviceId = id) →
      s.val.pairedWith id f.id = true ∨ (∀ m ∈ s.val.fileMetadata, m.folderId ≠ f.id) ∧
        ∀ r ∈ s.val.fileHistory, r.folderId = f.id → r.deviceId = id := by
  unfold withoutFolders
  rw [deleteFolders_valid withoutRecords_valid]
  refine forall₂_congr fun f hf => ?_
  rw [isPaired_withoutRecords]
  refine imp_congr_right fun _ => ?_
  by_cases hpaired : s.val.pairedWith id f.id = true
  · refine iff_of_true ⟨fun m hm heq => ?_, fun r hr heq => ?_⟩ (Or.inl hpaired)
    · obtain ⟨_, hnot⟩ := List.mem_filter.mp hm
      rw [heq, hpaired] at hnot
      cases hnot
    · obtain ⟨_, hnot⟩ := List.mem_filter.mp hr
      unfold historyOf at hnot
      rw [heq, hpaired, Bool.or_true] at hnot
      cases hnot
  · have hnot : (!s.val.pairedWith id f.id) = true := by simpa using hpaired
    simp only [hpaired, Bool.false_eq_true, false_or]
    refine and_congr ⟨fun h m hm heq => ?_, fun h m hm => ?_⟩ ⟨fun h r hr heq => ?_, fun h r hr heq => ?_⟩
    · exact h m (List.mem_filter.mpr ⟨hm, heq ▸ hnot⟩) heq
    · exact h m (List.mem_filter.mp hm).1
    · by_contra hne
      refine h r (List.mem_filter.mpr ⟨hr, ?_⟩) heq
      unfold historyOf
      rw [heq, decide_eq_false hne, Bool.false_or]
      exact hnot
    · obtain ⟨hr, hnot⟩ := List.mem_filter.mp hr
      unfold historyOf at hnot
      rw [h r hr heq] at hnot
      simp at hnot

/-- Then the device can, if no folder and no share is its own. -/
theorem withoutDevice_valid (hfolders : (s.val.withoutFolders id).violation = none)
    (hid : id ∈ s.val.deviceIds) : (s.val.withoutDevice id).violation = none ↔
      (∀ f ∈ s.val.syncFolders, f.deviceId = id →
        ∀ p ∈ s.val.folderDevices, p.folderId = f.id → p.deviceId = id) ∧
      ∀ r ∈ s.val.sharedFolders, r.deviceId ≠ id := by
  unfold withoutDevice
  rw [deleteDevices_valid hfolders]
  have hleft : ∀ f, f ∈ (s.val.withoutFolders id).syncFolders ↔ f ∈ s.val.syncFolders ∧
      ¬∀ p ∈ s.val.folderDevices, p.folderId = f.id → p.deviceId = id := by
    intro f
    rw [← isPaired_withoutRecords]
    unfold withoutFolders deleteFolders
    rw [List.mem_filter, Bool.not_eq_true']
    simp only [Bool.not_eq_true]
    exact Iff.rfl
  constructor
  · intro h
    obtain ⟨d, hd, rfl⟩ := List.mem_map.mp hid
    obtain ⟨hfolder, _, hshare⟩ := h d hd (decide_eq_true rfl)
    refine ⟨fun f hf howner => ?_, hshare⟩
    by_contra hpaired
    exact hfolder f ((hleft f).mpr ⟨hf, hpaired⟩) howner
  · rintro ⟨howner, hshare⟩ d _ hd
    rw [of_decide_eq_true hd]
    refine ⟨fun f hf heq => ?_, fun p hp heq => ?_, hshare⟩
    · obtain ⟨hf, hpaired⟩ := (hleft f).mp hf
      exact hpaired (howner f hf heq)
    · have hp := (List.mem_filter.mp (List.mem_filter.mp hp).1).2
      rw [heq] at hp
      simp at hp

end

/-- Removing a device. -/
theorem removeDevice_works {id : String} {s : DbState} (hid : id ∈ s.val.deviceIds) :
    (∃ s', discard (removeDevice id) s = .ok () s' ∧ Tidy s.val s'.val) ↔
      s.val.DeviceRemovable id := by
  have hdo : (∃ s', discard (removeDevice id) s = .ok () s' ∧ Tidy s.val s'.val) ↔
      (s.val.withoutFolders id).violation = none ∧
        (s.val.withoutDevice id).violation = none ∧ Tidy s.val (s.val.withoutDevice id) := by
    rw [← exists_state, ← exists_and_left]
    refine exists_congr fun s' => ?_
    rw [removeDevice_eq_ok, and_assoc]
  have hdevice : ∀ x ∈ s.val.deviceIds, x ∉ (s.val.withoutDevice id).deviceIds ↔ x = id := by
    intro x hx
    obtain ⟨d, hd, rfl⟩ := List.mem_map.mp hx
    have hleft : d.id ∈ (s.val.withoutDevice id).deviceIds ↔ (!decide (d.id = id)) = true :=
      mem_map_filter_iff s.keys.devices hd
    rw [hleft]
    simp
  have hfolder : ∀ f ∈ s.val.syncFolders, f.id ∉ (s.val.withoutDevice id).folderIds ↔
      ∀ p ∈ s.val.folderDevices, p.folderId = f.id → p.deviceId = id := by
    intro f hf
    have hleft : f.id ∈ (s.val.withoutDevice id).folderIds ↔
        (!!(s.val.withoutRecords id).isPaired f) = true :=
      mem_map_filter_iff s.keys.syncFolders hf
    rw [hleft, ← isPaired_withoutRecords]
    simp
  rw [hdo]
  constructor
  · rintro ⟨hfolders, hvalid, htidy⟩
    obtain ⟨howner, hshare⟩ := (withoutDevice_valid hfolders hid).mp hvalid
    have hnone := htidy.devices id hid ((hdevice id hid).mpr rfl)
    refine ⟨withoutFolders_valid.mp hfolders, fun f hf hunpaired => ?_, howner, hshare,
      fun m hm heq => ?_⟩
    · exact (htidy.folders f hf ((hfolder f hf).mpr hunpaired)).share
    · by_contra hpaired
      refine hnone.metadata m (List.mem_filter.mpr ⟨hm, ?_⟩) heq
      simpa using hpaired
  · intro h
    have hfolders := withoutFolders_valid.mpr h.recorded
    have hvalid := (withoutDevice_valid hfolders hid).mpr ⟨h.owner, h.share⟩
    refine ⟨hfolders, hvalid, (tidy_iff hvalid).mpr ⟨fun x hx hgone => ?_, fun f hf hgone => ?_⟩⟩
    · rw [(hdevice x hx).mp hgone]
      refine ⟨fun m hm heq => ?_, fun r hr heq => ?_, fun r hr heq => ?_⟩
      · obtain ⟨hm, hpaired⟩ := List.mem_filter.mp hm
        rw [h.metadata m hm heq] at hpaired
        cases hpaired
      · have hnot := (List.mem_filter.mp hr).2
        unfold historyOf at hnot
        rw [heq] at hnot
        simp at hnot
      · have hnot := (List.mem_filter.mp hr).2
        rw [heq] at hnot
        simp at hnot
    · exact h.shared f hf ((hfolder f hf).mp hgone)

end Database

/-- **A removal works exactly if nothing stands in its way.** -/
theorem removal_works_iff (s : DbState) (r : Removal) (h : r.Exists s.val) :
    r.Works s ↔ r.Possible s.val := by
  cases r with
  | device id => exact removeDevice_works h
  | folderDevice folderId deviceId =>
    have hdo : (Removal.folderDevice folderId deviceId).Works s ↔
        ∃ s', Chain ([folderId].map (removePairs (some deviceId))) s s' ∧ Tidy s.val s'.val :=
      exists_congr fun s' => and_congr_left' (removeFolderDevice_eq_ok h)
    rw [hdo, removePairs_works]
    simp only [List.mem_singleton]
    exact Iff.rfl
  | syncFolders localPath deviceId =>
    let folderIds := (s.val.syncFolders.filter fun f => decide (f.localPath = localPath)).map (·.id)
    have hdo : (Removal.syncFolders localPath deviceId).Works s ↔
        ∃ s', Chain (folderIds.map (removePairs deviceId)) s s' ∧ Tidy s.val s'.val :=
      exists_congr fun s' => and_congr_left' removeSyncFolders_eq_ok
    rw [hdo, removePairs_works]
    refine forall₂_congr fun f hf => ?_
    have hmem : f.id ∈ folderIds ↔ decide (f.localPath = localPath) = true :=
      mem_map_filter_iff s.keys.syncFolders hf
    rw [hmem, decide_eq_true_eq]
  | syncFolderById folderId =>
    have hdo : (Removal.syncFolderById folderId).Works s ↔
        ∃ s', Chain ([folderId].map (removePairs none)) s s' ∧ Tidy s.val s'.val :=
      exists_congr fun s' => and_congr_left' removeSyncFolderById_eq_ok
    rw [hdo, removePairs_works]
    simp only [List.mem_singleton, not_keeps_none, false_or]
    exact Iff.rfl
  | all => exact clearAll_works

/-- A folder that is attached to one device. -/
def musicFolder : List StorageOp :=
  [.upsertDevice "laptop" "Laptop" none none, .addSyncFolder "/home/music" "laptop" "bidirectional"]

/-- The folder can be removed. -/
theorem removal_works_music : (1 ∈ ((Host.new 1).run sampleBlake3 musicFolder).db.val.folderIds) ∧
    ((Removal.syncFolderById 1).Works ((Host.new 1).run sampleBlake3 musicFolder).db ↔
      (Removal.syncFolderById 1).Possible ((Host.new 1).run sampleBlake3 musicFolder).db.val) := by
  have hthere : 1 ∈ ((Host.new 1).run sampleBlake3 musicFolder).db.val.folderIds := by decide +kernel
  exact ⟨hthere, removal_works_iff _ (.syncFolderById 1) hthere⟩

/-- A file of the folder is recorded, as each that a session sends is. -/
def recordedFile : List StorageOp :=
  musicFolder ++ [.recordHistory ⟨1, "song", "laptop", "push", 1, 0, [], 0⟩]

/-- **A folder with a history cannot be removed.** -/
theorem removal_fails : ¬ ∀ (ops : List StorageOp) (r : Removal),
    let h := (Host.new 1).run sampleBlake3 ops
    r.Exists h.db.val → r.Works h.db := by
  intro hworks
  have hthere : 1 ∈ ((Host.new 1).run sampleBlake3 recordedFile).db.val.folderIds := by decide +kernel
  obtain ⟨s', hok, _⟩ := hworks recordedFile (.syncFolderById 1) hthere
  have hrecorded : ∃ f ∈ ((Host.new 1).run sampleBlake3 recordedFile).db.val.syncFolders,
      f.id = 1 ∧ ∃ r ∈ ((Host.new 1).run sampleBlake3 recordedFile).db.val.fileHistory,
        r.folderId = f.id := by
    decide +kernel
  obtain ⟨f, hf, hid, r, hr, hfolder⟩ := hrecorded
  have hchain := exists_chain_removePairs.mp ⟨s', removeSyncFolderById_eq_ok.mp hok⟩
  rcases hchain f hf (List.mem_singleton.mpr hid) with hkeeps | ⟨_, hhistory⟩
  · exact not_keeps_none hkeeps
  · exact hhistory r hr hfolder

end FerriSync
