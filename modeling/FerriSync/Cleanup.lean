/-
# What goes with a device

A device that is removed takes its pairs and sessions, the history recorded with it, and
the folders that no other device is paired with, with all that is recorded of them
(`TouchesOnly`). `remove_device` (`storage/mod.rs`) does that, and more: it deletes what is
recorded of any folder the device is paired with, which others may be paired with too and
which stays then; and it drops every folder without a pair, whose it never was. It takes no
more than it should exactly if there is nothing of either kind
(`removeDevice_touches_only_iff`).

Key definitions: `OnlyWith`, `TouchesOnly`, `Separable`.
Key theorems: `removeDevice_touches_only_iff`.
-/
import FerriSync.Commit
import FerriSync.Removals

namespace FerriSync

open Transactions

namespace Database

/-- The device is paired with the folder, and no other is. -/
def onlyWith (db : Database) (deviceId : String) (folderId : ℕ) : Bool :=
  db.pairedWith deviceId folderId &&
    db.folderDevices.all fun p => decide (p.folderId = folderId → p.deviceId = deviceId)

/-- What belongs to the device is gone, and everything else is there. -/
structure TouchesOnly (deviceId : String) (db db' : Database) : Prop where
  devices : db'.devices = db.devices.filter fun d => decide (d.id ≠ deviceId)
  pairs : db'.folderDevices = db.folderDevices.filter fun p => decide (p.deviceId ≠ deviceId)
  sessions : db'.syncSessions = db.syncSessions.filter fun s => decide (s.peerDevice ≠ deviceId)
  folders : db'.syncFolders = db.syncFolders.filter fun f => !db.onlyWith deviceId f.id
  metadata : db'.fileMetadata = db.fileMetadata.filter fun m => !db.onlyWith deviceId m.folderId
  history : db'.fileHistory = db.fileHistory.filter fun r =>
    decide (r.deviceId ≠ deviceId) && !db.onlyWith deviceId r.folderId
  shares : db'.sharedFolders = db.sharedFolders

/-- Every folder has a pair; and of those that the device and another are paired with,
nothing is recorded but the history with the device. -/
structure Separable (db : Database) (deviceId : String) : Prop where
  paired : ∀ f ∈ db.syncFolders, db.isPaired f = true
  metadata : ∀ m ∈ db.fileMetadata, db.pairedWith deviceId m.folderId = true →
    db.onlyWith deviceId m.folderId = true
  history : ∀ r ∈ db.fileHistory, db.pairedWith deviceId r.folderId = true → r.deviceId ≠ deviceId →
    db.onlyWith deviceId r.folderId = true

section

variable {db : Database} {deviceId : String} {folderId : ℕ}

theorem filter_eq_filter_iff {α : Type} {p q : α → Bool} {l : List α} :
    l.filter p = l.filter q ↔ ∀ x ∈ l, p x = q x := by
  constructor
  · intro h x hx
    rw [Bool.eq_iff_iff]
    have hmem : x ∈ l.filter p ↔ x ∈ l.filter q := by rw [h]
    rw [List.mem_filter, List.mem_filter] at hmem
    exact ⟨fun hp => (hmem.mp ⟨hx, hp⟩).2, fun hq => (hmem.mpr ⟨hx, hq⟩).2⟩
  · exact List.filter_congr

theorem onlyWith_iff : db.onlyWith deviceId folderId = true ↔ db.pairedWith deviceId folderId = true ∧
    ∀ p ∈ db.folderDevices, p.folderId = folderId → p.deviceId = deviceId := by
  unfold onlyWith
  rw [Bool.and_eq_true, List.all_eq_true]
  simp only [decide_eq_true_eq]

theorem pairedWith_of_onlyWith (h : db.onlyWith deviceId folderId = true) :
    db.pairedWith deviceId folderId = true := (onlyWith_iff.mp h).1

/-! ### What the removal leaves -/

theorem withoutDevice_devices : (db.withoutDevice deviceId).devices =
    db.devices.filter fun d => decide (d.id ≠ deviceId) := by
  show (db.devices.filter fun d => !decide (d.id = deviceId)) = _
  simp

/-- The folders that go have no pair left to take along. -/
theorem withoutDevice_pairs : (db.withoutDevice deviceId).folderDevices =
    db.folderDevices.filter fun p => decide (p.deviceId ≠ deviceId) := by
  have hleft : ∀ p ∈ (db.withoutRecords deviceId).folderDevices,
      (!(db.withoutRecords deviceId).syncFolders.any fun f =>
        !(db.withoutRecords deviceId).isPaired f && decide (f.id = p.folderId)) = true := by
    intro p hp
    rw [Bool.not_eq_true', List.any_eq_false]
    intro f _ hboth
    rw [Bool.and_eq_true, Bool.not_eq_true', decide_eq_true_eq] at hboth
    have hpaired : (db.withoutRecords deviceId).isPaired f = true :=
      List.any_eq_true.mpr ⟨p, hp, decide_eq_true hboth.2.symm⟩
    rw [hboth.1] at hpaired
    cases hpaired
  show (db.withoutRecords deviceId).folderDevices.filter _ = _
  rw [List.filter_eq_self.mpr hleft]
  show (db.folderDevices.filter fun p => !decide (p.deviceId = deviceId)) = _
  simp

theorem withoutDevice_sessions : (db.withoutDevice deviceId).syncSessions =
    db.syncSessions.filter fun s => decide (s.peerDevice ≠ deviceId) := by
  show (db.syncSessions.filter fun s => !decide (s.peerDevice = deviceId)) = _
  simp

/-- **Folders without a pair go too.** -/
theorem withoutDevice_folders : ((db.withoutDevice deviceId).syncFolders =
    db.syncFolders.filter fun f => !db.onlyWith deviceId f.id) ↔
      ∀ f ∈ db.syncFolders, db.isPaired f = true := by
  show (db.syncFolders.filter fun f => !!(db.withoutRecords deviceId).isPaired f) = _ ↔ _
  rw [filter_eq_filter_iff]
  refine forall₂_congr fun f _ => ?_
  rw [Bool.not_inj_iff, Bool.eq_iff_iff, isPaired_withoutRecords, onlyWith_iff]
  constructor
  · intro h
    by_contra hunpaired
    have hnone : ∀ p ∈ db.folderDevices, p.folderId ≠ f.id := fun p hp heq =>
      hunpaired (List.any_eq_true.mpr ⟨p, hp, decide_eq_true heq⟩)
    obtain ⟨p, hp, hboth⟩ := List.any_eq_true.mp (h.mp fun p hp heq => absurd heq (hnone p hp)).1
    rw [Bool.and_eq_true, decide_eq_true_eq, decide_eq_true_eq] at hboth
    exact hnone p hp hboth.2
  · intro hpaired
    refine ⟨fun hall => ⟨?_, hall⟩, fun h => h.2⟩
    obtain ⟨p, hp, heq⟩ := List.any_eq_true.mp hpaired
    have hfolder := of_decide_eq_true heq
    exact List.any_eq_true.mpr ⟨p, hp, by simp [hfolder, hall p hp hfolder]⟩

/-- **So do the files of folders that others are paired with.** -/
theorem withoutDevice_metadata : ((db.withoutDevice deviceId).fileMetadata =
    db.fileMetadata.filter fun m => !db.onlyWith deviceId m.folderId) ↔
      ∀ m ∈ db.fileMetadata, db.pairedWith deviceId m.folderId = true →
        db.onlyWith deviceId m.folderId = true := by
  show (db.fileMetadata.filter fun m => !db.pairedWith deviceId m.folderId) = _ ↔ _
  rw [filter_eq_filter_iff]
  refine forall₂_congr fun m _ => ?_
  rw [Bool.not_inj_iff, Bool.eq_iff_iff]
  exact ⟨fun h => h.mp, fun h => ⟨h, pairedWith_of_onlyWith⟩⟩

/-- **And their history with the others.** -/
theorem withoutDevice_history : ((db.withoutDevice deviceId).fileHistory =
    db.fileHistory.filter fun r => decide (r.deviceId ≠ deviceId) && !db.onlyWith deviceId r.folderId) ↔
      ∀ r ∈ db.fileHistory, db.pairedWith deviceId r.folderId = true → r.deviceId ≠ deviceId →
        db.onlyWith deviceId r.folderId = true := by
  show (db.fileHistory.filter fun r => !historyOf deviceId db r) = _ ↔ _
  rw [filter_eq_filter_iff]
  refine forall₂_congr fun r _ => ?_
  unfold historyOf
  by_cases hdevice : r.deviceId = deviceId
  · simp [hdevice]
  · simp only [hdevice, decide_false, Bool.false_or, ne_eq, not_false_eq_true, decide_true, Bool.true_and,
      true_imp_iff]
    rw [Bool.not_inj_iff, Bool.eq_iff_iff]
    exact ⟨fun h => h.mp, fun h => ⟨h, pairedWith_of_onlyWith⟩⟩

end

end Database

open Database in
/-- **A removal touches what belongs to the device only exactly if nothing that others keep
is in its way.** -/
theorem removeDevice_touches_only_iff (deviceId : String) (s s' : DbState)
    (h : discard (removeDevice deviceId) s = .ok () s') :
    s.val.TouchesOnly deviceId s'.val ↔ s.val.Separable deviceId := by
  obtain ⟨_, hs'⟩ := removeDevice_eq_ok.mp h
  rw [hs']
  constructor
  · intro honly
    exact ⟨withoutDevice_folders.mp honly.folders, withoutDevice_metadata.mp honly.metadata,
      withoutDevice_history.mp honly.history⟩
  · intro hseparable
    exact ⟨withoutDevice_devices, withoutDevice_pairs, withoutDevice_sessions,
      withoutDevice_folders.mpr hseparable.paired, withoutDevice_metadata.mpr hseparable.metadata,
      withoutDevice_history.mpr hseparable.history, rfl⟩

/-- A folder that two devices are paired with, and a file of it, last changed with one of
them. -/
def sharedMusic : List StorageOp :=
  [.upsertDevice "phone" "Phone" none none, .upsertDevice "tablet" "Tablet" none none,
    .addSyncFolder "/home/music" "tablet" "bidirectional",
    .addFolderDevice 1 "phone" "bidirectional" none,
    .upsertFileMetadata ⟨"song.mp3", 1, 100, 3, [7], "tablet"⟩]

/-- The phone's photos beside the tablet's music, with a file and a history row of each. -/
def phonePhotos : List StorageOp :=
  [.upsertDevice "phone" "Phone" none none, .upsertDevice "tablet" "Tablet" none none,
    .addSyncFolder "/home/photos" "phone" "bidirectional",
    .addSyncFolder "/home/music" "tablet" "bidirectional",
    .upsertFileMetadata ⟨"a.jpg", 1, 100, 3, [7], "phone"⟩,
    .upsertFileMetadata ⟨"song.mp3", 2, 100, 3, [8], "tablet"⟩,
    .recordHistory ⟨1, "a.jpg", "phone", "pull", 1, 100, [7], 3⟩,
    .recordHistory ⟨2, "song.mp3", "tablet", "push", 1, 100, [8], 3⟩]

/-- The music stays when the phone is removed. -/
theorem removeDevice_touches_only_phone :
    (((Host.new 1).run sampleBlake3 phonePhotos).db.val).TouchesOnly "phone"
      (((Host.new 1).run sampleBlake3 phonePhotos).db.val.withoutDevice "phone") := by
  have hvalid : (((Host.new 1).run sampleBlake3 phonePhotos).db.val.withoutDevice "phone").violation =
      none := by decide +kernel
  have hfolders : (((Host.new 1).run sampleBlake3 phonePhotos).db.val.withoutFolders
      "phone").violation = none := by decide +kernel
  refine (removeDevice_touches_only_iff "phone" ((Host.new 1).run sampleBlake3 phonePhotos).db
    ⟨_, hvalid⟩ (Database.removeDevice_eq_ok.mpr ⟨hfolders, rfl⟩)).mpr ?_
  exact ⟨by decide +kernel, by decide +kernel, by decide +kernel⟩

/-- **The file is forgotten**, though the tablet still has the folder. -/
theorem removal_forgets_file : ∃ s', discard (Database.removeDevice "phone")
      ((Host.new 1).run sampleBlake3 sharedMusic).db = .ok () s' ∧
      (1, "tablet") ∈ s'.val.pairKeys ∧
      ¬((Host.new 1).run sampleBlake3 sharedMusic).db.val.TouchesOnly "phone" s'.val := by
  have hvalid : (((Host.new 1).run sampleBlake3 sharedMusic).db.val.withoutDevice "phone").violation =
      none := by decide +kernel
  have hfolders : (((Host.new 1).run sampleBlake3 sharedMusic).db.val.withoutFolders
      "phone").violation = none := by decide +kernel
  have hpaired : (1, "tablet") ∈ (((Host.new 1).run sampleBlake3 sharedMusic).db.val.withoutDevice
      "phone").pairKeys := by decide +kernel
  have hforgotten : (((Host.new 1).run sampleBlake3 sharedMusic).db.val.withoutDevice "phone").fileMetadata ≠
      ((Host.new 1).run sampleBlake3 sharedMusic).db.val.fileMetadata.filter fun m =>
        !((Host.new 1).run sampleBlake3 sharedMusic).db.val.onlyWith "phone" m.folderId := by
    decide +kernel
  exact ⟨⟨_, hvalid⟩, Database.removeDevice_eq_ok.mpr ⟨hfolders, rfl⟩, hpaired,
    fun honly => hforgotten honly.metadata⟩

end FerriSync
