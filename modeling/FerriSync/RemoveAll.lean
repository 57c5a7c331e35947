/-
# Removing every device

`remove_all_devices` of the app (`api/mod.rs`) removes the devices one after the other, as
they are listed, and stops at the first that cannot be removed; `clear_all_sync_state`
empties the tables at once. The schema does not let a folder's own device go before the
other devices of the folder, so whether all can be removed depends on the order of the
list, which is that of the times they were last seen (`removeAllDevices_eq_ok`). Where it
stops, the devices listed before are gone for good (`removeAllDevices_stops`).

Key definitions: `removeAllDevices`, `AllRemovable`, `wiped`.
Key theorems: `removeAllDevices_eq_ok`, `removeAllDevices_stops`.
-/
import FerriSync.Bulk
import FerriSync.Removals

namespace FerriSync

open Transactions

namespace Database

/-- Remove every paired device and its associated data; says how many there were. -/
def removeAllDevices (ids : List String) : Sql ℕ := do
  ids.forM fun id => discard (removeDevice id)
  return ids.length

/-- The devices can be removed in this order: no folder is shared, no device of a folder
comes after the folder's own, and nothing is recorded of a folder that no device is
attached to, unless it goes with the first. -/
structure AllRemovable (ids : List String) (db : Database) : Prop where
  share : db.sharedFolders = []
  owner : ∀ f ∈ db.syncFolders, ∀ before after, ids = before ++ f.deviceId :: after →
    ∀ p ∈ db.folderDevices, p.folderId = f.id → p.deviceId ∉ after
  metadata : ∀ f ∈ db.syncFolders, db.isPaired f = false → ∀ m ∈ db.fileMetadata, m.folderId ≠ f.id
  history : ∀ f ∈ db.syncFolders, db.isPaired f = false →
    ∀ r ∈ db.fileHistory, r.folderId = f.id → ids.head? = some r.deviceId

/-- Nothing is left of devices, folders and files but sessions with devices that there are not. -/
def wiped (db : Database) : Database := { db.cleared with
  syncSessions := db.syncSessions.filter fun s => decide (s.peerDevice ∉ db.deviceIds) }

section

variable {id : String} {ids : List String} {s s' : DbState} {db : Database}

/-! ### One device -/

theorem mem_syncFolders_withoutDevice {f : SyncFolderRow} : f ∈ (db.withoutDevice id).syncFolders ↔
    f ∈ db.syncFolders ∧ ∃ p ∈ db.folderDevices, p.folderId = f.id ∧ p.deviceId ≠ id := by
  have hleft : f ∈ (db.withoutDevice id).syncFolders ↔
      f ∈ db.syncFolders ∧ ¬(!(db.withoutRecords id).isPaired f) = true := by
    unfold withoutDevice withoutFolders deleteDevices deleteFolders
    rw [List.mem_filter, Bool.not_eq_true', Bool.not_eq_true]
    exact Iff.rfl
  rw [hleft, isPaired_withoutRecords]
  push Not
  exact Iff.rfl

/-- The pairs of other devices stay: their folders have them. -/
theorem mem_folderDevices_withoutDevice {p : Db.FolderDevice} :
    p ∈ (db.withoutDevice id).folderDevices ↔ p ∈ db.folderDevices ∧ p.deviceId ≠ id := by
  unfold withoutDevice withoutFolders deleteDevices deleteFolders
  rw [List.mem_filter]
  have hrecords : p ∈ (db.withoutRecords id).folderDevices ↔ p ∈ db.folderDevices ∧ p.deviceId ≠ id := by
    unfold withoutRecords
    rw [List.mem_filter, Bool.not_eq_true', decide_eq_false_iff_not]
  rw [hrecords]
  refine ⟨And.left, fun h => ⟨h, ?_⟩⟩
  rw [Bool.not_eq_true', List.any_eq_false]
  intro f _ hboth
  obtain ⟨hunpaired, hfolder⟩ := Bool.and_eq_true_iff.mp hboth
  exact h.2 (isPaired_withoutRecords.mp hunpaired p h.1 (of_decide_eq_true hfolder).symm)

theorem isPaired_eq_false {f : SyncFolderRow} :
    db.isPaired f = false ↔ ∀ p ∈ db.folderDevices, p.folderId ≠ f.id := by
  unfold isPaired
  rw [List.any_eq_false]
  simp only [decide_eq_true_eq]

/-- No folder is without devices afterwards. -/
theorem isPaired_withoutDevice {f : SyncFolderRow} (h : f ∈ (db.withoutDevice id).syncFolders) :
    (db.withoutDevice id).isPaired f = true := by
  obtain ⟨_, p, hp, hfolder, hne⟩ := mem_syncFolders_withoutDevice.mp h
  unfold isPaired
  exact List.any_eq_true.mpr ⟨p, mem_folderDevices_withoutDevice.mpr ⟨hp, hne⟩, decide_eq_true hfolder⟩

theorem deviceIds_withoutDevice (h : (id :: ids).Perm db.deviceIds) (hkeys : db.Keys) :
    ids.Perm (db.withoutDevice id).deviceIds := by
  have hleft : (db.withoutDevice id).deviceIds = db.deviceIds.filter fun i => !decide (i = id) := by
    unfold withoutDevice withoutFolders deleteDevices deleteFolders withoutRecords deviceIds
    rw [List.filter_map]
    rfl
  have hnodup : (id :: ids).Nodup := h.nodup_iff.mpr hkeys.devices
  have hstay : (id :: ids).filter (fun i => !decide (i = id)) = ids := by
    rw [List.filter_cons_of_neg (by simp)]
    refine List.filter_eq_self.mpr fun i hi => ?_
    rw [decide_eq_false]
    · rfl
    · rintro rfl
      exact (List.nodup_cons.mp hnodup).1 hi
  rw [hleft, ← hstay]
  exact h.filter _

/-- **The first device can go and the others after it** exactly if all can be removed in this order. -/
theorem allRemovable_cons (hperm : (id :: ids).Perm s.val.deviceIds) : AllRemovable (id :: ids) s.val ↔
    ((s.val.withoutFolders id).violation = none ∧ (s.val.withoutDevice id).violation = none) ∧
      AllRemovable ids (s.val.withoutDevice id) := by
  have hid : id ∈ s.val.deviceIds := hperm.subset List.mem_cons_self
  have hnodup : id ∉ ids := (List.nodup_cons.mp (hperm.nodup_iff.mpr s.keys.devices)).1
  have hpaired : ∀ f : SyncFolderRow, s.val.pairedWith id f.id = true → s.val.isPaired f = true := by
    intro f h
    obtain ⟨p, hp, hboth⟩ := List.any_eq_true.mp h
    exact List.any_eq_true.mpr ⟨p, hp, (Bool.and_eq_true_iff.mp hboth).2⟩
  constructor
  · intro h
    have hfolders : (s.val.withoutFolders id).violation = none := by
      refine withoutFolders_valid.mpr fun f hf hall => ?_
      cases hpairs : s.val.isPaired f with
      | true =>
        obtain ⟨p, hp, hfolder⟩ := List.any_eq_true.mp hpairs
        refine Or.inl (List.any_eq_true.mpr ⟨p, hp, ?_⟩)
        rw [hfolder, decide_eq_true (hall p hp (of_decide_eq_true hfolder))]
        rfl
      | false =>
        refine Or.inr ⟨h.metadata f hf hpairs, fun r hr hfolder => ?_⟩
        exact (Option.some.inj (h.history f hf hpairs r hr hfolder)).symm
    refine ⟨⟨hfolders, (withoutDevice_valid hfolders hid).mpr ⟨fun f hf howner p hp hfolder => ?_, ?_⟩⟩, ?_⟩
    · have hnot := h.owner f hf [] ids (howner ▸ rfl) p hp hfolder
      have hthere : p.deviceId ∈ id :: ids := hperm.mem_iff.mpr (s.references.pairDevice p hp)
      exact (List.mem_cons.mp hthere).resolve_right hnot
    · rw [h.share]
      exact fun r hr => absurd hr List.not_mem_nil
    · refine ⟨h.share, fun f hf before after hids p hp hfolder => ?_, fun f hf hpairs => ?_, fun f hf hpairs => ?_⟩
      · exact h.owner f (mem_syncFolders_withoutDevice.mp hf).1 (id :: before) after (by rw [hids]; rfl) p
          (mem_folderDevices_withoutDevice.mp hp).1 hfolder
      · rw [isPaired_withoutDevice hf] at hpairs
        cases hpairs
      · rw [isPaired_withoutDevice hf] at hpairs
        cases hpairs
  · rintro ⟨⟨hfolders, hdevice⟩, h⟩
    obtain ⟨howner, _⟩ := (withoutDevice_valid hfolders hid).mp hdevice
    have hunpaired : ∀ f ∈ s.val.syncFolders, s.val.isPaired f = false →
        (∀ m ∈ s.val.fileMetadata, m.folderId ≠ f.id) ∧
          ∀ r ∈ s.val.fileHistory, r.folderId = f.id → r.deviceId = id := by
      intro f hf hpairs
      rcases withoutFolders_valid.mp hfolders f hf fun p hp hfolder =>
        absurd hfolder (isPaired_eq_false.mp hpairs p hp) with hwith | hnone
      · rw [hpaired f hwith] at hpairs
        cases hpairs
      · exact hnone
    refine ⟨h.share, fun f hf before after hids p hp hfolder => ?_, fun f hf hpairs => (hunpaired f hf hpairs).1,
      fun f hf hpairs r hr hfolder => ?_⟩
    · cases before with
      | nil =>
        obtain ⟨hown, rfl⟩ := List.cons.inj hids
        rw [howner f hf hown.symm p hp hfolder]
        exact hnodup
      | cons first before =>
        obtain ⟨rfl, rfl⟩ := List.cons.inj hids
        by_cases hdev : p.deviceId = id
        · rw [hdev]
          exact fun hafter => hnodup (List.mem_append_right _ (List.mem_cons_of_mem _ hafter))
        · exact h.owner f (mem_syncFolders_withoutDevice.mpr ⟨hf, p, hp, hfolder, hdev⟩) before after rfl p
            (mem_folderDevices_withoutDevice.mpr ⟨hp, hdev⟩) hfolder
    · rw [(hunpaired f hf hpairs).2 r hr hfolder]
      rfl

/-! ### All of them -/

/-- Where there is no device there is nothing to wipe. -/
theorem wiped_eq_self (h : s.val.deviceIds = []) : s.val.wiped = s.val := by
  have hrefs := s.references
  have hnone : ∀ i, i ∉ s.val.deviceIds := fun i hi => List.not_mem_nil (h ▸ hi)
  have hdevices : s.val.devices = [] := List.map_eq_nil_iff.mp h
  have hfolders : s.val.syncFolders = [] :=
    List.eq_nil_iff_forall_not_mem.mpr fun f hf => hnone _ (hrefs.folderOwner f hf)
  have hnofolder : ∀ i, i ∉ s.val.folderIds := fun i hi => by
    unfold folderIds at hi
    rw [hfolders] at hi
    cases hi
  have hpairs : s.val.folderDevices = [] :=
    List.eq_nil_iff_forall_not_mem.mpr fun p hp => hnone _ (hrefs.pairDevice p hp)
  have hmetadata : s.val.fileMetadata = [] :=
    List.eq_nil_iff_forall_not_mem.mpr fun m hm => hnofolder _ (hrefs.metadata m hm)
  have hhistory : s.val.fileHistory = [] :=
    List.eq_nil_iff_forall_not_mem.mpr fun r hr => hnofolder _ (hrefs.history r hr)
  have hsessions : s.val.syncSessions.filter (fun r => decide (r.peerDevice ∉ s.val.deviceIds)) =
      s.val.syncSessions := List.filter_eq_self.mpr fun r _ => decide_eq_true (hnone _)
  unfold wiped cleared
  rw [hsessions, ← hdevices, ← hfolders, ← hpairs, ← hmetadata, ← hhistory]

/-- One device may go first. -/
theorem wiped_withoutDevice (hperm : (id :: ids).Perm s.val.deviceIds) :
    (s.val.withoutDevice id).wiped = s.val.wiped := by
  have hrest := deviceIds_withoutDevice hperm s.keys
  have hsessions : ((s.val.syncSessions.filter fun r => !decide (r.peerDevice = id)).filter fun r =>
      decide (r.peerDevice ∉ (s.val.withoutDevice id).deviceIds)) =
        s.val.syncSessions.filter fun r => decide (r.peerDevice ∉ s.val.deviceIds) := by
    rw [List.filter_filter]
    refine List.filter_congr fun r _ => ?_
    have hmem : r.peerDevice ∈ s.val.deviceIds ↔
        r.peerDevice = id ∨ r.peerDevice ∈ (s.val.withoutDevice id).deviceIds := by
      rw [← hrest.mem_iff, ← hperm.mem_iff, List.mem_cons]
    by_cases hid : r.peerDevice = id
    · have hin : r.peerDevice ∈ s.val.deviceIds := hmem.mpr (Or.inl hid)
      simp [hid, hid ▸ hin]
    · have hiff : r.peerDevice ∈ s.val.deviceIds ↔ r.peerDevice ∈ (s.val.withoutDevice id).deviceIds :=
        hmem.trans (or_iff_right hid)
      simp [hid, hiff]
  have hcleared : (s.val.withoutDevice id).wiped = { s.val.cleared with
      syncSessions := (s.val.syncSessions.filter fun r => !decide (r.peerDevice = id)).filter fun r =>
        decide (r.peerDevice ∉ (s.val.withoutDevice id).deviceIds) } := rfl
  rw [hcleared, hsessions]
  rfl

theorem forM_removeDevice_eq_ok (hperm : ids.Perm s.val.deviceIds) :
    (ids.forM fun id => discard (removeDevice id)) s = .ok () s' ↔
      AllRemovable ids s.val ∧ s'.val = s.val.wiped := by
  induction ids generalizing s with
  | nil =>
    have hids : s.val.deviceIds = [] := List.nil_perm.mp hperm
    have hwiped := wiped_eq_self hids
    have hshares : s.val.sharedFolders = [] := List.eq_nil_iff_forall_not_mem.mpr fun r hr =>
      List.not_mem_nil (hids ▸ s.references.share r hr)
    have hfolders : s.val.syncFolders = [] := List.eq_nil_iff_forall_not_mem.mpr fun f hf =>
      List.not_mem_nil (hids ▸ s.references.folderOwner f hf)
    have hall : AllRemovable [] s.val := by
      refine ⟨hshares, ?_, ?_, ?_⟩
      · rw [hfolders]
        exact fun f hf => absurd hf List.not_mem_nil
      · rw [hfolders]
        exact fun f hf => absurd hf List.not_mem_nil
      · rw [hfolders]
        exact fun f hf => absurd hf List.not_mem_nil
    constructor
    · intro h
      cases h
      exact ⟨hall, hwiped.symm⟩
    · rintro ⟨_, h⟩
      rw [State.ext (h.trans hwiped)]
      rfl
  | cons id ids ih =>
    show (discard (removeDevice id) >>= fun _ => ids.forM fun id => discard (removeDevice id)) s = .ok () s' ↔ _
    rw [bind_eq_ok, allRemovable_cons hperm, ← wiped_withoutDevice hperm]
    constructor
    · rintro ⟨_, t, hfirst, hrest⟩
      obtain ⟨hfolders, ht⟩ := removeDevice_eq_ok.mp hfirst
      have hpermT : ids.Perm t.val.deviceIds := ht ▸ deviceIds_withoutDevice hperm s.keys
      obtain ⟨hall, hs'⟩ := (ih hpermT).mp hrest
      rw [ht] at hall hs'
      exact ⟨⟨⟨hfolders, ht ▸ t.valid⟩, hall⟩, hs'⟩
    · rintro ⟨⟨⟨hfolders, hdevice⟩, hall⟩, hs'⟩
      let t : DbState := ⟨s.val.withoutDevice id, hdevice⟩
      exact ⟨(), t, removeDevice_eq_ok.mpr ⟨hfolders, rfl⟩,
        (ih (deviceIds_withoutDevice hperm s.keys)).mpr ⟨hall, hs'⟩⟩

end

/-- **Where it stops, the devices listed before are gone**, and all else is as it was. -/
theorem removeAllDevices_stops {ids : List String} {s s' : DbState} {e : Db.Error}
    (h : removeAllDevices ids s = .error e s') : ∃ before id after, ids = before ++ id :: after ∧
      s'.val = before.foldl (fun db id => db.withoutDevice id) s.val ∧
      ¬∃ t, discard (removeDevice id) s' = .ok () t := by
  have hforM : (ids.forM fun id => discard (removeDevice id)) s = .error e s' := by
    unfold removeAllDevices at h
    cases hall : (ids.forM fun id => discard (removeDevice id)) s with
    | ok a t =>
      rw [Effects.bind_ok hall] at h
      cases h
    | error e' t =>
      rw [Effects.bind_error hall] at h
      cases h
      rfl
  clear h
  induction ids generalizing s with
  | nil => cases hforM
  | cons id ids ih =>
    have hforM : (discard (removeDevice id) >>= fun _ => ids.forM fun id => discard (removeDevice id)) s =
      .error e s' := hforM
    cases hfirst : discard (removeDevice id) s with
    | ok a t =>
      rw [Effects.bind_ok hfirst] at hforM
      obtain ⟨before, last, after, hids, hs', hlast⟩ := ih hforM
      refine ⟨id :: before, last, after, by rw [hids]; rfl, ?_, hlast⟩
      rw [hs', (removeDevice_eq_ok.mp hfirst).2]
      rfl
    | error e' t =>
      rw [Effects.bind_error hfirst] at hforM
      cases hforM
      have hsame : s' = s := atomicAt_discard.mpr ((Atomic.transaction _).at s) _ _ hfirst
      refine ⟨[], id, ids, rfl, by rw [hsame]; rfl, ?_⟩
      rintro ⟨t', hok⟩
      rw [hsame, hfirst] at hok
      cases hok

/-- **All devices are removed exactly if they can be in the order of the list**, and then nothing
is left but sessions with others. -/
theorem removeAllDevices_eq_ok (s s' : DbState) (listing : s.val.DeviceListing) (n : ℕ) :
    removeAllDevices listing.ids s = .ok n s' ↔
      AllRemovable listing.ids s.val ∧ n = s.val.devices.length ∧ s'.val = s.val.wiped := by
  have hlength : listing.ids.length = s.val.devices.length := by
    rw [listing.perm.length_eq]
    exact List.length_map _
  unfold removeAllDevices
  rw [bind_eq_ok, ← hlength]
  constructor
  · rintro ⟨_, t, hall, hlast⟩
    cases hlast
    obtain ⟨hremovable, hwiped⟩ := (forM_removeDevice_eq_ok listing.perm).mp hall
    exact ⟨hremovable, rfl, hwiped⟩
  · rintro ⟨hremovable, rfl, hwiped⟩
    exact ⟨(), s', (forM_removeDevice_eq_ok listing.perm).mpr ⟨hremovable, hwiped⟩, rfl⟩

end Database
end FerriSync
