/-
# Shares without a folder

A share names its folder by a guid, and nothing in the schema ties the two together: a
folder that goes leaves its share behind, is listed to peers, and is made again for the
first trusted peer that asks for it. A folder comes to a share only because every
operation but two keeps them together: a removal, which looks at no share, and a share
of a guid that no folder has (`shares_follow_iff`).

Key definitions: `Database.Live`, `Followed`, `Removal.Drops`, `Removal.Succeeds`,
`NodeOp`, `Node.SharesFollow`, `Node.KeepsShares`.
Key theorems: `removal_leaves`, `removal_succeeds_iff`, `shares_follow_iff`.
-/
import FerriSync.Atomicity
import FerriSync.FolderPairs
import FerriSync.Lib.Runs
import FerriSync.Removals
import FerriSync.Wiring

namespace FerriSync

open Transactions

/-! ### Folders that are there -/

namespace Database

/-- A folder has the guid. -/
def Live (db : Database) (guid : String) : Prop := ∃ f ∈ db.syncFolders, f.folderGuid = some guid

/-- Every share of the device is of a folder that is there. -/
def Followed (db : Database) (ownId : String) : Prop :=
  ∀ r ∈ db.sharedFolders, r.deviceId = ownId → db.Live r.folderGuid

/-- Folders are only added, and shares stay as they are. -/
structure Grows (db db' : Database) : Prop where
  folders : db.syncFolders ⊆ db'.syncFolders
  shares : db'.sharedFolders = db.sharedFolders

end Database

namespace Removal

/-- The removal leaves the folder without a pair, and so drops it. -/
def Drops (db : Database) (f : SyncFolderRow) : Removal → Prop
  | device deviceId => ∀ p ∈ db.folderDevices, p.folderId = f.id → p.deviceId = deviceId
  | folderDevice folderId deviceId => f.id = folderId ∧ (folderId, deviceId) ∈ db.pairKeys ∧
      ¬db.Keeps f.id (some deviceId)
  | syncFolders localPath deviceId => f.localPath = localPath ∧ ¬db.Keeps f.id deviceId
  | syncFolderById folderId => f.id = folderId
  | all => True

/-- No reference stands in the way. -/
def Succeeds (db : Database) : Removal → Prop
  | device deviceId => (∀ f ∈ db.syncFolders, (device deviceId).Drops db f →
      db.pairedWith deviceId f.id = true ∨ (∀ m ∈ db.fileMetadata, m.folderId ≠ f.id) ∧
        ∀ r ∈ db.fileHistory, r.folderId = f.id → r.deviceId = deviceId) ∧
    (∀ f ∈ db.syncFolders, f.deviceId = deviceId → (device deviceId).Drops db f) ∧
    ∀ r ∈ db.sharedFolders, r.deviceId ≠ deviceId
  | all => db.sharedFolders = []
  | r => ∀ f ∈ db.syncFolders, r.Drops db f →
      (∀ m ∈ db.fileMetadata, m.folderId ≠ f.id) ∧ ∀ h ∈ db.fileHistory, h.folderId ≠ f.id

end Removal

/-! ### A device and what it does -/

/-- Additions, shares, wirings and removals, and the requests of peers. -/
inductive NodeOp
  | registerDevice (id name : String) (certDer : Option Bytes) (lastAddr : Option String)
  | addSyncFolder (localPath deviceId direction : String)
  | ensureFolder (guid localPath name deviceId : String)
  | shareFolder (folderGuid name localPath : String)
  | setDiscoverable (id : ℕ) (discoverable : Bool)
  | unshareFolder (id : ℕ)
  | wireFolderPair (guid localPath name peerDeviceId : String) (peerPath : Option String)
  | approve (deviceId folderGuid name localPath : String) (remotePath : Option String)
  | deny (deviceId folderGuid : String)
  | request (req : RemoteFolderPairRequest)
  | remove (r : Removal)

namespace Node

variable (blake3 : Bytes → FileHash)

def perform (n : Node) : NodeOp → Node
  | .registerDevice id name certDer lastAddr => n.after (Database.upsertDevice id name certDer lastAddr)
  | .addSyncFolder localPath deviceId direction =>
    n.after (discard (Database.addSyncFolder blake3 n.host.processId localPath deviceId direction))
  | .ensureFolder guid localPath name deviceId =>
    n.after (discard (Database.ensureFolderByGuid guid localPath name deviceId))
  | .shareFolder folderGuid name localPath =>
    n.after (Database.shareFolder folderGuid n.ownId name localPath)
  | .setDiscoverable id discoverable => n.after (Database.setSharedDiscoverable id discoverable)
  | .unshareFolder id => n.after (Database.unshareFolder id)
  | .wireFolderPair guid localPath name peerDeviceId peerPath =>
    n.after (discard (Database.wireFolderPair guid localPath name n.ownId peerDeviceId peerPath))
  | .approve deviceId folderGuid name localPath remotePath =>
    (n.approveFolderPair deviceId folderGuid name localPath remotePath).2
  | .deny deviceId folderGuid => n.denyFolderPair deviceId folderGuid
  | .request req => (n.answerFolderPair req).2
  | .remove r => n.after r.statements

/-- Every share is of a folder that is there; and what is not there, is neither listed nor
made by a request. -/
structure SharesFollow (n : Node) : Prop where
  followed : n.db.Followed n.ownId
  hidden : ∀ guid, ¬n.db.Live guid → ∀ r ∈ n.visibleShares, r.folderGuid ≠ guid
  gone : ∀ guid, ¬n.db.Live guid → ∀ req : RemoteFolderPairRequest, req.folderGuid = guid →
    ¬(n.answerFolderPair req).2.db.Live guid

/-- The operation leaves no share without a folder: a share is of a guid that a folder
has, or not possible because the device has no row; a removal fails, or every share has a
folder that it does not drop. -/
def KeepsShares (n : Node) : NodeOp → Prop
  | .shareFolder folderGuid _ _ => n.ownId ∉ n.db.deviceIds ∨ n.db.Live folderGuid
  | .remove r => ¬r.Succeeds n.db ∨ ∀ s ∈ n.db.sharedFolders, s.deviceId = n.ownId →
      ∃ f ∈ n.db.syncFolders, f.folderGuid = some s.folderGuid ∧ ¬r.Drops n.db f
  | _ => True

end Node

/-! ### What a removal leaves -/

namespace Removal

/-- A removal that succeeds takes the folders that it drops, and no share. -/
structure Leaves (r : Removal) (db db' : Database) : Prop where
  folders : ∀ f, f ∈ db'.syncFolders ↔ f ∈ db.syncFolders ∧ ¬r.Drops db f
  shares : db'.sharedFolders = db.sharedFolders

variable {s s' : DbState}

open Database

theorem leaves_of_chain {r : Removal} {folderIds : List ℕ} {deviceId : Option String}
    (h : Chain (folderIds.map (removePairs deviceId)) s s')
    (hdrops : ∀ f ∈ s.val.syncFolders, r.Drops s.val f ↔ f.id ∈ folderIds ∧ ¬s.val.Keeps f.id deviceId) :
    r.Leaves s.val s'.val := by
  obtain ⟨⟨folders, pairs, hs'⟩, hmem⟩ := chain_removePairs h
  refine ⟨fun f => ?_, by rw [hs']⟩
  rw [hmem]
  refine and_congr_right fun hf => ?_
  rw [hdrops f hf, not_and, not_not]

theorem drops_folderDevice {folderId : ℕ} {deviceId : String} (h : (folderId, deviceId) ∈ s.val.pairKeys)
    (f : SyncFolderRow) : (folderDevice folderId deviceId).Drops s.val f ↔
      f.id ∈ [folderId] ∧ ¬s.val.Keeps f.id (some deviceId) := by
  rw [List.mem_singleton]
  exact and_congr_right fun _ => and_iff_right h

theorem drops_syncFolders {localPath : String} {deviceId : Option String} {f : SyncFolderRow}
    (hf : f ∈ s.val.syncFolders) : (syncFolders localPath deviceId).Drops s.val f ↔
      f.id ∈ (s.val.syncFolders.filter fun f => decide (f.localPath = localPath)).map (·.id) ∧
        ¬s.val.Keeps f.id deviceId := by
  have hmem : f.id ∈ (s.val.syncFolders.filter fun f => decide (f.localPath = localPath)).map (·.id) ↔
      decide (f.localPath = localPath) = true := mem_map_filter_iff s.keys.syncFolders hf
  rw [hmem, decide_eq_true_eq]
  exact Iff.rfl

theorem drops_syncFolderById {folderId : ℕ} (f : SyncFolderRow) :
    (syncFolderById folderId).Drops s.val f ↔ f.id ∈ [folderId] ∧ ¬s.val.Keeps f.id none := by
  rw [List.mem_singleton]
  exact (and_iff_left not_keeps_none).symm

/-- A pair that is not there. -/
theorem removeFolderDevice_absent {folderId : ℕ} {deviceId : String}
    (h : (folderId, deviceId) ∉ s.val.pairKeys) :
    discard (removeFolderDevice folderId deviceId) s = .ok () s := by
  have hnone : ∀ p ∈ s.val.folderDevices, ¬isPairOf folderId (some deviceId) p = true := by
    intro p hp hpair
    unfold isPairOf at hpair
    simp only [Option.all_some, Bool.and_eq_true, decide_eq_true_eq] at hpair
    obtain ⟨rfl, rfl⟩ := hpair
    exact h (List.mem_map_of_mem hp)
  have hsame : (s.val.deletePairs (isPairOf folderId (some deviceId))) = s.val := by
    unfold deletePairs
    rw [List.filter_eq_self.mpr fun p hp => by simpa using hnone p hp]
  have hzero : s.val.folderDevices.countP (isPairOf folderId (some deviceId)) = 0 :=
    List.countP_eq_zero.mpr hnone
  have hdelete : (execute fun db => db.deletePairs (isPairOf folderId (some deviceId)) : Sql Unit) s =
      .ok () s := execute_eq_ok.mpr hsame.symm
  rw [discard_eq_ok]
  refine ⟨false, ?_⟩
  unfold removeFolderDevice
  rw [transaction_eq_ok, Effects.bind_ok (query_apply _), Effects.bind_ok hdelete, if_pos hzero]
  rfl

theorem leaves_device {id : String} (h : discard (removeDevice id) s = .ok () s') :
    (device id).Leaves s.val s'.val := by
  obtain ⟨_, hs'⟩ := removeDevice_eq_ok.mp h
  rw [hs']
  refine ⟨fun f => ?_, rfl⟩
  have hleft : f ∈ (s.val.withoutDevice id).syncFolders ↔
      f ∈ s.val.syncFolders ∧ (!!(s.val.withoutRecords id).isPaired f) = true := List.mem_filter
  rw [hleft]
  refine and_congr_right fun _ => ?_
  show _ ↔ ¬∀ p ∈ s.val.folderDevices, p.folderId = f.id → p.deviceId = id
  rw [← isPaired_withoutRecords]
  simp

theorem leaves_all (h : discard clearAllSyncState s = .ok () s') : all.Leaves s.val s'.val := by
  rw [clearAllSyncState_eq_ok.mp h]
  refine ⟨fun f => ?_, rfl⟩
  show f ∈ [] ↔ f ∈ s.val.syncFolders ∧ ¬True
  simp

theorem removal_leaves {r : Removal} (h : r.statements s = .ok () s') : r.Leaves s.val s'.val := by
  cases r with
  | device id => exact leaves_device h
  | folderDevice folderId deviceId =>
    by_cases hpair : (folderId, deviceId) ∈ s.val.pairKeys
    · exact leaves_of_chain ((removeFolderDevice_eq_ok hpair).mp h) fun f _ => drops_folderDevice hpair f
    · have hsame : s' = s := by
        have habsent := (removeFolderDevice_absent hpair).symm.trans h
        cases habsent
        rfl
      rw [hsame]
      exact ⟨fun f => (and_iff_left fun hdrops => hpair hdrops.2.1).symm, rfl⟩
  | syncFolders localPath deviceId =>
    exact leaves_of_chain (removeSyncFolders_eq_ok.mp h) fun f hf => drops_syncFolders hf
  | syncFolderById folderId =>
    exact leaves_of_chain (removeSyncFolderById_eq_ok.mp h) fun f _ => drops_syncFolderById f
  | all => exact leaves_all h

/-- **A removal succeeds unless what is recorded stands in its way.** -/
theorem removal_succeeds_iff {r : Removal} : (∃ s', r.statements s = .ok () s') ↔ r.Succeeds s.val := by
  cases r with
  | device id =>
    have hdo : (∃ s', discard (removeDevice id) s = .ok () s') ↔
        (s.val.withoutFolders id).violation = none ∧ (s.val.withoutDevice id).violation = none := by
      constructor
      · rintro ⟨s', h⟩
        obtain ⟨hfolders, hs'⟩ := removeDevice_eq_ok.mp h
        exact ⟨hfolders, hs' ▸ s'.valid⟩
      · rintro ⟨hfolders, hvalid⟩
        exact ⟨⟨_, hvalid⟩, removeDevice_eq_ok.mpr ⟨hfolders, rfl⟩⟩
    show (∃ s', discard (removeDevice id) s = .ok () s') ↔ _
    rw [hdo]
    refine and_congr withoutFolders_valid (iff_of_eq rfl) |>.trans (and_congr_right fun hrecorded => ?_)
    have hfolders := withoutFolders_valid.mpr hrecorded
    by_cases hid : id ∈ s.val.deviceIds
    · exact withoutDevice_valid hfolders hid
    · refine iff_of_true ?_ ⟨fun f hf howner => ?_, fun r hr howner => ?_⟩
      · refine (deleteDevices_valid hfolders _).mpr fun d hd heq => ?_
        exact absurd (List.mem_map_of_mem hd) (of_decide_eq_true heq ▸ hid)
      · exact absurd (howner ▸ s.references.folderOwner f hf) hid
      · exact absurd (howner ▸ s.references.share r hr) hid
  | folderDevice folderId deviceId =>
    by_cases hpair : (folderId, deviceId) ∈ s.val.pairKeys
    · have hdo : (∃ s', discard (removeFolderDevice folderId deviceId) s = .ok () s') ↔
          ∃ s', Chain ([folderId].map (removePairs (some deviceId))) s s' :=
        exists_congr fun s' => removeFolderDevice_eq_ok hpair
      show (∃ s', discard (removeFolderDevice folderId deviceId) s = .ok () s') ↔ _
      rw [hdo, exists_chain_removePairs]
      refine forall₂_congr fun f _ => ?_
      rw [drops_folderDevice hpair]
      tauto
    · exact iff_of_true ⟨s, removeFolderDevice_absent hpair⟩ fun f _ hdrops => absurd hdrops.2.1 hpair
  | syncFolders localPath deviceId =>
    have hdo : (∃ s', discard (removeSyncFolders localPath deviceId) s = .ok () s') ↔
        ∃ s', Chain (((s.val.syncFolders.filter fun f => decide (f.localPath = localPath)).map
          (·.id)).map (removePairs deviceId)) s s' := exists_congr fun s' => removeSyncFolders_eq_ok
    show (∃ s', discard (removeSyncFolders localPath deviceId) s = .ok () s') ↔ _
    rw [hdo, exists_chain_removePairs]
    refine forall₂_congr fun f hf => ?_
    rw [drops_syncFolders hf]
    tauto
  | syncFolderById folderId =>
    have hdo : (∃ s', removeSyncFolderById folderId s = .ok () s') ↔
        ∃ s', Chain ([folderId].map (removePairs none)) s s' :=
      exists_congr fun s' => removeSyncFolderById_eq_ok
    show (∃ s', removeSyncFolderById folderId s = .ok () s') ↔ _
    rw [hdo, exists_chain_removePairs]
    refine forall₂_congr fun f _ => ?_
    rw [drops_syncFolderById]
    tauto
  | all =>
    show (∃ s', discard clearAllSyncState s = .ok () s') ↔ s.val.sharedFolders = []
    rw [← cleared_valid]
    constructor
    · rintro ⟨s', h⟩
      exact clearAllSyncState_eq_ok.mp h ▸ s'.valid
    · exact fun hvalid => ⟨⟨_, hvalid⟩, clearAllSyncState_eq_ok.mpr rfl⟩

/-- One that fails takes neither a folder nor a share. -/
theorem removal_fails_same {r : Removal} {e : Db.Error} (h : r.statements s = .error e s') :
    s'.val.syncFolders = s.val.syncFolders ∧ s'.val.sharedFolders = s.val.sharedFolders := by
  have hsame : ∀ {α : Type} {x : Sql α}, discard (transaction x) s = .error e s' → s' = s :=
    fun {_ _} hx => atomicAt_discard.mpr ((Atomic.transaction _).at s) e s' hx
  cases r with
  | device id => exact hsame h ▸ ⟨rfl, rfl⟩
  | folderDevice folderId deviceId => exact hsame h ▸ ⟨rfl, rfl⟩
  | syncFolders localPath deviceId => exact hsame h ▸ ⟨rfl, rfl⟩
  | syncFolderById folderId =>
    have hpairs := deletePairs_valid s.valid (isPairOf folderId none)
    have hrun : removeSyncFolderById folderId s = .error e s' := h
    unfold removeSyncFolderById at hrun
    rw [Effects.bind_ok (execute_ok hpairs)] at hrun
    rw [(execute_eq_error.mp hrun).2]
    exact ⟨rfl, rfl⟩
  | all => exact hsame h ▸ ⟨rfl, rfl⟩

end Removal

/-! ### What adds folders -/

namespace Database

/-- The relation of the states before and after. -/
def GrowsTo (s s' : DbState) : Prop := s.val.Grows s'.val

theorem growsTo_composes : Effects.Composes GrowsTo where
  refl _ := ⟨List.Subset.refl _, rfl⟩
  trans hfirst hsecond := ⟨List.Subset.trans hfirst.folders hsecond.folders, hsecond.shares.trans hfirst.shares⟩

theorem growsTo_execute {g : Database → Database} (hfolders : ∀ db, db.syncFolders ⊆ (g db).syncFolders)
    (hshares : ∀ db, (g db).sharedFolders = db.sharedFolders) :
    Effects.Does GrowsTo (execute g : Sql Unit) := by
  refine Does.execute growsTo_composes fun s s' hs' => ?_
  unfold GrowsTo
  rw [hs']
  exact ⟨hfolders _, hshares _⟩

theorem growsTo_insertSyncFolder (localPath name deviceId direction guid : String) :
    Effects.Does GrowsTo (insertSyncFolder localPath name deviceId direction guid) :=
  .bind growsTo_composes (growsTo_execute (fun _ => List.subset_append_left _ _) fun _ => rfl) fun _ =>
    Does.query growsTo_composes _

theorem growsTo_upsertDevice (id name : String) (certDer : Option Bytes) (lastAddr : Option String) :
    Effects.Does GrowsTo (upsertDevice id name certDer lastAddr) :=
  growsTo_execute (fun _ => List.Subset.refl _) fun _ => rfl

theorem growsTo_addFolderDevice (folderId : ℕ) (deviceId mode : String) (remotePath : Option String) :
    Effects.Does GrowsTo (addFolderDevice folderId deviceId mode remotePath) :=
  growsTo_execute (fun _ => List.Subset.refl _) fun _ => rfl

theorem growsTo_addSyncFolder (blake3 : Bytes → FileHash) (processId : ℕ)
    (localPath deviceId direction : String) :
    Effects.Does GrowsTo (addSyncFolder blake3 processId localPath deviceId direction) :=
  does_addSyncFolder growsTo_composes blake3 processId
    (fun _ _ => growsTo_insertSyncFolder _ _ _ _ _)
    fun folderId => growsTo_addFolderDevice folderId deviceId direction none

theorem growsTo_ensureFolderByGuid (guid localPath name deviceId : String) :
    Effects.Does GrowsTo (ensureFolderByGuid guid localPath name deviceId) :=
  does_ensureFolderByGuid growsTo_composes (growsTo_insertSyncFolder _ _ _ _ _)

theorem growsTo_approveFolderPair (ownerId deviceId guid name localPath : String)
    (remotePath : Option String) :
    Effects.Does GrowsTo (approveFolderPair ownerId deviceId guid name localPath remotePath) :=
  have hcomposes := growsTo_composes
  .bind hcomposes (growsTo_upsertDevice deviceId name none none) fun _ =>
    .bind hcomposes (growsTo_ensureFolderByGuid guid localPath name ownerId) fun folderId =>
      growsTo_addFolderDevice folderId deviceId "bidirectional" remotePath

variable {db db' : Database} {ownId : String}

/-- Shares of folders that are there still are. -/
theorem Followed.grows (h : db.Followed ownId) (hgrows : db.Grows db') : db'.Followed ownId := by
  intro r hr hown
  obtain ⟨f, hf, hguid⟩ := h r (hgrows.shares ▸ hr) hown
  exact ⟨f, hgrows.folders hf, hguid⟩

/-! ### Attaching a peer -/

theorem rebind_folders (wired : SyncFolderRow) (guid : String) :
    (db.rebind wired guid ownId).syncFolders =
      db.syncFolders.map fun f => if f.id = wired.id then { f with folderGuid := some guid } else f := by
  unfold rebind
  cases wired.folderGuid <;> rfl

/-- **A folder takes its shares along** when it gets another guid. -/
theorem Followed.rebind {wired : SyncFolderRow} {guid : String} (h : db.Followed ownId)
    (hvalid : db.violation = none) (hwired : wired ∈ db.syncFolders) :
    (db.rebind wired guid ownId).Followed ownId := by
  have hgets : (db.rebind wired guid ownId).Live guid := by
    refine ⟨{ wired with folderGuid := some guid }, ?_, rfl⟩
    rw [rebind_folders]
    exact List.mem_map.mpr ⟨wired, hwired, if_pos rfl⟩
  have hothers : ∀ g, wired.folderGuid ≠ some g → db.Live g → (db.rebind wired guid ownId).Live g := by
    rintro g hne ⟨f, hf, hg⟩
    refine ⟨f, ?_, hg⟩
    rw [rebind_folders]
    refine List.mem_map.mpr ⟨f, hf, if_neg fun hid => hne ?_⟩
    have hsame : f = wired := List.inj_on_of_nodup_map (violation_eq_none.mp hvalid).1.syncFolders hf hwired hid
    rw [← hsame]
    exact hg
  intro r hr hown
  cases hold : wired.folderGuid with
  | none =>
    have hr : r ∈ db.sharedFolders := by
      unfold Database.rebind at hr
      rw [hold] at hr
      exact hr
    exact hothers _ (by simp [hold]) (h r hr hown)
  | some oldGuid =>
    have hr : r ∈ db.sharedFolders.map fun s =>
        if s.deviceId = ownId ∧ s.folderGuid = oldGuid then { s with folderGuid := guid } else s := by
      unfold Database.rebind at hr
      rw [hold] at hr
      exact hr
    obtain ⟨s, hs, rfl⟩ := List.mem_map.mp hr
    by_cases hmoved : s.deviceId = ownId ∧ s.folderGuid = oldGuid
    · rw [if_pos hmoved]
      exact hgets
    · rw [if_neg hmoved] at hown ⊢
      refine hothers _ (fun heq => hmoved ⟨hown, ?_⟩) (h s hs hown)
      rw [hold] at heq
      exact (Option.some.inj heq).symm

theorem Followed.wiredFolder {guid localPath name : String} {s s' : DbState} {id : ℕ}
    (h : s.val.Followed ownId) (hok : wiredFolder guid localPath name ownId s = .ok id s') :
    s'.val.Followed ownId := by
  have hcases := wiredFolder_eq_ok.mp hok
  cases hwired : s.val.syncFolders.find? fun f => decide (f.localPath = localPath) with
  | some wired =>
    rw [hwired] at hcases
    rw [hcases.2]
    exact h.rebind s.valid (List.mem_of_find?_eq_some hwired)
  | none =>
    rw [hwired] at hcases
    cases hguid : s.val.folderByGuid guid with
    | some f =>
      rw [hguid] at hcases
      rw [hcases.2]
      exact h
    | none =>
      rw [hguid] at hcases
      rw [hcases.2]
      exact h.grows ⟨List.subset_append_left _ _, rfl⟩

/-- Whether it fails or not. -/
theorem Followed.wireFolderPair {guid localPath name peerDeviceId : String} {peerPath : Option String}
    {s : DbState} (h : s.val.Followed ownId) :
    (Effects.after (wireFolderPair guid localPath name ownId peerDeviceId peerPath) s).val.Followed ownId := by
  unfold Database.wireFolderPair
  cases hwired : transaction (Database.wiredFolder guid localPath name ownId) s with
  | error e t =>
    rw [Effects.after_error (Effects.bind_error hwired), (transaction_eq_error.mp hwired).1]
    exact h
  | ok id t =>
    have hfolder : t.val.Followed ownId := h.wiredFolder (transaction_eq_ok.mp hwired)
    have hpair : GrowsTo t (Effects.after (do
        addFolderDevice id peerDeviceId "bidirectional" peerPath
        return id) t) :=
      Effects.Does.bind growsTo_composes (growsTo_addFolderDevice id peerDeviceId _ peerPath)
        (fun _ => .pure growsTo_composes _) t
    have hafter : Effects.after (transaction (Database.wiredFolder guid localPath name ownId) >>= fun id => do
        addFolderDevice id peerDeviceId "bidirectional" peerPath
        return id) s = Effects.after (do
          addFolderDevice id peerDeviceId "bidirectional" peerPath
          return id) t := by
      unfold Effects.after
      rw [Effects.bind_ok hwired]
    rw [hafter]
    exact hfolder.grows hpair

/-! ### Shares -/

theorem insertShare_valid {guid name localPath : String} {id : ℕ} {seq : ℕ} (h : db.violation = none)
    (hnew : (guid, ownId) ∉ db.sharedFolders.map fun s => (s.folderGuid, s.deviceId)) :
    ({ db with
      sharedFolders := db.sharedFolders ++ [⟨id, guid, ownId, name, localPath, true, true, "read_write"⟩]
      shareSeq := seq } : Database).violation = none ↔ ownId ∈ db.deviceIds := by
  obtain ⟨hkeys, hrefs⟩ := violation_eq_none.mp h
  rw [violation_eq_none]
  constructor
  · rintro ⟨_, hrefs'⟩
    exact hrefs'.share _ (List.mem_append_right _ (List.mem_singleton_self _))
  · intro hown
    refine ⟨⟨hkeys.devices, hkeys.syncFolders, hkeys.folderDevices, hkeys.fileMetadata, ?_⟩,
      ⟨hrefs.folderOwner, hrefs.pairFolder, hrefs.pairDevice, hrefs.metadata, hrefs.history, fun r hr => ?_⟩⟩
    · rw [List.map_append]
      exact List.nodup_append.mpr ⟨hkeys.sharedFolders, List.nodup_singleton _, fun a ha b hb heq => by
        rw [heq, List.mem_singleton.mp hb] at ha
        exact hnew ha⟩
    · rcases List.mem_append.mp hr with hr | hr
      · exact hrefs.share r hr
      · rw [List.mem_singleton.mp hr]
        exact hown

/-- **A share has a folder** if it is of a guid that one has, or fails because the device has
no row. -/
theorem followed_shareFolder {guid name localPath : String} {s : DbState} (h : s.val.Followed ownId) :
    (Effects.after (shareFolder guid ownId name localPath) s).val.Followed ownId ↔
      ownId ∉ s.val.deviceIds ∨ s.val.Live guid := by
  by_cases hold : (guid, ownId) ∈ s.val.sharedFolders.map fun s => (s.folderGuid, s.deviceId)
  · have hsame : shareFolder guid ownId name localPath s = .ok () s := by
      refine execute_eq_ok.mpr ?_
      obtain ⟨r, hr, heq⟩ := List.mem_map.mp hold
      obtain ⟨hguid, hown⟩ := Prod.mk.inj heq
      rw [if_pos (List.any_eq_true.mpr ⟨r, hr, by simp [hguid, hown]⟩)]
    obtain ⟨r, hr, heq⟩ := List.mem_map.mp hold
    obtain ⟨rfl, rfl⟩ := Prod.mk.inj heq
    rw [Effects.after_ok hsame]
    exact iff_of_true h (Or.inr (h r hr rfl))
  · have hnone : ¬(s.val.sharedFolders.any fun s =>
        decide (s.folderGuid = guid) && decide (s.deviceId = ownId)) = true := by
      intro hany
      obtain ⟨r, hr, heq⟩ := List.any_eq_true.mp hany
      simp only [Bool.and_eq_true, decide_eq_true_eq] at heq
      exact hold (List.mem_map.mpr ⟨r, hr, by rw [heq.1, heq.2]⟩)
    have hvalid := @insertShare_valid _ ownId guid name localPath s.val.nextShareId s.val.nextShareId s.valid hold
    by_cases hown : ownId ∈ s.val.deviceIds
    · have hok : shareFolder guid ownId name localPath s = .ok () ⟨_, hvalid.mpr hown⟩ :=
        execute_eq_ok.mpr (if_neg hnone).symm
      rw [Effects.after_ok hok]
      constructor
      · exact fun hafter => Or.inr (hafter _ (List.mem_append_right _ (List.mem_singleton_self _)) rfl)
      · intro hlive r hr hrown
        rcases List.mem_append.mp hr with hr | hr
        · exact h r hr hrown
        · rw [List.mem_singleton.mp hr]
          exact hlive.resolve_left (not_not.mpr hown)
    · have hsame : Effects.after (shareFolder guid ownId name localPath) s = s := by
        cases hshare : shareFolder guid ownId name localPath s with
        | ok u t =>
          have ht := (execute_eq_ok.mp hshare).trans (if_neg hnone)
          exact absurd (hvalid.mp (ht ▸ t.valid)) hown
        | error e t =>
          rw [Effects.after_error hshare]
          exact (execute_eq_error.mp hshare).2
      rw [hsame]
      exact iff_of_true h (Or.inl hown)

/-- Shares may go. -/
theorem Followed.fewer (h : db.Followed ownId) (hfolders : db'.syncFolders = db.syncFolders)
    (hshares : ∀ r ∈ db'.sharedFolders, ∃ r' ∈ db.sharedFolders, r'.deviceId = r.deviceId ∧
      r'.folderGuid = r.folderGuid) : db'.Followed ownId := by
  intro r hr hown
  obtain ⟨r', hr', hdevice, hguid⟩ := hshares r hr
  obtain ⟨f, hf, hlive⟩ := h r' hr' (hdevice.trans hown)
  exact ⟨f, hfolders ▸ hf, hlive.trans (congrArg some hguid)⟩

/-- What one statement leaves, whether it fails or not. -/
theorem after_execute {g : Database → Database} {P : Database → Prop} {s : DbState} (hsame : P s.val)
    (hdone : P (g s.val)) : P (Effects.after (execute g : Sql Unit) s).val := by
  cases hg : (execute g : Sql Unit) s with
  | ok u t =>
    rw [Effects.after_ok hg, execute_eq_ok.mp hg]
    exact hdone
  | error e t =>
    rw [Effects.after_error hg, (execute_eq_error.mp hg).2]
    exact hsame

/-- **A removal leaves no share without a folder** if it fails, or every share has a folder
that it does not drop. -/
theorem followed_remove {r : Removal} {s : DbState} (h : s.val.Followed ownId) :
    (Effects.after r.statements s).val.Followed ownId ↔ ¬r.Succeeds s.val ∨
      ∀ t ∈ s.val.sharedFolders, t.deviceId = ownId →
        ∃ f ∈ s.val.syncFolders, f.folderGuid = some t.folderGuid ∧ ¬r.Drops s.val f := by
  cases hrun : r.statements s with
  | error e s' =>
    have hfails : ¬r.Succeeds s.val := by
      intro hsucceeds
      obtain ⟨t, ht⟩ := Removal.removal_succeeds_iff.mpr hsucceeds
      rw [hrun] at ht
      cases ht
    obtain ⟨hfolders, hshares⟩ := Removal.removal_fails_same hrun
    rw [Effects.after_error hrun]
    exact iff_of_true (h.fewer hfolders fun t ht => ⟨t, hshares ▸ ht, rfl, rfl⟩) (Or.inl hfails)
  | ok u s' =>
    have hsucceeds : r.Succeeds s.val := Removal.removal_succeeds_iff.mp ⟨s', hrun⟩
    have hleaves := Removal.removal_leaves hrun
    rw [Effects.after_ok hrun, or_iff_right (not_not.mpr hsucceeds)]
    unfold Followed
    rw [hleaves.shares]
    refine forall₃_congr fun t _ _ => ?_
    constructor
    · rintro ⟨f, hf, hguid⟩
      obtain ⟨hthere, hstays⟩ := (hleaves.folders f).mp hf
      exact ⟨f, hthere, hguid, hstays⟩
    · rintro ⟨f, hf, hguid, hstays⟩
      exact ⟨f, (hleaves.folders f).mpr ⟨hf, hstays⟩, hguid⟩

end Database

/-! ### The device -/

namespace Node

variable {n : Node}

theorem approveFolderPair_after (deviceId folderGuid name localPath : String) (remotePath : Option String) :
    (n.approveFolderPair deviceId folderGuid name localPath remotePath).2.ownId = n.ownId ∧
      n.db.Grows (n.approveFolderPair deviceId folderGuid name localPath remotePath).2.db := by
  have hgrows := Database.growsTo_approveFolderPair n.ownId deviceId folderGuid name localPath remotePath
    n.host.db
  unfold approveFolderPair
  dsimp only
  split
  · exact ⟨rfl, hgrows⟩
  · exact ⟨rfl, hgrows⟩

theorem requestFolderPair_after (req : RemoteFolderPairRequest) (localPath : String) :
    (n.requestFolderPair req localPath).2.ownId = n.ownId ∧
      n.db.Grows (n.requestFolderPair req localPath).2.db := by
  have hsame : n.db.Grows n.db := ⟨List.Subset.refl _, rfl⟩
  unfold requestFolderPair
  split
  · exact ⟨rfl, hsame⟩
  · split_ifs
    · exact ⟨rfl, hsame⟩
    · have happroved := @approveFolderPair_after n req.deviceId req.folderGuid req.name localPath
        (some localPath)
      split
      · rename_i heq
        rw [heq] at happroved
        exact happroved
      · rename_i heq
        rw [heq] at happroved
        exact happroved
    · exact ⟨rfl, hsame⟩

theorem answerFolderPair_after (req : RemoteFolderPairRequest) :
    (n.answerFolderPair req).2.ownId = n.ownId ∧ n.db.Grows (n.answerFolderPair req).2.db := by
  unfold answerFolderPair
  split
  · split_ifs
    · exact requestFolderPair_after _ _
    · exact ⟨rfl, List.Subset.refl _, rfl⟩
  · exact ⟨rfl, List.Subset.refl _, rfl⟩

/-- A guid that is not shared is refused. -/
theorem answerFolderPair_unshared {req : RemoteFolderPairRequest}
    (h : ∀ r ∈ n.db.sharedFolders, r.deviceId = n.ownId → r.folderGuid ≠ req.folderGuid) :
    n.answerFolderPair req = (.rejected, n) := by
  have hnone : n.db.sharedFolderByGuid n.ownId req.folderGuid = none := by
    unfold Database.sharedFolderByGuid
    rw [List.getLast?_eq_none_iff, List.filter_eq_nil_iff]
    intro r hr hboth
    rw [Bool.and_eq_true, decide_eq_true_eq, decide_eq_true_eq] at hboth
    exact h r hr hboth.1 hboth.2
  unfold answerFolderPair
  rw [hnone]

/-- **What is not there stays away** if every share has a folder. -/
theorem sharesFollow_iff : n.SharesFollow ↔ n.db.Followed n.ownId := by
  constructor
  · exact fun h => h.followed
  · intro h
    refine ⟨h, fun guid hgone r hr heq => ?_, fun guid hgone req hguid => ?_⟩
    · have hshare := (List.mem_mergeSort.mp (List.mem_filter.mp hr).1)
      obtain ⟨hr, hown⟩ := List.mem_filter.mp hshare
      exact hgone (heq ▸ h r hr (of_decide_eq_true hown))
    · rw [answerFolderPair_unshared fun r hr hown heq => hgone (hguid ▸ heq ▸ h r hr hown)]
      exact hgone

/-- **An operation leaves every share with its folder exactly if it keeps it so.** -/
theorem sharesFollow_step (blake3 : Bytes → FileHash) (op : NodeOp) (h : n.SharesFollow) :
    (n.perform blake3 op).SharesFollow ↔ n.KeepsShares op := by
  have hfollowed := h.followed
  have hgrown : ∀ n' : Node, n'.ownId = n.ownId → n.db.Grows n'.db → n'.SharesFollow := by
    intro n' hown hgrows
    rw [sharesFollow_iff, hown]
    exact hfollowed.grows hgrows
  cases op with
  | registerDevice id name certDer lastAddr =>
    exact iff_of_true (hgrown _ rfl (Database.growsTo_upsertDevice id name certDer lastAddr n.host.db)) trivial
  | addSyncFolder localPath deviceId direction =>
    exact iff_of_true (hgrown _ rfl (Does.discard Database.growsTo_composes
      (Database.growsTo_addSyncFolder blake3 n.host.processId localPath deviceId direction) n.host.db)) trivial
  | ensureFolder guid localPath name deviceId =>
    exact iff_of_true (hgrown _ rfl (Does.discard Database.growsTo_composes
      (Database.growsTo_ensureFolderByGuid guid localPath name deviceId) n.host.db)) trivial
  | shareFolder folderGuid name localPath =>
    rw [sharesFollow_iff]
    exact Database.followed_shareFolder hfollowed
  | setDiscoverable id discoverable =>
    refine iff_of_true (sharesFollow_iff.mpr ?_) trivial
    refine Database.after_execute (P := fun db => db.Followed n.ownId) hfollowed
      (hfollowed.fewer rfl fun r hr => ?_)
    obtain ⟨r', hr', rfl⟩ := List.mem_map.mp hr
    refine ⟨r', hr', ?_⟩
    split <;> exact ⟨rfl, rfl⟩
  | unshareFolder id =>
    refine iff_of_true (sharesFollow_iff.mpr ?_) trivial
    exact Database.after_execute (P := fun db => db.Followed n.ownId) hfollowed
      (hfollowed.fewer rfl fun r hr => ⟨r, (List.mem_filter.mp hr).1, rfl, rfl⟩)
  | wireFolderPair guid localPath name peerDeviceId peerPath =>
    refine iff_of_true (sharesFollow_iff.mpr ?_) trivial
    have hwired := @Database.Followed.wireFolderPair n.ownId guid localPath name peerDeviceId peerPath
      n.host.db hfollowed
    have hsame : Effects.after (discard (Database.wireFolderPair guid localPath name n.ownId peerDeviceId
        peerPath)) n.host.db = Effects.after (Database.wireFolderPair guid localPath name n.ownId peerDeviceId
          peerPath) n.host.db := after_discard _ _
    show (Effects.after (discard _) n.host.db).val.Followed n.ownId
    rw [hsame]
    exact hwired
  | approve deviceId folderGuid name localPath remotePath =>
    have happroved := @approveFolderPair_after n deviceId folderGuid name localPath remotePath
    exact iff_of_true (hgrown _ happroved.1 happroved.2) trivial
  | deny deviceId folderGuid => exact iff_of_true (hgrown _ rfl ⟨List.Subset.refl _, rfl⟩) trivial
  | request req =>
    have hanswered := @answerFolderPair_after n req
    exact iff_of_true (hgrown _ hanswered.1 hanswered.2) trivial
  | remove r =>
    rw [sharesFollow_iff]
    exact Database.followed_remove hfollowed

end Node

/-- **Shares follow their folders** in a run exactly if no operation of it leaves one behind. -/
theorem shares_follow_iff (blake3 : Bytes → FileHash) (processId : ℕ) (ownId : String)
    (ops : List NodeOp) :
    Runs.Always (Node.perform blake3) Node.SharesFollow (Node.new processId ownId) ops ↔
      Runs.Meets (Node.perform blake3) Node.KeepsShares (Node.new processId ownId) ops := by
  refine Runs.always_iff_meets (J := fun _ => True) (fun _ _ _ => trivial)
    (fun n op _ h => Node.sharesFollow_step blake3 op h) trivial ?_
  rw [Node.sharesFollow_iff]
  exact fun r hr _ => absurd hr List.not_mem_nil

/-- A folder that is shared, and then removed. -/
def removedShare : List NodeOp :=
  [.registerDevice "laptop" "Laptop" none none, .addSyncFolder "/home/music" "laptop" "bidirectional",
    .shareFolder (newFolderGuid sampleBlake3 1 1) "Music" "/home/music", .remove (.syncFolderById 1)]

/-- **The share of a removed folder stays.** -/
theorem share_outlives_folder : ¬Runs.Always (Node.perform sampleBlake3) Node.SharesFollow
    (Node.new 1 "laptop") removedShare := by
  intro halways
  have hfollowed := (halways removedShare [] (List.append_nil _).symm).followed
  have hleft : (∃ r ∈ (removedShare.foldl (Node.perform sampleBlake3) (Node.new 1 "laptop")).db.sharedFolders,
      r.deviceId = "laptop") ∧
      (removedShare.foldl (Node.perform sampleBlake3) (Node.new 1 "laptop")).db.syncFolders = [] := by
    decide +kernel
  obtain ⟨⟨r, hr, hown⟩, hnone⟩ := hleft
  obtain ⟨f, hf, _⟩ := hfollowed r hr hown
  rw [hnone] at hf
  exact List.not_mem_nil hf

end FerriSync
