/-
# A replica of a granted folder

`folders request` asks a paired device for one of its folders, and registers a replica of
what is granted (`commands/folders_pair.rs`): it finds or makes the folder, and then pairs
it with the device that it resolves the display name of the *folder* to. That is the peer
that was asked only if the peer goes by that name; otherwise the folder is paired with
another device, whose own pair with it may be written over, or stays behind without a pair
(`request_pairs_peer_iff`).

Key definitions: `resolveOwnerId`, `registerReplica`, `foldersRequest`, `PairedWithPeer`,
`NamesPeer`.
Key theorems: `registerReplica_outcome`, `request_pairs_peer_iff`.
-/
import FerriSync.Approvals

namespace FerriSync

open Transactions

namespace Database

/-- The order in which the devices are listed, the one seen last before the others. -/
structure DeviceOrder (db : Database) where
  rows : List Db.Device
  perm : rows.Perm db.devices

/-- Resolve the owner device id for the paired peer, preferring an exact id or name match.
Falls back to the device name as the pair key when unknown. -/
def resolveOwnerId (devices : List Db.Device) (nameOrId : String) : String :=
  match devices.find? fun d => decide (d.id = nameOrId) with
  | some d => d.id
  | none =>
    match devices.find? fun d => decide (d.name = nameOrId) with
    | some d => d.id
    | none => nameOrId

/-- Persist a local replica of the approved logical folder. -/
def registerReplica (devices : List Db.Device) (ownId guid display localPath : String)
    (remotePath : Option String) : Sql Unit := do
  let folderId ← ensureFolderByGuid guid localPath display ownId
  addFolderDevice folderId (resolveOwnerId devices display) "bidirectional"
    (some (remotePath.getD localPath))

/-- The name under which the folder is asked for: that of the user unless it is blank. -/
def displayName (name : Option String) (guid : String) : String :=
  ((name.map trim).filter fun s => decide (s ≠ "")).getD guid

/-- A request that is answered with a grant. -/
def foldersRequest (devices : List Db.Device) (ownId guid localPath : String) (name : Option String)
    (grant : RemoteFolderPair) : Sql Unit :=
  registerReplica devices ownId guid (displayName name guid) localPath grant.remotePath

/-- There is a replica at the path that is paired with the peer; the pairs with other devices
are as they were, and no folder without a pair is new. -/
structure PairedWithPeer (peerId guid localPath : String) (db db' : Database) : Prop where
  replica : ∃ f ∈ db'.syncFolders, f.folderGuid = some guid ∧ f.localPath = localPath ∧
    (f.id, peerId) ∈ db'.pairKeys
  pairs : ∀ p : Db.FolderDevice, p.deviceId ≠ peerId → (p ∈ db'.folderDevices ↔ p ∈ db.folderDevices)
  folders : ∀ f ∈ db'.syncFolders, f ∈ db.syncFolders ∨ ∃ k ∈ db'.pairKeys, k.1 = f.id

/-- It has ended so, or has failed and left the database as it was. -/
def EndsWell (peerId guid localPath : String) (s : DbState) : EStateM.Result Db.Error DbState Unit → Prop
  | .ok _ s' => PairedWithPeer peerId guid localPath s.val s'.val
  | .error _ s' => s' = s

/-- The request ends well. -/
def RequestEndsWell (devices : List Db.Device) (ownId peerId guid localPath : String)
    (name : Option String) (grant : RemoteFolderPair) (s : DbState) : Prop :=
  EndsWell peerId guid localPath s (foldersRequest devices ownId guid localPath name grant s)

/-- The display name resolves to the peer, or nothing comes of it. If there is no folder of
the guid: the own device has no row either, so that none can be made. If there is one: the
name resolves to no device; or to one that the folder is paired with already just as it would
be now, and a replica at the path is paired with the peer. -/
def NamesPeer (devices : List Db.Device) (ownId peerId guid localPath display : String)
    (remotePath : Option String) (db : Database) : Prop :=
  match db.folderByGuid guid with
  | none => ownId ∉ db.deviceIds ∨ resolveOwnerId devices display = peerId
  | some found => resolveOwnerId devices display ∉ db.deviceIds ∨
      (resolveOwnerId devices display = peerId ∨
        ⟨found.id, resolveOwnerId devices display, "bidirectional", some (remotePath.getD localPath), true⟩ ∈
          db.folderDevices) ∧
      ∃ f ∈ db.syncFolders, f.folderGuid = some guid ∧ f.localPath = localPath ∧
        ((f.id, peerId) ∈ db.pairKeys ∨ f.id = found.id ∧ resolveOwnerId devices display = peerId)

section

variable {db : Database} {s : DbState} {ownId guid localPath display deviceId : String}

theorem sameKey_iff {folderId : ℕ} (p : Db.FolderDevice) :
    (decide (p.folderId = folderId) && decide (p.deviceId = deviceId)) = true ↔
      (p.folderId, p.deviceId) = (folderId, deviceId) := by
  simp

theorem mem_pairKeys_putPair {folderId : ℕ} {mode : String} {remotePath : Option String}
    {k : ℕ × String} : k ∈ (db.putPair folderId deviceId mode remotePath).pairKeys ↔
      k ∈ db.pairKeys ∨ k = (folderId, deviceId) := by
  have hsame : ∀ p : Db.FolderDevice,
      (decide (p.folderId = folderId) && decide (p.deviceId = deviceId)) = true ↔
        (p.folderId, p.deviceId) = (folderId, deviceId) := sameKey_iff
  constructor
  · intro hk
    obtain ⟨p, hp, rfl⟩ := List.mem_map.mp hk
    rcases mem_upsert hp with hp | ⟨q, hq, _, rfl⟩ | rfl
    · exact Or.inl (List.mem_map_of_mem hp)
    · exact Or.inl (List.mem_map.mpr ⟨q, hq, rfl⟩)
    · exact Or.inr rfl
  · have hmore : db.pairKeys ⊆ (db.putPair folderId deviceId mode remotePath).folderDevices.map
        (fun p => (p.folderId, p.deviceId)) := subset_upsert_keys hsame fun _ => rfl
    have hput : (folderId, deviceId) ∈ (db.putPair folderId deviceId mode remotePath).folderDevices.map
        (fun p => (p.folderId, p.deviceId)) := mem_upsert_keys hsame fun _ => rfl
    rintro (hk | rfl)
    · exact hmore hk
    · exact hput

/-- The pairs with other devices are as they were. -/
theorem mem_putPair_of_ne {folderId : ℕ} {mode : String} {remotePath : Option String} {p : Db.FolderDevice}
    (hother : p.deviceId ≠ deviceId) :
    p ∈ (db.putPair folderId deviceId mode remotePath).folderDevices ↔ p ∈ db.folderDevices := by
  have hsame : ∀ q : Db.FolderDevice,
      (decide (q.folderId = folderId) && decide (q.deviceId = deviceId)) = true ↔
        (q.folderId, q.deviceId) = (folderId, deviceId) := sameKey_iff
  exact @mem_upsert_of_ne _ _ (fun q : Db.FolderDevice => (q.folderId, q.deviceId)) _
    (fun q => { q with mode := mode, remotePath := remotePath.or q.remotePath, enabled := true })
    ⟨folderId, deviceId, mode, remotePath, true⟩ _ hsame (fun _ => rfl) p fun heq => hother (Prod.mk.inj heq).2

/-- The pair is there as it is put. -/
theorem putPair_writes {folderId : ℕ} {mode remotePath : String} :
    ⟨folderId, deviceId, mode, some remotePath, true⟩ ∈
      (db.putPair folderId deviceId mode (some remotePath)).folderDevices := by
  unfold putPair upsert
  dsimp only
  split
  · rename_i hany
    obtain ⟨p, hp, hsame⟩ := List.any_eq_true.mp hany
    refine List.mem_map.mpr ⟨p, hp, ?_⟩
    obtain ⟨hid, hdevice⟩ := Prod.mk.inj ((sameKey_iff p).mp hsame)
    rw [if_pos hsame, hid, hdevice]
    rfl
  · exact List.mem_append_right _ (List.mem_singleton_self _)

/-- Putting a pair that is there just so changes nothing. -/
theorem putPair_same {folderId : ℕ} {mode remotePath : String} (hvalid : db.violation = none)
    (hthere : ⟨folderId, deviceId, mode, some remotePath, true⟩ ∈ db.folderDevices) :
    (db.putPair folderId deviceId mode (some remotePath)).folderDevices = db.folderDevices := by
  refine upsert_eq_self (List.any_eq_true.mpr ⟨_, hthere, (sameKey_iff _).mpr rfl⟩) fun p hp hsame => ?_
  have heq : p = ⟨folderId, deviceId, mode, some remotePath, true⟩ :=
    List.inj_on_of_nodup_map (violation_eq_none.mp hvalid).1.folderDevices hp hthere ((sameKey_iff p).mp hsame)
  rw [heq]
  rfl

/-- A pair is put if the device has a row. -/
theorem addFolderDevice_cases {folderId : ℕ} {mode : String} {remotePath : Option String}
    (hfolder : folderId ∈ s.val.folderIds) :
    (deviceId ∈ s.val.deviceIds ∧ ∃ s', addFolderDevice folderId deviceId mode remotePath s = .ok () s' ∧
        s'.val = s.val.putPair folderId deviceId mode remotePath) ∨
      deviceId ∉ s.val.deviceIds ∧ ∃ e, addFolderDevice folderId deviceId mode remotePath s = .error e s := by
  have hvalid := @putPair_valid s.val folderId deviceId mode remotePath s.valid
  by_cases hdevice : deviceId ∈ s.val.deviceIds
  · exact Or.inl ⟨hdevice, ⟨_, hvalid.mpr ⟨hfolder, hdevice⟩⟩, execute_ok _, rfl⟩
  · obtain ⟨e, he⟩ := Option.ne_none_iff_exists'.mp fun h => hdevice (hvalid.mp h).2
    exact Or.inr ⟨hdevice, e, execute_error he⟩

variable {devices : List Db.Device} {peerId : String}

/-- **The folder of the guid is there**, wherever it is. -/
theorem registers_found_iff {remotePath : Option String} {found : SyncFolderRow}
    (hfound : s.val.folderByGuid guid = some found) :
    EndsWell peerId guid localPath s
        (registerReplica devices ownId guid display localPath remotePath s) ↔
      NamesPeer devices ownId peerId guid localPath display remotePath s.val := by
  have hthere : found ∈ s.val.syncFolders := List.mem_of_find?_eq_some hfound
  have hensure : ensureFolderByGuid guid localPath display ownId s = .ok found.id s := by
    unfold ensureFolderByGuid
    rw [Effects.bind_ok (query_apply _), hfound]
    rfl
  have hrun : registerReplica devices ownId guid display localPath remotePath s =
      addFolderDevice found.id (resolveOwnerId devices display) "bidirectional"
        (some (remotePath.getD localPath)) s := by
    unfold registerReplica
    rw [Effects.bind_ok hensure]
  have hnames : NamesPeer devices ownId peerId guid localPath display remotePath s.val ↔
      resolveOwnerId devices display ∉ s.val.deviceIds ∨
        (resolveOwnerId devices display = peerId ∨
          ⟨found.id, resolveOwnerId devices display, "bidirectional", some (remotePath.getD localPath), true⟩ ∈
            s.val.folderDevices) ∧
        ∃ f ∈ s.val.syncFolders, f.folderGuid = some guid ∧ f.localPath = localPath ∧
          ((f.id, peerId) ∈ s.val.pairKeys ∨ f.id = found.id ∧ resolveOwnerId devices display = peerId) := by
    unfold NamesPeer
    rw [hfound]
  rw [hrun, hnames]
  rcases @addFolderDevice_cases s (resolveOwnerId devices display) found.id "bidirectional"
    (some (remotePath.getD localPath)) (List.mem_map_of_mem hthere) with
    ⟨hdevice, s', hok, hs'⟩ | ⟨hdevice, e, herror⟩
  · rw [hok, or_iff_right (not_not.mpr hdevice)]
    have hkeys : ∀ k, k ∈ s'.val.pairKeys ↔
        k ∈ s.val.pairKeys ∨ k = (found.id, resolveOwnerId devices display) := by
      intro k
      rw [hs']
      exact mem_pairKeys_putPair
    have hfolders : s'.val.syncFolders = s.val.syncFolders := by rw [hs']; rfl
    constructor
    · rintro ⟨⟨f, hf, hguid, hpath, hpair⟩, hpairs, _⟩
      constructor
      · by_cases hpeer : resolveOwnerId devices display = peerId
        · exact Or.inl hpeer
        · refine Or.inr ((hpairs _ hpeer).mp ?_)
          rw [hs']
          exact putPair_writes
      · rw [hfolders] at hf
        refine ⟨f, hf, hguid, hpath, ((hkeys _).mp hpair).imp_right fun heq => ?_⟩
        exact ⟨(Prod.mk.inj heq).1, (Prod.mk.inj heq).2.symm⟩
    · rintro ⟨hresolved, f, hf, hguid, hpath, hpair⟩
      refine ⟨⟨f, hfolders ▸ hf, hguid, hpath, (hkeys _).mpr (hpair.imp_right fun h => ?_)⟩,
        fun p hother => ?_, fun g hg => Or.inl (hfolders ▸ hg)⟩
      · rw [h.1, h.2]
      · rw [hs']
        rcases hresolved with hpeer' | hsame
        · exact mem_putPair_of_ne (hpeer' ▸ hother)
        · rw [putPair_same s.valid hsame]
  · rw [herror]
    exact iff_of_true rfl (Or.inl hdevice)

/-- **The folder is made**, and stays if it cannot be paired. -/
theorem registers_missing_iff {remotePath : Option String} (hmissing : s.val.folderByGuid guid = none)
    (hpeer : peerId ∈ s.val.deviceIds) :
    EndsWell peerId guid localPath s
        (registerReplica devices ownId guid display localPath remotePath s) ↔
      NamesPeer devices ownId peerId guid localPath display remotePath s.val := by
  have hnames : NamesPeer devices ownId peerId guid localPath display remotePath s.val ↔
      ownId ∉ s.val.deviceIds ∨ resolveOwnerId devices display = peerId := by
    unfold NamesPeer
    rw [hmissing]
  have hensure : ensureFolderByGuid guid localPath display ownId s =
      insertSyncFolder localPath display ownId "bidirectional" guid s := by
    unfold ensureFolderByGuid
    rw [Effects.bind_ok (query_apply _), hmissing]
  have hvalid := @insertFolder_valid s.val localPath (some display) "bidirectional" (some guid) ownId s.valid
  rw [hnames]
  by_cases howner : ownId ∈ s.val.deviceIds
  · let t : DbState := ⟨_, hvalid.mpr howner⟩
    have hmade : ensureFolderByGuid guid localPath display ownId s = .ok s.val.nextFolderId t := by
      rw [hensure]
      exact insertSyncFolder_eq_ok.mpr ⟨rfl, rfl⟩
    have hfolders : t.val.syncFolders = s.val.syncFolders ++
        [⟨s.val.nextFolderId, localPath, some display, ownId, "bidirectional", some guid⟩] := rfl
    have hnew : (⟨s.val.nextFolderId, localPath, some display, ownId, "bidirectional", some guid⟩ :
        SyncFolderRow) ∈ t.val.syncFolders := by
      rw [hfolders]
      exact List.mem_append_right _ (List.mem_singleton_self _)
    have hrun : registerReplica devices ownId guid display localPath remotePath s =
        addFolderDevice s.val.nextFolderId (resolveOwnerId devices display) "bidirectional"
          (some (remotePath.getD localPath)) t := by
      unfold registerReplica
      rw [Effects.bind_ok hmade]
    rw [hrun, or_iff_right (not_not.mpr howner)]
    rcases @addFolderDevice_cases t (resolveOwnerId devices display) s.val.nextFolderId "bidirectional"
      (some (remotePath.getD localPath)) (List.mem_map_of_mem hnew) with
      ⟨_, s', hok, hs'⟩ | ⟨hdevice, e, herror⟩
    · rw [hok]
      have hkeys : ∀ k, k ∈ s'.val.pairKeys ↔
          k ∈ s.val.pairKeys ∨ k = (s.val.nextFolderId, resolveOwnerId devices display) := by
        intro k
        rw [hs']
        exact mem_pairKeys_putPair
      have hfolders' : s'.val.syncFolders = t.val.syncFolders := by rw [hs']; rfl
      constructor
      · intro h
        by_contra hother
        have hwritten : ⟨s.val.nextFolderId, resolveOwnerId devices display, "bidirectional",
            some (remotePath.getD localPath), true⟩ ∈ s'.val.folderDevices := by
          rw [hs']
          exact putPair_writes
        exact nextFolderId_fresh (s.references.pairFolder _ ((h.pairs _ hother).mp hwritten))
      · intro hresolved
        refine ⟨⟨_, hfolders' ▸ hnew, rfl, rfl, (hkeys _).mpr (Or.inr (by rw [hresolved]))⟩,
          fun p hother => ?_, fun g hg => ?_⟩
        · rw [hs']
          exact mem_putPair_of_ne (hresolved ▸ hother)
        · rw [hfolders', hfolders] at hg
          rcases List.mem_append.mp hg with hold | hg
          · exact Or.inl hold
          · rw [List.mem_singleton.mp hg]
            exact Or.inr ⟨_, (hkeys _).mpr (Or.inr rfl), rfl⟩
    · -- The device has no row: the folder is there, and its pair is not.
      rw [herror]
      refine iff_of_false (fun hsame => ?_) fun hresolved => hdevice (hresolved ▸ hpeer)
      have hthere : s.val.nextFolderId ∈ t.val.folderIds := List.mem_map.mpr ⟨_, hnew, rfl⟩
      have hsame' : t.val.folderIds = s.val.folderIds := congrArg (fun s : DbState => s.val.folderIds) hsame
      rw [hsame'] at hthere
      exact nextFolderId_fresh hthere
  · obtain ⟨e, he⟩ := Option.ne_none_iff_exists'.mp (mt hvalid.mp howner)
    have hrun : registerReplica devices ownId guid display localPath remotePath s = .error e s := by
      have hfails : ensureFolderByGuid guid localPath display ownId s = .error e s := by
        rw [hensure]
        exact Effects.bind_error (execute_error he)
      unfold registerReplica
      rw [Effects.bind_error hfails]
    rw [hrun]
    exact iff_of_true rfl (Or.inl howner)

end

end Database

open Database in
/-- **A request ends well exactly if the name of the folder resolves to the peer**, or nothing
comes of it. -/
theorem request_pairs_peer_iff (s : DbState) (order : s.val.DeviceOrder)
    (ownId peerId guid localPath : String) (name : Option String) (grant : RemoteFolderPair)
    (hpeer : peerId ∈ s.val.deviceIds) :
    RequestEndsWell order.rows ownId peerId guid localPath name grant s ↔
      NamesPeer order.rows ownId peerId guid localPath (displayName name guid) grant.remotePath s.val := by
  cases hguid : s.val.folderByGuid guid with
  | some found => exact registers_found_iff hguid
  | none => exact registers_missing_iff hguid hpeer

/-- The own device and a phone that shares its photos. -/
def pairedDevices : List StorageOp :=
  [.upsertDevice "laptop" "Laptop" none none, .upsertDevice "phone" "Phone" none none]

def photosGrant : RemoteFolderPair := ⟨"f-1", "Photos", "bidirectional", some "/sdcard/photos"⟩

/-- The folder is called like the phone. -/
theorem request_pairs_phone : ∃ order : ((Host.new 1).run sampleBlake3 pairedDevices).db.val.DeviceOrder,
    "phone" ∈ ((Host.new 1).run sampleBlake3 pairedDevices).db.val.deviceIds ∧
    (Database.RequestEndsWell order.rows "laptop" "phone" "f-1" "/home/photos" (some "Phone") photosGrant
        ((Host.new 1).run sampleBlake3 pairedDevices).db ↔
      Database.NamesPeer order.rows "laptop" "phone" "f-1" "/home/photos"
        (Database.displayName (some "Phone") "f-1") photosGrant.remotePath
        ((Host.new 1).run sampleBlake3 pairedDevices).db.val) := by
  have hpeer : "phone" ∈ ((Host.new 1).run sampleBlake3 pairedDevices).db.val.deviceIds := by decide +kernel
  exact ⟨⟨_, List.Perm.refl _⟩, hpeer, request_pairs_peer_iff _ ⟨_, List.Perm.refl _⟩ "laptop" "phone" "f-1"
    "/home/photos" (some "Phone") photosGrant hpeer⟩

/-- **A folder without a pair stays behind** where the user gives it no name. -/
theorem request_leaves_replica :
    ¬Database.RequestEndsWell ((Host.new 1).run sampleBlake3 pairedDevices).db.val.devices "laptop" "phone"
      "f-1" "/home/photos" none photosGrant ((Host.new 1).run sampleBlake3 pairedDevices).db := by
  intro hends
  have hpeer : "phone" ∈ ((Host.new 1).run sampleBlake3 pairedDevices).db.val.deviceIds := by decide +kernel
  have hmissing : ((Host.new 1).run sampleBlake3 pairedDevices).db.val.folderByGuid "f-1" = none := by
    decide +kernel
  have hnames := (@Database.registers_missing_iff _ "laptop" "f-1" "/home/photos"
    (Database.displayName none "f-1") _ "phone" photosGrant.remotePath hmissing hpeer).mp hends
  unfold Database.NamesPeer at hnames
  rw [hmissing] at hnames
  revert hnames
  decide +kernel

end FerriSync
