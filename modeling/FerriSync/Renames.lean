/-
# What an operation on a folder does to the devices

A device that is attached to a folder must have a row, and every operation that attaches
one sees to that (`api/mod.rs`, `PairGate` in `server.rs`). `add_sync_folder` looks
whether the row is there. The others upsert it, which keeps the certificate and the
address but writes the name: an approval the name of the folder, `add_folder_device` and
`add_sync_folder_with_peers` the identifier of the device. The rows that were there stay
as they are exactly if these happen to be the names in them
(`folder_operation_keeps_devices_iff`).

Key definitions: `Api.addFolderDevice`, `Api.addSyncFolder`,
`Api.addSyncFolderWithPeers`, `FolderOp`, `FolderOp.KeepsNames`.
Key theorems: `devices_peers`, `folder_operation_keeps_devices_iff`.
-/
import FerriSync.FolderPairs
import FerriSync.Wiring

namespace FerriSync

open Transactions

/-- `str::trim`. -/
def trim (s : String) : String :=
  String.ofList (((s.toList.dropWhile isWhitespace).reverse.dropWhile isWhitespace).reverse)

namespace Database

/-- Look up a device's display name by its id. -/
def getDeviceName (id : String) (db : Database) : Option String :=
  (db.devices.find? fun d => decide (d.id = id)).map (·.name)

/-- If the device has a row, it is one of this name. -/
def Named (db : Database) (id name : String) : Prop := ∀ d ∈ db.devices, d.id = id → d.name = name

end Database

structure FolderPeerRequest where
  deviceId : String
  mode : Option String
  remotePath : Option String
deriving DecidableEq, Repr

/-! ### The operations -/

namespace Api

/-- Attach an additional device to an existing folder. -/
def addFolderDevice (folderId : ℕ) (deviceId mode : String) (remotePath : Option String) : Sql Unit := do
  Database.upsertDevice deviceId deviceId none none
  Database.addFolderDevice folderId deviceId mode remotePath

/-- Register a local folder to sync with a single device, whose row is made if there is
none. -/
def addSyncFolder (blake3 : Bytes → FileHash) (processId : ℕ) (own : DeviceInfo)
    (localPath deviceId direction : String) : Sql ℕ := do
  match ← query (Database.getDeviceName deviceId) with
  | some _ => pure ()
  | none =>
    Database.upsertDevice deviceId (if deviceId = own.id then own.name else deviceId) none none
  Database.addSyncFolder blake3 processId localPath deviceId direction

/-- Register the folder with one of the peers. -/
def addPeer (blake3 : Bytes → FileHash) (processId : ℕ) (localPath : String) (p : FolderPeerRequest) :
    Sql ℕ := do
  Database.upsertDevice p.deviceId p.deviceId none none
  let id ← Database.addSyncFolder blake3 processId localPath p.deviceId (p.mode.getD "bidirectional")
  Database.addFolderDevice id p.deviceId (p.mode.getD "bidirectional") p.remotePath
  return id

/-- The user-facing label of the folder, unless it is blank. -/
def nameFolder (name : String) : Option ℕ → Sql (Option ℕ)
  | none => return none
  | some id => do
    if trim name ≠ "" then Database.setFolderName id (trim name)
    return some id

/-- Create (or extend) a folder with several peers. `none`: at least one device is
required. -/
def addSyncFolderWithPeers (blake3 : Bytes → FileHash) (processId : ℕ) (localPath name : String)
    (peers : List FolderPeerRequest) : Sql (Option ℕ) := do
  let folderId ← peers.foldlM (fun _ p => some <$> addPeer blake3 processId localPath p) none
  nameFolder name folderId

end Api

/-- An operation on a folder: the approval of a pair, be it by the operator or on the
request of a trusted device, and the additions of the user. -/
inductive FolderOp
  | approve (deviceId folderGuid name localPath : String) (remotePath : Option String)
  | request (req : RemoteFolderPairRequest) (localPath : String)
  | addFolderDevice (folderId : ℕ) (deviceId mode : String) (remotePath : Option String)
  | addSyncFolder (localPath deviceId direction : String)
  | addSyncFolderWithPeers (localPath name : String) (peers : List FolderPeerRequest)

namespace FolderOp

/-- The device after an operation, whether it fails or not. -/
def perform (blake3 : Bytes → FileHash) (own : DeviceInfo) (n : Node) : FolderOp → Node
  | approve deviceId folderGuid name localPath remotePath =>
    (n.approveFolderPair deviceId folderGuid name localPath remotePath).2
  | request req localPath => (n.requestFolderPair req localPath).2
  | addFolderDevice folderId deviceId mode remotePath =>
    n.after (Api.addFolderDevice folderId deviceId mode remotePath)
  | addSyncFolder localPath deviceId direction =>
    n.after (discard (Api.addSyncFolder blake3 n.host.processId own localPath deviceId direction))
  | addSyncFolderWithPeers localPath name peers =>
    n.after (discard (Api.addSyncFolderWithPeers blake3 n.host.processId localPath name peers))

/-- The name that is written is the device's already, or it has no row; a request writes
one if it is neither answered yet nor held. -/
def KeepsNames (n : Node) : FolderOp → Prop
  | approve deviceId _ name _ _ => n.db.Named deviceId name
  | request req _ => n.gate.folderApproved.lookup (req.deviceId, req.folderGuid) = none →
      (req.deviceId, req.folderGuid) ∉ n.gate.folderDenied →
      (n.db.getDeviceCert req.deviceId).isSome = true → n.db.Named req.deviceId req.name
  | addFolderDevice _ deviceId _ _ => n.db.Named deviceId deviceId
  | addSyncFolder _ _ _ => True
  | addSyncFolderWithPeers _ _ peers => ∀ p ∈ peers, n.db.Named p.deviceId p.deviceId

end FolderOp

namespace Database

variable {db : Database} {s : DbState}

/-! ### The name that is written -/

theorem named_putDevice (id name : String) (certDer : Option Bytes) (lastAddr : Option String) :
    (putDevice id name certDer lastAddr db).Named id name := by
  intro d hd hid
  unfold putDevice upsert at hd
  dsimp only at hd
  split at hd
  · obtain ⟨d', _, rfl⟩ := List.mem_map.mp hd
    by_cases hput : d'.id = id
    · rw [if_pos (decide_eq_true hput)]
    · rw [if_neg (by simpa using hput)] at hid
      exact absurd hid hput
  · rename_i hnone
    rcases List.mem_append.mp hd with hd | hd
    · exact absurd (List.any_eq_true.mpr ⟨d, hd, decide_eq_true hid⟩) hnone
    · rw [List.mem_singleton.mp hd]

/-- A device that goes by its identifier still does when another is named so. -/
theorem Named.putDevice {i : String} (h : db.Named i i) (id : String) (certDer : Option Bytes)
    (lastAddr : Option String) : (putDevice id id certDer lastAddr db).Named i i := by
  by_cases heq : i = id
  · rw [heq]
    exact named_putDevice id id certDer lastAddr
  · intro d hd hid
    rcases mem_upsert hd with hd | ⟨d', _, hput, rfl⟩ | rfl
    · exact h d hd hid
    · exact absurd ((of_decide_eq_true hput).symm.trans hid).symm heq
    · exact absurd hid.symm heq

/-- **The rows stay exactly if the name is the old one.** -/
theorem devices_putDevice_iff {id name : String} :
    db.devices ⊆ (putDevice id name none none db).devices ↔ db.Named id name := by
  constructor
  · exact fun h d hd hid => named_putDevice id name none none d (h hd) hid
  · intro h d hd
    unfold putDevice upsert
    dsimp only
    split
    · refine List.mem_map.mpr ⟨d, hd, ?_⟩
      by_cases hput : d.id = id
      · rw [if_pos (decide_eq_true hput), ← h d hd hput]
        simp
      · rw [if_neg (by simpa using hput)]
    · exact List.mem_append_left _ hd

theorem putDevice_valid (id name : String) (certDer : Option Bytes) (lastAddr : Option String)
    (h : db.violation = none) : (putDevice id name certDer lastAddr db).violation = none :=
  violation_upsertDevice (fun _ => decide_eq_true_iff) (fun _ => rfl) h

theorem upsertDevice_ok (id name : String) (certDer : Option Bytes) (lastAddr : Option String) :
    ∃ t, upsertDevice id name certDer lastAddr s = .ok () t ∧
      t.val = putDevice id name certDer lastAddr s.val :=
  ⟨_, execute_ok (putDevice_valid id name certDer lastAddr s.valid), rfl⟩

/-! ### What leaves the devices alone -/

/-- The devices are the same before and after. -/
def SameDevices (s s' : DbState) : Prop := s'.val.devices = s.val.devices

theorem sameDevices_composes : Effects.Composes SameDevices where
  refl _ := rfl
  trans hfirst hsecond := hsecond.trans hfirst

theorem sameDevices_execute {g : Database → Database} (h : ∀ db, (g db).devices = db.devices) :
    Effects.Does SameDevices (execute g : Sql Unit) := by
  refine Does.execute sameDevices_composes fun s s' hs' => ?_
  unfold SameDevices
  rw [hs', h]

theorem sameDevices_insertSyncFolder (localPath name deviceId direction guid : String) :
    Effects.Does SameDevices (insertSyncFolder localPath name deviceId direction guid) :=
  .bind sameDevices_composes (sameDevices_execute fun _ => rfl) fun _ =>
    Does.query sameDevices_composes _

theorem sameDevices_addFolderDevice (folderId : ℕ) (deviceId mode : String) (remotePath : Option String) :
    Effects.Does SameDevices (addFolderDevice folderId deviceId mode remotePath) :=
  sameDevices_execute fun _ => rfl

theorem sameDevices_ensureFolderByGuid (guid localPath name deviceId : String) :
    Effects.Does SameDevices (ensureFolderByGuid guid localPath name deviceId) :=
  does_ensureFolderByGuid sameDevices_composes (sameDevices_insertSyncFolder _ _ _ _ _)

theorem sameDevices_addSyncFolder (blake3 : Bytes → FileHash) (processId : ℕ)
    (localPath deviceId direction : String) :
    Effects.Does SameDevices (addSyncFolder blake3 processId localPath deviceId direction) :=
  does_addSyncFolder sameDevices_composes blake3 processId
    (fun _ _ => sameDevices_insertSyncFolder _ _ _ _ _)
    fun folderId => sameDevices_addFolderDevice folderId deviceId direction none

/-- Once the name is written, nothing more happens to the devices. -/
theorem devices_after_upsert {α : Type} {id name : String} {rest : Unit → Sql α}
    (h : ∀ u, Effects.Does SameDevices (rest u)) :
    (Effects.after (upsertDevice id name none none >>= rest) s).val.devices =
      (putDevice id name none none s.val).devices := by
  obtain ⟨t, hok, ht⟩ := @upsertDevice_ok s id name none none
  have hafter : Effects.after (upsertDevice id name none none >>= rest) s = Effects.after (rest ()) t := by
    rw [Effects.after, Effects.bind_ok hok, Effects.after]
  rw [hafter, h () t, ht]

/-! ### The peers of a folder -/

theorem mem_deviceIds_putDevice (id name : String) (certDer : Option Bytes) (lastAddr : Option String) :
    id ∈ (putDevice id name certDer lastAddr db).deviceIds := by
  have hthere : (fun d : Db.Device => d.id) ⟨id, name, certDer, lastAddr⟩ ∈
      (putDevice id name certDer lastAddr db).devices.map fun d => d.id :=
    mem_upsert_keys (fun _ => decide_eq_true_iff) fun _ => rfl
  exact hthere

/-- A device that has a row can be attached to a folder at any path. -/
theorem addSyncFolder_ok (blake3 : Bytes → FileHash) (processId : ℕ) {localPath deviceId : String}
    (direction : String) (hdevice : deviceId ∈ s.val.deviceIds) :
    ∃ id t, addSyncFolder blake3 processId localPath deviceId direction s = .ok id t ∧
      id ∈ t.val.folderIds ∧ deviceId ∈ t.val.deviceIds := by
  have hpair : ∀ (folderId : ℕ) (u : DbState), folderId ∈ u.val.folderIds → deviceId ∈ u.val.deviceIds →
      ∃ t, (do execute (putPair folderId deviceId direction none); return folderId : Sql ℕ) u =
        .ok folderId t ∧ folderId ∈ t.val.folderIds ∧ deviceId ∈ t.val.deviceIds := by
    intro folderId u hfolder hthere
    have hvalid : (u.val.putPair folderId deviceId direction none).violation = none :=
      (putPair_valid u.valid).mpr ⟨hfolder, hthere⟩
    exact ⟨⟨_, hvalid⟩, Effects.bind_ok (execute_ok hvalid), hfolder, hthere⟩
  unfold addSyncFolder
  simp only [transaction_eq_ok]
  rw [Effects.bind_ok (query_apply _)]
  cases hfound : s.val.syncFolders.find? fun f => decide (f.localPath = localPath) with
  | some f =>
    have hfolder : f.id ∈ s.val.folderIds := List.mem_map_of_mem (List.mem_of_find?_eq_some hfound)
    obtain ⟨t, ht, hthere⟩ := hpair f.id s hfolder hdevice
    exact ⟨f.id, t, ht, hthere⟩
  | none =>
    have hinsert := (@insertFolder_valid s.val localPath (some (Storage.pathLabel localPath)) direction
      (some (newFolderGuid blake3 processId (s.val.maxFolderId + 1))) deviceId s.valid).mpr hdevice
    let u : DbState := ⟨_, hinsert⟩
    have hu : insertSyncFolder localPath (Storage.pathLabel localPath) deviceId direction
        (newFolderGuid blake3 processId (s.val.maxFolderId + 1)) s = .ok s.val.nextFolderId u :=
      insertSyncFolder_eq_ok.mpr ⟨rfl, rfl⟩
    have hfolder : s.val.nextFolderId ∈ u.val.folderIds := by
      show s.val.nextFolderId ∈ List.map _ (s.val.syncFolders ++ [_])
      simp
    obtain ⟨t, ht, hthere⟩ := hpair s.val.nextFolderId u hfolder hdevice
    refine ⟨s.val.nextFolderId, t, ?_, hthere⟩
    simp only
    rw [Effects.bind_ok (query_apply _), Effects.bind_ok hu]
    exact ht

theorem addPeer_ok (blake3 : Bytes → FileHash) (processId : ℕ) (localPath : String)
    (p : FolderPeerRequest) : ∃ id t, Api.addPeer blake3 processId localPath p s = .ok id t ∧
      t.val.devices = (putDevice p.deviceId p.deviceId none none s.val).devices := by
  obtain ⟨u, hu, huval⟩ := @upsertDevice_ok s p.deviceId p.deviceId none none
  have hdevice : p.deviceId ∈ u.val.deviceIds := by
    rw [huval]
    exact mem_deviceIds_putDevice p.deviceId p.deviceId none none
  obtain ⟨id, v, hv, hfolder, hdevice'⟩ :=
    @addSyncFolder_ok u blake3 processId localPath p.deviceId (p.mode.getD "bidirectional") hdevice
  obtain ⟨t, ht⟩ := @addFolderDevice_ok v id p.deviceId (p.mode.getD "bidirectional")
    p.remotePath hfolder hdevice'
  have hok : Api.addPeer blake3 processId localPath p s = .ok id t := by
    unfold Api.addPeer
    rw [Effects.bind_ok hu, Effects.bind_ok hv, Effects.bind_ok ht]
    rfl
  refine ⟨id, t, hok, ?_⟩
  have hsame := @devices_after_upsert s _ p.deviceId p.deviceId _ fun _ : Unit =>
    .bind sameDevices_composes (sameDevices_addSyncFolder blake3 processId localPath p.deviceId
      (p.mode.getD "bidirectional")) fun id =>
      .bind sameDevices_composes (sameDevices_addFolderDevice id p.deviceId
        (p.mode.getD "bidirectional") p.remotePath) fun _ => .pure sameDevices_composes id
  rw [← hsame]
  exact congrArg (fun t : DbState => t.val.devices) (Effects.after_ok hok).symm

/-- **What the peers leave of the devices.** Each goes by its identifier in the end. -/
theorem devices_peers (blake3 : Bytes → FileHash) (processId : ℕ) (localPath : String)
    (peers : List FolderPeerRequest) (a : Option ℕ) (s : DbState) :
    ∃ r t, peers.foldlM (fun _ p => some <$> Api.addPeer blake3 processId localPath p) a s = .ok r t ∧
      (∀ i, s.val.Named i i → t.val.Named i i) ∧
      (∀ p ∈ peers, t.val.Named p.deviceId p.deviceId) ∧
      ((∀ p ∈ peers, s.val.Named p.deviceId p.deviceId) → s.val.devices ⊆ t.val.devices) := by
  induction peers generalizing a s with
  | nil => exact ⟨a, s, rfl, fun _ h => h, fun _ hp => absurd hp List.not_mem_nil, fun _ => List.Subset.refl _⟩
  | cons p peers ih =>
    obtain ⟨id, u, hu, hdevices⟩ := @addPeer_ok s blake3 processId localPath p
    obtain ⟨r, t, ht, hkept, hnamed, hsame⟩ := ih (some id) u
    have hlater : ∀ i, s.val.Named i i → u.val.Named i i := by
      intro i h
      unfold Named
      rw [hdevices]
      exact h.putDevice p.deviceId none none
    have hfirst : u.val.Named p.deviceId p.deviceId := by
      unfold Named
      rw [hdevices]
      exact named_putDevice p.deviceId p.deviceId none none
    have hstep : (some <$> Api.addPeer blake3 processId localPath p) s = .ok (some id) u := by
      rw [map_eq_pure_bind, Effects.bind_ok hu]
      rfl
    refine ⟨r, t, ?_, fun i h => hkept i (hlater i h), fun q hq => ?_, fun hnames => ?_⟩
    · rw [List.foldlM_cons, Effects.bind_ok hstep]
      exact ht
    · rcases List.mem_cons.mp hq with rfl | hq
      · exact hkept _ hfirst
      · exact hnamed q hq
    · refine List.Subset.trans ?_ (hsame fun q hq => hlater _ (hnames q (List.mem_cons_of_mem p hq)))
      rw [hdevices]
      exact devices_putDevice_iff.mpr (hnames p List.mem_cons_self)

theorem sameDevices_nameFolder (name : String) (folderId : Option ℕ) :
    Effects.Does SameDevices (Api.nameFolder name folderId) := by
  cases folderId with
  | none => exact .pure sameDevices_composes _
  | some id =>
    unfold Api.nameFolder
    split_ifs
    · exact .bind sameDevices_composes (sameDevices_execute fun _ => rfl) fun _ =>
        .pure sameDevices_composes _
    · exact .bind sameDevices_composes (.pure sameDevices_composes _) fun _ =>
        .pure sameDevices_composes _

/-- **Peers are renamed** unless each goes by its identifier already. -/
theorem devices_addSyncFolderWithPeers_iff (blake3 : Bytes → FileHash) (processId : ℕ)
    (localPath name : String) (peers : List FolderPeerRequest) :
    s.val.devices ⊆ (Effects.after
        (discard (Api.addSyncFolderWithPeers blake3 processId localPath name peers)) s).val.devices ↔
      ∀ p ∈ peers, s.val.Named p.deviceId p.deviceId := by
  obtain ⟨r, t, ht, _, hnamed, hsame⟩ := devices_peers blake3 processId localPath peers none s
  have hafter : (Effects.after
      (discard (Api.addSyncFolderWithPeers blake3 processId localPath name peers)) s).val.devices =
        t.val.devices := by
    have hrest : Effects.after (Api.addSyncFolderWithPeers blake3 processId localPath name peers) s =
        Effects.after (Api.nameFolder name r) t := by
      rw [Effects.after, Api.addSyncFolderWithPeers, Effects.bind_ok ht, Effects.after]
    rw [after_discard, hrest]
    exact sameDevices_nameFolder name r t
  rw [hafter]
  constructor
  · exact fun h p hp d hd => hnamed p hp d (h hd)
  · exact hsame

theorem devices_approveFolderPair_iff (ownerId folderGuid localPath : String) {deviceId name : String}
    (remotePath : Option String) :
    s.val.devices ⊆ (Effects.after
        (approveFolderPair ownerId deviceId folderGuid name localPath remotePath) s).val.devices ↔
      s.val.Named deviceId name := by
  unfold approveFolderPair
  rw [devices_after_upsert fun _ => .bind sameDevices_composes
    (sameDevices_ensureFolderByGuid folderGuid localPath name ownerId) fun folderId =>
      sameDevices_addFolderDevice folderId deviceId "bidirectional" remotePath]
  exact devices_putDevice_iff

theorem devices_addFolderDevice_iff (folderId : ℕ) {deviceId : String} (mode : String)
    (remotePath : Option String) :
    s.val.devices ⊆ (Effects.after (Api.addFolderDevice folderId deviceId mode remotePath) s).val.devices ↔
      s.val.Named deviceId deviceId := by
  unfold Api.addFolderDevice
  rw [devices_after_upsert fun _ => sameDevices_addFolderDevice folderId deviceId mode remotePath]
  exact devices_putDevice_iff

/-- A device that has a row is not named again. -/
theorem devices_addSyncFolder (blake3 : Bytes → FileHash) (processId : ℕ) (own : DeviceInfo)
    (localPath deviceId direction : String) :
    s.val.devices ⊆ (Effects.after
      (Api.addSyncFolder blake3 processId own localPath deviceId direction) s).val.devices := by
  have hadd := sameDevices_addSyncFolder blake3 processId localPath deviceId direction
  have hread : Effects.after (Api.addSyncFolder blake3 processId own localPath deviceId direction) s =
      Effects.after (do
        match s.val.getDeviceName deviceId with
        | some _ => pure ()
        | none => upsertDevice deviceId (if deviceId = own.id then own.name else deviceId) none none
        addSyncFolder blake3 processId localPath deviceId direction) s := by
    rw [Effects.after, Api.addSyncFolder, Effects.bind_ok (query_apply _), Effects.after]
  rw [hread]
  cases hname : s.val.getDeviceName deviceId with
  | some name =>
    have hsame : (Effects.after (addSyncFolder blake3 processId localPath deviceId direction) s).val.devices =
        s.val.devices := hadd s
    intro d hd
    show d ∈ (Effects.after (addSyncFolder blake3 processId localPath deviceId direction) s).val.devices
    rw [hsame]
    exact hd
  | none =>
    have hnew : s.val.Named deviceId (if deviceId = own.id then own.name else deviceId) := by
      intro d hd hid
      have hmissing := List.find?_eq_none.mp (Option.map_eq_none_iff.mp hname) d hd
      exact absurd (decide_eq_true hid) hmissing
    rw [devices_after_upsert fun _ => hadd]
    exact devices_putDevice_iff.mpr hnew

end Database

namespace Node

variable {n : Node}

theorem devices_approveFolderPair (deviceId folderGuid name localPath : String) (remotePath : Option String) :
    n.db.devices ⊆ (n.approveFolderPair deviceId folderGuid name localPath remotePath).2.db.devices ↔
      n.db.Named deviceId name := by
  have hwrites := @Database.devices_approveFolderPair_iff n.host.db n.ownId folderGuid localPath deviceId
    name remotePath
  unfold approveFolderPair
  dsimp only
  split <;> exact hwrites

theorem devices_requestFolderPair (req : RemoteFolderPairRequest) (localPath : String) :
    n.db.devices ⊆ (n.requestFolderPair req localPath).2.db.devices ↔
      (FolderOp.request req localPath).KeepsNames n := by
  have happrove := @devices_approveFolderPair n req.deviceId req.folderGuid req.name localPath
    (some localPath)
  show _ ↔ (n.gate.folderApproved.lookup (req.deviceId, req.folderGuid) = none →
    (req.deviceId, req.folderGuid) ∉ n.gate.folderDenied →
    (n.db.getDeviceCert req.deviceId).isSome = true → n.db.Named req.deviceId req.name)
  unfold requestFolderPair
  split
  · rename_i grant hgrant
    exact iff_of_true (List.Subset.refl _) fun hnone => absurd (hgrant.symm.trans hnone) (by simp)
  · rename_i hnone
    split_ifs with hdenied htrusted
    · exact iff_of_true (List.Subset.refl _) fun _ hnot => absurd hdenied hnot
    · have hwrites : n.db.Named req.deviceId req.name ↔
          (n.gate.folderApproved.lookup (req.deviceId, req.folderGuid) = none →
            (req.deviceId, req.folderGuid) ∉ n.gate.folderDenied →
            (n.db.getDeviceCert req.deviceId).isSome = true → n.db.Named req.deviceId req.name) :=
        ⟨fun h _ _ _ => h, fun h => h hnone hdenied htrusted⟩
      rw [← hwrites, ← happrove]
      split
      · rename_i heq
        rw [heq]
      · rename_i heq
        rw [heq]
        exact Iff.rfl
    · exact iff_of_true (List.Subset.refl _) fun _ _ hcert => absurd hcert htrusted

end Node

/-- **An operation on a folder leaves every device's row as it was exactly if the names it
writes are there already.** -/
theorem folder_operation_keeps_devices_iff (blake3 : Bytes → FileHash) (own : DeviceInfo) (n : Node)
    (op : FolderOp) : n.db.devices ⊆ (op.perform blake3 own n).db.devices ↔ op.KeepsNames n := by
  cases op with
  | approve deviceId folderGuid name localPath remotePath =>
    exact Node.devices_approveFolderPair deviceId folderGuid name localPath remotePath
  | request req localPath => exact Node.devices_requestFolderPair req localPath
  | addFolderDevice folderId deviceId mode remotePath =>
    exact Database.devices_addFolderDevice_iff folderId mode remotePath
  | addSyncFolder localPath deviceId direction =>
    refine iff_of_true ?_ trivial
    have hadd := Database.devices_addSyncFolder (s := n.host.db) blake3 n.host.processId own localPath
      deviceId direction
    rw [← after_discard] at hadd
    exact hadd
  | addSyncFolderWithPeers localPath name peers =>
    exact Database.devices_addSyncFolderWithPeers_iff blake3 n.host.processId localPath name peers

/-- A device that has been paired. -/
def pairedPhone : Node := (Node.new 1 "laptop").after
  (Database.upsertDevice "phone" "Anna's phone" (some [1, 2, 3]) (some "10.0.0.7:4000"))

/-- **The phone is called like the folder** once it has been given the folder. -/
theorem approval_renames : ¬ ∀ op : FolderOp, pairedPhone.db.devices ⊆
    (op.perform sampleBlake3 ⟨"laptop", "Laptop", []⟩ pairedPhone).db.devices := by
  intro h
  have happroved := h (.approve "phone" "f-1" "Photos" "/home/photos" none)
  have hbefore : (⟨"phone", "Anna's phone", some [1, 2, 3], some "10.0.0.7:4000"⟩ : Db.Device) ∈
      pairedPhone.db.devices := by decide +kernel
  have hafter : (⟨"phone", "Anna's phone", some [1, 2, 3], some "10.0.0.7:4000"⟩ : Db.Device) ∉
      ((FolderOp.approve "phone" "f-1" "Photos" "/home/photos" none).perform sampleBlake3
        ⟨"laptop", "Laptop", []⟩ pairedPhone).db.devices := by decide +kernel
  exact hafter (happroved hbefore)

end FerriSync
