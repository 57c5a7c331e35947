/-
# Approvals that fail

An approval of a folder's pairing records the grant in the gate first, and then attaches
the device in the database (`PairGate::approve_folder_pair` in `server.rs`): it writes the
device's row, finds or makes the folder, and puts the pair. The database may fail any of
the three (`StorageFaults`), and a constraint the last two. Nothing is taken back then: a
grant stays that nobody gave, and answers the next request. An approval is all or nothing
exactly if it cannot fail (`approval_atomic_iff`).

Key definitions: `StorageFaults`, `attempt`, `Node.approveFolderPairWith`,
`Node.requestFolderPairWith`, `Node.RolledBack`, `Node.Approvable`.
Key theorems: `attachWith_fails_iff`, `approval_atomic_iff`.
-/
import FerriSync.FolderPairs
import FerriSync.Renames

namespace FerriSync

open Transactions

/-! ### A database that fails -/

/-- The steps of an approval that the database fails, the reading of the certificate
among them. -/
structure StorageFaults where
  certificate : Bool
  device : Bool
  folder : Bool
  pair : Bool
deriving DecidableEq, Repr

/-- Why a step fails. -/
inductive StorageError
  | failed
  | constraint (e : Db.Error)
deriving DecidableEq, Repr

/-- A step that the database may fail, in which case it does nothing. -/
def attempt {α : Type} (fails : Bool) (x : Sql α) : EStateM StorageError DbState α := fun s =>
  if fails then .error .failed s
  else match x s with
    | .ok a s' => .ok a s'
    | .error e s' => .error (.constraint e) s'

/-- No step fails by itself. -/
def StorageFaults.none : StorageFaults := ⟨false, false, false, false⟩

namespace Database

/-- Attach a peer to the folder of a guid. -/
def approveFolderPairWith (faults : StorageFaults) (ownerId deviceId folderGuid name localPath : String)
    (remotePath : Option String) : EStateM StorageError DbState Unit := do
  attempt faults.device (upsertDevice deviceId name none none)
  let folderId ← attempt faults.folder (ensureFolderByGuid folderGuid localPath name ownerId)
  attempt faults.pair (addFolderDevice folderId deviceId "bidirectional" remotePath)

end Database

namespace Node

variable (n : Node)

/-- The gate with a grant for the device, which is no longer held. -/
def recordGrant (deviceId folderGuid : String) (grant : RemoteFolderPair) : Node := { n with
  gate := { n.gate.dropFolderPending deviceId folderGuid with
    folderApproved := n.gate.folderApproved.insert (deviceId, folderGuid) grant } }

/-- Record an approved folder pair. -/
def approveFolderPairWith (faults : StorageFaults) (deviceId folderGuid name localPath : String)
    (remotePath : Option String) : Option RemoteFolderPair × Node :=
  let grant : RemoteFolderPair := ⟨folderGuid, name, "bidirectional", remotePath⟩
  let n := n.recordGrant deviceId folderGuid grant
  match Database.approveFolderPairWith faults n.ownId deviceId folderGuid name localPath remotePath
      n.host.db with
  | .ok _ db => (some grant, { n with host := { n.host with db } })
  | .error _ db => (none, { n with host := { n.host with db } })

/-- A certificate that cannot be read is not there. -/
def trusts (faults : StorageFaults) (deviceId : String) : Bool :=
  !faults.certificate && (n.db.getDeviceCert deviceId).isSome

/-- Process a folder-level pairing request. -/
def requestFolderPairWith (faults : StorageFaults) (req : RemoteFolderPairRequest) (localPath : String) :
    FolderPairOutcome × Node :=
  match n.gate.folderApproved.lookup (req.deviceId, req.folderGuid) with
  | some grant => (.approved grant, n)
  | none =>
    if (req.deviceId, req.folderGuid) ∈ n.gate.folderDenied then (.rejected, n)
    else if n.trusts faults req.deviceId then
      match n.approveFolderPairWith faults req.deviceId req.folderGuid req.name localPath
          (some localPath) with
      | (some grant, n) => (.approved grant, n)
      | (none, n) =>
        -- Fall back to holding so the owner can still act.
        (.pending, { n with gate := { n.gate with folderPending := n.gate.folderPending ++ [req] } })
    else (.pending, { n with gate := n.gate.holdFolder req })

end Node

/-! ### What happens later -/

/-- What comes to the gate, and what else is done to its database. -/
inductive GateOp
  | approve (faults : StorageFaults) (deviceId folderGuid name localPath : String)
      (remotePath : Option String)
  | deny (deviceId folderGuid : String)
  | request (faults : StorageFaults) (req : RemoteFolderPairRequest) (localPath : String)
  | storage (op : StorageOp)

namespace Node

section

variable (blake3 : Bytes → FileHash) (n : Node)

def handle (n : Node) : GateOp → Node
  | .approve faults deviceId folderGuid name localPath remotePath =>
    (n.approveFolderPairWith faults deviceId folderGuid name localPath remotePath).2
  | .deny deviceId folderGuid => n.denyFolderPair deviceId folderGuid
  | .request faults req localPath => (n.requestFolderPairWith faults req localPath).2
  | .storage op => { n with host := n.host.perform blake3 op }

/-- An approval of the pair succeeds, be it the operator's or that of a request. -/
def Grants (key : String × String) : GateOp → Prop
  | .approve faults deviceId folderGuid name localPath remotePath => (deviceId, folderGuid) = key ∧
      (n.approveFolderPairWith faults deviceId folderGuid name localPath remotePath).1.isSome = true
  | .request faults req localPath => (req.deviceId, req.folderGuid) = key ∧
      n.gate.folderApproved.lookup key = none ∧ key ∉ n.gate.folderDenied ∧
      n.trusts faults req.deviceId = true ∧ (n.approveFolderPairWith faults req.deviceId req.folderGuid
        req.name localPath (some localPath)).1.isSome = true
  | .deny _ _ | .storage _ => False

/-- In the course of some operations an approval of the pair succeeds. -/
def GrantedIn (key : String × String) : Node → List GateOp → Prop
  | _, [] => False
  | n, op :: ops => n.Grants key op ∨ GrantedIn key (n.handle blake3 op) ops

/-- Nothing is left of an approval: gate and tables are as they were, and whatever happens
later, a request for the pair is only granted if an approval succeeded by then. -/
structure RolledBack (n' : Node) (key : String × String) : Prop where
  gate : n'.gate = n.gate
  tables : n'.db = n.db
  ungranted : ∀ ops faults req localPath grant, (req.deviceId, req.folderGuid) = key →
    ((ops.foldl (handle blake3) n').requestFolderPairWith faults req localPath).1 = .approved grant →
    GrantedIn blake3 key n' (ops ++ [.request faults req localPath])

/-- Nothing is left of the approval if it fails. -/
def ApprovalAtomic (faults : StorageFaults) (deviceId folderGuid name localPath : String)
    (remotePath : Option String) : Prop :=
  (n.approveFolderPairWith faults deviceId folderGuid name localPath remotePath).1 = none →
    n.RolledBack blake3 (n.approveFolderPairWith faults deviceId folderGuid name localPath remotePath).2
      (deviceId, folderGuid)

end

/-- The database fails no step, and the folder is there, or the device that serves it has
a row for the folder to refer to. -/
structure Approvable (n : Node) (faults : StorageFaults) (deviceId folderGuid : String) : Prop where
  device : faults.device = false
  folder : faults.folder = false
  pair : faults.pair = false
  owner : (∃ f ∈ n.db.syncFolders, f.folderGuid = some folderGuid) ∨ n.ownId ∈ n.db.deviceIds ∨
    n.ownId = deviceId

end Node

/-! ### What makes an approval fail -/

section

variable {α : Type} {x : Sql α} {s t : DbState}

theorem attempt_ok {a : α} (h : x s = .ok a t) : attempt false x s = .ok a t := by
  unfold attempt
  rw [h]
  rfl

/-- Parts that do not fail by themselves do what the whole does. -/
theorem attempt_bind {β : Type} (x : Sql α) (f : α → Sql β) :
    attempt false (x >>= f) = attempt false x >>= fun a => attempt false (f a) := by
  funext s
  cases hx : x s with
  | ok a t =>
    rw [Effects.bind_ok (attempt_ok hx)]
    unfold attempt
    rw [Effects.bind_ok hx]
    rfl
  | error e t =>
    have hstep : attempt false x s = .error (.constraint e) t := by
      unfold attempt
      rw [hx]
      rfl
    rw [Effects.bind_error hstep]
    unfold attempt
    rw [Effects.bind_error hx]
    rfl

theorem attempt_error {fails : Bool} (h : fails = true ∨ ∃ e t, x s = .error e t) :
    ∃ e t, attempt fails x s = .error e t := by
  unfold attempt
  rcases h with rfl | ⟨e, t, hx⟩
  · exact ⟨.failed, s, rfl⟩
  · rw [hx]
    cases fails with
    | true => exact ⟨.failed, s, rfl⟩
    | false => exact ⟨.constraint e, t, rfl⟩

end

namespace Database

variable {s : DbState}

theorem mem_deviceIds_putDevice_iff {i id name : String} {certDer : Option Bytes}
    {lastAddr : Option String} {db : Database} :
    i ∈ (putDevice id name certDer lastAddr db).deviceIds ↔ i ∈ db.deviceIds ∨ i = id := by
  have hkeys : (putDevice id name certDer lastAddr db).deviceIds = if id ∈ db.deviceIds then db.deviceIds
      else db.deviceIds ++ [id] :=
    @upsert_keys Db.Device String _ (fun d => d.id) _ _ _ _ (fun _ => decide_eq_true_iff) fun _ => rfl
  rw [hkeys]
  split
  · rename_i hthere
    constructor
    · exact Or.inl
    · rintro (h | rfl)
      · exact h
      · exact hthere
  · rw [List.mem_append, List.mem_singleton]

theorem folderByGuid_isSome {guid : String} {db : Database} :
    (db.folderByGuid guid).isSome = true ↔ ∃ f ∈ db.syncFolders, f.folderGuid = some guid := by
  unfold folderByGuid
  rw [List.find?_isSome]
  simp

/-- The folder is found or made. -/
theorem ensureFolderByGuid_ok {guid deviceId : String} (localPath name : String)
    (h : (∃ f ∈ s.val.syncFolders, f.folderGuid = some guid) ∨ deviceId ∈ s.val.deviceIds) :
    ∃ id t, ensureFolderByGuid guid localPath name deviceId s = .ok id t ∧ id ∈ t.val.folderIds := by
  unfold ensureFolderByGuid
  rw [Effects.bind_ok (query_apply _)]
  cases hfound : s.val.folderByGuid guid with
  | some f => exact ⟨f.id, s, rfl, List.mem_map_of_mem (List.mem_of_find?_eq_some hfound)⟩
  | none =>
    have howner : deviceId ∈ s.val.deviceIds := by
      refine h.resolve_left fun hthere => ?_
      rw [← folderByGuid_isSome, hfound] at hthere
      cases hthere
    have hinsert : (s.val.insertFolder localPath (some name) deviceId "bidirectional" (some guid)).violation =
        none := (insertFolder_valid s.valid).mpr howner
    refine ⟨s.val.nextFolderId, ⟨_, hinsert⟩, insertSyncFolder_eq_ok.mpr ⟨rfl, rfl⟩, ?_⟩
    show s.val.nextFolderId ∈ List.map _ (s.val.syncFolders ++ [_])
    simp

/-- There is no folder, and no row for a new one to refer to. -/
theorem ensureFolderByGuid_error {guid deviceId : String} (localPath name : String)
    (hnone : ∀ f ∈ s.val.syncFolders, f.folderGuid ≠ some guid) (howner : deviceId ∉ s.val.deviceIds) :
    ∃ e t, ensureFolderByGuid guid localPath name deviceId s = .error e t := by
  have hmissing : s.val.folderByGuid guid = none := by
    rw [← Option.not_isSome_iff_eq_none, folderByGuid_isSome]
    rintro ⟨f, hf, hguid⟩
    exact hnone f hf hguid
  cases hrun : ensureFolderByGuid guid localPath name deviceId s with
  | error e t => exact ⟨e, t, rfl⟩
  | ok id t =>
    unfold ensureFolderByGuid at hrun
    rw [Effects.bind_ok (query_apply _), hmissing] at hrun
    obtain ⟨_, ht⟩ := insertSyncFolder_eq_ok.mp hrun
    have hvalid := t.valid
    rw [ht] at hvalid
    exact absurd ((insertFolder_valid s.valid).mp hvalid) howner

end Database

namespace Node

variable {n : Node} {faults : StorageFaults} {deviceId folderGuid : String}

/-- **An approval that cannot fail.** -/
theorem Approvable.attaches (h : n.Approvable faults deviceId folderGuid) (name localPath : String)
    (remotePath : Option String) : ∃ t, Database.approveFolderPairWith faults n.ownId deviceId folderGuid
      name localPath remotePath n.host.db = .ok () t := by
  obtain ⟨hdevice, hfolder, hpair, howner⟩ := h
  obtain ⟨t, ht, htval⟩ := @Database.upsertDevice_ok n.host.db deviceId name none none
  have hready : (∃ f ∈ t.val.syncFolders, f.folderGuid = some folderGuid) ∨ n.ownId ∈ t.val.deviceIds := by
    rw [htval, Database.mem_deviceIds_putDevice_iff]
    exact howner
  obtain ⟨folderId, u, hu, hthere⟩ := Database.ensureFolderByGuid_ok localPath name hready
  have hrow : deviceId ∈ u.val.deviceIds := by
    have hsame : u.val.devices = t.val.devices := by
      have h := Database.sameDevices_ensureFolderByGuid folderGuid localPath name n.ownId t
      rw [Effects.after_ok hu] at h
      exact h
    show deviceId ∈ u.val.devices.map (·.id)
    rw [hsame, htval]
    exact Database.mem_deviceIds_putDevice deviceId name none none
  obtain ⟨v, hv⟩ := @Database.addFolderDevice_ok u folderId deviceId "bidirectional" remotePath
    hthere hrow
  refine ⟨v, ?_⟩
  unfold Database.approveFolderPairWith
  rw [hdevice, hfolder, hpair, Effects.bind_ok (attempt_ok ht), Effects.bind_ok (attempt_ok hu)]
  exact attempt_ok hv

/-- An approval fails in its first step, its second or its third. -/
theorem attaching_fails (h : ¬n.Approvable faults deviceId folderGuid) (name localPath : String)
    (remotePath : Option String) : ∃ e t, Database.approveFolderPairWith faults n.ownId deviceId folderGuid
      name localPath remotePath n.host.db = .error e t := by
  obtain ⟨t, ht, htval⟩ := @Database.upsertDevice_ok n.host.db deviceId name none none
  unfold Database.approveFolderPairWith
  cases hdevice : faults.device with
  | true =>
    obtain ⟨e, u, hu⟩ := @attempt_error _ (Database.upsertDevice deviceId name none none) n.host.db true
      (Or.inl rfl)
    exact ⟨e, u, Effects.bind_error hu⟩
  | false =>
    rw [Effects.bind_ok (attempt_ok ht)]
    by_cases hready : (∃ f ∈ t.val.syncFolders, f.folderGuid = some folderGuid) ∨ n.ownId ∈ t.val.deviceIds
    · obtain ⟨folderId, u, hu, _⟩ := Database.ensureFolderByGuid_ok localPath name hready
      cases hfolder : faults.folder with
      | true =>
        obtain ⟨e, v, hv⟩ := @attempt_error _
          (Database.ensureFolderByGuid folderGuid localPath name n.ownId) t true (Or.inl rfl)
        exact ⟨e, v, Effects.bind_error hv⟩
      | false =>
        rw [Effects.bind_ok (attempt_ok hu)]
        refine attempt_error (Or.inl ?_)
        by_contra hpair
        refine h ⟨hdevice, hfolder, eq_false_of_ne_true hpair, ?_⟩
        rw [htval, Database.mem_deviceIds_putDevice_iff] at hready
        exact hready
    · have hnone : ∀ f ∈ t.val.syncFolders, f.folderGuid ≠ some folderGuid := fun f hf hguid =>
        hready (Or.inl ⟨f, hf, hguid⟩)
      obtain ⟨e, v, hv⟩ := @attempt_error _ _ _ faults.folder (Or.inr
        (Database.ensureFolderByGuid_error localPath name hnone fun howner => hready (Or.inr howner)))
      exact ⟨e, v, Effects.bind_error hv⟩

theorem approval_isSome_iff (name localPath : String) (remotePath : Option String) :
    (n.approveFolderPairWith faults deviceId folderGuid name localPath remotePath).1 ≠ none ↔
      n.Approvable faults deviceId folderGuid := by
  unfold approveFolderPairWith
  constructor
  · intro h
    by_contra hnot
    obtain ⟨e, t, ht⟩ := attaching_fails hnot name localPath remotePath
    refine h ?_
    dsimp only [recordGrant]
    rw [ht]
  · intro h
    obtain ⟨t, ht⟩ := h.attaches name localPath remotePath
    dsimp only [recordGrant]
    rw [ht]
    exact Option.some_ne_none _

/-- The grant is in the gate, whether the approval fails or not. -/
theorem lookup_approveFolderPairWith (name localPath : String) (remotePath : Option String) :
    (n.approveFolderPairWith faults deviceId folderGuid name localPath remotePath).2.gate.folderApproved.lookup
      (deviceId, folderGuid) = some ⟨folderGuid, name, "bidirectional", remotePath⟩ := by
  unfold approveFolderPairWith
  dsimp only [recordGrant]
  split <;> exact AList.lookup_insert _

/-- **A grant that is there answers the next request**, without an approval. -/
theorem not_rolledBack {n' : Node} {grant : RemoteFolderPair} (blake3 : Bytes → FileHash)
    (h : n'.gate.folderApproved.lookup (deviceId, folderGuid) = some grant) :
    ¬n.RolledBack blake3 n' (deviceId, folderGuid) := by
  intro hback
  let req : RemoteFolderPairRequest := ⟨deviceId, "", folderGuid, "", ""⟩
  have hanswer : (n'.requestFolderPairWith StorageFaults.none req "").1 = .approved grant := by
    unfold requestFolderPairWith
    rw [h]
  rcases hback.ungranted [] StorageFaults.none req "" grant rfl hanswer with ⟨_, hnone, _⟩ | hlater
  · rw [h] at hnone
    cases hnone
  · exact hlater

/-- Where no step fails by itself an approval is that of the database alone. -/
theorem approveFolderPairWith_none (name localPath : String) (remotePath : Option String) :
    n.approveFolderPairWith StorageFaults.none deviceId folderGuid name localPath remotePath =
      n.approveFolderPair deviceId folderGuid name localPath remotePath := by
  have hsteps : Database.approveFolderPairWith StorageFaults.none n.ownId deviceId folderGuid name localPath
      remotePath = attempt false
        (Database.approveFolderPair n.ownId deviceId folderGuid name localPath remotePath) := by
    unfold Database.approveFolderPairWith Database.approveFolderPair
    rw [attempt_bind]
    refine congrArg _ (funext fun _ => ?_)
    rw [attempt_bind]
    rfl
  unfold approveFolderPairWith approveFolderPair after
  dsimp only [recordGrant]
  rw [hsteps]
  cases hrun : Database.approveFolderPair n.ownId deviceId folderGuid name localPath remotePath n.host.db with
  | ok u t =>
    rw [attempt_ok hrun, Effects.after_ok hrun]
  | error e t =>
    rw [Effects.after_error hrun]
    unfold attempt
    rw [hrun]
    rfl

end Node

/-- **An approval is all or nothing exactly if it cannot fail.** -/
theorem approval_atomic_iff (blake3 : Bytes → FileHash) (n : Node) (faults : StorageFaults)
    (deviceId folderGuid name localPath : String) (remotePath : Option String) :
    n.ApprovalAtomic blake3 faults deviceId folderGuid name localPath remotePath ↔
      n.Approvable faults deviceId folderGuid := by
  rw [← Node.approval_isSome_iff name localPath remotePath]
  constructor
  · intro hatomic hfails
    exact Node.not_rolledBack blake3 (Node.lookup_approveFolderPairWith name localPath remotePath)
      (hatomic hfails)
  · exact fun hok hfails => absurd hfails hok

/-- A device that knows itself, and nobody else. -/
def lonelyLaptop : Node := (Node.new 1 "laptop").after (Database.ensureSelfRow "laptop" [1] "Laptop")

/-- **The pair cannot be put, and yet is granted.** -/
theorem failed_approval_grants :
    (lonelyLaptop.approveFolderPairWith ⟨false, false, false, true⟩ "phone" "f-1" "Photos" "/home/photos"
      none).1 = none ∧
    ¬lonelyLaptop.ApprovalAtomic sampleBlake3 ⟨false, false, false, true⟩ "phone" "f-1" "Photos"
      "/home/photos" none := by
  have hfails : (lonelyLaptop.approveFolderPairWith ⟨false, false, false, true⟩ "phone" "f-1" "Photos"
      "/home/photos" none).1 = none := by decide +kernel
  exact ⟨hfails, fun hatomic => Node.not_rolledBack sampleBlake3
    (Node.lookup_approveFolderPairWith "Photos" "/home/photos" none) (hatomic hfails)⟩

end FerriSync
