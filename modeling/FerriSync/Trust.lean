/-
# Whom a device trusts

A device comes to trust another by pairings, by the operator's approvals, by granting it a
folder and by the sessions that it starts itself, which pin certificates. All of these run
next to each other, and so do the operator's commands on shares and devices (`OperatorTask`);
a command begins with its first look at the gate or the database.

What a step can add to that trust is said once, for any set of devices: if only these have
been trusted and approved so far, they are the only ones trusted after the step
(`hostOk_hostStep`). Whoever is trusted, a folder request is decided for the device of its
certificate, and a grant that is under way is remembered; so it is in every state that a
device comes to (`Reachable.inv`).

Key definitions: `OperatorTask`, `hostStep`, `Reachable`, `BeginsWith`, `TaskOk`, `StateOk`.
Key theorems: `taskOk_serverStep`, `hostOk_hostStep`, `Reachable.inv`.
-/
import FerriSync.Pins
import FerriSync.Shares

namespace FerriSync

open ServerTask

/-! ### The operator's other commands -/

namespace Storage

variable (s : Storage)

/-- Publish a folder, which gets the row number; one that is published stays as it is. -/
def shareFolder (id : ℕ) (folderGuid deviceId name localPath : String) : Except String Storage :=
  if (s.sharedFolderByGuid deviceId folderGuid).isSome then .ok s
  else if deviceId ∈ s.devices then .ok { s with sharedFolders := s.sharedFolders ++
    [⟨id, folderGuid, deviceId, name, localPath, true, true, "read_write"⟩] }
  else .error foreignKeyFailed

def setSharedDiscoverable (id : ℕ) (discoverable : Bool) : Storage := { s with
  sharedFolders := s.sharedFolders.map fun row =>
    if row.id = id then { row with discoverable := discoverable } else row }

/-- Stop sharing a folder. -/
def unshareFolder (id : ℕ) : Storage := { s with
  sharedFolders := s.sharedFolders.filter fun row => decide (row.id ≠ id) }

/-- Wipe every pairing and folder mapping; a share that refers to a device prevents that. -/
def clearAllSyncState : Except String Storage :=
  if s.sharedFolders.any fun row => decide (row.deviceId ∈ s.devices) then .error foreignKeyFailed
  else .ok { s with devices := ∅, syncFolders := [], folderDevices := ∅ }

end Storage

/-- What the operator does with the shares and with the devices, by what is done next. The guid
and the path of a folder that is shared have been read from its row; a folder that another
device granted has whatever guid its owner sent. -/
inductive OperatorTask
  | share (id : ℕ) (folderGuid name localPath : String)
  | publish (id : ℕ) (folderGuid name localPath : String)
  | setDiscoverable (id : ℕ) (discoverable : Bool)
  | unshare (id : ℕ)
  | remove (deviceId : String)
  | clear
  | done

def OperatorTask.begins : OperatorTask → Bool
  | share _ _ _ _ => true
  | publish _ _ _ _ => false
  | setDiscoverable _ _ => true
  | unshare _ => true
  | remove _ => true
  | clear => true
  | done => false

/-- A device that shares a folder gets a row of its own first. -/
def operatorStep : OperatorTask → Server → OperatorTask × Server
  | .share id guid name localPath, s =>
    if s.failing then (.done, s.called)
    else (.publish id guid name localPath, { s.called with
      storage := s.storage.upsertDevice s.info.id s.info.name none none })
  | .publish id guid name localPath, s =>
    if s.failing then (.done, s.called)
    else match s.storage.shareFolder id guid s.info.id name localPath with
      | .error _ => (.done, s.called)
      | .ok storage => (.done, { s.called with storage := storage })
  | .setDiscoverable id discoverable, s =>
    if s.failing then (.done, s.called)
    else (.done, { s.called with storage := s.storage.setSharedDiscoverable id discoverable })
  | .unshare id, s =>
    if s.failing then (.done, s.called)
    else (.done, { s.called with storage := s.storage.unshareFolder id })
  | .remove deviceId, s =>
    if s.failing then (.done, s.called)
    else match s.storage.removeDevice deviceId with
      | .error _ => (.done, s.called)
      | .ok storage => (.done, { s.called with storage := storage })
  | .clear, s =>
    if s.failing then (.done, s.called)
    else match s.storage.clearAllSyncState with
      | .error _ => (.done, s.called)
      | .ok storage => (.done, { s.called with storage := storage })
  | .done, s => (.done, s)

/-- What runs on a device, with all that its operator does. -/
abbrev HostTask := (ServerTask ⊕ DialTask) ⊕ OperatorTask

def hostBegins : HostTask → Bool
  | .inl n => nodeBegins n
  | .inr k => k.begins

/-- A place where nothing runs. -/
def unused : HostTask := .inl (.inl (closed none none))

section

variable (blake3 : Bytes → FileHash) (own : Bytes)

def hostStep : HostTask → Server → HostTask × Server
  | .inl n, s => (.inl (nodeStep blake3 own n s).1, (nodeStep blake3 own n s).2)
  | .inr k, s => (.inr (operatorStep k s).1, (operatorStep k s).2)

/-- What a device comes to by connections, the operator's commands, sessions and pairings. What
this device starts itself comes before its first look at the database; the rest takes its first
step as it comes. -/
inductive Reachable : Tasks.Shared ℕ HostTask Server → Prop
  | new {s : Server} : s.policy = .confirm → s.gate = .new → Reachable ⟨fun _ => unused, s⟩
  | comes {w : Tasks.Shared ℕ HostTask Server} {i : ℕ} {t : HostTask} : Reachable w →
      w.task i = unused → hostBegins t = true →
      Reachable (Tasks.turn (hostStep blake3 own) ⟨Function.update w.task i t, w.state⟩ i)
  | dials {w : Tasks.Shared ℕ HostTask Server} {i : ℕ} {d : DialTask} : Reachable w →
      w.task i = unused → nodeBegins (.inr d) = true →
      Reachable ⟨Function.update w.task i (.inl (.inr d)), w.state⟩
  | turn {w : Tasks.Shared ℕ HostTask Server} (i : ℕ) : Reachable w →
      Reachable (Tasks.turn (hostStep blake3 own) w i)

end

/-! ### Whom a task may trust -/

section

variable (blake3 : Bytes → FileHash) (ok : String → Prop)

/-- A session or pairing begins, with one of these devices. -/
def DialTask.Dials : DialTask → Prop
  | connected call cert => ok call.deviceId ∧ ∀ x, cert = some x → ok (certToDeviceId blake3 x)
  | pairing _ cert resp => ok (hostId blake3 cert resp)
  | _ => False

/-- The task begins, and approves or dials these devices only. -/
def BeginsWith : HostTask → Prop
  | .inl (.inl t) => t.begins = true ∧ (∀ id name, t = approvePairing id name → ok id) ∧
      ∀ a, t = approveFolder a → ok a.deviceId
  | .inl (.inr d) => d.Dials blake3 ok
  | .inr k => k.begins = true

end

/-- The folder request that the gate is deciding. -/
def ServerTask.folderRequest : ServerTask → Option (Inbound × RemoteFolderPairRequest)
  | lookupGrant c req _ => some (c, req)
  | lookupDenial c req _ => some (c, req)
  | lookupTrust c req _ => some (c, req)
  | _ => none

/-- The approval of a folder that is under way. -/
def ServerTask.approval : ServerTask → Option FolderApproval
  | approveFolder a => some a
  | storeGrantee a => some a
  | ensureFolder a => some a
  | attachDevice a _ => some a
  | _ => none

/-- The connection has been answered, or is served. -/
def ServerTask.settled : ServerTask → Bool
  | session _ _ => true
  | closed _ _ => true
  | _ => false

section

variable (blake3 : Bytes → FileHash) (own : Bytes) (ok : String → Prop) (s : Server)

/-- What holds of a server's task as long as trust is given to these devices only: a folder
request is for the device of its certificate, and so is its approval, which the gate remembers
once it has begun. -/
structure TaskOk (t : ServerTask) : Prop where
  sound : t.Sound blake3 (fun x => ok (certToDeviceId blake3 x)) ok
  operator : ∀ id name, t = approvePairing id name → ok id
  asks : ∀ c req x, t.folderRequest = some (c, req) → c.cert = some x →
    req.deviceId = certToDeviceId blake3 x
  approves : ∀ a, t.approval = some a → ok a.deviceId
  answers : ∀ a c req x, t.approval = some a → a.origin = some (c, req) → c.cert = some x →
    a.deviceId = certToDeviceId blake3 x
  remembered : ∀ a, t.approval = some a → t = approveFolder a ∨
    (s.gate.folderApproved.lookup (a.deviceId, a.folderGuid)).isSome = true
  granted : ∀ c g x, t = closed (some c) (some (.folderPairApproved g)) → c.cert = some x →
    ok (certToDeviceId blake3 x)

/-- What holds of a session or a pairing that this device starts. -/
def DialOk : DialTask → Prop
  | .connected call (some x) => x = own ∨ ok call.deviceId ∧ ok (certToDeviceId blake3 x)
  | .pinning call x => ok call.deviceId ∧ ok (certToDeviceId blake3 x)
  | .pairing _ cert _ => ∀ x, cert = some x → ok (certToDeviceId blake3 x)
  | _ => True

def HostOk : HostTask → Prop
  | .inl (.inl t) => TaskOk blake3 ok s t
  | .inl (.inr t) => DialOk blake3 own ok t
  | .inr _ => True

/-- What holds of the server's state as long as trust is given to these devices only. -/
structure StateOk : Prop where
  policy : s.policy = .confirm
  unknown : ∀ x, s.storage.Stores x → ok (certToDeviceId blake3 x)
  trust : ∀ id, (s.storage.getDeviceCert id).isSome = true → ok id
  held : ∀ p ∈ s.gate.pending, ∀ x, p.certDer = some x → p.deviceId = certToDeviceId blake3 x
  grants : ∀ id guid, (s.gate.folderApproved.lookup (id, guid)).isSome = true → ok id

end

/-! ### What a step keeps -/

section

variable {blake3 : Bytes → FileHash} {own : Bytes} {ok : String → Prop} {s s' : Server} {t : ServerTask}

/-- A grant is there before, or an approval of it has just begun. -/
theorem grant_serverStep (k : String × String) :
    (serverStep blake3 t s).2.gate.folderApproved.lookup k = s.gate.folderApproved.lookup k ∨
      ∃ a, t = approveFolder a ∧ k = (a.deviceId, a.folderGuid) := by
  cases t with
  | approveFolder a =>
    by_cases hk : k = (a.deviceId, a.folderGuid)
    · exact Or.inr ⟨a, rfl, hk⟩
    · left
      simp only [serverStep]
      rw [AList.lookup_insert_ne hk]
  | respond c req a => cases a <;> exact Or.inl rfl
  | holdFolder c req =>
    left
    simp only [serverStep, Server.emit, PairGateInner.holdFolder]
    split <;> rfl
  | accepted | session | listShares | refileFolder | approvePairing | dropPending | denyPairing
  | denyFolder | closed => exact Or.inl rfl
  | hold | store | lookupGrant | lookupDenial | lookupTrust | storeApproved | storeGrantee
  | ensureFolder | attachDevice | admission | recordAddr | authenticate | lookupShare =>
    left
    simp only [serverStep]
    repeat' split
    all_goals rfl

/-- What has been denied stays denied. -/
theorem denied_serverStep {k : String × String} (hk : k ∈ s.gate.folderDenied) :
    k ∈ (serverStep blake3 t s).2.gate.folderDenied := by
  cases t with
  | denyFolder id guid => exact Finset.mem_insert_of_mem hk
  | respond c req a => cases a <;> exact hk
  | holdFolder c req =>
    simp only [serverStep, Server.emit, PairGateInner.holdFolder]
    split <;> exact hk
  | accepted | session | listShares | refileFolder | approvePairing | dropPending | denyPairing
  | approveFolder | closed => exact hk
  | hold | store | lookupGrant | lookupDenial | lookupTrust | storeApproved | storeGrantee
  | ensureFolder | attachDevice | admission | recordAddr | authenticate | lookupShare =>
    simp only [serverStep]
    repeat' split
    all_goals exact hk

/-- A grant that has begun is remembered. -/
theorem approveFolder_remembered (blake3 : Bytes → FileHash) (s : Server) (a : FolderApproval) :
    ((serverStep blake3 (approveFolder a) s).2.gate.folderApproved.lookup
      (a.deviceId, a.folderGuid)).isSome = true := by
  show ((s.gate.folderApproved.insert _ _).lookup _).isSome = true
  rw [AList.lookup_insert]
  rfl

/-- A grant is never taken back. -/
theorem granted_serverStep {k : String × String}
    (h : (s.gate.folderApproved.lookup k).isSome = true) :
    ((serverStep blake3 t s).2.gate.folderApproved.lookup k).isSome = true := by
  rcases @grant_serverStep blake3 s t k with hsame | ⟨a, rfl, rfl⟩
  · rw [hsame]
    exact h
  · exact approveFolder_remembered blake3 s a

/-- Once a task has begun it does not begin again. -/
theorem begins_serverStep : (serverStep blake3 t s).1.begins = false := by
  cases t with
  | accepted c =>
    show (receive blake3 c).begins = false
    rw [receive_eq]
    cases c.request blake3 with
    | none => rfl
    | some m => cases m <;> rfl
  | respond c req a => cases a <;> rfl
  | storeGrantee a | ensureFolder a | attachDevice a n =>
    simp only [serverStep, approvalFailed, approvalDone]
    repeat' split
    all_goals rfl
  | session | listShares | holdFolder | refileFolder | approvePairing | dropPending | denyPairing
  | approveFolder | denyFolder | closed => rfl
  | hold | store | lookupGrant | lookupDenial | lookupTrust | storeApproved | admission | recordAddr
  | authenticate | lookupShare =>
    simp only [serverStep]
    repeat' split
    all_goals rfl

theorem settled_serverStep (h : t.settled = true) : serverStep blake3 t s = (t, s) := by
  cases t with
  | session | closed => rfl
  | _ => cases h

/-! #### The state -/

/-- The certificate that a step of the device stores, and for which device. -/
def hostPinned (blake3 : Bytes → FileHash) : HostTask → Server → Option (String × Bytes)
  | .inl n, s => nodePinned blake3 n s
  | .inr _, _ => none

theorem cert_shareFolder {db db' : Storage} {n : ℕ} {guid deviceId name localPath : String}
    (h : db.shareFolder n guid deviceId name localPath = .ok db') (id : String) :
    db'.getDeviceCert id = db.getDeviceCert id := by
  unfold Storage.shareFolder at h
  split_ifs at h
  · cases h
    rfl
  · cases h
    rfl

theorem cert_clearAllSyncState {db db' : Storage} (h : db.clearAllSyncState = .ok db') (id : String) :
    db'.getDeviceCert id = none := by
  unfold Storage.clearAllSyncState at h
  split_ifs at h
  cases h
  rfl

/-- The operator's other commands leave the gate as it is, and store no certificates. -/
theorem fixed_operatorStep (k : OperatorTask) : (operatorStep k s).2.policy = s.policy ∧
    (operatorStep k s).2.gate = s.gate ∧
    ∀ id x, (operatorStep k s).2.storage.getDeviceCert id = some x →
      s.storage.getDeviceCert id = some x := by
  cases k with
  | share n guid name localPath =>
    simp only [operatorStep]
    split_ifs
    · exact ⟨rfl, rfl, fun _ _ h => h⟩
    · exact ⟨rfl, rfl, fun id x h => (Storage.cert_upsertDevice_none id).symm.trans h⟩
  | publish n guid name localPath =>
    simp only [operatorStep]
    split_ifs
    · exact ⟨rfl, rfl, fun _ _ h => h⟩
    · cases hshare : s.storage.shareFolder n guid s.info.id name localPath with
      | error e => exact ⟨rfl, rfl, fun _ _ h => h⟩
      | ok db => exact ⟨rfl, rfl, fun id x h => (cert_shareFolder hshare id).symm.trans h⟩
  | setDiscoverable | unshare =>
    simp only [operatorStep]
    split_ifs <;> exact ⟨rfl, rfl, fun _ _ h => h⟩
  | remove deviceId =>
    simp only [operatorStep]
    split_ifs
    · exact ⟨rfl, rfl, fun _ _ h => h⟩
    · cases hremoved : s.storage.removeDevice deviceId with
      | error e => exact ⟨rfl, rfl, fun _ _ h => h⟩
      | ok db =>
        refine ⟨rfl, rfl, fun id x h => ?_⟩
        replace h : db.getDeviceCert id = some x := h
        rw [Storage.cert_removeDevice hremoved] at h
        split_ifs at h
        exact h
  | clear =>
    simp only [operatorStep]
    split_ifs
    · exact ⟨rfl, rfl, fun _ _ h => h⟩
    · cases hcleared : s.storage.clearAllSyncState with
      | error e => exact ⟨rfl, rfl, fun _ _ h => h⟩
      | ok db =>
        refine ⟨rfl, rfl, fun id x h => ?_⟩
        exact absurd ((cert_clearAllSyncState hcleared id).symm.trans h) (by simp)
  | done => exact ⟨rfl, rfl, fun _ _ h => h⟩

/-- Dialling touches the devices only. -/
theorem fixed_dialStep (d : DialTask) : (dialStep blake3 own d s).2.policy = s.policy ∧
    (dialStep blake3 own d s).2.gate = s.gate := by
  cases d with
  | connected call peer =>
    cases peer with
    | none => exact ⟨rfl, rfl⟩
    | some peer =>
      simp only [dialStep]
      repeat' split
      all_goals exact ⟨rfl, rfl⟩
  | pinning | pairing =>
    simp only [dialStep]
    split <;> exact ⟨rfl, rfl⟩
  | proceeding | aborted | paired => exact ⟨rfl, rfl⟩

/-- **The certificates after a step** were there before, or one of them has been stored by it. -/
theorem cert_hostStep (n : HostTask) {id : String} {x : Bytes}
    (h : (hostStep blake3 own n s).2.storage.getDeviceCert id = some x) :
    s.storage.getDeviceCert id = some x ∨ hostPinned blake3 n s = some (id, x) := by
  cases n with
  | inl n =>
    replace h := (cert_nodeStep n id).symm.trans h
    show _ ∨ nodePinned blake3 n s = some (id, x)
    split at h
    · rename_i hpin
      split_ifs at h with hid
      · cases h
        rw [hid]
        exact Or.inr hpin
      · exact Or.inl h
    · exact Or.inl h
  | inr k => exact Or.inl ((fixed_operatorStep k).2.2 id x h)

/-- **What is granted stays granted.** -/
theorem grants_hostStep (n : HostTask) (k : String × String)
    (h : (s.gate.folderApproved.lookup k).isSome = true) :
    ((hostStep blake3 own n s).2.gate.folderApproved.lookup k).isSome = true := by
  rcases n with (t | d) | k'
  · exact granted_serverStep h
  · exact (congrArg (fun g : PairGateInner => (g.folderApproved.lookup k).isSome)
      (fixed_dialStep d).2).trans h
  · exact (congrArg (fun g : PairGateInner => (g.folderApproved.lookup k).isSome)
      (fixed_operatorStep k').2.1).trans h

/-- A step that stores a certificate for one of these devices, and holds and grants what it
may. -/
theorem StateOk.of_step {n : HostTask} (h : StateOk blake3 ok s)
    (hpolicy : (hostStep blake3 own n s).2.policy = s.policy)
    (hpin : ∀ i x, hostPinned blake3 n s = some (i, x) → ok i ∧ ok (certToDeviceId blake3 x))
    (hheld : ∀ p ∈ (hostStep blake3 own n s).2.gate.pending, ∀ x, p.certDer = some x →
      p.deviceId = certToDeviceId blake3 x)
    (hgrants : ∀ id guid, ((hostStep blake3 own n s).2.gate.folderApproved.lookup
      (id, guid)).isSome = true → ok id) : StateOk blake3 ok (hostStep blake3 own n s).2 := by
  refine ⟨hpolicy.trans h.policy, fun x ⟨id, hid⟩ => ?_, fun id hsome => ?_, hheld, hgrants⟩
  · rcases cert_hostStep n hid with hid | hpinned
    · exact h.unknown x ⟨id, hid⟩
    · exact (hpin id x hpinned).2
  · obtain ⟨x, hx⟩ := Option.isSome_iff_exists.mp hsome
    rcases cert_hostStep n hx with hid | hpinned
    · exact h.trust id (Option.isSome_iff_exists.mpr ⟨x, hid⟩)
    · exact (hpin id x hpinned).1

/-- A server's step. -/
theorem stateOk_serverStep (h : StateOk blake3 ok s) (ht : TaskOk blake3 ok s t) :
    StateOk blake3 ok (hostStep blake3 own (.inl (.inl t)) s).2 := by
  refine h.of_step policy_serverStep (fun i x hpin => ?_) (fun p hp x hx => ?_) fun id guid hgrant => ?_
  · replace hpin : pinned blake3 t s = some (i, x) := hpin
    rcases pinned_cases hpin with ⟨c, req, rfl, hx, rfl⟩ | ⟨name, rfl⟩
    · obtain ⟨c', x', hc', hx', hok⟩ := ht.sound.admits rfl
      cases hc'
      rw [hx] at hx'
      cases hx'
      exact ⟨hok, hok⟩
    · obtain ⟨hid, hok⟩ := ht.sound.approves i name x rfl
      exact ⟨hok, hid ▸ hok⟩
  · rcases pending_serverStep hp with hp | ⟨c, req, -, rfl⟩
    · exact h.held p hp x hx
    · show c.identity blake3 req.deviceId = certToDeviceId blake3 x
      rw [Inbound.identity, show c.cert = some x from hx]
  · replace hgrant :
        ((serverStep blake3 t s).2.gate.folderApproved.lookup (id, guid)).isSome = true := hgrant
    have hwas : (serverStep blake3 t s).2.gate.folderApproved.lookup (id, guid) = _ ∨ _ :=
      grant_serverStep (id, guid)
    rcases hwas with hsame | ⟨a, rfl, hk⟩
    · rw [hsame] at hgrant
      exact h.grants id guid hgrant
    · obtain rfl : id = a.deviceId := congrArg Prod.fst hk
      exact ht.approves a rfl

variable {d : DialTask}

/-- A step of a session or a pairing that this device starts. -/
theorem stateOk_dialStep (h : StateOk blake3 ok s) (hd : DialOk blake3 own ok d) :
    StateOk blake3 ok (hostStep blake3 own (.inl (.inr d)) s).2 := by
  obtain ⟨hpolicy, hgate⟩ : (hostStep blake3 own (.inl (.inr d)) s).2.policy = s.policy ∧
    (hostStep blake3 own (.inl (.inr d)) s).2.gate = s.gate := fixed_dialStep d
  refine h.of_step hpolicy (fun i x hpin => ?_) ?_ ?_
  · replace hpin : dialPinned blake3 d s = some (i, x) := hpin
    unfold dialPinned at hpin
    split_ifs at hpin
    cases d with
    | pinning call peer =>
      cases hpin
      exact hd
    | pairing addr cert resp =>
      obtain ⟨y, hy, heq⟩ := Option.map_eq_some_iff.mp hpin
      cases heq
      subst hy
      exact ⟨hd x rfl, hd x rfl⟩
    | connected | proceeding | aborted | paired => cases hpin
  · rw [hgate]
    exact h.held
  · rw [hgate]
    exact h.grants

theorem stateOk_operatorStep (h : StateOk blake3 ok s) (k : OperatorTask) :
    StateOk blake3 ok (hostStep blake3 own (.inr k) s).2 := by
  obtain ⟨hpolicy, hgate⟩ : (hostStep blake3 own (.inr k) s).2.policy = s.policy ∧
    (hostStep blake3 own (.inr k) s).2.gate = s.gate :=
      ⟨(fixed_operatorStep k).1, (fixed_operatorStep k).2.1⟩
  refine h.of_step hpolicy (fun i x hpin => (by cases hpin)) ?_ ?_
  · rw [hgate]
    exact h.held
  · rw [hgate]
    exact h.grants

/-! #### The tasks -/

/-- A task that decides no folder request, and grants none. -/
theorem TaskOk.of_sound (hsound : t.Sound blake3 (fun x => ok (certToDeviceId blake3 x)) ok)
    (hoperator : ∀ id name, t = approvePairing id name → ok id) (hasks : t.folderRequest = none)
    (happroval : t.approval = none)
    (hgranted : ∀ c g, t ≠ closed (some c) (some (.folderPairApproved g))) :
    TaskOk blake3 ok s t where
  sound := hsound
  operator := hoperator
  asks c req x h := by
    rw [hasks] at h
    cases h
  approves a h := by
    rw [happroval] at h
    cases h
  answers a c req x h := by
    rw [happroval] at h
    cases h
  remembered a h := by
    rw [happroval] at h
    cases h
  granted c g x h := absurd h (hgranted c g)

/-- A folder request that is being decided. -/
theorem TaskOk.of_request {c : Inbound} {req : RemoteFolderPairRequest}
    (hadmits : t.admits = false) (hstores : ∀ id name x, t ≠ storeApproved id name (some x))
    (hoperator : ∀ id name, t ≠ approvePairing id name) (happroval : t.approval = none)
    (hreq : t.folderRequest = some (c, req))
    (hasks : ∀ x, c.cert = some x → req.deviceId = certToDeviceId blake3 x) :
    TaskOk blake3 ok s t where
  sound := .of_idle hadmits hstores
  operator id name h := absurd h (hoperator id name)
  asks c' req' x h := by
    rw [hreq] at h
    cases h
    exact hasks x
  approves a h := by
    rw [happroval] at h
    cases h
  answers a c req x h := by
    rw [happroval] at h
    cases h
  remembered a h := by
    rw [happroval] at h
    cases h
  granted c g x h := by
    rw [h] at hreq
    cases hreq

/-- The approval of a folder. -/
theorem TaskOk.of_approval {a : FolderApproval} (hadmits : t.admits = false)
    (hstores : ∀ id name x, t ≠ storeApproved id name (some x))
    (hoperator : ∀ id name, t ≠ approvePairing id name) (hasks : t.folderRequest = none)
    (happroval : t.approval = some a) (happroves : ok a.deviceId)
    (hanswers : ∀ c req x, a.origin = some (c, req) → c.cert = some x →
      a.deviceId = certToDeviceId blake3 x)
    (hremembered : t = approveFolder a ∨
      (s.gate.folderApproved.lookup (a.deviceId, a.folderGuid)).isSome = true) :
    TaskOk blake3 ok s t where
  sound := .of_idle hadmits hstores
  operator id name h := absurd h (hoperator id name)
  asks c req x h := by
    rw [hasks] at h
    cases h
  approves b h := by
    rw [happroval] at h
    cases h
    exact happroves
  answers b c req x h := by
    rw [happroval] at h
    cases h
    exact hanswers c req x
  remembered b h := by
    rw [happroval] at h
    cases h
    exact hremembered
  granted c g x h := by
    rw [h] at happroval
    cases happroval

theorem TaskOk.closed_of_grant {c : Inbound} {g : RemoteFolderPair}
    (h : ∀ x, c.cert = some x → ok (certToDeviceId blake3 x)) :
    TaskOk blake3 ok s (closed (some c) (some (.folderPairApproved g))) where
  sound := .of_idle rfl (by simp)
  operator id name h := by cases h
  asks c req x h := by cases h
  approves a h := by cases h
  answers a c req x h := by cases h
  remembered a h := by cases h
  granted c g x h' hx := by
    cases h'
    exact h x hx

/-- What is remembered stays so. -/
theorem TaskOk.mono (h : TaskOk blake3 ok s t) (hgrants : ∀ k,
    (s.gate.folderApproved.lookup k).isSome = true → (s'.gate.folderApproved.lookup k).isSome = true) :
    TaskOk blake3 ok s' t :=
  { h with remembered := fun a ha => (h.remembered a ha).imp_right (hgrants _) }

theorem taskOk_receive (c : Inbound) : TaskOk blake3 ok s (receive blake3 c) := by
  obtain ⟨hadmits, hstores⟩ := admits_receive blake3 c
  refine .of_sound (.of_idle hadmits hstores) ?_ ?_ ?_ ?_
  all_goals
    rw [receive_eq]
    cases c.request blake3 with
    | none => simp [ServerTask.folderRequest, ServerTask.approval]
    | some m => cases m <;>
        simp [dispatch, ServerTask.folderRequest, ServerTask.approval]

theorem taskOk_approvalFailed (a : FolderApproval) : TaskOk blake3 ok s (approvalFailed a) := by
  unfold approvalFailed
  split
  · exact .of_sound (.of_idle rfl (by simp)) (by simp) rfl rfl (by simp)
  · exact .of_sound (.of_idle rfl (by simp)) (by simp) rfl rfl (by simp)

theorem taskOk_approvalDone {a : FolderApproval} (happroves : ok a.deviceId)
    (hanswers : ∀ c req x, a.origin = some (c, req) → c.cert = some x →
      a.deviceId = certToDeviceId blake3 x) : TaskOk blake3 ok s (approvalDone a) := by
  unfold approvalDone
  split
  · rename_i c req horigin
    exact .closed_of_grant fun x hx => hanswers c req x horigin hx ▸ happroves
  · exact .of_sound (.of_idle rfl (by simp)) (by simp) rfl rfl (by simp)

/-- **A step gives trust to these devices only.** -/
theorem taskOk_serverStep (ht : TaskOk blake3 ok s t) (h : StateOk blake3 ok s) :
    TaskOk blake3 ok (serverStep blake3 t s).2 (serverStep blake3 t s).1 := by
  have hsound := sound_serverStep ht.sound h.policy (fun c x _ _ hfound => by
      obtain ⟨y, hy, hhash⟩ := hfound
      exact certToDeviceId_congr hhash ▸ h.unknown y hy) (fun _ => h.held)
    fun id name happ _ => ht.operator id name happ
  cases t with
  | accepted c => exact taskOk_receive c
  | session | closed => exact ht
  | respond c req a =>
    cases a with
    | accept => exact .of_sound hsound (by simp [serverStep]) rfl rfl (by simp [serverStep])
    | hold | deny =>
      exact .of_sound hsound (by simp [serverStep]) rfl rfl (by simp [serverStep, Server.pairResponse])
  | listShares | holdFolder | refileFolder | approvePairing | dropPending | denyPairing
  | denyFolder => exact .of_sound hsound (by simp [serverStep]) rfl rfl (by simp [serverStep])
  | hold | store | storeApproved | admission | recordAddr | authenticate =>
    refine .of_sound hsound ?_ ?_ ?_ ?_
    all_goals
      simp only [serverStep]
      repeat' split
      all_goals simp [ServerTask.folderRequest, ServerTask.approval, Server.pairResponse]
  | lookupShare c req =>
    rw [lookupShare_step]
    dsimp only
    split
    · refine .of_request rfl (by simp) (by simp) rfl rfl fun x hx => ?_
      show c.identity blake3 req.deviceId = certToDeviceId blake3 x
      rw [Inbound.identity, hx]
    · exact .of_sound (.of_idle rfl (by simp)) (by simp) rfl rfl (by simp)
  | lookupGrant c req localPath =>
    rw [lookupGrant_step]
    dsimp only
    split
    · rename_i grant hgrant
      refine .closed_of_grant fun x hx => ?_
      rw [← ht.asks c req x rfl hx]
      exact h.grants _ _ (Option.isSome_iff_exists.mpr ⟨grant, hgrant⟩)
    · exact .of_request rfl (by simp) (by simp) rfl rfl fun x => ht.asks c req x rfl
  | lookupDenial c req localPath =>
    rw [lookupDenial_step]
    dsimp only
    split_ifs
    · exact .of_sound (.of_idle rfl (by simp)) (by simp) rfl rfl (by simp)
    · exact .of_request rfl (by simp) (by simp) rfl rfl fun x => ht.asks c req x rfl
  | lookupTrust c req localPath =>
    simp only [serverStep]
    split_ifs with htrusted
    · rw [Bool.and_eq_true] at htrusted
      refine .of_approval rfl (by simp) (by simp) rfl rfl (h.trust _ htrusted.2) ?_ (Or.inl rfl)
      intro c' req' x horigin hx
      cases horigin
      exact ht.asks c req x rfl hx
    · exact .of_sound (.of_idle rfl (by simp)) (by simp) rfl rfl (by simp)
  | approveFolder a =>
    exact .of_approval rfl (by simp [serverStep]) (by simp [serverStep]) rfl rfl (ht.approves a rfl)
      (fun c req x => ht.answers a c req x rfl) (Or.inr (approveFolder_remembered blake3 s a))
  | storeGrantee a =>
    have hremembered : (s.gate.folderApproved.lookup (a.deviceId, a.folderGuid)).isSome = true :=
      (ht.remembered a rfl).resolve_left (by simp)
    simp only [serverStep]
    split_ifs
    · exact taskOk_approvalFailed a
    · exact .of_approval rfl (by simp) (by simp) rfl rfl (ht.approves a rfl)
        (fun c req x => ht.answers a c req x rfl) (Or.inr hremembered)
  | ensureFolder a =>
    have hremembered : (s.gate.folderApproved.lookup (a.deviceId, a.folderGuid)).isSome = true :=
      (ht.remembered a rfl).resolve_left (by simp)
    simp only [serverStep]
    split_ifs
    · exact taskOk_approvalFailed a
    · split
      · exact taskOk_approvalFailed a
      · exact .of_approval rfl (by simp) (by simp) rfl rfl (ht.approves a rfl)
          (fun c req x => ht.answers a c req x rfl) (Or.inr hremembered)
  | attachDevice a n =>
    simp only [serverStep]
    split_ifs
    · exact taskOk_approvalFailed a
    · split
      · exact taskOk_approvalFailed a
      · exact taskOk_approvalDone (ht.approves a rfl) fun c req x => ht.answers a c req x rfl

theorem dialOk_dialStep (h : DialOk blake3 own ok d) : DialOk blake3 own ok (dialStep blake3 own d s).1 := by
  cases d with
  | connected call cert =>
    cases cert with
    | none => trivial
    | some x =>
      simp only [dialStep]
      split_ifs with hown hfails
      · trivial
      · trivial
      · split
        · split_ifs <;> trivial
        · -- the certificate is pinned next
          exact h.resolve_left hown
  | pinning | pairing =>
    simp only [dialStep]
    split <;> trivial
  | proceeding | aborted | paired => trivial

variable {n : HostTask}

theorem HostOk.mono (h : HostOk blake3 own ok s n) (hgrants : ∀ k,
    (s.gate.folderApproved.lookup k).isSome = true → (s'.gate.folderApproved.lookup k).isSome = true) :
    HostOk blake3 own ok s' n := by
  rcases n with (t | d) | k
  · exact TaskOk.mono h hgrants
  · exact h
  · trivial

/-- **What a step of the device keeps.** -/
theorem hostOk_hostStep (hs : StateOk blake3 ok s) (h : HostOk blake3 own ok s n) :
    StateOk blake3 ok (hostStep blake3 own n s).2 ∧
      HostOk blake3 own ok (hostStep blake3 own n s).2 (hostStep blake3 own n s).1 := by
  rcases n with (t | d) | k
  · exact ⟨stateOk_serverStep hs h, taskOk_serverStep h hs⟩
  · exact ⟨stateOk_dialStep hs h, dialOk_dialStep h⟩
  · exact ⟨stateOk_operatorStep hs k, trivial⟩

/-- What begins with these devices. -/
theorem BeginsWith.hostOk (h : BeginsWith blake3 ok n) : HostOk blake3 own ok s n := by
  rcases n with (t | d) | k
  · obtain ⟨hbegins, hpairing, hfolder⟩ := h
    cases t with
    | accepted | denyPairing | denyFolder =>
      exact TaskOk.of_sound (.of_idle rfl (by simp)) (by simp) rfl rfl (by simp)
    | approvePairing => exact TaskOk.of_sound (.of_idle rfl (by simp)) hpairing rfl rfl (by simp)
    | approveFolder a =>
      refine TaskOk.of_approval rfl (by simp) (by simp) rfl rfl (hfolder a rfl) ?_ (Or.inl rfl)
      intro c req x horigin
      rw [ServerTask.begins, horigin] at hbegins
      cases hbegins
    | _ => cases hbegins
  · cases d with
    | connected call cert =>
      cases cert with
      | none => trivial
      | some x => exact Or.inr ⟨h.1, h.2 x rfl⟩
    | pairing addr cert resp =>
      intro x hx
      subst hx
      exact h
    | _ => exact h.elim
  · trivial

end

/-! ### Every state -/

section

variable {blake3 : Bytes → FileHash} {own cert : Bytes} {ok : String → Prop}
  {w : Tasks.Shared ℕ HostTask Server} {s : Server}

/-- A step of one task keeps what holds of all. -/
theorem hostOk_turn (hs : StateOk blake3 ok w.state)
    (h : ∀ i, HostOk blake3 own ok w.state (w.task i)) (i : ℕ) :
    StateOk blake3 ok (Tasks.turn (hostStep blake3 own) w i).state ∧
      ∀ j, HostOk blake3 own ok (Tasks.turn (hostStep blake3 own) w i).state
        ((Tasks.turn (hostStep blake3 own) w i).task j) := by
  obtain ⟨hstate, hown⟩ := hostOk_hostStep hs (h i)
  refine ⟨hstate, fun j => ?_⟩
  by_cases hji : j = i
  · subst hji
    simp only [Tasks.turn, Function.update_self]
    exact hown
  · simp only [Tasks.turn, Function.update_of_ne hji]
    exact (h j).mono (grants_hostStep _)

theorem HostOk.update {f : ℕ → HostTask} (h : ∀ i, HostOk blake3 own ok s (f i)) {n : HostTask}
    (hn : HostOk blake3 own ok s n) (i j : ℕ) : HostOk blake3 own ok s (Function.update f i n j) := by
  by_cases hji : j = i
  · rw [hji, Function.update_self]
    exact hn
  · rw [Function.update_of_ne hji]
    exact h j

/-- What holds of everything that begins. -/
theorem hostOk_begins {n : HostTask} (h : hostBegins n = true) :
    HostOk blake3 own (fun _ => True) s n := by
  refine BeginsWith.hostOk ?_
  rcases n with (t | d) | k
  · exact ⟨h, fun _ _ _ => trivial, fun _ _ => trivial⟩
  · cases d with
    | connected | pairing => simp [BeginsWith, DialTask.Dials]
    | _ => cases h
  · exact h

/-- The task does not begin any more. -/
def Underway (n : HostTask) : Prop := ∀ t, n = .inl (.inl t) → t.begins = false

theorem underway_hostStep (n : HostTask) : Underway (hostStep blake3 own n s).1 := by
  intro t ht
  rcases n with (t' | d) | k
  · obtain rfl : (serverStep blake3 t' s).1 = t := Sum.inl.inj (Sum.inl.inj ht)
    exact begins_serverStep
  · cases ht
  · cases ht

theorem Underway.update {f : ℕ → HostTask} (h : ∀ i, Underway (f i)) {n : HostTask} (hn : Underway n)
    (i j : ℕ) : Underway (Function.update f i n j) := by
  by_cases hji : j = i
  · rw [hji, Function.update_self]
    exact hn
  · rw [Function.update_of_ne hji]
    exact h j

/-- Turns that follow an update. -/
theorem underway_turn {f : ℕ → HostTask} (h : ∀ i, Underway (f i)) (n : HostTask) (i j : ℕ) :
    Underway ((Tasks.turn (hostStep blake3 own) ⟨Function.update f i n, s⟩ i).task j) := by
  simp only [Tasks.turn, Function.update_self, Function.update_idem]
  exact .update h (underway_hostStep n) i j

theorem underway_unused : Underway unused := by
  intro t ht
  obtain rfl : closed none none = t := Sum.inl.inj (Sum.inl.inj ht)
  rfl

/-- **What holds of a device**, whatever it has come to. -/
theorem Reachable.inv (h : Reachable blake3 own w) : StateOk blake3 (fun _ => True) w.state ∧
    (∀ i, HostOk blake3 own (fun _ => True) w.state (w.task i)) ∧ ∀ i, Underway (w.task i) := by
  induction h with
  | new hpolicy hgate =>
    refine ⟨⟨hpolicy, fun _ _ => trivial, fun _ _ => trivial, fun p hp => ?_, fun _ _ _ => trivial⟩,
      fun _ => TaskOk.of_sound (.of_idle rfl (by simp)) (by simp) rfl rfl (by simp),
      fun _ => underway_unused⟩
    rw [hgate] at hp
    cases hp
  | comes _ _ hbegins ih =>
    obtain ⟨hstate, htasks, hunder⟩ := ih
    obtain ⟨hstate', htasks'⟩ := hostOk_turn (w := ⟨Function.update _ _ _, _⟩) hstate
      (HostOk.update htasks (hostOk_begins hbegins) _) _
    exact ⟨hstate', htasks', underway_turn hunder _ _⟩
  | dials _ _ hbegins ih =>
    obtain ⟨hstate, htasks, hunder⟩ := ih
    exact ⟨hstate, HostOk.update htasks (@hostOk_begins _ _ _ (.inl (.inr _)) hbegins) _,
      Underway.update hunder (fun t ht => by cases ht) _⟩
  | turn i _ ih =>
    obtain ⟨hstate, htasks, hunder⟩ := ih
    obtain ⟨hstate', htasks'⟩ := hostOk_turn hstate htasks i
    exact ⟨hstate', htasks', fun j => Underway.update hunder (underway_hostStep _) i j⟩

end

end FerriSync
