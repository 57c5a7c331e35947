/-
# Who is admitted

Under the policy `confirm` a server admits a connection, by accepting its
pairing request or by serving it the folder, only if its certificate was
stored before, or its device was approved by the operator while it was held
(`admitted_consented`). What a step can store is a certificate of the
connection it accepts, or one of a device that is being approved
(`stores_serverStep`); and what is held under an identifier is the certificate
the identifier is made from (`pending_serverStep`).

Key definitions: `ApprovedWhileHeld`, `Consented`, `ServerTask.Sound`.
Key theorems: `stores_serverStep`, `pending_serverStep`, `sound_serverStep`,
`admitted_consented`.
-/
import FerriSync.Commit
import FerriSync.Lib.Tasks
import FerriSync.Server
import Mathlib.Data.Set.Function

namespace FerriSync

open ServerTask

/-- The message a connection is served for, if it gets that far. -/
def Inbound.request (blake3 : Bytes → FileHash) (c : Inbound) : Option SyncMessage :=
  match c.messages with
  | [] => none
  | .hello h :: rest =>
    match h.validate with
    | .error _ => none
    | .ok () => if h.deviceId ≠ c.identity blake3 h.deviceId then none else rest.head?
  | m :: _ => some m

section

variable {blake3 : Bytes → FileHash} {t : ServerTask} {s : Server}

/-! ### What one step can do -/

theorem peer_dispatch (c : Inbound) (m : SyncMessage) : (dispatch c m).peer = some c := by
  cases m <;> rfl

theorem receive_eq {c : Inbound} : receive blake3 c = ((c.request blake3).map (dispatch c)).getD
    (closed (some c) none) := by
  obtain ⟨cert, peerIp, messages⟩ := c
  unfold receive Inbound.request
  cases messages with
  | nil => rfl
  | cons m rest =>
    cases m with
    | hello h =>
      dsimp only
      cases h.validate with
      | error e => rfl
      | ok u =>
        dsimp only
        split_ifs
        · rfl
        · cases rest <;> rfl
    | _ => rfl

theorem peer_receive (blake3 : Bytes → FileHash) (c : Inbound) :
    (receive blake3 c).peer = some c := by
  unfold receive
  split
  · rfl
  · split
    · rfl
    · split_ifs
      · rfl
      · split
        · rfl
        · exact peer_dispatch c _
  · exact peer_dispatch c _

theorem peer_approvalFailed (a : FolderApproval) : (approvalFailed a).peer = a.origin.map (·.1) := by
  unfold approvalFailed
  split <;> simp_all [peer]

theorem peer_approvalDone (a : FolderApproval) : (approvalDone a).peer = a.origin.map (·.1) := by
  unfold approvalDone
  split <;> simp_all [peer]

/-- A task serves one connection throughout. -/
theorem peer_serverStep : (serverStep blake3 t s).1.peer = t.peer := by
  cases t with
  | accepted c => exact peer_receive blake3 c
  | respond c req a => cases a <;> rfl
  | storeGrantee a =>
    simp only [serverStep]
    split
    · exact peer_approvalFailed a
    · rfl
  | ensureFolder a =>
    simp only [serverStep]
    split
    · exact peer_approvalFailed a
    · split
      · exact peer_approvalFailed a
      · rfl
  | attachDevice a n =>
    simp only [serverStep]
    split
    · exact peer_approvalFailed a
    · split
      · exact peer_approvalFailed a
      · exact peer_approvalDone a
  | session | listShares | holdFolder | refileFolder | approvePairing | dropPending | denyPairing
  | approveFolder | denyFolder | closed => rfl
  | hold | store | lookupGrant | lookupDenial | lookupTrust | storeApproved =>
    simp only [serverStep]
    repeat' split
    all_goals rfl
  | admission | recordAddr | authenticate | lookupShare =>
    simp only [serverStep]
    repeat' split
    all_goals rfl

/-- The task is a connection whose request is still to be looked at. -/
def ServerTask.asks : ServerTask → Bool
  | accepted _ => true
  | listShares _ => true
  | lookupShare _ _ => true
  | _ => false

/-- Once a request has been looked at, it is not looked at again. -/
theorem asks_serverStep (ht : ∀ c, t ≠ accepted c) : (serverStep blake3 t s).1.asks = false := by
  cases t with
  | accepted c => exact absurd rfl (ht c)
  | respond c req a => cases a <;> rfl
  | storeGrantee a | ensureFolder a | attachDevice a n =>
    simp only [serverStep, approvalFailed, approvalDone]
    repeat' split
    all_goals rfl
  | session | listShares | holdFolder | refileFolder | approvePairing | dropPending | denyPairing
  | approveFolder | denyFolder | closed => rfl
  | hold | store | lookupGrant | lookupDenial | lookupTrust | storeApproved | admission | recordAddr
  | authenticate | lookupShare =>
    simp only [serverStep]
    repeat' split
    all_goals rfl

/-- No step leads back to a connection just accepted. -/
theorem serverStep_ne_accepted (c : Inbound) : (serverStep blake3 t s).1 ≠ accepted c := by
  intro h
  by_cases ht : ∃ d, t = accepted d
  · obtain ⟨d, rfl⟩ := ht
    have hreceive : receive blake3 d = accepted c := h
    rw [receive_eq] at hreceive
    cases hreq : d.request blake3 with
    | none => simp [hreq] at hreceive
    | some m =>
      rw [hreq, Option.map_some, Option.getD_some] at hreceive
      cases m <;> cases hreceive
  · have hasks : (serverStep blake3 t s).1.asks = false := asks_serverStep fun d hd => ht ⟨d, hd⟩
    rw [h] at hasks
    cases hasks

/-- The policy and who the server is are for its lifetime. -/
theorem fixed_serverStep : (serverStep blake3 t s).2.policy = s.policy ∧
    (serverStep blake3 t s).2.info = s.info := by
  cases t with
  | respond c req a => cases a <;> exact ⟨rfl, rfl⟩
  | accepted | session | listShares | holdFolder | refileFolder | approvePairing | dropPending
  | denyPairing | approveFolder | denyFolder | closed => exact ⟨rfl, rfl⟩
  | hold | store | lookupGrant | lookupDenial | lookupTrust | storeApproved | storeGrantee
  | ensureFolder | attachDevice | admission | recordAddr | authenticate | lookupShare =>
    simp only [serverStep]
    repeat' split
    all_goals exact ⟨rfl, rfl⟩

theorem policy_serverStep : (serverStep blake3 t s).2.policy = s.policy := fixed_serverStep.1

/-- **What a step can hold.** A device is held when its connection asks to be
paired. -/
theorem pending_serverStep {p : PendingPairing}
    (hp : p ∈ (serverStep blake3 t s).2.gate.pending) : p ∈ s.gate.pending ∨
      ∃ c req, t = hold c req ∧ p = ⟨c.identity blake3 req.deviceId, req.deviceName, c.cert⟩ := by
  cases t with
  | hold c req =>
    simp only [serverStep] at hp
    split_ifs at hp
    · exact Or.inl hp
    · exact Or.inl hp
    · rw [Server.emit, List.mem_append, List.mem_singleton] at hp
      exact hp.imp_right fun h => ⟨c, req, rfl, h⟩
  | dropPending id => exact Or.inl (List.mem_of_mem_filter hp)
  | denyPairing id => exact Or.inl (List.mem_of_mem_filter hp)
  | respond c req a => cases a <;> exact Or.inl hp
  | holdFolder c req =>
    left
    simp only [serverStep, Server.emit, PairGateInner.holdFolder] at hp
    split at hp <;> exact hp
  | accepted | session | listShares | refileFolder | approvePairing | approveFolder | denyFolder
  | closed => exact Or.inl hp
  | store | lookupGrant | lookupDenial | lookupTrust | storeApproved | storeGrantee
  | ensureFolder | attachDevice | admission | recordAddr | authenticate | lookupShare =>
    left
    simp only [serverStep] at hp
    repeat' split at hp
    all_goals exact hp

/-- The certificate that a step stores, and for which device: that of a
connection that is accepted, or of a device that is approved. -/
def pinned (blake3 : Bytes → FileHash) (t : ServerTask) (s : Server) : Option (String × Bytes) :=
  if s.failing then none
  else match t with
    | store c req => c.cert.map (Prod.mk (c.identity blake3 req.deviceId))
    | storeApproved id _ cert => cert.map (Prod.mk id)
    | _ => none

/-- **What a step does to the certificates.** -/
theorem cert_serverStep (id : String) : (serverStep blake3 t s).2.storage.getDeviceCert id =
    match pinned blake3 t s with
    | some (i, x) => if id = i then some x else s.storage.getDeviceCert id
    | none => s.storage.getDeviceCert id := by
  cases t with
  | store c req =>
    by_cases hfail : s.failing = true
    · simp only [serverStep, pinned, if_pos hfail]
      rfl
    · simp only [serverStep, pinned, if_neg hfail, Server.emit]
      cases hcert : c.cert with
      | none => exact Storage.cert_upsertDevice_none id
      | some x => exact Storage.cert_upsertDevice id
  | storeApproved i name cert =>
    by_cases hfail : s.failing = true
    · simp only [serverStep, pinned, if_pos hfail]
      rfl
    · simp only [serverStep, pinned, if_neg hfail]
      cases cert with
      | none => exact Storage.cert_upsertDevice_none id
      | some x => exact Storage.cert_upsertDevice id
  | storeGrantee a =>
    by_cases hfail : s.failing = true
    · simp only [serverStep, pinned, if_pos hfail]
      rfl
    · simp only [serverStep, pinned, if_neg hfail]
      exact Storage.cert_upsertDevice_none id
  | recordAddr c req =>
    simp only [serverStep, pinned, ite_self]
    split
    · rfl
    · split_ifs
      · rfl
      · exact Storage.cert_setDeviceLastAddr id
  | ensureFolder a =>
    simp only [serverStep, pinned, ite_self]
    split_ifs
    · rfl
    · split
      · rfl
      · rename_i hok
        rw [Storage.getDeviceCert, Storage.devices_ensureFolderByGuid hok, ← Storage.getDeviceCert]
  | attachDevice a n =>
    simp only [serverStep, pinned, ite_self]
    split_ifs
    · rfl
    · split
      · rfl
      · rename_i hok
        rw [Storage.getDeviceCert, Storage.devices_addFolderDevice hok, ← Storage.getDeviceCert]
  | respond c req a =>
    simp only [pinned, ite_self]
    cases a <;> rfl
  | accepted | session | listShares | holdFolder | refileFolder | approvePairing | dropPending
  | denyPairing | approveFolder | denyFolder | closed =>
    simp only [pinned, ite_self]
    rfl
  | hold | lookupGrant | lookupDenial | lookupTrust | admission | authenticate | lookupShare =>
    simp only [serverStep, pinned, ite_self]
    repeat' split
    all_goals rfl

theorem pinned_cases {i : String} {x : Bytes} (h : pinned blake3 t s = some (i, x)) :
    (∃ c req, t = store c req ∧ c.cert = some x ∧ i = certToDeviceId blake3 x) ∨
      ∃ name, t = storeApproved i name (some x) := by
  unfold pinned at h
  split_ifs at h
  split at h
  · rename_i c req
    obtain ⟨y, hy, heq⟩ := Option.map_eq_some_iff.mp h
    cases heq
    refine Or.inl ⟨c, req, rfl, hy, ?_⟩
    unfold Inbound.identity
    rw [hy]
  · rename_i id name cert
    obtain ⟨y, hy, heq⟩ := Option.map_eq_some_iff.mp h
    cases heq
    exact Or.inr ⟨name, by rw [hy]⟩
  · cases h

/-- **What a step can store.** A certificate is stored when its connection is
accepted, or when the operator approves the device that was held with it. -/
theorem stores_serverStep {x : Bytes} (hx : (serverStep blake3 t s).2.storage.Stores x) :
    s.storage.Stores x ∨ (∃ c req, t = store c req ∧ c.cert = some x) ∨
      ∃ id name, t = storeApproved id name (some x) := by
  obtain ⟨id, hid⟩ := hx
  rw [cert_serverStep] at hid
  split at hid
  · rename_i i y hpin
    split_ifs at hid
    · cases hid
      rcases pinned_cases hpin with ⟨c, req, ht, hcert, -⟩ | ⟨name, ht⟩
      · exact Or.inr (Or.inl ⟨c, req, ht, hcert⟩)
      · exact Or.inr (Or.inr ⟨i, name, ht⟩)
    · exact Or.inl ⟨id, hid⟩
  · exact Or.inl ⟨id, hid⟩

/-- The task is about to admit its connection, or has. -/
def ServerTask.admits : ServerTask → Bool
  | respond _ _ .accept => true
  | t => t.admitted

theorem admits_dispatch (c : Inbound) (m : SyncMessage) : (dispatch c m).admits = false ∧
    ∀ id name x, dispatch c m ≠ storeApproved id name (some x) := by
  cases m <;> simp [dispatch, ServerTask.admits, admitted]

theorem admits_receive (blake3 : Bytes → FileHash) (c : Inbound) :
    (receive blake3 c).admits = false ∧
      ∀ id name x, receive blake3 c ≠ storeApproved id name (some x) := by
  have hclosed : (closed (some c) none).admits = false ∧
      ∀ id name x, closed (some c) none ≠ storeApproved id name (some x) := by
    simp [ServerTask.admits, admitted]
  unfold receive
  split
  · exact hclosed
  · split
    · exact hclosed
    · split_ifs
      · exact hclosed
      · split
        · exact hclosed
        · exact admits_dispatch c _
  · exact admits_dispatch c _

/-- The operator approves a device with the certificate it is held with. -/
theorem storeApproved_serverStep {id name : String} {x : Bytes}
    (h : (serverStep blake3 t s).1 = storeApproved id name (some x)) :
    ∃ p ∈ s.gate.pending, p.deviceId = id ∧ p.certDer = some x := by
  cases t with
  | approvePairing i n =>
    simp only [serverStep, storeApproved.injEq] at h
    obtain ⟨rfl, rfl, hcert⟩ := h
    obtain ⟨p, hp, hx⟩ := Option.bind_eq_some_iff.mp hcert
    exact ⟨p, List.mem_of_find?_eq_some hp, by simpa using List.find?_some hp, hx⟩
  | accepted c => exact absurd h ((admits_receive blake3 c).2 id name x)
  | respond c req a => cases a <;> cases h
  | storeGrantee a | ensureFolder a | attachDevice a n =>
    simp only [serverStep, approvalFailed, approvalDone] at h
    repeat' split at h
    all_goals cases h
  | session | listShares | holdFolder | refileFolder | dropPending | denyPairing | approveFolder
  | denyFolder | closed => cases h
  | hold | store | lookupGrant | lookupDenial | lookupTrust | storeApproved | admission | recordAddr
  | authenticate | lookupShare =>
    simp only [serverStep] at h
    repeat' split at h
    all_goals cases h

/-! ### What stands behind a task -/

theorem ServerTask.admits_of_admitted (h : t.admitted = true) : t.admits = true := by
  cases t with
  | respond c req a => cases h
  | _ => exact h

/-- A connection is admitted for a good certificate, and a certificate is stored
by approval only under the identifier made from it, which has been approved. -/
structure ServerTask.Sound (blake3 : Bytes → FileHash) (good : Bytes → Prop)
    (approved : String → Prop) (t : ServerTask) : Prop where
  admits : t.admits = true → ∃ c x, t.peer = some c ∧ c.cert = some x ∧ good x
  approves : ∀ id name x, t = storeApproved id name (some x) →
    id = certToDeviceId blake3 x ∧ approved id

variable {good : Bytes → Prop} {approved : String → Prop}

theorem ServerTask.Sound.mono {good' : Bytes → Prop} {approved' : String → Prop}
    (h : t.Sound blake3 good approved) (hgood : ∀ x, good x → good' x)
    (happroved : ∀ id, approved id → approved' id) : t.Sound blake3 good' approved' where
  admits ha := by
    obtain ⟨c, x, hc, hx, hg⟩ := h.admits ha
    exact ⟨c, x, hc, hx, hgood x hg⟩
  approves id name x ht := (h.approves id name x ht).imp_right (happroved id)

/-- A task that neither admits nor stores anything. -/
theorem ServerTask.Sound.of_idle (hadmits : t.admits = false)
    (hstores : ∀ id name x, t ≠ storeApproved id name (some x)) : t.Sound blake3 good approved where
  admits h := by
    rw [hadmits] at h
    cases h
  approves id name x ht := absurd ht (hstores id name x)

/-- **What stands behind the next step.** A connection whose certificate is
found is admitted, a device that is held is approved with what it is held
with. -/
theorem sound_serverStep (ht : t.Sound blake3 good approved) (hpolicy : s.policy = .confirm)
    (hfound : ∀ c x, t.peer = some c → c.cert = some x →
      (∃ y, s.storage.Stores y ∧ blake3 y = blake3 x) → good x)
    (hheld : (∃ id name, t = approvePairing id name) → ∀ p ∈ s.gate.pending, ∀ x,
      p.certDer = some x → p.deviceId = certToDeviceId blake3 x)
    (happroved : ∀ id name, t = approvePairing id name → s.gate.isHeld id = true → approved id) :
    (serverStep blake3 t s).1.Sound blake3 good approved := by
  cases t with
  | accepted c =>
    obtain ⟨h1, h2⟩ := admits_receive blake3 c
    exact .of_idle h1 h2
  | admission c req =>
    have hauto : decide (s.policy = .autoAccept) = false := by
      rw [hpolicy]
      rfl
    simp only [serverStep]
    cases hcert : c.cert with
    | none =>
      dsimp only
      rw [if_neg (of_decide_eq_false hauto)]
      exact .of_idle rfl (by simp)
    | some x =>
      dsimp only
      split_ifs with hknown
      · refine ⟨fun _ => ⟨c, x, rfl, hcert, hfound c x rfl hcert ?_⟩, by simp⟩
        rw [hauto, Bool.or_false, Bool.and_eq_true] at hknown
        exact Storage.getDeviceByCertFingerprint_isSome.mp hknown.2
      · exact .of_idle rfl (by simp)
  | authenticate c idx =>
    simp only [serverStep]
    cases hcert : c.cert with
    | none => exact .of_idle rfl (by simp)
    | some x =>
      dsimp only
      split_ifs with hknown
      · refine ⟨fun _ => ⟨c, x, rfl, hcert, hfound c x rfl hcert ?_⟩, by simp⟩
        rw [Bool.and_eq_true] at hknown
        exact Storage.getDeviceByCertFingerprint_isSome.mp hknown.2
      · exact .of_idle rfl (by simp)
  | respond c req a =>
    cases a with
    | accept => exact ⟨fun _ => ht.admits rfl, by simp [serverStep]⟩
    | hold => exact .of_idle rfl (by simp [serverStep])
    | deny => exact .of_idle rfl (by simp [serverStep])
  | store c req =>
    simp only [serverStep]
    split_ifs
    · exact ⟨fun _ => ht.admits rfl, by simp⟩
    · exact ⟨fun _ => ht.admits rfl, by simp⟩
  | recordAddr c req =>
    simp only [serverStep]
    repeat' split
    all_goals exact ⟨fun _ => ht.admits rfl, by simp⟩
  | session c idx => exact ht
  | closed c sent => exact ht
  | approvePairing id name =>
    refine ⟨fun h => (by cases h), fun id' name' x hx => ?_⟩
    simp only [serverStep, storeApproved.injEq] at hx
    obtain ⟨rfl, rfl, hx⟩ := hx
    obtain ⟨p, hp, hcert⟩ := Option.bind_eq_some_iff.mp hx
    have hid : p.deviceId = id := by simpa using List.find?_some hp
    have hmem := List.mem_of_find?_eq_some hp
    refine ⟨hid.symm.trans (hheld ⟨id, name, rfl⟩ p hmem x hcert), happroved id name rfl ?_⟩
    exact List.any_eq_true.mpr ⟨p, hmem, by simp [hid]⟩
  | storeGrantee a | ensureFolder a | attachDevice a n =>
    simp only [serverStep, approvalFailed, approvalDone]
    repeat' split
    all_goals exact .of_idle rfl (by simp)
  | dropPending | denyPairing | approveFolder | denyFolder | listShares | holdFolder
  | refileFolder => exact .of_idle rfl (by simp [serverStep])
  | hold | lookupGrant | lookupDenial | lookupTrust | storeApproved | lookupShare =>
    simp only [serverStep]
    repeat' split
    all_goals exact .of_idle rfl (by simp)

end

/-! ### A run -/

section

variable {ι : Type} [DecidableEq ι] (blake3 : Bytes → FileHash)
  (w : Tasks.Shared ι ServerTask Server)

/-- At some point of the run the operator has approved the device, and it was
held then. -/
def ApprovedWhileHeld (schedule : List ι) (id : String) : Prop :=
  ∃ pre i post name, schedule = pre ++ i :: post ∧
    (Tasks.run (serverStep blake3) w pre).task i = approvePairing id name ∧
    (Tasks.run (serverStep blake3) w pre).state.gate.isHeld id = true

/-- The certificate was stored from the start, or its device has been approved
while it was held. -/
def Consented (schedule : List ι) (x : Bytes) : Prop :=
  w.state.storage.Stores x ∨ ApprovedWhileHeld blake3 w schedule (certToDeviceId blake3 x)

/-- The certificates of a run: those stored and those that are presented. -/
def certificates : Set Bytes :=
  {x | w.state.storage.Stores x ∨ ∃ i c, (w.task i).peer = some c ∧ c.cert = some x}

/-- What holds in every state of a run. -/
structure ConsentInv (schedule : List ι) (v : Tasks.Shared ι ServerTask Server) : Prop where
  policy : v.state.policy = .confirm
  stored : ∀ x, v.state.storage.Stores x → Consented blake3 w schedule x
  held : ∀ p ∈ v.state.gate.pending, ∀ x, p.certDer = some x → p.deviceId = certToDeviceId blake3 x
  peer : ∀ i, (v.task i).peer = (w.task i).peer
  sound : ∀ i, (v.task i).Sound blake3 (Consented blake3 w schedule)
    (ApprovedWhileHeld blake3 w schedule)

variable {blake3 w}

theorem ApprovedWhileHeld.mono {schedule : List ι} {id : String} (i : ι)
    (h : ApprovedWhileHeld blake3 w schedule id) :
    ApprovedWhileHeld blake3 w (schedule ++ [i]) id := by
  obtain ⟨pre, j, post, name, rfl, htask, hheld⟩ := h
  exact ⟨pre, j, post ++ [i], name, by simp, htask, hheld⟩

theorem Consented.mono {schedule : List ι} {x : Bytes} (i : ι)
    (h : Consented blake3 w schedule x) : Consented blake3 w (schedule ++ [i]) x :=
  h.imp_right (ApprovedWhileHeld.mono i)

/-- What holds of every state of a run holds after one more step. -/
theorem consentInv_turn (hinj : Set.InjOn (certToDeviceId blake3) (certificates w))
    {schedule : List ι} (h : ConsentInv blake3 w schedule (Tasks.run (serverStep blake3) w schedule))
    (i : ι) : ConsentInv blake3 w (schedule ++ [i])
      (Tasks.turn (serverStep blake3) (Tasks.run (serverStep blake3) w schedule) i) := by
  generalize hv : Tasks.run (serverStep blake3) w schedule = v at h
  have hsound : ∀ j, (v.task j).Sound blake3 (Consented blake3 w (schedule ++ [i]))
      (ApprovedWhileHeld blake3 w (schedule ++ [i])) := fun j =>
    (h.sound j).mono (fun x => Consented.mono i) fun id => ApprovedWhileHeld.mono i
  refine ⟨policy_serverStep.trans h.policy, fun x hx => ?_, fun p hp x hx => ?_, fun j => ?_,
    fun j => ?_⟩
  · rcases stores_serverStep hx with hx | ⟨c, req, ht, hx⟩ | ⟨id, name, ht⟩
    · exact (h.stored x hx).mono i
    · obtain ⟨c', x', hc', hx', hgood⟩ := (hsound i).admits (by rw [ht]; rfl)
      rw [ht] at hc'
      cases hc'
      rw [hx] at hx'
      cases hx'
      exact hgood
    · obtain ⟨hid, happroved⟩ := (hsound i).approves id name x ht
      exact Or.inr (hid ▸ happroved)
  · rcases pending_serverStep hp with hp | ⟨c, req, -, rfl⟩
    · exact h.held p hp x hx
    · show c.identity blake3 req.deviceId = certToDeviceId blake3 x
      rw [Inbound.identity, show c.cert = some x from hx]
  · by_cases hji : j = i
    · subst hji
      simp only [Tasks.turn, Function.update_self]
      exact peer_serverStep.trans (h.peer j)
    · simp only [Tasks.turn, Function.update_of_ne hji]
      exact h.peer j
  · by_cases hji : j = i
    · subst hji
      simp only [Tasks.turn, Function.update_self]
      refine sound_serverStep (hsound j) h.policy (fun c x hc hx hfound => ?_) (fun _ => h.held)
        fun id name ht hheld => ⟨schedule, j, [], name, rfl, by rw [hv, ht], by rw [hv, hheld]⟩
      obtain ⟨y, hy, hhash⟩ := hfound
      have hid := certToDeviceId_congr hhash
      rcases h.stored y hy with hinit | happ
      · have hx' : x ∈ certificates w := Or.inr ⟨j, c, by rw [← h.peer, hc], hx⟩
        have heq : y = x := hinj (Or.inl hinit) hx' hid
        exact Or.inl (heq ▸ hinit)
      · exact Or.inr (ApprovedWhileHeld.mono j (hid ▸ happ))
    · simp only [Tasks.turn, Function.update_of_ne hji]
      exact hsound j

/-- A task that begins has nothing behind it. -/
theorem ServerTask.Sound.of_begins {t : ServerTask} {good : Bytes → Prop} {approved : String → Prop}
    (h : t.begins = true) : t.Sound blake3 good approved := by
  cases t with
  | accepted | approvePairing | denyPairing | approveFolder | denyFolder =>
    exact .of_idle rfl (by simp)
  | _ => cases h

theorem consentInv_run (hpolicy : w.state.policy = .confirm) (hgate : w.state.gate = .new)
    (hbegins : ∀ i, (w.task i).begins = true)
    (hinj : Set.InjOn (certToDeviceId blake3) (certificates w)) (schedule : List ι) :
    ConsentInv blake3 w schedule (Tasks.run (serverStep blake3) w schedule) := by
  refine Tasks.run_invariant _ ?_ (fun schedule i h => consentInv_turn hinj h i) schedule
  refine ⟨hpolicy, fun x hx => Or.inl hx, fun p hp => ?_, fun i => rfl, fun i =>
    .of_begins (hbegins i)⟩
  rw [hgate] at hp
  cases hp

end

/-- **Nobody is admitted without consent.** On a server that holds unknown
devices, let any connections come, with any certificates and messages, and any
commands of the operator, in any order of their steps. Every connection that
is admitted has a certificate that was stored at the start or whose device the
operator has approved while it was held, and only such a certificate is ever
stored. That no two certificates of the run have one identifier is assumed. -/
theorem admitted_consented {ι : Type} [DecidableEq ι] (blake3 : Bytes → FileHash)
    (w : Tasks.Shared ι ServerTask Server) (hpolicy : w.state.policy = .confirm)
    (hgate : w.state.gate = .new) (hbegins : ∀ i, (w.task i).begins = true)
    (hinj : Set.InjOn (certToDeviceId blake3) (certificates w)) (schedule : List ι) :
    (∀ i, ((Tasks.run (serverStep blake3) w schedule).task i).admitted = true →
      ∃ c x, (w.task i).peer = some c ∧ c.cert = some x ∧ Consented blake3 w schedule x) ∧
    ∀ x, (Tasks.run (serverStep blake3) w schedule).state.storage.Stores x →
      Consented blake3 w schedule x := by
  have h := consentInv_run hpolicy hgate hbegins hinj schedule
  refine ⟨fun i hi => ?_, h.stored⟩
  obtain ⟨c, x, hc, hx, hgood⟩ := (h.sound i).admits (ServerTask.admits_of_admitted hi)
  exact ⟨c, x, by rw [← h.peer, hc], hx, hgood⟩

/-- A server with nothing stored, about to serve whoever is approved. -/
def sampleServer : Server where
  policy := .confirm
  info := ⟨"server", "Desktop", []⟩
  gate := .new
  storage := ⟨∅, [], ∅, [], 1⟩
  events := []
  faults := []

/-- A device asks to be paired, the operator approves it, and the device comes
back with its index. -/
def sampleTasks : Fin 3 → ServerTask
  | 0 => accepted ⟨some [97], none, [.pairRequest ⟨"claimed", "Phone", []⟩]⟩
  | 1 => approvePairing (certToDeviceId sampleBlake3 [97]) "Phone"
  | 2 => accepted ⟨some [97], none, [.index ⟨"1", "claimed", none, []⟩]⟩

theorem admitted_consented_paired :
    ((Tasks.run (serverStep sampleBlake3) ⟨sampleTasks, sampleServer⟩
      [0, 0, 0, 0, 1, 1, 1, 2, 2]).task 2).admitted = true ∧
    Consented sampleBlake3 ⟨sampleTasks, sampleServer⟩ [0, 0, 0, 0, 1, 1, 1, 2, 2] [97] := by
  have hadmitted : ((Tasks.run (serverStep sampleBlake3) ⟨sampleTasks, sampleServer⟩
      [0, 0, 0, 0, 1, 1, 1, 2, 2]).task 2).admitted = true := by decide +kernel
  have hbegins : ∀ i, (sampleTasks i).begins = true := by decide
  have honly : ∀ x ∈ certificates ⟨sampleTasks, sampleServer⟩, x = [97] := by
    rintro x (⟨id, hid⟩ | ⟨i, c, hc, hx⟩)
    · cases hid
    · have hpeers : ∀ i, (sampleTasks i).peer.bind (·.cert) = none ∨
          (sampleTasks i).peer.bind (·.cert) = some [97] := by decide
      have hbind : (sampleTasks i).peer.bind (·.cert) = some x := by rw [hc, Option.bind_some, hx]
      rcases hpeers i with h | h
      · rw [h] at hbind
        cases hbind
      · rw [h] at hbind
        exact (Option.some.inj hbind).symm
  have h := admitted_consented sampleBlake3 ⟨sampleTasks, sampleServer⟩ rfl rfl hbegins
    (fun x hx y hy _ => (honly x hx).trans (honly y hy).symm) [0, 0, 0, 0, 1, 1, 1, 2, 2]
  obtain ⟨c, x, hc, hx, hconsented⟩ := h.1 2 hadmitted
  cases hc
  cases hx
  exact ⟨hadmitted, hconsented⟩

end FerriSync
