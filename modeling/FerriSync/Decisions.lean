/-
# The operator's last decision

The operator approves and denies devices and folder pairs, while connections ask
for them. What is denied is remembered apart from what is approved, neither is
forgotten when the other is decided, and each request looks at them in one order:
the devices' certificates before the denials, the grants before the denials.

So an earlier decision can stand in the way of the last one: a device that was
denied is not held any more when it asks, and then its approval stores no
certificate; a pair that was approved is granted whatever is decided afterwards
(`decisions_shadowed`). Where the operator never decides so, the last decision wins
in every run (`last_decision_wins`).

Key definitions: `Asked`, `DecidesFreshly`, `LastDecisionWins`.
Key theorems: `accepts_approved`, `denies_denied`, `rejects_denied`,
`last_decision_wins`.
-/
import FerriSync.Consent
import FerriSync.Trust
import Mathlib.Tactic.IntervalCases

namespace FerriSync

open ServerTask

section

variable {ι : Type} [DecidableEq ι] (blake3 : Bytes → FileHash)
  (w : Tasks.Shared ι ServerTask Server)

/-- A task after some steps. -/
def taskAt (steps : List ι) (i : ι) : ServerTask := (Tasks.run (serverStep blake3) w steps).task i

/-- The server after some steps. -/
def serverAt (steps : List ι) : Server := (Tasks.run (serverStep blake3) w steps).state

/-- The device has asked to be paired, with the certificate. -/
def Asked (steps : List ι) (id : String) (x : Bytes) : Prop :=
  ∃ pre i c req, pre ++ [i] <+: steps ∧ taskAt blake3 w pre i = hold c req ∧ c.cert = some x ∧
    c.identity blake3 req.deviceId = id

/-- The certificate that the device is held with. -/
def PairGateInner.heldCert (g : PairGateInner) (id : String) : Option Bytes :=
  (g.pending.find? fun p => decide (p.deviceId = id)).bind (·.certDer)

/-- The step does not decide against what an earlier decision has left behind:
a device is approved while it is held, or when the certificate it asked with is
stored; it is denied while no acceptance of it is to be stored; a folder pair is
denied if it was never granted, and not granted by itself once it is denied. And an
admission gets its answer from the database. -/
def DecidesFreshly (pre : List ι) (i : ι) : Prop :=
  match taskAt blake3 w pre i with
  | admission _ _ => (serverAt blake3 w pre).failing = false
  | approvePairing id _ => ((serverAt blake3 w pre).gate.heldCert id).isSome = true ∨
      ∀ x, Asked blake3 w pre id x → (serverAt blake3 w pre).storage.getDeviceCert id = some x
  | denyPairing id => ∀ j c req,
      taskAt blake3 w pre j = respond c req .accept ∨ taskAt blake3 w pre j = store c req →
        c.identity blake3 req.deviceId ≠ id
  | denyFolder id guid => (serverAt blake3 w pre).gate.folderApproved.lookup (id, guid) = none
  | approveFolder a => a.origin.isSome = true →
      (a.deviceId, a.folderGuid) ∉ (serverAt blake3 w pre).gate.folderDenied
  | _ => True

/-- **The operator's last decision wins**, at every point of a run. -/
structure LastDecisionWins (schedule : List ι) : Prop where
  /-- After an approval that has returned `Ok`, of a device that had asked, its next
  admission with that certificate is accepted. -/
  approved : ∀ {pre ret next j i id name x c req}, taskAt blake3 w pre j = approvePairing id name →
    Asked blake3 w pre id x → pre ++ [j] <+: ret → taskAt blake3 w ret j = dropPending id →
    ret ++ [j] <+: next → taskAt blake3 w next i = admission c req → c.cert = some x →
    next ++ [i] <+: schedule → taskAt blake3 w (next ++ [i]) i = respond c req .accept
  /-- After the denial of a device without a stored certificate its admissions are
  denied, as long as it is not approved. -/
  denied : ∀ {pre next j i id c req}, taskAt blake3 w pre j = denyPairing id →
    (∀ x, certToDeviceId blake3 x = id → ¬(serverAt blake3 w pre).storage.Stores x) →
    pre ++ [j] <+: next →
    (∀ mid k name cert, pre ++ [j] <+: mid → mid ++ [k] <+: next →
      taskAt blake3 w mid k ≠ storeApproved id name cert) →
    c.identity blake3 req.deviceId = id → next ++ [i] <+: schedule →
    (taskAt blake3 w next i = admission c req → taskAt blake3 w (next ++ [i]) i = hold c req) ∧
      (taskAt blake3 w next i = hold c req →
        taskAt blake3 w (next ++ [i]) i = respond c req .deny)
  /-- After the approval of a folder pair it is granted. -/
  granted : ∀ {pre next j i a c req localPath}, taskAt blake3 w pre j = approveFolder a →
    pre ++ [j] <+: next → taskAt blake3 w next i = lookupGrant c req localPath →
    (req.deviceId, req.folderGuid) = (a.deviceId, a.folderGuid) → next ++ [i] <+: schedule →
    ∃ g, taskAt blake3 w (next ++ [i]) i = closed (some c) (some (.folderPairApproved g))
  /-- After its denial it is rejected, as long as the operator does not approve it. -/
  rejected : ∀ {pre next j i id guid c req localPath}, taskAt blake3 w pre j = denyFolder id guid →
    pre ++ [j] <+: next →
    (∀ mid k a, pre ++ [j] <+: mid → mid ++ [k] <+: next → taskAt blake3 w mid k = approveFolder a →
      a.origin = none → (a.deviceId, a.folderGuid) ≠ (id, guid)) →
    (req.deviceId, req.folderGuid) = (id, guid) → next ++ [i] <+: schedule →
    (taskAt blake3 w next i = lookupGrant c req localPath →
        taskAt blake3 w (next ++ [i]) i = lookupDenial c req localPath) ∧
      (taskAt blake3 w next i = lookupDenial c req localPath →
        taskAt blake3 w (next ++ [i]) i = closed (some c) (some (.folderPairRejected "denied")))

end

section

variable {ι : Type} [DecidableEq ι] {blake3 : Bytes → FileHash}
  {w : Tasks.Shared ι ServerTask Server}

/-- The task whose turn it is. -/
theorem taskAt_concat (steps : List ι) (i : ι) : taskAt blake3 w (steps ++ [i]) i =
    (serverStep blake3 (taskAt blake3 w steps i) (serverAt blake3 w steps)).1 := by
  unfold taskAt
  rw [Tasks.run_concat]
  exact Function.update_self ..

/-- Another task. -/
theorem taskAt_concat_ne {i k : ι} (h : k ≠ i) (steps : List ι) :
    taskAt blake3 w (steps ++ [i]) k = taskAt blake3 w steps k := by
  unfold taskAt
  rw [Tasks.run_concat]
  exact Function.update_of_ne h ..

theorem serverAt_concat (steps : List ι) (i : ι) : serverAt blake3 w (steps ++ [i]) =
    (serverStep blake3 (taskAt blake3 w steps i) (serverAt blake3 w steps)).2 := by
  unfold serverAt
  rw [Tasks.run_concat]
  rfl

/-! ### Folder pairs -/

theorem grants_approved {pre next : List ι} {j i : ι} {a : FolderApproval} {c : Inbound}
    {req : RemoteFolderPairRequest} {localPath : String}
    (hj : taskAt blake3 w pre j = approveFolder a) (hle : pre ++ [j] <+: next)
    (hi : taskAt blake3 w next i = lookupGrant c req localPath)
    (hkey : (req.deviceId, req.folderGuid) = (a.deviceId, a.folderGuid)) :
    ∃ g, taskAt blake3 w (next ++ [i]) i = closed (some c) (some (.folderPairApproved g)) := by
  have hgrant : ((serverAt blake3 w next).gate.folderApproved.lookup
      (a.deviceId, a.folderGuid)).isSome = true := by
    refine Tasks.since (I := fun steps => ((serverAt blake3 w steps).gate.folderApproved.lookup
      (a.deviceId, a.folderGuid)).isSome = true) hle ?_ fun mid k _ _ h => ?_
    · rw [serverAt_concat, hj]
      simp only [serverStep]
      rw [AList.lookup_insert]
      rfl
    · rw [serverAt_concat]
      exact granted_serverStep h
  obtain ⟨g, hg⟩ := Option.isSome_iff_exists.mp hgrant
  refine ⟨g, ?_⟩
  rw [taskAt_concat, hi, lookupGrant_step, hkey, hg]

theorem rejects_denied {schedule pre next : List ι} {j i : ι} {id guid : String} {c : Inbound}
    {req : RemoteFolderPairRequest} {localPath : String}
    (hfresh : ∀ mid k, mid ++ [k] <+: schedule → DecidesFreshly blake3 w mid k)
    (hj : taskAt blake3 w pre j = denyFolder id guid) (hle : pre ++ [j] <+: next)
    (happroved : ∀ mid k a, pre ++ [j] <+: mid → mid ++ [k] <+: next →
      taskAt blake3 w mid k = approveFolder a → a.origin = none →
      (a.deviceId, a.folderGuid) ≠ (id, guid))
    (hkey : (req.deviceId, req.folderGuid) = (id, guid)) (hnext : next ++ [i] <+: schedule) :
    (taskAt blake3 w next i = lookupGrant c req localPath →
        taskAt blake3 w (next ++ [i]) i = lookupDenial c req localPath) ∧
      (taskAt blake3 w next i = lookupDenial c req localPath →
        taskAt blake3 w (next ++ [i]) i = closed (some c) (some (.folderPairRejected "denied"))) := by
  have hwithin : next <+: schedule := (List.prefix_append _ _).trans hnext
  have hdenied : (serverAt blake3 w next).gate.folderApproved.lookup (id, guid) = none ∧
      (id, guid) ∈ (serverAt blake3 w next).gate.folderDenied := by
    refine Tasks.since (I := fun steps =>
      (serverAt blake3 w steps).gate.folderApproved.lookup (id, guid) = none ∧
        (id, guid) ∈ (serverAt blake3 w steps).gate.folderDenied) hle ?_
      fun mid k hmid hk h => ?_
    · have hnone := hfresh pre j (hle.trans hwithin)
      unfold DecidesFreshly at hnone
      rw [hj] at hnone
      rw [serverAt_concat, hj]
      exact ⟨hnone, Finset.mem_insert_self _ _⟩
    · rw [serverAt_concat]
      refine ⟨?_, denied_serverStep h.2⟩
      rcases @grant_serverStep blake3 (serverAt blake3 w mid) (taskAt blake3 w mid k) (id, guid) with
        hsame | ⟨a, ha, ha'⟩
      · rw [hsame]
        exact h.1
      · exfalso
        have hauto := hfresh mid k (hk.trans hwithin)
        unfold DecidesFreshly at hauto
        rw [ha] at hauto
        cases horigin : a.origin with
        | none => exact happroved mid k a hmid hk ha horigin ha'.symm
        | some o =>
          refine hauto (by rw [horigin]; rfl) ?_
          rw [← ha']
          exact h.2
  refine ⟨fun hi => ?_, fun hi => ?_⟩
  · rw [taskAt_concat, hi, lookupGrant_step, hkey, hdenied.1]
  · rw [taskAt_concat, hi, lookupDenial_step, hkey, if_pos hdenied.2]

/-! ### What devices are held with -/

variable (blake3 w) in
/-- A device is held, and approved, with the certificate that its identifier is made
from. -/
structure HeldInv (steps : List ι) : Prop where
  policy : (serverAt blake3 w steps).policy = w.state.policy
  peer : ∀ i, (taskAt blake3 w steps i).peer = (w.task i).peer
  held : ∀ p ∈ (serverAt blake3 w steps).gate.pending, ∀ x, p.certDer = some x →
    p.deviceId = certToDeviceId blake3 x ∧ x ∈ certificates w
  approving : ∀ i id name x, taskAt blake3 w steps i = storeApproved id name (some x) →
    id = certToDeviceId blake3 x ∧ x ∈ certificates w

theorem heldInv_concat {steps : List ι} (h : HeldInv blake3 w steps) (i : ι) :
    HeldInv blake3 w (steps ++ [i]) where
  policy := by
    rw [serverAt_concat, policy_serverStep]
    exact h.policy
  peer j := by
    by_cases hji : j = i
    · rw [hji, taskAt_concat, peer_serverStep]
      exact h.peer i
    · rw [taskAt_concat_ne hji]
      exact h.peer j
  held p hp x hx := by
    rw [serverAt_concat] at hp
    rcases pending_serverStep hp with hp | ⟨c, req, ht, rfl⟩
    · exact h.held p hp x hx
    · have hcert : c.cert = some x := hx
      have hpeer : (w.task i).peer = some c := by
        rw [← h.peer, ht]
        rfl
      refine ⟨?_, Or.inr ⟨i, c, hpeer, hcert⟩⟩
      show c.identity blake3 req.deviceId = _
      rw [Inbound.identity, hcert]
  approving j id name x hj := by
    by_cases hji : j = i
    · rw [hji, taskAt_concat] at hj
      obtain ⟨p, hp, rfl, hx⟩ := storeApproved_serverStep hj
      exact h.held p hp x hx
    · rw [taskAt_concat_ne hji] at hj
      exact h.approving j id name x hj

theorem heldInv_run (hgate : w.state.gate = .new) (hbegins : ∀ i, (w.task i).begins = true)
    (steps : List ι) : HeldInv blake3 w steps := by
  refine Tasks.since (I := HeldInv blake3 w) List.nil_prefix ?_ fun mid i _ _ h => heldInv_concat h i
  refine ⟨rfl, fun i => rfl, fun p hp => ?_, fun i id name x hi => ?_⟩
  · have hpending : p ∈ w.state.gate.pending := hp
    rw [hgate] at hpending
    cases hpending
  · have htask : w.task i = storeApproved id name (some x) := hi
    have hbegin := hbegins i
    rw [htask] at hbegin
    cases hbegin

/-- A certificate that has been stored under its identifier stays there. -/
theorem cert_concat (hinj : Set.InjOn (certToDeviceId blake3) (certificates w)) {steps : List ι}
    (h : HeldInv blake3 w steps) {x : Bytes} (hx : x ∈ certificates w)
    (hstored : (serverAt blake3 w steps).storage.getDeviceCert (certToDeviceId blake3 x) = some x)
    (i : ι) :
    (serverAt blake3 w (steps ++ [i])).storage.getDeviceCert (certToDeviceId blake3 x) = some x := by
  rw [serverAt_concat, cert_serverStep]
  split
  · rename_i id y hpin
    by_cases hid : certToDeviceId blake3 x = id
    · rw [if_pos hid]
      have hy : id = certToDeviceId blake3 y ∧ y ∈ certificates w := by
        rcases pinned_cases hpin with ⟨c, req, ht, hcert, hid'⟩ | ⟨name, ht⟩
        · have hpeer : (w.task i).peer = some c := by
            rw [← h.peer, ht]
            rfl
          exact ⟨hid', Or.inr ⟨i, c, hpeer, hcert⟩⟩
        · exact h.approving i id name y ht
      rw [hinj hx hy.2 (hid.trans hy.1)]
    · rw [if_neg hid]
      exact hstored
  · exact hstored

/-- The lookup of an admission finds the certificate. -/
def Server.knows (blake3 : Bytes → FileHash) (s : Server) (c : Inbound) : Bool :=
  match c.cert with
  | some x => !s.failing && (s.storage.getDeviceByCertFingerprint blake3 (blake3 x)).isSome
  | none => false

theorem knows_iff {s : Server} {c : Inbound} : s.knows blake3 c = true ↔
    ∃ x, c.cert = some x ∧ s.failing = false ∧ ∃ y, s.storage.Stores y ∧ blake3 y = blake3 x := by
  unfold Server.knows
  cases hcert : c.cert with
  | none => simp
  | some x =>
    dsimp only
    rw [Bool.and_eq_true, Bool.not_eq_true', Storage.getDeviceByCertFingerprint_isSome]
    simp

theorem admission_step {s : Server} {c : Inbound} {req : PairRequest} (hpolicy : s.policy = .confirm) :
    (serverStep blake3 (admission c req) s).1 =
      if s.knows blake3 c then respond c req .accept else hold c req := by
  unfold Server.knows
  simp only [serverStep, hpolicy]
  cases c.cert with
  | none => rfl
  | some x =>
    have hauto : decide (PairPolicy.confirm = PairPolicy.autoAccept) = false := by decide
    dsimp only
    rw [hauto, Bool.or_false]
    split_ifs <;> rfl

/-! ### Devices that are approved -/

/-- An approval under way will store the certificate, or has stored it, or has failed. -/
def Approving (blake3 : Bytes → FileHash) (w : Tasks.Shared ι ServerTask Server) (j : ι) (x : Bytes)
    (steps : List ι) : Prop :=
  (serverAt blake3 w steps).storage.getDeviceCert (certToDeviceId blake3 x) = some x ∨
    (∃ name, taskAt blake3 w steps j = storeApproved (certToDeviceId blake3 x) name (some x)) ∨
    taskAt blake3 w steps j = closed none none

theorem approving_concat (hinj : Set.InjOn (certToDeviceId blake3) (certificates w)) {steps : List ι}
    (hheld : HeldInv blake3 w steps) {x : Bytes} (hx : x ∈ certificates w) {j : ι}
    (h : Approving blake3 w j x steps) (i : ι) : Approving blake3 w j x (steps ++ [i]) := by
  rcases h with hstored | ⟨name, hj⟩ | hj
  · exact Or.inl (cert_concat hinj hheld hx hstored i)
  · by_cases hji : j = i
    · subst hji
      by_cases hfail : (serverAt blake3 w steps).failing = true
      · refine Or.inr (Or.inr ?_)
        rw [taskAt_concat, hj]
        simp only [serverStep, if_pos hfail]
      · refine Or.inl ?_
        rw [serverAt_concat, hj, cert_serverStep]
        simp only [pinned, if_neg hfail, Option.map_some, if_pos]
    · exact Or.inr (Or.inl ⟨name, (taskAt_concat_ne hji steps).trans hj⟩)
  · refine Or.inr (Or.inr ?_)
    by_cases hji : j = i
    · subst hji
      rw [taskAt_concat, hj]
      rfl
    · exact (taskAt_concat_ne hji steps).trans hj

/-- Who has asked has presented the certificate. -/
theorem Asked.presented {steps : List ι} {id : String} {x : Bytes} (hgate : w.state.gate = .new)
    (hbegins : ∀ i, (w.task i).begins = true) (h : Asked blake3 w steps id x) :
    x ∈ certificates w ∧ id = certToDeviceId blake3 x := by
  obtain ⟨pre, i, c, req, _, hi, hcert, hid⟩ := h
  have hpeer : (w.task i).peer = some c := by
    rw [← (heldInv_run hgate hbegins pre).peer, hi]
    rfl
  refine ⟨Or.inr ⟨i, c, hpeer, hcert⟩, ?_⟩
  rw [← hid, Inbound.identity, hcert]

theorem accepts_approved (hpolicy : w.state.policy = .confirm) (hgate : w.state.gate = .new)
    (hbegins : ∀ i, (w.task i).begins = true)
    (hinj : Set.InjOn (certToDeviceId blake3) (certificates w)) {schedule pre ret next : List ι}
    {j i : ι} {id name : String} {x : Bytes} {c : Inbound} {req : PairRequest}
    (hfresh : ∀ mid k, mid ++ [k] <+: schedule → DecidesFreshly blake3 w mid k)
    (hj : taskAt blake3 w pre j = approvePairing id name) (hasked : Asked blake3 w pre id x)
    (hret : pre ++ [j] <+: ret) (hdone : taskAt blake3 w ret j = dropPending id)
    (hlater : ret ++ [j] <+: next) (hi : taskAt blake3 w next i = admission c req)
    (hcert : c.cert = some x) (hnext : next ++ [i] <+: schedule) :
    taskAt blake3 w (next ++ [i]) i = respond c req .accept := by
  obtain ⟨hx, rfl⟩ := hasked.presented hgate hbegins
  have hret' : ret <+: next := (List.prefix_append _ _).trans hlater
  have hwithin : pre ++ [j] <+: schedule :=
    hret.trans (hret'.trans ((List.prefix_append _ _).trans hnext))
  -- The approval begins with the certificate, or it is stored already.
  have hbegun : Approving blake3 w j x (pre ++ [j]) := by
    have hfresh' := hfresh pre j hwithin
    unfold DecidesFreshly at hfresh'
    rw [hj] at hfresh'
    rcases hfresh' with hheld | hstored
    · obtain ⟨y, hy⟩ := Option.isSome_iff_exists.mp hheld
      obtain ⟨p, hp, hpy⟩ := Option.bind_eq_some_iff.mp hy
      have hid : p.deviceId = certToDeviceId blake3 x := by simpa using List.find?_some hp
      obtain ⟨hid', hy'⟩ := (heldInv_run hgate hbegins pre).held p (List.mem_of_find?_eq_some hp) y hpy
      have hxy : y = x := hinj hy' hx (hid'.symm.trans hid)
      refine Or.inr (Or.inl ⟨name, ?_⟩)
      rw [taskAt_concat, hj]
      show storeApproved _ name ((serverAt blake3 w pre).gate.heldCert _) = _
      rw [hy, hxy]
    · refine Or.inl (cert_concat hinj (heldInv_run hgate hbegins pre) hx (hstored x hasked) j)
  have hstored : (serverAt blake3 w ret).storage.getDeviceCert (certToDeviceId blake3 x) = some x := by
    have happroving : Approving blake3 w j x ret :=
      Tasks.since (I := Approving blake3 w j x) hret hbegun fun mid k _ _ h =>
        approving_concat hinj (heldInv_run hgate hbegins mid) hx h k
    rcases happroving with hstored | ⟨name', hj'⟩ | hj'
    · exact hstored
    · rw [hdone] at hj'
      cases hj'
    · rw [hdone] at hj'
      cases hj'
  have hstill : (serverAt blake3 w next).storage.getDeviceCert (certToDeviceId blake3 x) = some x :=
    Tasks.since (I := fun steps =>
      (serverAt blake3 w steps).storage.getDeviceCert (certToDeviceId blake3 x) = some x)
      hret' hstored fun mid k _ _ h => cert_concat hinj (heldInv_run hgate hbegins mid) hx h k
  have hanswers := hfresh next i hnext
  unfold DecidesFreshly at hanswers
  rw [hi] at hanswers
  have hknows : (serverAt blake3 w next).knows blake3 c = true :=
    knows_iff.mpr ⟨x, hcert, hanswers, x, ⟨_, hstill⟩, rfl⟩
  rw [taskAt_concat, hi, admission_step ((heldInv_run hgate hbegins next).policy.trans hpolicy),
    if_pos hknows]

/-! ### Devices that are denied -/

/-- A device that is denied: no certificate of it is stored, or about to be. -/
structure DeniedInv (blake3 : Bytes → FileHash) (w : Tasks.Shared ι ServerTask Server) (id : String)
    (steps : List ι) : Prop where
  denied : id ∈ (serverAt blake3 w steps).gate.denied
  unknown : ∀ x, certToDeviceId blake3 x = id → ¬(serverAt blake3 w steps).storage.Stores x
  waits : ∀ j c req, taskAt blake3 w steps j = respond c req .accept ∨
    taskAt blake3 w steps j = store c req → c.identity blake3 req.deviceId ≠ id

/-- A device that has been denied stays so. -/
theorem deniedDevice_serverStep {t : ServerTask} {s : Server} {id : String} (h : id ∈ s.gate.denied) :
    id ∈ (serverStep blake3 t s).2.gate.denied := by
  cases t with
  | denyPairing i => exact Finset.mem_insert_of_mem h
  | respond c req a => cases a <;> exact h
  | holdFolder c req =>
    simp only [serverStep, Server.emit, PairGateInner.holdFolder]
    split <;> exact h
  | accepted | session | listShares | refileFolder | approvePairing | dropPending | approveFolder
  | denyFolder | closed => exact h
  | hold | store | lookupGrant | lookupDenial | lookupTrust | storeApproved | storeGrantee
  | ensureFolder | attachDevice | admission | recordAddr | authenticate | lookupShare =>
    simp only [serverStep]
    repeat' split
    all_goals exact h

/-- **Whom a step accepts.** -/
theorem accept_serverStep {t : ServerTask} {s : Server} {c : Inbound} {req : PairRequest}
    (hpolicy : s.policy = .confirm)
    (h : (serverStep blake3 t s).1 = respond c req .accept ∨ (serverStep blake3 t s).1 = store c req) :
    t = respond c req .accept ∨ t = admission c req ∧ ∃ x, c.cert = some x ∧
      ∃ y, s.storage.Stores y ∧ blake3 y = blake3 x := by
  cases t with
  | accepted d =>
    exfalso
    have hadmits := (admits_receive blake3 d).1
    rcases h with h | h
    · rw [show receive blake3 d = respond c req .accept from h] at hadmits
      cases hadmits
    · rw [show receive blake3 d = store c req from h] at hadmits
      cases hadmits
  | respond d r a =>
    cases a with
    | accept =>
      rcases h with h | h
      · cases h
      · cases h
        exact Or.inl rfl
    | _ => rcases h with h | h <;> cases h
  | admission d r =>
    right
    rw [admission_step hpolicy] at h
    split_ifs at h with hknows
    · obtain ⟨x, hcert, _, hfound⟩ := knows_iff.mp hknows
      rcases h with h | h
      · cases h
        exact ⟨rfl, x, hcert, hfound⟩
      · cases h
    · rcases h with h | h <;> cases h
  | storeGrantee a | ensureFolder a | attachDevice a n =>
    exfalso
    simp only [serverStep, approvalFailed, approvalDone] at h
    repeat' split at h
    all_goals rcases h with h | h <;> cases h
  | session | listShares | holdFolder | refileFolder | approvePairing | dropPending | denyPairing
  | approveFolder | denyFolder | closed => rcases h with h | h <;> cases h
  | hold | store | lookupGrant | lookupDenial | lookupTrust | storeApproved | recordAddr
  | authenticate | lookupShare =>
    exfalso
    simp only [serverStep] at h
    repeat' split at h
    all_goals rcases h with h | h <;> cases h

theorem deniedInv_concat (hpolicy : w.state.policy = .confirm) {steps : List ι} {id : String}
    (hheld : HeldInv blake3 w steps) (h : DeniedInv blake3 w id steps) {i : ι}
    (happroved : ∀ name cert, taskAt blake3 w steps i ≠ storeApproved id name cert) :
    DeniedInv blake3 w id (steps ++ [i]) where
  denied := by
    rw [serverAt_concat]
    exact deniedDevice_serverStep h.denied
  unknown x hx hstores := by
    rw [serverAt_concat] at hstores
    rcases stores_serverStep hstores with hstores | ⟨c, req, ht, hcert⟩ | ⟨i', name, ht⟩
    · exact h.unknown x hx hstores
    · refine h.waits i c req (Or.inr ht) ?_
      rw [Inbound.identity, hcert]
      exact hx
    · have hid : i' = certToDeviceId blake3 x := (hheld.approving i i' name x ht).1
      rw [hid, hx] at ht
      exact happroved name (some x) ht
  waits j c req hj hid := by
    by_cases hji : j = i
    · rw [hji, taskAt_concat] at hj
      rcases accept_serverStep (hheld.policy.trans hpolicy) hj with ht | ⟨_, x, hcert, y, hy, hhash⟩
      · exact h.waits i c req (Or.inl ht) hid
      · refine h.unknown y ?_ hy
        rw [certToDeviceId_congr hhash, ← hid, Inbound.identity, hcert]
    · rw [taskAt_concat_ne hji] at hj
      exact h.waits j c req hj hid

theorem denies_denied (hpolicy : w.state.policy = .confirm) (hgate : w.state.gate = .new)
    (hbegins : ∀ i, (w.task i).begins = true) {schedule pre next : List ι} {j i : ι} {id : String}
    {c : Inbound} {req : PairRequest}
    (hfresh : ∀ mid k, mid ++ [k] <+: schedule → DecidesFreshly blake3 w mid k)
    (hj : taskAt blake3 w pre j = denyPairing id)
    (hunknown : ∀ x, certToDeviceId blake3 x = id → ¬(serverAt blake3 w pre).storage.Stores x)
    (hle : pre ++ [j] <+: next)
    (happroved : ∀ mid k name cert, pre ++ [j] <+: mid → mid ++ [k] <+: next →
      taskAt blake3 w mid k ≠ storeApproved id name cert)
    (hid : c.identity blake3 req.deviceId = id) (hnext : next ++ [i] <+: schedule) :
    (taskAt blake3 w next i = admission c req → taskAt blake3 w (next ++ [i]) i = hold c req) ∧
      (taskAt blake3 w next i = hold c req →
        taskAt blake3 w (next ++ [i]) i = respond c req .deny) := by
  have hstart : DeniedInv blake3 w id (pre ++ [j]) := by
    have hfresh' := hfresh pre j (hle.trans ((List.prefix_append _ _).trans hnext))
    unfold DecidesFreshly at hfresh'
    rw [hj] at hfresh'
    refine ⟨?_, fun x hx => ?_, fun k d r hk => ?_⟩
    · rw [serverAt_concat, hj]
      exact Finset.mem_insert_self _ _
    · rw [serverAt_concat, hj]
      exact hunknown x hx
    · by_cases hkj : k = j
      · rw [hkj, taskAt_concat, hj] at hk
        rcases hk with hk | hk <;> cases hk
      · rw [taskAt_concat_ne hkj] at hk
        exact hfresh' k d r hk
  have hdenied : DeniedInv blake3 w id next :=
    Tasks.since (I := DeniedInv blake3 w id) hle hstart fun mid k hmid hk h =>
      deniedInv_concat hpolicy (heldInv_run hgate hbegins mid) h fun name cert =>
        happroved mid k name cert hmid hk
  refine ⟨fun hi => ?_, fun hi => ?_⟩
  · have hconfirm : (serverAt blake3 w next).policy = .confirm :=
      (heldInv_run hgate hbegins next).policy.trans hpolicy
    have hunknown : ¬(serverAt blake3 w next).knows blake3 c = true := fun hknows => by
      obtain ⟨x, hcert, _, y, hy, hhash⟩ := knows_iff.mp hknows
      refine hdenied.unknown y ?_ hy
      rw [certToDeviceId_congr hhash, ← hid, Inbound.identity, hcert]
    rw [taskAt_concat, hi, admission_step hconfirm, if_neg hunknown]
  · rw [taskAt_concat, hi]
    simp [serverStep, hid, hdenied.denied]

/-- **The last decision wins in every run in which none is made against what an
earlier one has left behind.** On a server that holds unknown devices, let any
connections come and the operator give any commands, in any order of their steps.
That no two certificates of the run have one identifier is assumed. -/
theorem last_decision_wins {ι : Type} [DecidableEq ι] (blake3 : Bytes → FileHash)
    (w : Tasks.Shared ι ServerTask Server) (hpolicy : w.state.policy = .confirm)
    (hgate : w.state.gate = .new) (hbegins : ∀ i, (w.task i).begins = true)
    (hinj : Set.InjOn (certToDeviceId blake3) (certificates w)) (schedule : List ι)
    (hfresh : ∀ pre i, pre ++ [i] <+: schedule → DecidesFreshly blake3 w pre i) :
    LastDecisionWins blake3 w schedule where
  approved hj hasked hret hdone hlater hi hcert hnext :=
    accepts_approved hpolicy hgate hbegins hinj hfresh hj hasked hret hdone hlater hi hcert hnext
  denied hj hunknown hle happroved hid hnext :=
    denies_denied hpolicy hgate hbegins hfresh hj hunknown hle happroved hid hnext
  granted hj hle hi hkey _ := grants_approved hj hle hi hkey
  rejected hj hle happroved hkey hnext := rejects_denied hfresh hj hle happroved hkey hnext

end

/-- The phone's connection: it asks to be paired. -/
def askingPhone : Inbound := ⟨some [97], none, [.pairRequest ⟨"phone", "Phone", []⟩]⟩

def phoneId : String := certToDeviceId sampleBlake3 [97]

/-- The phone asks, the operator approves it, and it asks again. -/
def approvedTasks : Fin 3 → ServerTask
  | 0 => accepted askingPhone
  | 1 => approvePairing phoneId "Phone"
  | 2 => accepted askingPhone

/-- Of connections of the phone, all certificates are one. -/
theorem injOn_phone {n : ℕ} {tasks : Fin n → ServerTask} {s : Server}
    (hstored : ∀ x, ¬s.storage.Stores x)
    (hpeers : ∀ i, (tasks i).peer.bind (·.cert) = none ∨ (tasks i).peer.bind (·.cert) = some [97]) :
    Set.InjOn (certToDeviceId sampleBlake3) (certificates ⟨tasks, s⟩) := by
  have honly : ∀ x ∈ certificates ⟨tasks, s⟩, x = [97] := by
    rintro x (hx | ⟨i, c, hc, hx⟩)
    · exact absurd hx (hstored x)
    · have hbind : (tasks i).peer.bind (·.cert) = some x := by
        rw [show (tasks i).peer = some c from hc, Option.bind_some, hx]
      rcases hpeers i with h | h
      · rw [h] at hbind
        cases hbind
      · rw [h] at hbind
        exact (Option.some.inj hbind).symm
  exact fun x hx y hy _ => (honly x hx).trans (honly y hy).symm

theorem sampleServer_stores (x : Bytes) : ¬sampleServer.storage.Stores x := by
  rintro ⟨id, hid⟩
  cases hid

/-- The points of a schedule, by the steps before. -/
theorem of_take {ι : Type} {schedule : List ι} {P : List ι → ι → Prop}
    (h : ∀ n (hn : n < schedule.length), P (schedule.take n) schedule[n]) (pre : List ι) (i : ι)
    (hpre : pre ++ [i] <+: schedule) : P pre i := by
  obtain ⟨post, rfl⟩ := hpre
  have hn := h pre.length (by simp)
  simpa using hn

theorem last_decision_wins_phone :
    LastDecisionWins sampleBlake3 ⟨approvedTasks, sampleServer⟩ [0, 0, 0, 0, 1, 1, 1, 2, 2] := by
  refine last_decision_wins sampleBlake3 ⟨approvedTasks, sampleServer⟩ rfl rfl (by decide)
    (injOn_phone sampleServer_stores (by decide)) _ (of_take fun n hn => ?_)
  have hlt : n < 9 := hn
  interval_cases n
  case «1» => exact (rfl : sampleServer.failing = false)
  case «8» => exact (rfl : false = false)
  case «4» =>
    refine Or.inl ?_
    decide +kernel
  all_goals trivial

/-- The phone asks, is denied, is approved, and asks again. -/
def deniedTasks : Fin 4 → ServerTask
  | 0 => accepted askingPhone
  | 1 => denyPairing phoneId
  | 2 => approvePairing phoneId "Phone"
  | 3 => accepted askingPhone

/-- A server with a folder that it shares. -/
def sharingServer : Server := { sampleServer with
  storage := { sampleServer.storage with
    sharedFolders := [⟨1, "guid", "server", "Music", "/srv/music", true, true, ""⟩] } }

def musicRequest : RemoteFolderPairRequest := ⟨"phone", "Phone", "guid", "Music", "bidirectional"⟩

/-- The operator approves the phone for the folder, denies it, and the phone asks for
the folder. -/
def regrantedTasks : Fin 3 → ServerTask
  | 0 => approveFolder ⟨phoneId, "guid", "Phone", "/srv/music", none, none⟩
  | 1 => denyFolder phoneId "guid"
  | 2 => accepted ⟨some [97], none, [.requestFolderPair musicRequest]⟩

/-- **Earlier decisions shadow the last one.** A device that has been denied is held
again although it was approved since; a folder pair that was approved is granted
although it was denied since. -/
theorem decisions_shadowed :
    ((∀ i, (deniedTasks i).begins = true) ∧
      Set.InjOn (certToDeviceId sampleBlake3) (certificates ⟨deniedTasks, sampleServer⟩) ∧
      ¬LastDecisionWins sampleBlake3 ⟨deniedTasks, sampleServer⟩ [0, 0, 0, 0, 1, 2, 2, 2, 3, 3, 3]) ∧
    (∀ i, (regrantedTasks i).begins = true) ∧
      Set.InjOn (certToDeviceId sampleBlake3) (certificates ⟨regrantedTasks, sharingServer⟩) ∧
      ¬LastDecisionWins sampleBlake3 ⟨regrantedTasks, sharingServer⟩ [0, 1, 2, 2, 2] := by
  have hinj : Set.InjOn (certToDeviceId sampleBlake3) (certificates ⟨regrantedTasks, sharingServer⟩) := by
    refine injOn_phone ?_ (by decide)
    rintro x ⟨id, hid⟩
    cases hid
  refine ⟨⟨by decide, injOn_phone sampleServer_stores (by decide), fun hwins => ?_⟩, by decide, hinj,
    fun hwins => ?_⟩
  · have hasked : Asked sampleBlake3 ⟨deniedTasks, sampleServer⟩ [0, 0, 0, 0, 1] phoneId [97] :=
      ⟨[0, 0], 0, askingPhone, ⟨"phone", "Phone", []⟩, by decide, rfl, rfl, rfl⟩
    have hret : ([0, 0, 0, 0, 1] : List (Fin 4)) ++ [2] <+: [0, 0, 0, 0, 1, 2, 2] := by decide
    have hlater : ([0, 0, 0, 0, 1, 2, 2] : List (Fin 4)) ++ [2] <+: [0, 0, 0, 0, 1, 2, 2, 2, 3] := by
      decide
    have hlast : ([0, 0, 0, 0, 1, 2, 2, 2, 3] : List (Fin 4)) ++ [3] <+:
        [0, 0, 0, 0, 1, 2, 2, 2, 3, 3, 3] := by decide
    have haccept : taskAt sampleBlake3 ⟨deniedTasks, sampleServer⟩ [0, 0, 0, 0, 1, 2, 2, 2, 3, 3] 3 =
        respond askingPhone ⟨"phone", "Phone", []⟩ .accept :=
      hwins.approved rfl hasked hret rfl hlater rfl rfl hlast
    cases haccept
  · have hafter : ∀ mid k, mid ++ [k] <+: [0, 1, 2, 2] → [0] ++ [1] <+: mid →
        ∀ a, taskAt sampleBlake3 ⟨regrantedTasks, sharingServer⟩ mid k ≠ approveFolder a := by
      refine of_take fun n hn hmid a ha => ?_
      have hlt : n < 4 := hn
      interval_cases n
      · exact absurd hmid (by decide)
      · exact absurd hmid (by decide)
      · cases ha
      · cases ha
    have hdeny : taskAt sampleBlake3 ⟨regrantedTasks, sharingServer⟩ [0] 1 =
        denyFolder phoneId "guid" := rfl
    have hle : ([0] : List (Fin 3)) ++ [1] <+: [0, 1, 2, 2] := by decide
    have hlast : ([0, 1, 2, 2] : List (Fin 3)) ++ [2] <+: [0, 1, 2, 2, 2] := by decide
    have hreject : taskAt sampleBlake3 ⟨regrantedTasks, sharingServer⟩ [0, 1, 2, 2, 2] 2 =
        lookupDenial ⟨some [97], none, [.requestFolderPair musicRequest]⟩
          { musicRequest with deviceId := phoneId } "/srv/music" :=
      (hwins.rejected hdeny hle (fun mid k a hmid hk ha _ => absurd ha (hafter mid k hk hmid a)) rfl
        hlast).1 rfl
    cases hreject

end FerriSync
