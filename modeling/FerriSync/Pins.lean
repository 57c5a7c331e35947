/-
# Pins

A device serves connections and its operator, and itself dials others for
sessions and for pairings; their steps come in any order, over one registry
(`nodeStep`). A certificate that is stored for a device is a pin. Pairing
stores a certificate under the identifier made from it, but a session stores
the first one it meets under the identifier it was started with, whatever
device presents it (`dialStep`). Pins stay as they are if no session pins a
certificate under the identifier of another one that pairs, nor after another
has been stored since it looked (`pins_stable`).

Key definitions: `DialTask`, `nodeStep`, `MayPair`, `CleanFirstUse`.
Key theorems: `dialStep_alone`, `pinInv_turn`, `pins_stable`.
-/
import FerriSync.Outbound
import FerriSync.Pairing
import FerriSync.Replies

namespace FerriSync

open ServerTask

/-! ### Dialling -/

/-- A session this device starts, once it is connected, and a pairing, once it
is accepted, by what they do next. -/
inductive DialTask
  | connected (call : SessionCall) (cert : Option Bytes)
  | pinning (call : SessionCall) (cert : Bytes)
  | proceeding (call : SessionCall) (cert : Option Bytes)
  | aborted
  | pairing (addr : String) (cert : Option Bytes) (resp : PairResponse)
  | paired (cert : Option Bytes) (resp : PairResponse)

section

variable (blake3 : Bytes → FileHash) (own : Bytes)

open DialTask

/-- A session looks the certificate up, and stores it in a second call if there
was none. -/
def dialStep : DialTask → Server → DialTask × Server
  | connected call none, s => (proceeding call none, s)
  | connected call (some peer), s =>
    if peer = own then (aborted, s)
    else if s.failing then (aborted, s.called)
    else match s.storage.getDeviceCert call.deviceId with
      | some stored =>
        if peer ≠ stored then (aborted, s.called) else (proceeding call (some peer), s.called)
      | none => (pinning call peer, s.called)
  | pinning call peer, s =>
    if s.failing then (aborted, s.called)
    else (proceeding call (some peer), { s.called with
      storage := s.storage.setDeviceCert call.deviceId peer })
  | proceeding call cert, s => (proceeding call cert, s)
  | aborted, s => (aborted, s)
  | pairing addr cert resp, s =>
    if s.failing then (aborted, s.called)
    else (paired cert resp, { s.called with
      storage := s.storage.upsertDevice (hostId blake3 cert resp) resp.deviceName cert
        (some addr) })
  | paired cert resp, s => (paired cert resp, s)

/-- What runs on a device: the server's tasks and its own. -/
def nodeStep : ServerTask ⊕ DialTask → Server → (ServerTask ⊕ DialTask) × Server
  | .inl t, s => (.inl (serverStep blake3 t s).1, (serverStep blake3 t s).2)
  | .inr t, s => (.inr (dialStep blake3 own t s).1, (dialStep blake3 own t s).2)

/-- The task has not begun to use the registry: a connection, a command, a
session or a pairing that comes. -/
def nodeBegins : ServerTask ⊕ DialTask → Bool
  | .inl t => t.begins
  | .inr (connected _ _) => true
  | .inr (pairing _ _ _) => true
  | .inr _ => false

/-- The certificate by which a session or a pairing stores something, and the
device it stores it for. -/
def dialPinned (t : DialTask) (s : Server) : Option (String × Bytes) :=
  if s.failing then none
  else match t with
    | pinning call peer => some (call.deviceId, peer)
    | pairing _ cert resp => cert.map (Prod.mk (hostId blake3 cert resp))
    | _ => none

def nodePinned : ServerTask ⊕ DialTask → Server → Option (String × Bytes)
  | .inl t, s => pinned blake3 t s
  | .inr t, s => dialPinned blake3 t s

end

section

variable {blake3 : Bytes → FileHash} {own : Bytes} {s : Server}

/-- With the registry to itself, a session does what its check does. -/
theorem dialStep_alone (hfaults : s.faults = []) (call : SessionCall) (peer : Option Bytes) :
    let once := dialStep blake3 own (.connected call peer) s
    let twice := dialStep blake3 own once.1 once.2
    match checkPeer blake3 own call peer s.storage with
    | .ok storage => twice.1 = .proceeding call peer ∧ twice.2.storage = storage
    | .error _ => twice.1 = .aborted ∧ twice.2.storage = s.storage := by
  have hfailing : s.failing = false := by
    unfold Server.failing
    rw [hfaults]
    rfl
  have hfailing' : s.called.failing = false := by
    unfold Server.called Server.failing
    rw [hfaults]
    rfl
  have hcalled : s.called.storage = s.storage := rfl
  cases peer with
  | none => exact ⟨rfl, rfl⟩
  | some peer =>
    unfold checkPeer
    by_cases hown : peer = own
    · simp [dialStep, hown]
    · cases hstored : s.storage.getDeviceCert call.deviceId with
      | none => simp [dialStep, hown, hfailing, hfailing', hstored, hcalled]
      | some stored =>
        by_cases hpeer : peer = stored
        · subst hpeer
          simp [dialStep, hown, hfailing, hstored, hcalled]
        · simp [dialStep, hown, hfailing, hstored, hpeer, hcalled]

/-- **What a step of the device does to the certificates.** -/
theorem cert_nodeStep (t : ServerTask ⊕ DialTask) (id : String) :
    (nodeStep blake3 own t s).2.storage.getDeviceCert id =
      match nodePinned blake3 t s with
      | some (i, x) => if id = i then some x else s.storage.getDeviceCert id
      | none => s.storage.getDeviceCert id := by
  cases t with
  | inl t => exact cert_serverStep id
  | inr t =>
    unfold nodeStep nodePinned dialPinned
    cases t with
    | pinning call peer =>
      by_cases hfail : s.failing = true
      · simp only [dialStep, if_pos hfail]
        rfl
      · simp only [dialStep, if_neg hfail]
        exact Storage.cert_setDeviceCert id
    | pairing addr cert resp =>
      by_cases hfail : s.failing = true
      · simp only [dialStep, if_pos hfail]
        rfl
      · simp only [dialStep, if_neg hfail]
        cases cert with
        | none => exact Storage.cert_upsertDevice_none id
        | some x => exact Storage.cert_upsertDevice id
    | connected call peer =>
      cases peer with
      | none =>
        simp only [ite_self]
        rfl
      | some peer =>
        simp only [dialStep, ite_self]
        repeat' split
        all_goals rfl
    | proceeding | aborted | paired =>
      simp only [ite_self]
      rfl

end

/-! ### Who pairs -/

/-- The connection whose pairing request the server is dealing with, or has
answered. -/
def ServerTask.pairing : ServerTask → Option Inbound
  | admission c _ => some c
  | hold c _ => some c
  | respond c _ _ => some c
  | store c _ => some c
  | recordAddr c _ => some c
  | closed (some c) (some (.pairResponse _)) => some c
  | _ => none

section

variable {ι : Type} (blake3 : Bytes → FileHash) (own : Bytes)
  (w : Tasks.Shared ι (ServerTask ⊕ DialTask) Server)

/-- Somebody comes with the certificate to be paired, or accepts a pairing with
it, or is held with it. -/
def MayPair (x : Bytes) : Prop :=
  (∃ i c req, w.task i = .inl (accepted c) ∧ c.cert = some x ∧
    c.request blake3 = some (.pairRequest req)) ∨
  (∃ i addr resp, w.task i = .inr (.pairing addr (some x) resp)) ∨
  ∃ p ∈ w.state.gate.pending, p.certDer = some x

variable [DecidableEq ι]

/-- Wherever a session pins the certificate it has met, no other has been
stored since it looked, and no other certificate of that identifier may pair. -/
def CleanFirstUse (schedule : List ι) : Prop :=
  ∀ pre i post call z, schedule = pre ++ i :: post →
    (Tasks.run (nodeStep blake3 own) w pre).task i = .inr (.pinning call z) →
    (∀ y, (Tasks.run (nodeStep blake3 own) w pre).state.storage.getDeviceCert call.deviceId = some y →
      y = z) ∧
    ∀ x, MayPair blake3 w x → certToDeviceId blake3 x = call.deviceId → x = z

/-- What holds of a task in every state of a run. -/
structure NodeTaskInv (s : Server) (t : ServerTask ⊕ DialTask) : Prop where
  first : ∀ c, t = .inl (accepted c) → ∀ x req, c.cert = some x →
    c.request blake3 = some (.pairRequest req) → MayPair blake3 w x
  pairs : ∀ u c x, t = .inl u → u.pairing = some c → c.cert = some x → MayPair blake3 w x
  approves : ∀ id name x, t = .inl (storeApproved id name (some x)) →
    id = certToDeviceId blake3 x ∧ MayPair blake3 w x
  dials : ∀ addr x resp, t = .inr (.pairing addr (some x) resp) → MayPair blake3 w x
  proceeds : ∀ call x, t = .inr (.proceeding call (some x)) →
    s.storage.getDeviceCert call.deviceId = some x
  paired : ∀ x resp, t = .inr (.paired (some x) resp) →
    s.storage.getDeviceCert (certToDeviceId blake3 x) = some x

/-- What holds in every state of a run. -/
structure PinInv (v : Tasks.Shared ι (ServerTask ⊕ DialTask) Server) : Prop where
  pins : ∀ id y, v.state.storage.getDeviceCert id = some y → ∀ x, MayPair blake3 w x →
    certToDeviceId blake3 x = id → x = y
  held : ∀ p ∈ v.state.gate.pending, ∀ x, p.certDer = some x →
    p.deviceId = certToDeviceId blake3 x ∧ MayPair blake3 w x
  tasks : ∀ i, NodeTaskInv blake3 w v.state (v.task i)

end

section

variable {blake3 : Bytes → FileHash} {own : Bytes} {t : ServerTask} {s : Server} {c : Inbound}

/-- **Who is dealt with as a pairing**: a connection that was, or one just
accepted that asks for it. -/
theorem pairing_serverStep (h : (serverStep blake3 t s).1.pairing = some c) :
    t.pairing = some c ∨ t = accepted c ∧ ∃ req, c.request blake3 = some (.pairRequest req) := by
  cases t with
  | accepted d =>
    right
    have hreceive : (receive blake3 d).pairing = some c := h
    rw [receive_eq] at hreceive
    cases hreq : d.request blake3 with
    | none =>
      rw [hreq] at hreceive
      cases hreceive
    | some m =>
      rw [hreq, Option.map_some, Option.getD_some] at hreceive
      cases m <;> cases hreceive
      exact ⟨rfl, _, hreq⟩
  | respond d req a => cases a <;> exact Or.inl h
  | closed d sent => exact Or.inl h
  | storeGrantee a | ensureFolder a | attachDevice a n =>
    simp only [serverStep, approvalFailed, approvalDone] at h
    repeat' split at h
    all_goals cases h
  | session | listShares | holdFolder | refileFolder | approvePairing | dropPending | denyPairing
  | approveFolder | denyFolder => cases h
  | hold | store | admission | recordAddr =>
    left
    simp only [serverStep] at h
    repeat' split at h
    all_goals exact h
  | lookupGrant | lookupDenial | lookupTrust | storeApproved | authenticate | lookupShare =>
    simp only [serverStep] at h
    repeat' split at h
    all_goals cases h

variable {ι : Type} {w v : Tasks.Shared ι (ServerTask ⊕ DialTask) Server}
  {n : ServerTask ⊕ DialTask}

/-- What a step pins is pinned by a pairing, or by a session that found nothing. -/
theorem nodePinned_cases (h : NodeTaskInv blake3 w s n) {i : String} {x : Bytes}
    (hpin : nodePinned blake3 n s = some (i, x)) :
    (i = certToDeviceId blake3 x ∧ MayPair blake3 w x) ∨
      ∃ call, n = .inr (.pinning call x) ∧ i = call.deviceId := by
  cases n with
  | inl t =>
    left
    rcases pinned_cases hpin with ⟨c, req, rfl, hcert, rfl⟩ | ⟨name, rfl⟩
    · exact ⟨rfl, h.pairs _ c x rfl rfl hcert⟩
    · exact h.approves i name x rfl
  | inr t =>
    replace hpin : dialPinned blake3 t s = some (i, x) := hpin
    unfold dialPinned at hpin
    split_ifs at hpin
    cases t with
    | pinning call peer =>
      cases hpin
      exact Or.inr ⟨call, rfl, rfl⟩
    | pairing addr cert resp =>
      left
      obtain ⟨y, hy, heq⟩ := Option.map_eq_some_iff.mp hpin
      cases heq
      subst hy
      exact ⟨rfl, h.dials addr x resp rfl⟩
    | connected | proceeding | aborted | paired => cases hpin

/-- The step, if it is a session's first use, is a clean one. -/
def CleanStep (blake3 : Bytes → FileHash) (w : Tasks.Shared ι (ServerTask ⊕ DialTask) Server)
    (s : Server) (n : ServerTask ⊕ DialTask) : Prop :=
  ∀ call z, n = .inr (.pinning call z) →
    (∀ y, s.storage.getDeviceCert call.deviceId = some y → y = z) ∧
      ∀ x, MayPair blake3 w x → certToDeviceId blake3 x = call.deviceId → x = z

/-- **A clean step leaves the pins as they are.** -/
theorem pinned_stays (h : PinInv blake3 w v) {i : ι} (hclean : CleanStep blake3 w v.state (v.task i))
    {id : String} {y : Bytes} (hy : v.state.storage.getDeviceCert id = some y) :
    (nodeStep blake3 own (v.task i) v.state).2.storage.getDeviceCert id = some y := by
  rw [cert_nodeStep]
  split
  · rename_i j x hpin
    split_ifs with hj
    · subst hj
      rcases nodePinned_cases (h.tasks i) hpin with ⟨hid, hpairs⟩ | ⟨call, htask, rfl⟩
      · rw [h.pins id y hy x hpairs hid.symm]
      · rw [((hclean call x htask).1 y hy)]
    · exact hy
  · exact hy

/-- The pins that a clean step leaves are those of no other certificate that
pairs. -/
theorem pins_nodeStep (hinj : Set.InjOn (certToDeviceId blake3) {x | MayPair blake3 w x})
    (h : PinInv blake3 w v) {i : ι} (hclean : CleanStep blake3 w v.state (v.task i)) {id : String}
    {y : Bytes} (hy : (nodeStep blake3 own (v.task i) v.state).2.storage.getDeviceCert id = some y)
    {x : Bytes} (hx : MayPair blake3 w x) (hid : certToDeviceId blake3 x = id) : x = y := by
  rw [cert_nodeStep] at hy
  split at hy
  · rename_i j z hpin
    split_ifs at hy with hj
    · cases hy
      subst hj
      rcases nodePinned_cases (h.tasks i) hpin with ⟨hz, hpairs⟩ | ⟨call, htask, rfl⟩
      · exact hinj hx hpairs (hid.trans hz)
      · exact (hclean call y htask).2 x hx hid
    · exact h.pins id y hy x hx hid
  · exact h.pins id y hy x hx hid

/-- What is held is held by a connection that asks to be paired. -/
theorem held_nodeStep (h : PinInv blake3 w v) (i : ι) :
    ∀ p ∈ (nodeStep blake3 own (v.task i) v.state).2.gate.pending, ∀ x, p.certDer = some x →
      p.deviceId = certToDeviceId blake3 x ∧ MayPair blake3 w x := by
  intro p hp x hx
  cases ht : v.task i with
  | inl t =>
    rw [ht] at hp
    rcases pending_serverStep hp with hp | ⟨c, req, rfl, rfl⟩
    · exact h.held p hp x hx
    · refine ⟨?_, (h.tasks i).pairs _ c x ht rfl hx⟩
      show c.identity blake3 req.deviceId = certToDeviceId blake3 x
      rw [Inbound.identity, show c.cert = some x from hx]
  | inr t =>
    rw [ht] at hp
    refine h.held p ?_ x hx
    cases t with
    | connected call peer =>
      cases peer with
      | none => exact hp
      | some peer =>
        simp only [nodeStep, dialStep] at hp
        repeat' split at hp
        all_goals exact hp
    | pinning | pairing =>
      simp only [nodeStep, dialStep] at hp
      split at hp <;> exact hp
    | proceeding | aborted | paired => exact hp

/-- A task that is not moved keeps what it has, as long as the pins stay. -/
theorem NodeTaskInv.mono {s' : Server} (h : NodeTaskInv blake3 w s n)
    (hpins : ∀ id y, s.storage.getDeviceCert id = some y → s'.storage.getDeviceCert id = some y) :
    NodeTaskInv blake3 w s' n where
  first := h.first
  pairs := h.pairs
  approves := h.approves
  dials := h.dials
  proceeds call x hn := hpins _ x (h.proceeds call x hn)
  paired x resp hn := hpins _ x (h.paired x resp hn)

/-- A server's task that has moved. -/
theorem taskInv_serverStep (h : PinInv blake3 w v) {i : ι} {t : ServerTask}
    (ht : v.task i = .inl t) {s' : Server} :
    NodeTaskInv blake3 w s' (.inl (serverStep blake3 t v.state).1) := by
  have htask := h.tasks i
  rw [ht] at htask
  refine ⟨fun c hc => ?_, fun u c x hu hpairing hx => ?_, fun id name x happ => ?_,
    fun _ _ _ hd => (by cases hd), fun _ _ hd => (by cases hd), fun _ _ hd => (by cases hd)⟩
  · exact absurd (Sum.inl.inj hc) (serverStep_ne_accepted c)
  · cases Sum.inl.inj hu
    rcases pairing_serverStep hpairing with hold | ⟨rfl, req, hreq⟩
    · exact htask.pairs t c x rfl hold hx
    · exact htask.first c rfl x req hx hreq
  · obtain ⟨p, hp, rfl, hx⟩ := storeApproved_serverStep (Sum.inl.inj happ)
    exact h.held p hp x hx

theorem dialStep_ne_pairing {t : DialTask} (addr : String) (cert : Option Bytes)
    (resp : PairResponse) : (dialStep blake3 own t s).1 ≠ .pairing addr cert resp := by
  intro h
  cases t with
  | connected call peer =>
    cases peer with
    | none => cases h
    | some peer =>
      simp only [dialStep] at h
      repeat' split at h
      all_goals cases h
  | pinning | pairing =>
    simp only [dialStep] at h
    split at h <;> cases h
  | proceeding | aborted | paired => cases h

/-- A session goes on with the pin it has found or made. -/
theorem proceeding_dialStep {t : DialTask} {call : SessionCall} {x : Bytes}
    (hold : t = .proceeding call (some x) → s.storage.getDeviceCert call.deviceId = some x)
    (h : (dialStep blake3 own t s).1 = .proceeding call (some x)) :
    (dialStep blake3 own t s).2.storage.getDeviceCert call.deviceId = some x := by
  cases t with
  | connected call' peer =>
    cases peer with
    | none => cases h
    | some peer =>
      simp only [dialStep] at h ⊢
      split_ifs at h ⊢
      split at h
      · rename_i stored hstored
        split_ifs at h ⊢ with hpeer
        cases h
        rw [not_not.mp hpeer]
        exact hstored
      · cases h
  | pinning call' peer =>
    simp only [dialStep] at h ⊢
    split_ifs at h ⊢
    cases h
    rw [Storage.cert_setDeviceCert, if_pos rfl]
  | pairing addr cert resp =>
    simp only [dialStep] at h
    split at h <;> cases h
  | proceeding => exact hold h
  | aborted | paired => cases h

/-- A pairing that is over has left its pin. -/
theorem paired_dialStep {t : DialTask} {x : Bytes} {resp : PairResponse}
    (hold : t = .paired (some x) resp →
      s.storage.getDeviceCert (certToDeviceId blake3 x) = some x)
    (h : (dialStep blake3 own t s).1 = .paired (some x) resp) :
    (dialStep blake3 own t s).2.storage.getDeviceCert (certToDeviceId blake3 x) = some x := by
  cases t with
  | connected call peer =>
    cases peer with
    | none => cases h
    | some peer =>
      simp only [dialStep] at h
      repeat' split at h
      all_goals cases h
  | pairing addr cert resp' =>
    simp only [dialStep] at h ⊢
    split_ifs at h ⊢
    cases h
    rw [show hostId blake3 (some x) resp = certToDeviceId blake3 x from rfl,
      Storage.cert_upsertDevice, if_pos rfl]
    rfl
  | pinning call peer =>
    simp only [dialStep] at h
    split at h <;> cases h
  | paired => exact hold h
  | proceeding | aborted => cases h

/-- A session or a pairing that has moved: it goes on with the pin of its
device. -/
theorem taskInv_dialStep (h : PinInv blake3 w v) {i : ι} {t : DialTask}
    (ht : v.task i = .inr t) : NodeTaskInv blake3 w (dialStep blake3 own t v.state).2
      (.inr (dialStep blake3 own t v.state).1) := by
  have htask := h.tasks i
  rw [ht] at htask
  refine ⟨fun _ hd => (by cases hd), fun _ _ _ hd => (by cases hd), fun _ _ _ hd => (by cases hd),
    fun addr x resp hd => ?_, fun call x hd => ?_, fun x resp hd => ?_⟩
  · exact absurd (Sum.inr.inj hd) (dialStep_ne_pairing addr (some x) resp)
  · exact proceeding_dialStep (htask.proceeds call x ∘ congrArg Sum.inr) (Sum.inr.inj hd)
  · exact paired_dialStep (htask.paired x resp ∘ congrArg Sum.inr) (Sum.inr.inj hd)

/-- What holds of every state of a run holds after one more clean step. -/
theorem pinInv_turn [DecidableEq ι]
    (hinj : Set.InjOn (certToDeviceId blake3) {x | MayPair blake3 w x}) (h : PinInv blake3 w v)
    (i : ι) (hclean : CleanStep blake3 w v.state (v.task i)) :
    PinInv blake3 w (Tasks.turn (nodeStep blake3 own) v i) := by
  refine ⟨fun id y hy x hx hid => pins_nodeStep hinj h hclean hy hx hid, held_nodeStep h i,
    fun j => ?_⟩
  by_cases hji : j = i
  · subst hji
    simp only [Tasks.turn, Function.update_self]
    cases ht : v.task j with
    | inl t => exact taskInv_serverStep h ht
    | inr t => exact taskInv_dialStep h ht
  · simp only [Tasks.turn, Function.update_of_ne hji]
    exact (h.tasks j).mono fun id y hy => pinned_stays h hclean hy

/-- A task that begins. -/
theorem taskInv_begins {i : ι} (hbegins : nodeBegins (w.task i) = true) :
    NodeTaskInv blake3 w s (w.task i) where
  first c hc x req hx hreq := Or.inl ⟨i, c, req, hc, hx, hreq⟩
  pairs u c x hu hpairing _ := by
    rw [hu] at hbegins
    cases u with
    | admission | hold | respond | store | recordAddr | closed => cases hbegins
    | _ => cases hpairing
  approves id name x happ := by
    rw [happ] at hbegins
    cases hbegins
  dials addr x resp hd := Or.inr (Or.inl ⟨i, addr, resp, hd⟩)
  proceeds call x hd := by
    rw [hd] at hbegins
    cases hbegins
  paired x resp hd := by
    rw [hd] at hbegins
    cases hbegins

end

/-- **Pins are stable if first use is clean.** Let connections come, the
operator approve and deny, and the device start sessions and pairings, with any
certificates presented by the others, in any order of their steps. If no
certificate is pinned, at the start or by a session that found none, under the
identifier of another that may pair, and none by such a session after another
was stored, then every pin stays as it is, every session that goes on does so
with the pin of its device, and no pairing is dealt with whose certificate is
not the one pinned under its identifier, if one is. That no two certificates
that may pair have one identifier is assumed. -/
theorem pins_stable {ι : Type} [DecidableEq ι] (blake3 : Bytes → FileHash) (own : Bytes)
    (w : Tasks.Shared ι (ServerTask ⊕ DialTask) Server)
    (hbegins : ∀ i, nodeBegins (w.task i) = true)
    (hheld : ∀ p ∈ w.state.gate.pending, ∀ x, p.certDer = some x →
      p.deviceId = certToDeviceId blake3 x)
    (hinj : Set.InjOn (certToDeviceId blake3) {x | MayPair blake3 w x})
    (hstart : ∀ id y, w.state.storage.getDeviceCert id = some y → ∀ x, MayPair blake3 w x →
      certToDeviceId blake3 x = id → x = y) (schedule : List ι)
    (hclean : CleanFirstUse blake3 own w schedule) :
    let run := Tasks.run (nodeStep blake3 own) w
    (∀ pre post, schedule = pre ++ post → ∀ id y,
      (run pre).state.storage.getDeviceCert id = some y →
        (run schedule).state.storage.getDeviceCert id = some y) ∧
    (∀ i call x, (run schedule).task i = .inr (.proceeding call (some x)) →
      (run schedule).state.storage.getDeviceCert call.deviceId = some x) ∧
    (∀ i x resp, (run schedule).task i = .inr (.paired (some x) resp) →
      (run schedule).state.storage.getDeviceCert (certToDeviceId blake3 x) = some x) ∧
    ∀ i t c x, (run schedule).task i = .inl t → t.pairing = some c → c.cert = some x → ∀ y,
      (run schedule).state.storage.getDeviceCert (certToDeviceId blake3 x) = some y → x = y := by
  intro run
  have hinv : PinInv blake3 w (run schedule) ∧ ∀ pre post, schedule = pre ++ post → ∀ id y,
      (run pre).state.storage.getDeviceCert id = some y →
        (run schedule).state.storage.getDeviceCert id = some y := by
    induction schedule using List.reverseRecOn with
    | nil =>
      refine ⟨⟨hstart, fun p hp x hx => ⟨hheld p hp x hx, Or.inr (Or.inr ⟨p, hp, hx⟩)⟩,
        fun i => taskInv_begins (hbegins i)⟩, fun pre post hsplit id y hy => ?_⟩
      obtain ⟨rfl, rfl⟩ := List.append_eq_nil_iff.mp hsplit.symm
      exact hy
    | append_singleton schedule i ih =>
      have hclean' : CleanFirstUse blake3 own w schedule := fun pre j post call z hsplit =>
        hclean pre j (post ++ [i]) call z (by rw [hsplit]; simp)
      obtain ⟨hpins, hstable⟩ := ih hclean'
      have hstep : CleanStep blake3 w (run schedule).state ((run schedule).task i) :=
        fun call z hz => hclean schedule i [] call z rfl hz
      have hturn : run (schedule ++ [i]) = Tasks.turn (nodeStep blake3 own) (run schedule) i :=
        Tasks.run_concat _ w schedule i
      rw [hturn]
      refine ⟨pinInv_turn hinj hpins i hstep, fun pre post hsplit id y hy => ?_⟩
      rcases List.eq_nil_or_concat post with rfl | ⟨post', j, rfl⟩
      · rw [List.append_nil] at hsplit
        rw [← hturn, hsplit]
        exact hy
      · rw [List.concat_eq_append, ← List.append_assoc] at hsplit
        obtain ⟨hsplit', -⟩ := List.append_inj' hsplit rfl
        exact pinned_stays hpins hstep (hstable pre post' hsplit' id y hy)
  obtain ⟨hpins, hstable⟩ := hinv
  exact ⟨hstable, fun i => (hpins.tasks i).proceeds, fun i => (hpins.tasks i).paired,
    fun i t c x ht hpairing hx y hy => hpins.pins _ y hy x ((hpins.tasks i).pairs t c x ht hpairing hx)
      rfl⟩

/-- A call for the device whose certificate is the byte 97. -/
def phoneCall : SessionCall :=
  ⟨"/photos", "10.0.0.1:9847", 1, certToDeviceId sampleBlake3 [97], false, none⟩

/-- The device is paired; then it is called, and another host after it. -/
def pairedThenCalled : Fin 3 → ServerTask ⊕ DialTask
  | 0 => .inr (.pairing "10.0.0.1:9847" (some [97]) ⟨true, "claimed", "Phone", [], none⟩)
  | 1 => .inr (.connected phoneCall (some [97]))
  | 2 => .inr (.connected phoneCall (some [98]))

theorem pins_stable_phone :
    let run := Tasks.run (nodeStep sampleBlake3 [115]) ⟨pairedThenCalled, sampleServer⟩
    (run [0]).state.storage.getDeviceCert (certToDeviceId sampleBlake3 [97]) = some [97] ∧
      (run [0, 1, 2]).state.storage.getDeviceCert (certToDeviceId sampleBlake3 [97]) = some [97] := by
  have hbegins : ∀ i, nodeBegins (pairedThenCalled i) = true
    | 0 | 1 | 2 => rfl
  have hpairs : ∀ x, MayPair sampleBlake3 ⟨pairedThenCalled, sampleServer⟩ x → x = [97] := by
    rintro x (⟨i, c, req, hi, -⟩ | ⟨i, addr, resp, hi⟩ | ⟨p, hp, -⟩)
    · match i with
      | 0 | 1 | 2 => cases hi
    · match i with
      | 0 =>
        cases hi
        rfl
      | 1 | 2 => cases hi
    · cases hp
  have hclean : CleanFirstUse sampleBlake3 [115] ⟨pairedThenCalled, sampleServer⟩ [0, 1, 2] := by
    intro pre i post call z hsplit hz
    match pre, hsplit with
    | [], h =>
      cases h
      cases hz
    | [_], h =>
      cases h
      cases hz
    | [_, _], h =>
      cases h
      cases hz
    | _ :: _ :: _ :: _, h => simp at h
  have h := pins_stable sampleBlake3 [115] ⟨pairedThenCalled, sampleServer⟩ hbegins
    (fun p hp => by cases hp) (fun x hx y hy _ => (hpairs x hx).trans (hpairs y hy).symm)
    (fun id y hy => by cases hy) [0, 1, 2] hclean
  have hpinned : (Tasks.run (nodeStep sampleBlake3 [115]) ⟨pairedThenCalled, sampleServer⟩
      [0]).state.storage.getDeviceCert (certToDeviceId sampleBlake3 [97]) = some [97] := by
    decide +kernel
  exact ⟨hpinned, h.1 [0] [1, 2] rfl _ _ hpinned⟩

/-- The device is called, but another host answers; and it is paired. -/
def calledAndPaired : Fin 2 → ServerTask ⊕ DialTask
  | 0 => .inr (.connected phoneCall (some [99]))
  | 1 => .inr (.pairing "10.0.0.1:9847" (some [97]) ⟨true, "claimed", "Phone", [], none⟩)

/-- **Pins change.** The session pins the other host's certificate under the
device's identifier, and the pairing puts the device's in its place; or the
pairing comes between the session's look and its pin, and the other host's
certificate takes the place of the device's. -/
theorem pins_change :
    let cert := fun schedule =>
      (Tasks.run (nodeStep sampleBlake3 [115]) ⟨calledAndPaired, sampleServer⟩
        schedule).state.storage.getDeviceCert (certToDeviceId sampleBlake3 [97])
    (cert [0, 0] = some [99] ∧ cert [0, 0, 1] = some [97]) ∧
      cert [0, 1] = some [97] ∧ cert [0, 1, 0] = some [99] := by
  decide +kernel

end FerriSync
