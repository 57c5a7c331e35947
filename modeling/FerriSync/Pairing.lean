/-
# Pairing that a device starts

A device asks a host for pairing, again and again while it is held for
confirmation, and stores what it meets when it is accepted: the certificate
the host presents, under the identifier made from it (`pairWith`, from
`pairing.rs`). At startup the handshake is repeated at every address stored for
a device with a certificate, and whoever answers there is met like any other
host (`autoRepair`, from `api/mod.rs`): the stored certificates stay as they
are exactly if every host that accepts presents the one stored under its
identifier (`repair_keeps_iff`).

Key definitions: `pairAttempt`, `pairWith`, `autoRepair`, `met`.
Key theorems: `pairWith_eq`, `repair_keeps_iff`.
-/
import FerriSync.Commit
import FerriSync.Server

namespace FerriSync

/-! ### The handshake -/

/-- What comes of one attempt: no connection, no answer in time or none that can
be read, or an answer that cannot be stored; or an answer, with the certificate
the host has presented. -/
inductive PairAttempt
  | failed (error : String)
  | response (cert : Option Bytes) (resp : PairResponse)

/-- The text contains the other. -/
def containsText (text needle : String) : Bool := decide (needle.toList <:+: text.toList)

section

variable (blake3 : Bytes → FileHash)

/-- Who a host is: what its certificate says, or else what it claims. -/
def hostId (cert : Option Bytes) (resp : PairResponse) : String :=
  (cert.map (certToDeviceId blake3)).getD resp.deviceId

def pairAttempt (addr : String) (s : Storage) : PairAttempt → Except String DeviceInfo × Storage
  | .failed error => (.error error, s)
  | .response cert resp =>
    if resp.accepted then
      (.ok ⟨hostId blake3 cert resp, resp.deviceName, resp.certFingerprint⟩,
        s.upsertDevice (hostId blake3 cert resp) resp.deviceName cert (some addr))
    else (.error ("pairing rejected: " ++ resp.reason.getD ""), s)

/-- Attempt after attempt, as long as the host holds us and there is time. -/
def pairWith (addr : String) (s : Storage) :
    List PairAttempt → Except String DeviceInfo × Storage
  | [] => (.error "pairing awaiting host approval (timed out after 60s)", s)
  | a :: rest =>
    match pairAttempt blake3 addr s a with
    | (.error e, s) => if containsText e pendingReason then pairWith addr s rest else (.error e, s)
    | (.ok info, s) => (.ok info, s)

/-- The startup repair, by the addresses and what happens at each: how many hosts
accepted, and what is stored then. -/
def repairAll (parse : String → Option String) :
    List (String × List PairAttempt) → Storage → ℕ × Storage
  | [], s => (0, s)
  | (lastAddr, attempts) :: rest, s =>
    match parse lastAddr with
    | none => repairAll parse rest s
    | some addr =>
      match pairWith blake3 addr s attempts with
      | (.error _, s) => repairAll parse rest s
      | (.ok _, s) => ((repairAll parse rest s).1 + 1, (repairAll parse rest s).2)

/-- The addresses that are tried, each with what its host does. -/
def repairCalls (hosts : ℕ → String → List PairAttempt) (s : Storage) :
    List (String × List PairAttempt) :=
  s.listTrustedDeviceAddrs.zipIdx.map fun p => (p.1.2, hosts p.2 p.1.2)

/-- `auto_repair_known_devices`. -/
def autoRepair (parse : String → Option String) (hosts : ℕ → String → List PairAttempt)
    (s : Storage) : ℕ × Storage :=
  repairAll blake3 parse (repairCalls hosts s) s

end

/-- The answer with which a handshake ends in acceptance. -/
def met : List PairAttempt → Option (Option Bytes × PairResponse)
  | [] => none
  | .failed e :: rest => if containsText e pendingReason then met rest else none
  | .response cert resp :: rest =>
    if resp.accepted then some (cert, resp)
    else if containsText ("pairing rejected: " ++ resp.reason.getD "") pendingReason then met rest
    else none

/-- Who accepts at an address that can be dialled. -/
def accepts (parse : String → Option String) (call : String × List PairAttempt) :
    Option (String × Option Bytes × PairResponse) :=
  (parse call.1).bind fun addr => (met call.2).map fun m => (addr, m)

section

variable {blake3 : Bytes → FileHash} {s r : Storage} {parse : String → Option String}

/-- **What a handshake stores**: the host that accepts, and nothing otherwise. -/
theorem pairWith_eq (addr : String) (attempts : List PairAttempt) :
    (pairWith blake3 addr s attempts).2 = match met attempts with
      | none => s
      | some (cert, resp) =>
        s.upsertDevice (hostId blake3 cert resp) resp.deviceName cert (some addr) := by
  induction attempts with
  | nil => rfl
  | cons a rest ih =>
    unfold pairWith met
    cases a with
    | failed e =>
      simp only [pairAttempt]
      split_ifs
      · exact ih
      · rfl
    | response cert resp =>
      simp only [pairAttempt]
      by_cases haccepted : resp.accepted = true
      · simp only [if_pos haccepted]
      · simp only [if_neg haccepted]
        split_ifs
        · exact ih
        · rfl

/-- What one address of the repair stores. -/
def repaired (blake3 : Bytes → FileHash) (parse : String → Option String)
    (call : String × List PairAttempt) (s : Storage) : Storage :=
  match accepts parse call with
  | none => s
  | some (addr, cert, resp) =>
    s.upsertDevice (hostId blake3 cert resp) resp.deviceName cert (some addr)

theorem repairAll_eq (calls : List (String × List PairAttempt)) : ∀ s : Storage,
    (repairAll blake3 parse calls s).2 =
      calls.foldl (fun s call => repaired blake3 parse call s) s := by
  induction calls with
  | nil => exact fun _ => rfl
  | cons call calls ih =>
    intro s
    obtain ⟨lastAddr, attempts⟩ := call
    have hstep : (repairAll blake3 parse ((lastAddr, attempts) :: calls) s).2 =
        (repairAll blake3 parse calls (repaired blake3 parse (lastAddr, attempts) s)).2 := by
      unfold repaired accepts
      cases haddr : parse lastAddr with
      | none => simp only [repairAll, haddr, Option.bind_none]
      | some addr =>
        have hpair : (pairWith blake3 addr s attempts).2 = _ := pairWith_eq addr attempts
        simp only [repairAll, haddr, Option.bind_some]
        generalize pairWith blake3 addr s attempts = result at hpair
        obtain ⟨result, s'⟩ := result
        cases hmet : met attempts with
        | none =>
          rw [hmet] at hpair
          cases hpair
          cases result <;> rfl
        | some m =>
          rw [hmet] at hpair
          cases hpair
          cases result <;> rfl
    rw [hstep, ih, List.foldl_cons]

/-! ### Whom the repair trusts -/

/-- The certificate is the one stored under its own identifier. -/
def Vouched (blake3 : Bytes → FileHash) (s : Storage) (cert : Option Bytes) : Prop :=
  ∃ x, cert = some x ∧ s.getDeviceCert (certToDeviceId blake3 x) = some x

/-- The repair trusts nobody new: certificates and devices are as before, a row
has changed only if its device has answered with its stored certificate, and
no other host has had any effect. -/
structure RepairKeeps (blake3 : Bytes → FileHash) (parse : String → Option String) (s : Storage)
    (calls : List (String × List PairAttempt)) : Prop where
  certs : ∀ id, (repairAll blake3 parse calls s).2.getDeviceCert id = s.getDeviceCert id
  devices : ∀ id, id ∈ (repairAll blake3 parse calls s).2.devices ↔ id ∈ s.devices
  rows : ∀ id, (repairAll blake3 parse calls s).2.devices.lookup id = s.devices.lookup id ∨
    ∃ call ∈ calls, ∃ addr x resp, accepts parse call = some (addr, some x, resp) ∧
      id = certToDeviceId blake3 x ∧ s.getDeviceCert id = some x
  strangers : ∀ pre call post, calls = pre ++ call :: post →
    (∀ addr cert resp, accepts parse call = some (addr, cert, resp) → ¬Vouched blake3 s cert) →
    (repairAll blake3 parse (pre ++ [call]) s).2 = (repairAll blake3 parse pre s).2

theorem repairAll_concat (calls : List (String × List PairAttempt))
    (call : String × List PairAttempt) : (repairAll blake3 parse (calls ++ [call]) s).2 =
      repaired blake3 parse call (repairAll blake3 parse calls s).2 := by
  rw [repairAll_eq, repairAll_eq, List.foldl_append, List.foldl_cons, List.foldl_nil]

theorem repaired_of_none {call : String × List PairAttempt} (h : accepts parse call = none) :
    repaired blake3 parse call r = r := by
  rw [repaired, h]

theorem repaired_of_some {call : String × List PairAttempt} {addr : String} {cert : Option Bytes}
    {resp : PairResponse} (h : accepts parse call = some (addr, cert, resp)) :
    repaired blake3 parse call r =
      r.upsertDevice (hostId blake3 cert resp) resp.deviceName cert (some addr) := by
  rw [repaired, h]

theorem mem_upsertDevice {id name i : String} {cert : Option Bytes} {lastAddr : Option String} :
    i ∈ (r.upsertDevice id name cert lastAddr).devices ↔ i = id ∨ i ∈ r.devices :=
  AList.mem_insert _

theorem mem_of_cert {id : String} {x : Bytes} (h : r.getDeviceCert id = some x) :
    id ∈ r.devices := by
  obtain ⟨row, hrow, -⟩ := Option.bind_eq_some_iff.mp h
  exact AList.lookup_isSome.mp (by rw [hrow]; rfl)

/-- **Hosts that are vouched for change nothing but their own rows.** -/
theorem repair_of_vouched (calls : List (String × List PairAttempt))
    (h : ∀ call ∈ calls, ∀ addr cert resp, accepts parse call = some (addr, cert, resp) →
      Vouched blake3 s cert) :
    (∀ id, (repairAll blake3 parse calls s).2.getDeviceCert id = s.getDeviceCert id) ∧
    (∀ id, id ∈ (repairAll blake3 parse calls s).2.devices ↔ id ∈ s.devices) ∧
    ∀ id, (repairAll blake3 parse calls s).2.devices.lookup id = s.devices.lookup id ∨
      ∃ call ∈ calls, ∃ addr x resp, accepts parse call = some (addr, some x, resp) ∧
        id = certToDeviceId blake3 x ∧ s.getDeviceCert id = some x := by
  induction calls using List.reverseRecOn with
  | nil => exact ⟨fun _ => rfl, fun _ => Iff.rfl, fun _ => Or.inl rfl⟩
  | append_singleton calls call ih =>
    obtain ⟨hcerts, hdevices, hrows⟩ := ih fun c hc => h c (List.mem_append_left _ hc)
    rw [repairAll_concat]
    generalize (repairAll blake3 parse calls s).2 = r at hcerts hdevices hrows
    have hold : ∀ id, r.devices.lookup id = s.devices.lookup id ∨
        ∃ c ∈ calls ++ [call], ∃ addr x resp, accepts parse c = some (addr, some x, resp) ∧
          id = certToDeviceId blake3 x ∧ s.getDeviceCert id = some x := fun id =>
      (hrows id).imp_right fun ⟨c, hc, h⟩ => ⟨c, List.mem_append_left _ hc, h⟩
    cases haccepts : accepts parse call with
    | none =>
      rw [repaired_of_none haccepts]
      exact ⟨hcerts, hdevices, hold⟩
    | some m =>
      obtain ⟨addr, cert, resp⟩ := m
      have hmem : call ∈ calls ++ [call] := List.mem_append_right _ (List.mem_singleton.mpr rfl)
      obtain ⟨x, rfl, hx⟩ := h call hmem addr cert resp haccepts
      have hid : hostId blake3 (some x) resp = certToDeviceId blake3 x := rfl
      rw [repaired_of_some haccepts, hid]
      refine ⟨fun id => ?_, fun id => ?_, fun id => ?_⟩
      · rw [Storage.cert_upsertDevice]
        split_ifs with heq
        · rw [heq, hx]
          rfl
        · exact hcerts id
      · rw [mem_upsertDevice, hdevices]
        constructor
        · rintro (rfl | hid)
          · exact mem_of_cert hx
          · exact hid
        · exact Or.inr
      · by_cases heq : id = certToDeviceId blake3 x
        · subst heq
          exact Or.inr ⟨call, hmem, addr, x, resp, haccepts, rfl, hx⟩
        · rw [Storage.lookup_upsertDevice_ne heq]
          exact hold id

/-- A host that presents a certificate which is not stored under its identifier
has an effect. -/
theorem repaired_ne {call : String × List PairAttempt} {addr : String} {x : Bytes}
    {resp : PairResponse} (haccepts : accepts parse call = some (addr, some x, resp))
    (hcert : r.getDeviceCert (certToDeviceId blake3 x) ≠ some x) :
    repaired blake3 parse call r ≠ r := by
  rw [repaired_of_some haccepts]
  intro h
  apply hcert
  rw [← h, show hostId blake3 (some x) resp = certToDeviceId blake3 x from rfl,
    Storage.cert_upsertDevice, if_pos rfl]
  rfl

end

/-- **Repair trusts whoever answers.** Let any hosts answer at the stored
addresses, with any certificates and any replies. The repair keeps what is
stored, and lets only devices that present their stored certificate refresh
their own row, if and only if every host that accepts presents the certificate
stored under its identifier. A TLS server always presents one. -/
theorem repair_keeps_iff (blake3 : Bytes → FileHash) (parse : String → Option String)
    (hosts : ℕ → String → List PairAttempt) (s : Storage)
    (hcert : ∀ call ∈ repairCalls hosts s, ∀ addr cert resp,
      accepts parse call = some (addr, cert, resp) → cert.isSome = true) :
    RepairKeeps blake3 parse s (repairCalls hosts s) ↔
      ∀ call ∈ repairCalls hosts s, ∀ addr cert resp,
        accepts parse call = some (addr, cert, resp) → Vouched blake3 s cert := by
  generalize repairCalls hosts s = calls at hcert
  constructor
  · intro h
    suffices hpre : ∀ pre, pre <+: calls → ∀ call ∈ pre, ∀ addr cert resp,
        accepts parse call = some (addr, cert, resp) → Vouched blake3 s cert from
      hpre calls (List.prefix_refl calls)
    intro pre
    induction pre using List.reverseRecOn with
    | nil =>
      intro _ call hcall
      cases hcall
    | append_singleton pre call ih =>
      rintro ⟨post, hpost⟩ c hc addr cert resp haccepts
      rw [List.append_assoc, List.singleton_append] at hpost
      have hvouched := ih ⟨call :: post, hpost⟩
      rcases List.mem_append.mp hc with hc | hc
      · exact hvouched c hc addr cert resp haccepts
      · -- the first host that is not vouched for: until then all is as it was
        obtain rfl := List.mem_singleton.mp hc
        by_contra hbad
        have hmem : c ∈ calls := by
          rw [← hpost]
          exact List.mem_append_right _ List.mem_cons_self
        obtain ⟨x, rfl⟩ := Option.isSome_iff_exists.mp (hcert c hmem addr cert resp haccepts)
        have hcerts := (repair_of_vouched pre hvouched).1
        have hunstored : (repairAll blake3 parse pre s).2.getDeviceCert
            (certToDeviceId blake3 x) ≠ some x := by
          rw [hcerts]
          exact fun hx => hbad ⟨x, rfl, hx⟩
        refine repaired_ne haccepts hunstored ((repairAll_concat pre c).symm.trans
          (h.strangers pre c post hpost.symm fun a d e hd => ?_))
        rw [haccepts] at hd
        cases hd
        exact hbad
  · intro h
    obtain ⟨hcerts, hdevices, hrows⟩ := repair_of_vouched calls h
    refine ⟨hcerts, hdevices, hrows, fun pre call post hsplit hstranger => ?_⟩
    rw [repairAll_concat]
    cases haccepts : accepts parse call with
    | none => exact repaired_of_none haccepts
    | some m =>
      have hmem : call ∈ calls := by
        rw [hsplit]
        exact List.mem_append_right _ List.mem_cons_self
      exact absurd (h call hmem _ _ _ haccepts) (hstranger _ _ _ haccepts)

/-- One trusted device, at its address. -/
def trustedPhone : Storage where
  devices := (∅ : AList fun _ : String => DeviceRow).insert (certToDeviceId sampleBlake3 [97])
    ⟨"Phone", some [97], some "10.0.0.1:9847"⟩
  syncFolders := []
  folderDevices := ∅
  sharedFolders := []
  nextFolderId := 1

/-- A host that accepts. -/
def acceptingHost (cert : Bytes) : ℕ → String → List PairAttempt :=
  fun _ _ => [.response (some cert) ⟨true, "claimed", "Tablet", [], none⟩]

theorem repairCalls_acceptingHost (cert : Bytes) : repairCalls (acceptingHost cert) trustedPhone =
    [("10.0.0.1:9847", acceptingHost cert 0 "10.0.0.1:9847")] := rfl

/-- The device itself answers, under a new name. -/
theorem repair_keeps_iff_phone :
    RepairKeeps sampleBlake3 some trustedPhone (repairCalls (acceptingHost [97]) trustedPhone) := by
  have haccepts : ∀ call ∈ repairCalls (acceptingHost [97]) trustedPhone, ∀ addr cert resp,
      accepts some call = some (addr, cert, resp) → cert = some [97] := by
    rw [repairCalls_acceptingHost]
    intro call hcall addr cert resp h
    obtain rfl := List.mem_singleton.mp hcall
    cases h
    rfl
  refine (repair_keeps_iff sampleBlake3 some (acceptingHost [97]) trustedPhone
    fun call hcall addr cert resp h => ?_).mpr fun call hcall addr cert resp h => ?_
  · rw [haccepts call hcall addr cert resp h]
    rfl
  · refine ⟨[97], haccepts call hcall addr cert resp h, ?_⟩
    unfold Storage.getDeviceCert trustedPhone
    rw [AList.lookup_insert]
    rfl

/-- **The repair trusts a stranger.** Another host has got the address of the
trusted device, and accepts: its certificate is stored, and it is trusted from
then on. -/
theorem repair_trusts_stranger :
    (autoRepair sampleBlake3 some (acceptingHost [99]) trustedPhone).1 = 1 ∧
      ¬trustedPhone.Stores [99] ∧
      (autoRepair sampleBlake3 some (acceptingHost [99]) trustedPhone).2.Stores [99] := by
  refine ⟨rfl, ?_, certToDeviceId sampleBlake3 [99], ?_⟩
  · rintro ⟨id, hid⟩
    unfold Storage.getDeviceCert trustedPhone at hid
    by_cases hphone : id = certToDeviceId sampleBlake3 [97]
    · rw [hphone, AList.lookup_insert] at hid
      cases hid
    · rw [AList.lookup_insert_ne hphone] at hid
      cases hid
  · show (trustedPhone.upsertDevice (certToDeviceId sampleBlake3 [99]) "Tablet" (some [99])
      (some "10.0.0.1:9847")).getDeviceCert (certToDeviceId sampleBlake3 [99]) = some [99]
    rw [Storage.cert_upsertDevice, if_pos rfl]
    rfl

end FerriSync
