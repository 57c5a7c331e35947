/-
# Certificates pinned on first use

`IdentityVerifier` (`authorization/identity.rs`) over either of the two state stores.
A certificate that it has trusted for a device is to be that device's from then on:
no other passes for the device, and it is the device that the certificate stands for
(`Pinned`).

In SQLite `set_device_cert` updates a row and stores nothing for a device without
one, and a certificate stands for the first row that has it. In memory the store
keeps the hash of a certificate and gives it back as if it were the certificate. So
what is trusted is pinned in SQLite if the device has a row and no row before it has
the certificate, as long as nothing else is written there, and in memory only if the
certificate is its own hash (`pinned_iff`).

Key definitions: `verifyOrTrust`, `verifyPeer`, `VerifierOp`, `Pinned`.
Key theorems: `Sqlite.step_devices`, `Sqlite.pinned_step`, `pinned_iff`.
-/
import FerriSync.Commit
import FerriSync.Lib.Runs
import FerriSync.StateStore

namespace FerriSync

namespace Persistence

/-- The certificate in a reply. -/
def StoreReply.asCert : StoreReply → Option Bytes
  | .cert certDer => certDer
  | _ => none

/-- The device in a reply. -/
def StoreReply.asDeviceId : StoreReply → Option DeviceId
  | .deviceId id => id
  | _ => none

/-! ### The verifier -/

section

variable {σ : Type} (blake3 : Bytes → FileHash) (store : StateStore σ) (order : HashOrder Device)

/-- The device of a certificate. -/
def verifyPeer (certDer : Bytes) (s : σ) : Except StoreError (Option DeviceId) × σ :=
  match store.perform order
      (.getDeviceByCertFingerprint (CertificateFingerprint.fromDer blake3 certDer)) s with
  | (.ok reply, s') => (.ok reply.asDeviceId, s')
  | (.error e, s') => (.error e, s')

/-- Register a device's certificate. -/
def trustFirstUse (id : DeviceId) (certDer : Bytes) (s : σ) : Except StoreError Unit × σ :=
  match store.perform order (.setDeviceCert id certDer) s with
  | (.ok _, s') => (.ok (), s')
  | (.error e, s') => (.error e, s')

/-- Compare a certificate with the stored one, or store it if there is none. -/
def verifyOrTrust (id : DeviceId) (certDer : Bytes) (s : σ) : Except StoreError Bool × σ :=
  match store.perform order (.getDeviceCert id) s with
  | (.error e, s') => (.error e, s')
  | (.ok reply, s') =>
    match reply.asCert with
    | some storedDer => (.ok (decide (certDer = storedDer)), s')
    | none =>
      match trustFirstUse store order id certDer s' with
      | (.ok (), s'') => (.ok true, s'')
      | (.error e, s'') => (.error e, s'')

/-- What is done with a store and its verifier. -/
inductive VerifierOp
  | call (op : StoreOp)
  | verifyPeer (certDer : Bytes)
  | trustFirstUse (id : DeviceId) (certDer : Bytes)
  | verifyOrTrust (id : DeviceId) (certDer : Bytes)

/-- It removes devices. -/
def VerifierOp.isRemoval : VerifierOp → Bool
  | .call (.removeDevice _) | .call .clearAllSyncState => true
  | _ => false

/-- The store afterwards. -/
def step (s : σ) (x : HashOrder Device × VerifierOp) : σ :=
  match x.2 with
  | .call op => (store.perform x.1 op s).2
  | .verifyPeer certDer => (verifyPeer blake3 store x.1 certDer s).2
  | .trustFirstUse id certDer => (trustFirstUse store x.1 id certDer s).2
  | .verifyOrTrust id certDer => (verifyOrTrust store x.1 id certDer s).2

/-- What is not a removal. -/
abbrev LaterOp := {op : VerifierOp // op.isRemoval = false}

/-- The store after an operation that is not a removal. -/
def stepLater (s : σ) (x : HashOrder Device × LaterOp) : σ := step blake3 store s (x.1, x.2.val)

/-- The certificate, and no other, passes for the device and stands for it. -/
def Pinned (id : DeviceId) (certDer : Bytes) (s : σ) : Prop :=
  ∀ order, (∀ c, (verifyOrTrust store order id c s).1 = .ok (decide (c = certDer))) ∧
    (verifyPeer blake3 store order certDer s).1 = .ok (some id)

end

section

variable {σ : Type} {blake3 : Bytes → FileHash} {store : StateStore σ} {id : DeviceId} {c : Bytes}
  {C : σ → HashOrder Device × LaterOp → Prop} {s : σ} {ops : List (HashOrder Device × LaterOp)}

/-- From one operation to a run of them. -/
theorem always_iff_pinned (hstep : ∀ s x, Pinned blake3 store id c s →
      (Pinned blake3 store id c (stepLater blake3 store s x) ↔ C s x)) :
    Runs.Always (stepLater blake3 store) (Pinned blake3 store id c) s ops ↔
      Pinned blake3 store id c s ∧ Runs.Meets (stepLater blake3 store) C s ops := by
  have hrun : Pinned blake3 store id c s →
      (Runs.Always (stepLater blake3 store) (Pinned blake3 store id c) s ops ↔
        Runs.Meets (stepLater blake3 store) C s ops) :=
    @Runs.always_iff_meets _ _ _ _ (fun _ => True) _ _ _ (fun _ _ _ => trivial)
      (fun s x _ h => hstep s x h) trivial
  constructor
  · intro h
    have hfirst : Pinned blake3 store id c s := h [] ops rfl
    exact ⟨hfirst, (hrun hfirst).mp h⟩
  · rintro ⟨hfirst, hmeets⟩
    exact (hrun hfirst).mpr hmeets

end

/-! ### In SQLite -/

namespace Sqlite

open Transactions

variable {blake3 : Bytes → FileHash}

/-- The certificate of a device. -/
def certOf (t : Tables) (id : DeviceId) : Option Bytes := (t.devices.find id).bind (·.certDer)

/-- The certificate that an operation writes, and the device it is for. -/
def written (t : Tables) : VerifierOp → Option (DeviceId × Bytes)
  | .trustFirstUse id certDer | .call (.setDeviceCert id certDer) => some (id, certDer)
  | .verifyOrTrust id certDer => if certOf t id = none then some (id, certDer) else none
  | .call (.upsertDevice device) => device.fingerprint.map fun fp => (device.id, fp.bytes)
  | _ => none

/-- Tables with more devices. -/
theorem references_of_devices {t : Tables} (h : t.References) {devices : Keyed DeviceRow.id}
    (hmore : t.devices.keys ⊆ devices.keys) : ({ t with devices := devices } : Tables).References :=
  ⟨fun f hf => hmore (h.folder f hf), h.metadata, h.history, h.tombstone⟩

theorem keys_subset_put (t : Keyed DeviceRow.id) (row : DeviceRow) : t.keys ⊆ (t.put row).keys := by
  rw [Keyed.keys_put]
  split_ifs
  · exact List.Subset.refl _
  · exact List.subset_append_left _ _

theorem putDevice_valid (device : Device) (s : SqliteStateStore) :
    violation (putDevice device s.val) = none :=
  violation_eq_none.mpr
    (references_of_devices (violation_eq_none.mp s.valid) (keys_subset_put _ _))

theorem modify_valid {id : DeviceId} {change : DeviceRow → DeviceRow}
    (hkey : ∀ d, (change d).id = d.id) (s : SqliteStateStore) :
    violation { s.val with devices := s.val.devices.modify id change } = none := by
  refine violation_eq_none.mpr (references_of_devices (violation_eq_none.mp s.valid) ?_)
  rw [Keyed.keys_modify _ hkey]
  exact List.Subset.refl _

/-- The state changes as the statement has it. -/
theorem perform_execute (order : HashOrder Device) {op : StoreOp} {g : Tables → Tables}
    {s : SqliteStateStore} (hop : statement blake3 op = (do execute g; return .done))
    (hvalid : violation (g s.val) = none) :
    SqliteStateStore.perform blake3 order op s = (.ok .done, ⟨g s.val, hvalid⟩) := by
  rw [SqliteStateStore.perform, hop, Effects.bind_ok (execute_ok hvalid)]
  rfl

/-- Both states have the same devices. -/
def SameDevices (s s' : SqliteStateStore) : Prop := s'.val.devices = s.val.devices

theorem sameDevices_composes : Effects.Composes SameDevices where
  refl _ := rfl
  trans h h' := Eq.trans h' h

theorem delete_sameDevices {α : Type} {rows : Tables → List α} {doomed : Tables → α → Bool}
    {erase : Tables → Tables} (h : ∀ t, (erase t).devices = t.devices) :
    Effects.Does SameDevices (delete rows doomed erase) := by
  refine Effects.Does.bind sameDevices_composes (Does.query sameDevices_composes _) fun n => ?_
  refine Effects.Does.bind sameDevices_composes
    (Does.execute sameDevices_composes fun s s' heq => ?_) fun _ =>
      Effects.Does.pure sameDevices_composes n
  show s'.val.devices = s.val.devices
  rw [heq, h]

theorem execute_sameDevices {g : Tables → Tables} (h : ∀ t, (g t).devices = t.devices)
    (reply : StoreReply) :
    Effects.Does SameDevices (do execute g; return reply : Sql StoreReply) := by
  refine Effects.Does.bind sameDevices_composes
    (Does.execute sameDevices_composes fun s s' heq => ?_) fun _ =>
      Effects.Does.pure sameDevices_composes reply
  show s'.val.devices = s.val.devices
  rw [heq, h]

/-- It writes to the table of devices. -/
def writesDevices : StoreOp → Bool
  | .upsertDevice _ | .setDeviceCert _ _ | .setDeviceLastAddr _ _ | .removeDevice _
  | .clearAllSyncState => true
  | _ => false

theorem statement_sameDevices (op : StoreOp) (h : writesDevices op = false) :
    Effects.Does SameDevices (statement blake3 op) := by
  cases op with
  | upsertDevice _ | setDeviceCert _ _ | setDeviceLastAddr _ _ | removeDevice _
  | clearAllSyncState => cases h
  | getDevice _ | listDevices | getDeviceCert _ | getDeviceByCertFingerprint _ | deviceLastAddr _
  | getFolder _ | listFolders | getFileMetadata _ _ | getTombstones _ _ => exact fun s => rfl
  | removeFolder _ | setFolderLastSync _ _ | setFolderDevice _ _ | upsertFileMetadata _
  | recordHistory _ | addTombstone _ | recordSession _ =>
    apply execute_sameDevices
    intro t
    rfl
  | addFolder localPath deviceId direction =>
    refine Effects.Does.bind sameDevices_composes ?_ fun _ => Effects.Does.pure sameDevices_composes _
    refine Effects.Does.bind sameDevices_composes (Does.query sameDevices_composes _) fun seq => ?_
    split_ifs
    · exact Effects.Does.throw sameDevices_composes _
    · refine Effects.Does.bind sameDevices_composes
        (Does.execute sameDevices_composes fun s s' heq => ?_) fun _ =>
          Effects.Does.pure sameDevices_composes _
      show s'.val.devices = s.val.devices
      rw [heq]
  | listRecentSessions limit =>
    refine Effects.Does.bind sameDevices_composes ?_ fun _ => Effects.Does.pure sameDevices_composes _
    refine Effects.Does.bind sameDevices_composes (Does.query sameDevices_composes _) fun rows => ?_
    cases rows.mapM SessionRow.session with
    | none => exact Effects.Does.throw sameDevices_composes _
    | some sessions => exact Effects.Does.pure sameDevices_composes _
  | removeSyncFolders localPath deviceId =>
    exact Effects.Does.bind sameDevices_composes (delete_sameDevices fun t => rfl) fun _ =>
      Effects.Does.pure sameDevices_composes _

/-- What is done to the devices: nothing, and nothing is written for a device that has a
row; or a row is put in its place, with the certificate that is written or with the
one it had. -/
def DevicesStep (written : Option (DeviceId × Bytes)) (t t' : Tables) : Prop :=
  (t'.devices = t.devices ∧ ∀ w, written = some w → w.1 ∉ t.devices.keys) ∨
  ∃ row, t'.devices = t.devices.put row ∧
    ((written = none ∧ row.certDer = certOf t row.id) ∨
      ∃ c, written = some (row.id, c) ∧ row.certDer = some c)

theorem setCert_devices (id : DeviceId) (c : Bytes) (t : Tables) :
    DevicesStep (some (id, c)) t (setCert id c t) := by
  unfold setCert Keyed.modify
  cases hf : t.devices.find id with
  | none =>
    refine Or.inl ⟨rfl, fun w hw => ?_⟩
    rw [← Option.some.inj hw]
    exact t.devices.find_eq_none_iff.mp hf
  | some old =>
    have hid : old.id = id := t.devices.key_of_find hf
    refine Or.inr ⟨{ old with certDer := some c }, rfl, Or.inr ⟨c, ?_, rfl⟩⟩
    rw [← hid]

theorem setLastAddr_devices (id : DeviceId) (addr : String) (t : Tables) :
    DevicesStep none t (setLastAddr id addr t) := by
  unfold setLastAddr Keyed.modify
  cases hf : t.devices.find id with
  | none => exact Or.inl ⟨rfl, fun w hw => by cases hw⟩
  | some old =>
    have hid : old.id = id := t.devices.key_of_find hf
    refine Or.inr ⟨{ old with lastAddr := some addr }, rfl, Or.inl ⟨rfl, ?_⟩⟩
    show old.certDer = certOf t old.id
    rw [certOf, hid, hf, Option.bind_some]

theorem putDevice_devices (device : Device) (t : Tables) :
    DevicesStep (device.fingerprint.map fun fp => (device.id, fp.bytes)) t (putDevice device t) := by
  refine Or.inr ⟨_, rfl, ?_⟩
  cases hf : t.devices.find device.id with
  | none =>
    cases hfp : device.fingerprint with
    | none => exact Or.inl ⟨rfl, by simp [certOf, hf]⟩
    | some fp => exact Or.inr ⟨fp.bytes, rfl, rfl⟩
  | some old =>
    cases hfp : device.fingerprint with
    | none => exact Or.inl ⟨rfl, by simp [certOf, hf]⟩
    | some fp => exact Or.inr ⟨fp.bytes, rfl, rfl⟩

theorem devicesStep_of_same {t t' : Tables} (h : t'.devices = t.devices) : DevicesStep none t t' :=
  Or.inl ⟨h, fun w hw => by cases hw⟩

/-- The state after a certificate has been set. -/
theorem setDeviceCert_val (order : HashOrder Device) (id : DeviceId) (c : Bytes)
    (s : SqliteStateStore) :
    ∃ hvalid, SqliteStateStore.perform blake3 order (.setDeviceCert id c) s =
      (.ok .done, ⟨setCert id c s.val, hvalid⟩) := by
  have hkey : ∀ d : DeviceRow, ({ d with certDer := some c } : DeviceRow).id = d.id := fun _ => rfl
  have hvalid : violation (setCert id c s.val) = none := modify_valid hkey s
  exact ⟨hvalid, perform_execute order rfl hvalid⟩

theorem trustFirstUse_val (order : HashOrder Device) (id : DeviceId) (c : Bytes)
    (s : SqliteStateStore) :
    ∃ hvalid, trustFirstUse (SqliteStateStore.store blake3) order id c s =
      (.ok (), ⟨setCert id c s.val, hvalid⟩) := by
  obtain ⟨hvalid, hperform⟩ := @setDeviceCert_val blake3 order id c s
  refine ⟨hvalid, ?_⟩
  simp only [trustFirstUse, SqliteStateStore.store, hperform]

/-- A certificate that is stored is compared, else this one is stored. -/
theorem verifyOrTrust_val (order : HashOrder Device) (id : DeviceId) (c : Bytes)
    (s : SqliteStateStore) :
    (∃ stored, certOf s.val id = some stored ∧
      verifyOrTrust (SqliteStateStore.store blake3) order id c s = (.ok (decide (c = stored)), s)) ∨
    (certOf s.val id = none ∧ ∃ hvalid, verifyOrTrust (SqliteStateStore.store blake3) order id c s =
      (.ok true, ⟨setCert id c s.val, hvalid⟩)) := by
  unfold verifyOrTrust
  have hget : (SqliteStateStore.store blake3).perform order (.getDeviceCert id) s =
    (.ok (.cert (certOf s.val id)), s) := rfl
  rw [hget]
  cases hc : certOf s.val id with
  | some stored => exact Or.inl ⟨stored, rfl, rfl⟩
  | none =>
    obtain ⟨hvalid, htrust⟩ := @trustFirstUse_val blake3 order id c s
    exact Or.inr ⟨rfl, hvalid, by simp only [StoreReply.asCert, htrust]⟩

theorem verifyPeer_val (order : HashOrder Device) (c : Bytes) (s : SqliteStateStore) :
    verifyPeer blake3 (SqliteStateStore.store blake3) order c s =
      (.ok (deviceByCertFingerprint blake3 (CertificateFingerprint.fromDer blake3 c) s.val), s) :=
  rfl

/-- **What an operation other than a removal does to the devices.** -/
theorem step_devices (s : SqliteStateStore) (x : HashOrder Device × VerifierOp)
    (hx : x.2.isRemoval = false) :
    DevicesStep (written s.val x.2) s.val (step blake3 (SqliteStateStore.store blake3) s x).val := by
  obtain ⟨order, op⟩ := x
  cases op with
  | verifyPeer c => exact devicesStep_of_same rfl
  | trustFirstUse id c =>
    obtain ⟨hvalid, htrust⟩ := @trustFirstUse_val blake3 order id c s
    simp only [step, htrust]
    exact setCert_devices id c s.val
  | verifyOrTrust id c =>
    rcases @verifyOrTrust_val blake3 order id c s with ⟨stored, hc, hv⟩ | ⟨hc, hvalid, hv⟩
    · simp only [step, hv, written, hc]
      exact devicesStep_of_same rfl
    · simp only [step, hv, written, hc, if_true]
      exact setCert_devices id c s.val
  | call op =>
    by_cases hw : writesDevices op = true
    · cases op with
      | upsertDevice device =>
        have hp : SqliteStateStore.perform blake3 order (.upsertDevice device) s =
            (.ok .done, ⟨_, putDevice_valid device s⟩) := perform_execute order rfl _
        simp only [step, SqliteStateStore.store, hp]
        exact putDevice_devices device s.val
      | setDeviceCert id c =>
        obtain ⟨hvalid, hp⟩ := @setDeviceCert_val blake3 order id c s
        simp only [step, SqliteStateStore.store, hp]
        exact setCert_devices id c s.val
      | setDeviceLastAddr id addr =>
        have hkey : ∀ d : DeviceRow, ({ d with lastAddr := some addr } : DeviceRow).id = d.id :=
          fun _ => rfl
        have hvalid : violation (setLastAddr id addr s.val) = none := modify_valid hkey s
        have hp : SqliteStateStore.perform blake3 order (.setDeviceLastAddr id addr) s =
            (.ok .done, ⟨_, hvalid⟩) := perform_execute order rfl hvalid
        simp only [step, SqliteStateStore.store, hp]
        exact setLastAddr_devices id addr s.val
      | removeDevice _ | clearAllSyncState => cases hx
      | _ => cases hw
    · have hsame := @statement_sameDevices blake3 op (by simpa using hw) s
      have hnone : written s.val (.call op) = none := by
        cases op <;> first | rfl | exact absurd rfl hw
      rw [hnone]
      apply devicesStep_of_same
      have hafter : (step blake3 (SqliteStateStore.store blake3) s (order, .call op)) =
          Effects.after (statement blake3 op) s := by
        simp only [step, SqliteStateStore.store, SqliteStateStore.perform, Effects.after]
        cases statement blake3 op s <;> rfl
      rw [hafter]
      exact hsame

section

variable {id : DeviceId} {c : Bytes} {s : SqliteStateStore}

/-- The row's certificate has the hash of `c`. -/
def hasHash (blake3 : Bytes → FileHash) (c : Bytes) (row : DeviceRow) : Bool :=
  decide (row.certDer.map (CertificateFingerprint.fromDer blake3) =
    some (CertificateFingerprint.fromDer blake3 c))

/-- The certificate is in the device's row, and in no row before it. -/
theorem pinned_iff_rows : Pinned blake3 (SqliteStateStore.store blake3) id c s ↔
    certOf s.val id = some c ∧
      (s.val.devices.rows.find? (hasHash blake3 c)).map (·.id) = some id := by
  constructor
  · intro h
    obtain ⟨hverify, hpeer⟩ := h (HashOrder.inserted Device)
    constructor
    · rcases @verifyOrTrust_val blake3 (HashOrder.inserted Device) id c s with
        ⟨stored, hc, hv⟩ | ⟨hc, -⟩
      · have heq := hverify c
        rw [hv] at heq
        have hcs : c = stored := by simpa using heq
        rw [hc, hcs]
      · -- another certificate would pass too
        have hother := hverify (0 :: c)
        rcases @verifyOrTrust_val blake3 (HashOrder.inserted Device) id (0 :: c) s with
          ⟨stored, hc', -⟩ | ⟨-, hvalid, hv⟩
        · rw [hc] at hc'
          cases hc'
        · rw [hv] at hother
          simp at hother
    · exact Except.ok.inj hpeer
  · rintro ⟨hc, hfirst⟩ order
    constructor
    · intro c'
      rcases @verifyOrTrust_val blake3 order id c' s with ⟨stored, hc', hv⟩ | ⟨hc', -⟩
      · rw [hc] at hc'
        rw [hv, Option.some.inj hc']
      · rw [hc] at hc'
        cases hc'
    · rw [verifyPeer_val]
      exact congrArg Except.ok hfirst

/-- An operation that writes no other certificate for the device, nor one of the same
hash for a device before it. -/
def KeepsPin (blake3 : Bytes → FileHash) (id : DeviceId) (c : Bytes) (s : SqliteStateStore)
    (x : HashOrder Device × LaterOp) : Prop :=
  ∀ w, written s.val x.2.val = some w →
    (w.1 = id → w.2 = c) ∧ (w.1 ∈ s.val.devices.before id → blake3 w.2 ≠ blake3 c)

theorem hasHash_some {row : DeviceRow} {c' : Bytes} (h : row.certDer = some c') :
    hasHash blake3 c row = true ↔ blake3 c' = blake3 c := by
  have hbytes : ∀ a b : FileHash, a.bytes = b.bytes ↔ a = b := by
    intro a b
    constructor
    · intro hab
      cases a
      cases b
      cases hab
      rfl
    · exact congrArg FileHash.bytes
  simp only [hasHash, h, Option.map_some, decide_eq_true_eq, Option.some.injEq,
    CertificateFingerprint.fromDer, CertificateFingerprint.mk.injEq, hbytes]

theorem certOf_put {t : Tables} {row : DeviceRow} {devices : Keyed DeviceRow.id}
    (h : devices = t.devices.put row) :
    (devices.find id).bind (·.certDer) = if id = row.id then row.certDer else certOf t id := by
  rw [h, Keyed.find_put]
  split_ifs
  · rfl
  · rfl

/-- **What is pinned stays so exactly if nothing else is written there.** -/
theorem pinned_step (h : Pinned blake3 (SqliteStateStore.store blake3) id c s)
    (x : HashOrder Device × LaterOp) :
    Pinned blake3 (SqliteStateStore.store blake3) id c
        (stepLater blake3 (SqliteStateStore.store blake3) s x) ↔ KeepsPin blake3 id c s x := by
  unfold stepLater
  rw [pinned_iff_rows] at h ⊢
  obtain ⟨hc, hfirst⟩ := h
  have hrow : id ∈ s.val.devices.keys := by
    by_contra hno
    rw [certOf, s.val.devices.find_eq_none_iff.mpr hno] at hc
    cases hc
  rcases step_devices s (x.1, x.2.val) x.2.property with ⟨hsame, hnot⟩ | ⟨row, hput, hcert⟩
  · refine iff_of_true ?_ fun w hw => ?_
    · rw [certOf, hsame]
      exact ⟨hc, hfirst⟩
    · have hw1 := hnot w hw
      refine ⟨fun heq => absurd (heq ▸ hrow) hw1, fun hmem => absurd ?_ hw1⟩
      exact (List.takeWhile_sublist _).subset hmem
  · rw [certOf, certOf_put hput, hput, s.val.devices.first_put hfirst]
    rcases hcert with ⟨hnone, hold⟩ | ⟨c', hsome, hnew⟩
    · -- the row keeps the certificate it has
      refine iff_of_true ⟨?_, fun heq => ?_, fun hmem => ?_⟩ fun w hw => ?_
      · split_ifs with heq
        · rw [hold, ← heq, hc]
        · exact hc
      · rw [heq, hc] at hold
        exact (hasHash_some hold).mpr rfl
      · rw [hasHash, hold, certOf]
        cases hf : s.val.devices.find row.id with
        | none => rfl
        | some b =>
          have hkey : b.id = row.id := s.val.devices.key_of_find hf
          exact s.val.devices.not_of_mem_before hfirst (s.val.devices.mem_of_find hf) (hkey ▸ hmem)
      · rw [hnone] at hw
        cases hw
    · have hkeeps : KeepsPin blake3 id c s x ↔
          (row.id = id → c' = c) ∧ (row.id ∈ s.val.devices.before id → blake3 c' ≠ blake3 c) := by
        simp [KeepsPin, hsome]
      rw [hkeeps, hnew, ← Bool.not_eq_true, hasHash_some hnew]
      constructor
      · rintro ⟨hcert, -, hother⟩
        refine ⟨fun heq => ?_, hother⟩
        rw [if_pos heq.symm] at hcert
        exact Option.some.inj hcert
      · rintro ⟨hown, hother⟩
        refine ⟨?_, fun heq => by rw [hown heq], hother⟩
        split_ifs with heq
        · rw [hown heq.symm]
        · exact hc

/-- The device has a row, and no row before it has a certificate of the hash. -/
def Pinnable (blake3 : Bytes → FileHash) (id : DeviceId) (c : Bytes) (s : SqliteStateStore) : Prop :=
  id ∈ s.val.devices.keys ∧
    ∀ row ∈ s.val.devices.rows, row.id ∈ s.val.devices.before id → hasHash blake3 c row = false

/-- **What is trusted is pinned exactly if there is a row for it.** -/
theorem trusted_iff {order : HashOrder Device} {s' : SqliteStateStore}
    (h : verifyOrTrust (SqliteStateStore.store blake3) order id c s = (.ok true, s')) :
    Pinned blake3 (SqliteStateStore.store blake3) id c s' ↔ Pinnable blake3 id c s := by
  rw [pinned_iff_rows]
  rcases @verifyOrTrust_val blake3 order id c s with ⟨stored, hc, hv⟩ | ⟨hc, hvalid, hv⟩
  · rw [hv] at h
    obtain ⟨heq, rfl⟩ := Prod.mk.inj h
    obtain rfl : c = stored := by simpa using heq
    obtain ⟨row, hrow, hder⟩ := Option.bind_eq_some_iff.mp hc
    obtain ⟨hmem, rfl⟩ := s.val.devices.find_eq_some_iff.mp hrow
    have hp : hasHash blake3 c row = true := (hasHash_some hder).mpr rfl
    rw [s.val.devices.first_eq_iff hmem hp, Pinnable]
    have hkey : row.id ∈ s.val.devices.keys := List.mem_map_of_mem hmem
    tauto
  · rw [hv] at h
    obtain ⟨-, rfl⟩ := Prod.mk.inj h
    cases hf : s.val.devices.find id with
    | none =>
      have hsame : setCert id c s.val = s.val := by
        rw [setCert, Keyed.modify, hf]
      refine iff_of_false (fun hpin => ?_) fun hpin => s.val.devices.find_eq_none_iff.mp hf hpin.1
      rw [show certOf _ id = certOf s.val id from congrArg (certOf · id) hsame, hc] at hpin
      cases hpin.1
    | some old =>
      obtain ⟨hmem, rfl⟩ := s.val.devices.find_eq_some_iff.mp hf
      let row : DeviceRow := { old with certDer := some c }
      have hput : (setCert old.id c s.val).devices = s.val.devices.put row := by
        rw [setCert, Keyed.modify, hf]
      have hown : old.id ∈ s.val.devices.keys := List.mem_map_of_mem hmem
      have hbefore : (s.val.devices.put row).before old.id = s.val.devices.before old.id := by
        rw [Keyed.before, Keyed.keys_put, if_pos hown, Keyed.before]
      have hcert : certOf (setCert old.id c s.val) old.id = some c := by
        rw [certOf, certOf_put hput, if_pos rfl]
      have hrow : row ∈ (s.val.devices.put row).rows := (Keyed.mem_put _).mpr (Or.inl rfl)
      have hp : hasHash blake3 c row = true := (hasHash_some rfl).mpr rfl
      show certOf (setCert old.id c s.val) old.id = some c ∧
        ((setCert old.id c s.val).devices.rows.find? (hasHash blake3 c)).map (·.id) = some row.id ↔ _
      rw [hput, Keyed.first_eq_iff _ hrow hp, Pinnable, hbefore]
      refine and_congr (iff_of_true hcert hown) ⟨fun h b hb hlt => ?_, fun h b hb hlt => ?_⟩
      · refine h b ((Keyed.mem_put _).mpr (Or.inr ⟨hb, fun heq => ?_⟩)) hlt
        exact s.val.devices.not_mem_before (show old.id ∈ _ from heq ▸ hlt)
      · rcases (Keyed.mem_put _).mp hb with rfl | ⟨hb, -⟩
        · exact absurd hlt s.val.devices.not_mem_before
        · exact h b hb hlt

end

end Sqlite

/-! ### In memory -/

namespace InMemoryStateStore

variable {blake3 : Bytes → FileHash}

/-- The fingerprint of a device. -/
def fingerprintOf (s : InMemoryStateStore) (id : DeviceId) : Option CertificateFingerprint :=
  (s.devices.find id).bind (·.fingerprint)

/-- The fingerprint that an operation leaves a device with. -/
def written (blake3 : Bytes → FileHash) (s : InMemoryStateStore) :
    VerifierOp → Option (DeviceId × Option CertificateFingerprint)
  | .trustFirstUse id c | .call (.setDeviceCert id c) =>
    some (id, some (CertificateFingerprint.fromDer blake3 c))
  | .verifyOrTrust id c => if s.fingerprintOf id = none
    then some (id, some (CertificateFingerprint.fromDer blake3 c)) else none
  | .call (.upsertDevice device) => some (device.id, device.fingerprint)
  | _ => none

/-- What is done to the devices: nothing, or a row is put in its place, with the
fingerprint that is written or with the one it had. -/
def DevicesStep (written : Option (DeviceId × Option CertificateFingerprint))
    (s s' : InMemoryStateStore) : Prop :=
  (s'.devices = s.devices ∧ written = none) ∨
  ∃ row, s'.devices = s.devices.put row ∧
    ((written = none ∧ row.fingerprint = s.fingerprintOf row.id) ∨
      written = some (row.id, row.fingerprint))

theorem setDeviceCert_devices (id : DeviceId) (c : Bytes) (s : InMemoryStateStore) :
    DevicesStep (some (id, some (CertificateFingerprint.fromDer blake3 c))) s
      (s.setDeviceCert blake3 id c) := by
  unfold setDeviceCert
  dsimp only
  cases hf : s.devices.find id with
  | none => exact Or.inr ⟨_, rfl, Or.inr rfl⟩
  | some device =>
    have hid : device.id = id := s.devices.key_of_find hf
    refine Or.inr ⟨_, rfl, Or.inr ?_⟩
    rw [← hid]

theorem setLastAddr_devices (id : DeviceId) (addr : String) (s : InMemoryStateStore) :
    DevicesStep none s
      { s with devices := s.devices.modify id fun d => { d with lastAddr := some addr } } := by
  unfold Keyed.modify
  cases hf : s.devices.find id with
  | none => exact Or.inl ⟨rfl, rfl⟩
  | some device =>
    have hid : device.id = id := s.devices.key_of_find hf
    refine Or.inr ⟨{ device with lastAddr := some addr }, rfl, Or.inl ⟨rfl, ?_⟩⟩
    show device.fingerprint = s.fingerprintOf device.id
    rw [fingerprintOf, hid, hf, Option.bind_some]

/-- A fingerprint that is stored is compared with the certificate, else the
certificate's is stored. -/
theorem verifyOrTrust_val (order : HashOrder Device) (id : DeviceId) (c : Bytes)
    (s : InMemoryStateStore) :
    (∃ fp, s.fingerprintOf id = some fp ∧
      verifyOrTrust (store blake3) order id c s = (.ok (decide (c = fp.bytes)), s)) ∨
    (s.fingerprintOf id = none ∧
      verifyOrTrust (store blake3) order id c s = (.ok true, s.setDeviceCert blake3 id c)) := by
  unfold verifyOrTrust
  have hget : (store blake3).perform order (.getDeviceCert id) s =
    (.ok (.cert ((s.fingerprintOf id).map (·.bytes))), s) := rfl
  rw [hget]
  cases hc : s.fingerprintOf id with
  | some fp => exact Or.inl ⟨fp, rfl, rfl⟩
  | none => exact Or.inr ⟨rfl, rfl⟩

theorem step_devices (s : InMemoryStateStore) (x : HashOrder Device × VerifierOp)
    (hx : x.2.isRemoval = false) :
    DevicesStep (written blake3 s x.2) s (step blake3 (store blake3) s x) := by
  obtain ⟨order, op⟩ := x
  cases op with
  | verifyPeer c => exact Or.inl ⟨rfl, rfl⟩
  | trustFirstUse id c => exact setDeviceCert_devices id c s
  | verifyOrTrust id c =>
    rcases @verifyOrTrust_val blake3 order id c s with ⟨stored, hc, hv⟩ | ⟨hc, hv⟩
    · simp only [step, hv, written, hc]
      exact Or.inl ⟨rfl, rfl⟩
    · simp only [step, hv, written, hc, if_true]
      exact setDeviceCert_devices id c s
  | call op =>
    cases op with
    | upsertDevice device => exact Or.inr ⟨device, rfl, Or.inr rfl⟩
    | setDeviceCert id c => exact setDeviceCert_devices id c s
    | setDeviceLastAddr id addr => exact setLastAddr_devices id addr s
    | removeDevice _ | clearAllSyncState => cases hx
    | _ => exact Or.inl ⟨rfl, rfl⟩

variable {id : DeviceId} {c : Bytes} {s : InMemoryStateStore}

/-- An order that begins with a given row. -/
def firstThen (row : Device) : HashOrder Device where
  order rows := if row ∈ rows then row :: rows.erase row else rows
  perm rows := by
    split_ifs with h
    · exact (List.perm_cons_erase h).symm
    · exact List.Perm.refl rows

/-- Whatever the order, the device of a fingerprint is this one. -/
theorem found_iff (fp : CertificateFingerprint) :
    (∀ order : HashOrder Device, ((order.order s.devices.rows).find? fun d =>
      decide (d.fingerprint = some fp)).map (·.id) = some id) ↔
    s.fingerprintOf id = some fp ∧ ∀ d ∈ s.devices.rows, d.fingerprint = some fp → d.id = id := by
  constructor
  · intro h
    have hall : ∀ d ∈ s.devices.rows, d.fingerprint = some fp → d.id = id := by
      intro d hd hfp
      have hfound := h (firstThen d)
      simpa [firstThen, hd, hfp] using hfound
    refine ⟨?_, hall⟩
    obtain ⟨d, hd, hid⟩ := Option.map_eq_some_iff.mp (h (HashOrder.inserted Device))
    have hmem : d ∈ s.devices.rows := List.mem_of_find?_eq_some hd
    have hfp : d.fingerprint = some fp := by simpa using List.find?_some hd
    rw [fingerprintOf, s.devices.find_eq_some_iff.mpr ⟨hmem, hid⟩, Option.bind_some, hfp]
  · rintro ⟨hfp, hall⟩ order
    obtain ⟨d, hd, hdf⟩ := Option.bind_eq_some_iff.mp hfp
    have hmem : d ∈ order.order s.devices.rows :=
      (order.perm _).mem_iff.mpr (s.devices.mem_of_find hd)
    cases hf : (order.order s.devices.rows).find? fun d => decide (d.fingerprint = some fp) with
    | none => simpa [hdf] using List.find?_eq_none.mp hf d hmem
    | some d' =>
      have hmem' : d' ∈ s.devices.rows :=
        (order.perm _).mem_iff.mp (List.mem_of_find?_eq_some hf)
      have hfp' : d'.fingerprint = some fp := by simpa using List.find?_some hf
      rw [Option.map_some, hall d' hmem' hfp']

/-- The certificate is its own hash, and only the device's. -/
theorem pinned_iff_rows : Pinned blake3 (store blake3) id c s ↔
    s.fingerprintOf id = some ⟨c⟩ ∧ (blake3 c).bytes = c ∧
      ∀ d ∈ s.devices.rows, d.fingerprint = some ⟨c⟩ → d.id = id := by
  have hpeer : (∀ order, (verifyPeer blake3 (store blake3) order c s).1 = .ok (some id)) ↔
      s.fingerprintOf id = some (CertificateFingerprint.fromDer blake3 c) ∧
        ∀ d ∈ s.devices.rows, d.fingerprint = some (CertificateFingerprint.fromDer blake3 c) →
          d.id = id := by
    rw [← found_iff]
    refine forall_congr' fun order => ?_
    constructor
    · exact Except.ok.inj
    · exact congrArg Except.ok
  have hcert : (∀ order c', (verifyOrTrust (store blake3) order id c' s).1 =
      .ok (decide (c' = c))) ↔ s.fingerprintOf id = some ⟨c⟩ := by
    constructor
    · intro h
      rcases @verifyOrTrust_val blake3 (HashOrder.inserted Device) id c s with
        ⟨fp, hfp, hv⟩ | ⟨hfp, -⟩
      · have heq := h (HashOrder.inserted Device) c
        rw [hv] at heq
        have hbytes : c = fp.bytes := by simpa using heq
        rw [hfp, hbytes]
      · -- another certificate would pass too
        have hother := h (HashOrder.inserted Device) (0 :: c)
        rcases @verifyOrTrust_val blake3 (HashOrder.inserted Device) id (0 :: c) s with
          ⟨fp, hfp', -⟩ | ⟨-, hv⟩
        · rw [hfp] at hfp'
          cases hfp'
        · rw [hv] at hother
          simp at hother
    · intro hfp order c'
      rcases @verifyOrTrust_val blake3 order id c' s with ⟨fp, hfp', hv⟩ | ⟨hfp', -⟩
      · rw [hfp] at hfp'
        rw [hv, ← Option.some.inj hfp']
      · rw [hfp] at hfp'
        cases hfp'
  rw [Pinned, forall_and, hcert, hpeer]
  constructor
  · rintro ⟨hfp, hfp', hall⟩
    have hself : (blake3 c).bytes = c := by
      rw [hfp'] at hfp
      simpa [CertificateFingerprint.fromDer] using hfp
    rw [CertificateFingerprint.fromDer, hself] at hall
    exact ⟨hfp, hself, hall⟩
  · rintro ⟨hfp, hself, hall⟩
    rw [CertificateFingerprint.fromDer, hself]
    exact ⟨hfp, hfp, hall⟩

/-- An operation that leaves the device with the fingerprint `c`, and gives it to no
other. -/
def KeepsPin (blake3 : Bytes → FileHash) (id : DeviceId) (c : Bytes) (s : InMemoryStateStore)
    (x : HashOrder Device × LaterOp) : Prop :=
  ∀ w, written blake3 s x.2.val = some w → (w.1 = id ↔ w.2 = some ⟨c⟩)

theorem pinned_step (h : Pinned blake3 (store blake3) id c s) (x : HashOrder Device × LaterOp) :
    Pinned blake3 (store blake3) id c (stepLater blake3 (store blake3) s x) ↔
      KeepsPin blake3 id c s x := by
  unfold stepLater
  rw [pinned_iff_rows] at h ⊢
  obtain ⟨hfp, hself, hall⟩ := h
  rcases step_devices s (x.1, x.2.val) x.2.property with ⟨hsame, hnone⟩ | ⟨row, hput, hrow⟩
  · refine iff_of_true ?_ fun w hw => ?_
    · rw [fingerprintOf, hsame]
      exact ⟨hfp, hself, hall⟩
    · rw [hnone] at hw
      cases hw
  · have hafter : (step blake3 (store blake3) s (x.1, x.2.val)).fingerprintOf id =
        if id = row.id then row.fingerprint else s.fingerprintOf id := by
      rw [fingerprintOf, hput, Keyed.find_put]
      split_ifs
      · rfl
      · rfl
    rw [hafter, hput]
    rcases hrow with ⟨hnone, hold⟩ | hsome
    · -- the row keeps the fingerprint it has
      refine iff_of_true ⟨?_, hself, fun d hd hdf => ?_⟩ fun w hw => ?_
      · split_ifs with heq
        · rw [hold, ← heq, hfp]
        · exact hfp
      · rcases (Keyed.mem_put _).mp hd with rfl | ⟨hd, -⟩
        · rw [hold] at hdf
          obtain ⟨b, hb, hbf⟩ := Option.bind_eq_some_iff.mp hdf
          obtain ⟨hmem, hkey⟩ := s.devices.find_eq_some_iff.mp hb
          rw [← hkey]
          exact hall b hmem hbf
        · exact hall d hd hdf
      · rw [hnone] at hw
        cases hw
    · have hkeeps : KeepsPin blake3 id c s x ↔ (row.id = id ↔ row.fingerprint = some ⟨c⟩) := by
        simp [KeepsPin, hsome]
      rw [hkeeps]
      constructor
      · rintro ⟨hown, -, hothers⟩
        constructor
        · intro heq
          rwa [if_pos heq.symm] at hown
        · exact hothers row ((Keyed.mem_put _).mpr (Or.inl rfl))
      · intro hiff
        refine ⟨?_, hself, fun d hd hdf => ?_⟩
        · split_ifs with heq
          · exact hiff.mp heq.symm
          · exact hfp
        · rcases (Keyed.mem_put _).mp hd with rfl | ⟨hd, -⟩
          · exact hiff.mpr hdf
          · exact hall d hd hdf

/-- The certificate is its own hash, and no other device has it. -/
def Pinnable (blake3 : Bytes → FileHash) (id : DeviceId) (c : Bytes) (s : InMemoryStateStore) : Prop :=
  (blake3 c).bytes = c ∧ ∀ d ∈ s.devices.rows, d.fingerprint = some ⟨c⟩ → d.id = id

theorem trusted_iff {order : HashOrder Device} {s' : InMemoryStateStore}
    (h : verifyOrTrust (store blake3) order id c s = (.ok true, s')) :
    Pinned blake3 (store blake3) id c s' ↔ Pinnable blake3 id c s := by
  rw [pinned_iff_rows]
  rcases @verifyOrTrust_val blake3 order id c s with ⟨fp, hfp, hv⟩ | ⟨hfp, hv⟩
  · rw [hv] at h
    obtain ⟨heq, rfl⟩ := Prod.mk.inj h
    have hbytes : c = fp.bytes := by simpa using heq
    rw [hfp, hbytes]
    exact and_iff_right rfl
  · rw [hv] at h
    obtain ⟨-, rfl⟩ := Prod.mk.inj h
    obtain ⟨row, hput, hid, hrow⟩ : ∃ row, (s.setDeviceCert blake3 id c).devices = s.devices.put row ∧
        row.id = id ∧ row.fingerprint = some (CertificateFingerprint.fromDer blake3 c) := by
      unfold setDeviceCert
      dsimp only
      cases hf : s.devices.find id with
      | none => exact ⟨_, rfl, rfl, rfl⟩
      | some device =>
        have hid : device.id = id := s.devices.key_of_find hf
        exact ⟨_, rfl, hid, rfl⟩
    have hafter : (s.setDeviceCert blake3 id c).fingerprintOf id =
        some (CertificateFingerprint.fromDer blake3 c) := by
      rw [fingerprintOf, hput, Keyed.find_put, if_pos hid.symm, Option.bind_some, hrow]
    have hself : (some (CertificateFingerprint.fromDer blake3 c) = some ⟨c⟩) ↔
        (blake3 c).bytes = c := by
      rw [Option.some.injEq, CertificateFingerprint.fromDer, CertificateFingerprint.mk.injEq]
    rw [hafter, hput, hself, Pinnable, and_self_left]
    refine and_congr_right fun _ => ⟨fun hall d hd hdf => ?_, fun hall d hd hdf => ?_⟩
    · by_contra hne
      refine hne (hall d ((Keyed.mem_put _).mpr (Or.inr ⟨hd, ?_⟩)) hdf)
      rwa [hid]
    · rcases (Keyed.mem_put _).mp hd with rfl | ⟨hd, -⟩
      · exact hid
      · exact hall d hd hdf

end InMemoryStateStore

/-! ### Either store -/

/-- **What a verifier has trusted stays pinned**, exactly if it can be pinned where it
was trusted and no later operation writes over it. -/
theorem pinned_iff (blake3 : Bytes → FileHash) (id : DeviceId) (c : Bytes)
    (order : HashOrder Device) (ops : List (HashOrder Device × LaterOp)) :
    (∀ s s' : SqliteStateStore,
      verifyOrTrust (SqliteStateStore.store blake3) order id c s = (.ok true, s') →
      (Runs.Always (stepLater blake3 (SqliteStateStore.store blake3))
          (Pinned blake3 (SqliteStateStore.store blake3) id c) s' ops ↔
        Sqlite.Pinnable blake3 id c s ∧
          Runs.Meets (stepLater blake3 (SqliteStateStore.store blake3))
            (Sqlite.KeepsPin blake3 id c) s' ops)) ∧
    ∀ s s' : InMemoryStateStore,
      verifyOrTrust (InMemoryStateStore.store blake3) order id c s = (.ok true, s') →
      (Runs.Always (stepLater blake3 (InMemoryStateStore.store blake3))
          (Pinned blake3 (InMemoryStateStore.store blake3) id c) s' ops ↔
        InMemoryStateStore.Pinnable blake3 id c s ∧
          Runs.Meets (stepLater blake3 (InMemoryStateStore.store blake3))
            (InMemoryStateStore.KeepsPin blake3 id c) s' ops) := by
  constructor
  · intro s s' h
    rw [← Sqlite.trusted_iff h]
    exact always_iff_pinned fun s x h => Sqlite.pinned_step h x
  · intro s s' h
    rw [← InMemoryStateStore.trusted_iff h]
    exact always_iff_pinned fun s x h => InMemoryStateStore.pinned_step h x

/-- A SQLite store with a row for the phone, and no certificate in it. -/
def namedPhone : SqliteStateStore where
  val := { SqliteStateStore.opened.val with
    devices := Keyed.empty.put ⟨⟨"phone"⟩, "Phone", none, none⟩ }
  valid := Sqlite.violation_eq_none.mpr (Sqlite.references_of_devices
    (Sqlite.violation_eq_none.mp SqliteStateStore.opened.valid) (Sqlite.keys_subset_put _ _))

/-- The phone's certificate stays pinned in SQLite when another device comes; in memory it is
not pinned to begin with. -/
theorem pinned_iff_phone :
    (∃ s', verifyOrTrust (SqliteStateStore.store sampleBlake3) (HashOrder.inserted Device) ⟨"phone"⟩ [97]
        namedPhone = (.ok true, s') ∧
      Runs.Always (stepLater sampleBlake3 (SqliteStateStore.store sampleBlake3))
        (Pinned sampleBlake3 (SqliteStateStore.store sampleBlake3) ⟨"phone"⟩ [97]) s'
        [(HashOrder.inserted Device, ⟨.verifyOrTrust ⟨"tablet"⟩ [98], rfl⟩)]) ∧
    ∃ s', verifyOrTrust (InMemoryStateStore.store sampleBlake3) (HashOrder.inserted Device) ⟨"phone"⟩ [97]
        InMemoryStateStore.new = (.ok true, s') ∧
      ¬Runs.Always (stepLater sampleBlake3 (InMemoryStateStore.store sampleBlake3))
        (Pinned sampleBlake3 (InMemoryStateStore.store sampleBlake3) ⟨"phone"⟩ [97]) s' [] := by
  constructor
  · rcases @Sqlite.verifyOrTrust_val sampleBlake3 (HashOrder.inserted Device) ⟨"phone"⟩ [97] namedPhone with
      ⟨stored, hc, -⟩ | ⟨-, hvalid, hv⟩
    · cases hc
    refine ⟨_, hv, ((pinned_iff sampleBlake3 ⟨"phone"⟩ [97] (HashOrder.inserted Device) _).1 _ _ hv).mpr
      ⟨⟨by decide, by decide⟩, Runs.meets_cons.mpr ⟨fun w hw => ?_, Runs.meets_nil⟩⟩⟩
    obtain rfl : (⟨"tablet"⟩, [98]) = w := Option.some.inj hw
    have hfirst : (Sqlite.setCert ⟨"phone"⟩ [97] namedPhone.val).devices.before ⟨"phone"⟩ = [] := rfl
    exact ⟨fun heq => absurd heq (by decide), fun hbefore => nomatch hfirst ▸ hbefore⟩
  · have hv : verifyOrTrust (InMemoryStateStore.store sampleBlake3) (HashOrder.inserted Device)
        ⟨"phone"⟩ [97] InMemoryStateStore.new = (.ok true, _) := rfl
    refine ⟨_, hv, fun halways => ?_⟩
    have hself := (((pinned_iff sampleBlake3 ⟨"phone"⟩ [97] (HashOrder.inserted Device) []).2 _ _ hv).mp
      halways).1.1
    revert hself
    decide +kernel

/-- A device without a row in SQLite, for which any certificate passes after the
first, and one in memory, for which not even the first does. -/
theorem trusted_unpinned :
    (¬∀ (id : DeviceId) (c : Bytes) (order : HashOrder Device) (s s' : SqliteStateStore),
      verifyOrTrust (SqliteStateStore.store sampleBlake3) order id c s = (.ok true, s') →
      Pinned sampleBlake3 (SqliteStateStore.store sampleBlake3) id c s') ∧
    ¬∀ (id : DeviceId) (c : Bytes) (order : HashOrder Device) (s s' : InMemoryStateStore),
      verifyOrTrust (InMemoryStateStore.store sampleBlake3) order id c s = (.ok true, s') →
      Pinned sampleBlake3 (InMemoryStateStore.store sampleBlake3) id c s' := by
  constructor
  · intro h
    rcases @Sqlite.verifyOrTrust_val sampleBlake3 (HashOrder.inserted Device) ⟨"dev-1"⟩ [97]
      SqliteStateStore.opened with ⟨stored, hc, -⟩ | ⟨-, hvalid, hv⟩
    · cases hc
    · have hpinned := (Sqlite.trusted_iff hv).mp (h _ _ _ _ _ hv)
      cases hpinned.1
  · intro h
    have hv : verifyOrTrust (InMemoryStateStore.store sampleBlake3) (HashOrder.inserted Device)
        ⟨"dev-1"⟩ [97] InMemoryStateStore.new = (.ok true, _) := rfl
    have hself := ((InMemoryStateStore.trusted_iff hv).mp (h _ _ _ _ _ hv)).1
    revert hself
    decide +kernel

end Persistence

end FerriSync
