/-
# The map of a reconciliation

What `reconcile_devices_by_cert` has in its map for an identifier, row by row
(`lookup_remapOf_cert`, `lookup_remapOf_stub`), and what the identifier stands for: the
device of its certificate, this device for the identifier that it had before, the only
device of its name (`deviceOf`). Where each certificate is in the row where it belongs,
the two agree for all identifiers but this device's own.

Key definitions: `namesake`, `deviceOf`, `CertsKept`.
Key theorems: `lookup_remapOf_cert`, `lookup_remapOf_stub`, `CertsKept.lookup`,
`CertsKept.deviceOf_deviceOf`, `CertsKept.deviceOf_mem`.
-/
import FerriSync.Reconciliation

namespace FerriSync

open Transactions

namespace Database

section

variable (blake3 : Bytes → FileHash)

/-- The device with the only certificate under the name, unless it is this one. -/
def namesake (rows : List Db.Device) (ownId name : String) : Option String :=
  if certCountByName rows name = 1 then
    (certIdByName blake3 rows name).filter fun id => decide (id ≠ ownId)
  else none

/-- The device that an identifier stands for: this one stands for itself. -/
def deviceOf (rows : List Db.Device) (certDer : Bytes) (legacySelfId : Option String) (id : String) :
    String :=
  let ownId := certToDeviceId blake3 certDer
  if id = ownId then ownId
  else match rows.find? fun d => decide (d.id = id) with
    | none => if legacySelfId = some id then ownId else id
    | some d =>
      match d.certDer with
      | some cert => certToDeviceId blake3 cert
      | none =>
        if legacySelfId = some id then ownId else (namesake blake3 rows ownId d.name).getD id

end

/-! ### The map -/

section

variable {blake3 : Bytes → FileHash} {rows : List Db.Device} {ownId id : String}
  {legacySelfId : Option String} {d : Db.Device} {m : AList fun _ : String => String}

theorem lookup_foldl_of_notMem
    {step : (AList fun _ : String => String) → Db.Device → AList fun _ : String => String}
    (hother : ∀ m d id, id ≠ d.id → (step m d).lookup id = m.lookup id) (hid : id ∉ rows.map (·.id)) :
    (rows.foldl step m).lookup id = m.lookup id := by
  induction rows generalizing m with
  | nil => rfl
  | cons d rows ih =>
    obtain ⟨hne, hrest⟩ := not_or.mp (List.mem_cons.not.mp hid)
    rw [List.foldl_cons, ih hrest, hother m d id hne]

/-- A row decides on its own key, whatever has become of the others. -/
theorem lookup_foldl_of_mem
    {step : (AList fun _ : String => String) → Db.Device → AList fun _ : String => String}
    (hother : ∀ m d id, id ≠ d.id → (step m d).lookup id = m.lookup id)
    (hlocal : ∀ m m' d, m.lookup d.id = m'.lookup d.id → (step m d).lookup d.id = (step m' d).lookup d.id)
    (hnodup : (rows.map (·.id)).Nodup) (hd : d ∈ rows) :
    (rows.foldl step m).lookup d.id = (step m d).lookup d.id := by
  induction rows generalizing m with
  | nil => cases hd
  | cons d' rows ih =>
    obtain ⟨hnew, hrest⟩ := List.nodup_cons.mp hnodup
    rw [List.foldl_cons]
    rcases List.mem_cons.mp hd with rfl | hd
    · exact lookup_foldl_of_notMem hother hnew
    · have hne : d.id ≠ d'.id := fun heq => hnew (List.mem_map.mpr ⟨d, hd, heq⟩)
      rw [ih hrest hd]
      exact hlocal _ _ d (hother m d' d.id hne)

theorem remapCert_other (m : AList fun _ : String => String) (d : Db.Device) (id : String)
    (hne : id ≠ d.id) :
    (remapCert blake3 m d).lookup id = m.lookup id := by
  unfold remapCert
  cases d.certDer with
  | none => rfl
  | some cert =>
    dsimp only
    split_ifs
    · exact AList.lookup_insert_ne hne
    · rfl

theorem remapOwn_other (m : AList fun _ : String => String) (d : Db.Device) (id : String)
    (hne : id ≠ d.id) :
    (remapOwn blake3 ownId m d).lookup id = m.lookup id := by
  unfold remapOwn
  cases d.certDer with
  | none => rfl
  | some cert =>
    dsimp only
    split_ifs
    · exact AList.lookup_insert_ne hne
    · rfl

theorem remapStub_other (m : AList fun _ : String => String) (d : Db.Device) (id : String)
    (hne : id ≠ d.id) :
    (remapStub blake3 rows ownId m d).lookup id = m.lookup id := by
  unfold remapStub
  split_ifs
  · rfl
  · rfl
  · cases certIdByName blake3 rows d.name with
    | none => rfl
    | some canonical =>
      dsimp only
      split_ifs
      · rfl
      · exact AList.lookup_insert_ne hne

theorem lookup_remapCert_cert {cert : Bytes} (hcert : d.certDer = some cert) :
    (remapCert blake3 m d).lookup d.id =
      if certToDeviceId blake3 cert ≠ d.id then some (certToDeviceId blake3 cert) else m.lookup d.id := by
  unfold remapCert
  rw [hcert]
  dsimp only
  split_ifs
  · exact AList.lookup_insert _
  · rfl

theorem lookup_remapOwn_cert {cert : Bytes} (hcert : d.certDer = some cert) :
    (remapOwn blake3 ownId m d).lookup d.id =
      if certToDeviceId blake3 cert = ownId ∧ d.id ≠ ownId then some ownId else m.lookup d.id := by
  unfold remapOwn
  rw [hcert]
  dsimp only
  split_ifs
  · exact AList.lookup_insert _
  · rfl

theorem lookup_remapStub (hcert : d.certDer = none) :
    (remapStub blake3 rows ownId m d).lookup d.id =
      (m.lookup d.id).or (namesake blake3 rows ownId d.name) := by
  have hmem : d.id ∈ m ↔ m.lookup d.id ≠ none := by
    rw [← Option.isSome_iff_ne_none, AList.lookup_isSome]
  unfold remapStub namesake
  rw [hcert]
  cases hlookup : m.lookup d.id with
  | some old =>
    have hthere : d.id ∈ m := hmem.mpr (by rw [hlookup]; exact fun h => by cases h)
    rw [if_pos (Or.inr hthere), hlookup]
    rfl
  | none =>
    have hfree : d.id ∉ m := fun hthere => hmem.mp hthere hlookup
    rw [if_neg (by simpa using hfree), Option.none_or]
    by_cases hcount : certCountByName rows d.name = 1
    · rw [if_neg (not_not.mpr hcount), if_pos hcount]
      cases certIdByName blake3 rows d.name with
      | none => exact hlookup
      | some canonical =>
        dsimp only
        rw [Option.filter_some]
        by_cases hown : canonical = ownId
        · rw [if_pos hown, hlookup, if_neg (by simpa using hown)]
        · rw [if_neg hown, AList.lookup_insert, if_pos (by simpa using hown)]
    · rw [if_pos hcount, if_neg hcount, hlookup]

/-- The map at first. -/
def legacyMap (ownId : String) : Option String → AList fun _ : String => String
  | none => ∅
  | some legacy => AList.singleton legacy ownId

theorem lookup_legacyMap :
    (legacyMap ownId legacySelfId).lookup id = if legacySelfId = some id then some ownId else none := by
  cases legacySelfId with
  | none => rfl
  | some legacy =>
    by_cases heq : legacy = id
    · rw [heq, if_pos rfl]
      exact List.dlookup_cons_eq _ _ _
    · rw [if_neg fun h => heq (Option.some.inj h)]
      exact (List.dlookup_cons_ne _ _ (Ne.symm heq)).trans (List.dlookup_nil _)

/-- The map before the rows without certificates are looked at. -/
def certMap (blake3 : Bytes → FileHash) (rows : List Db.Device) (ownId : String)
    (legacySelfId : Option String) : AList fun _ : String => String :=
  rows.foldl (remapOwn blake3 ownId)
    ((rows.foldl (remapCert blake3) (legacyMap ownId legacySelfId)).erase ownId)

theorem remapOf_eq : remapOf blake3 rows ownId legacySelfId =
    rows.foldl (remapStub blake3 rows ownId) (certMap blake3 rows ownId legacySelfId) := by
  cases legacySelfId <;> rfl

theorem remapCert_local (m m' : AList fun _ : String => String) (d : Db.Device)
    (h : m.lookup d.id = m'.lookup d.id) :
    (remapCert blake3 m d).lookup d.id = (remapCert blake3 m' d).lookup d.id := by
  cases hcert : d.certDer with
  | none =>
    unfold remapCert
    rw [hcert]
    exact h
  | some cert => rw [lookup_remapCert_cert hcert, lookup_remapCert_cert hcert, h]

theorem remapOwn_local (m m' : AList fun _ : String => String) (d : Db.Device)
    (h : m.lookup d.id = m'.lookup d.id) :
    (remapOwn blake3 ownId m d).lookup d.id = (remapOwn blake3 ownId m' d).lookup d.id := by
  cases hcert : d.certDer with
  | none =>
    unfold remapOwn
    rw [hcert]
    exact h
  | some cert => rw [lookup_remapOwn_cert hcert, lookup_remapOwn_cert hcert, h]

theorem remapStub_cert {cert : Bytes} (hcert : d.certDer = some cert) :
    remapStub blake3 rows ownId m d = m := by
  unfold remapStub
  rw [hcert]
  exact if_pos (Or.inl rfl)

theorem remapStub_local (m m' : AList fun _ : String => String) (d : Db.Device)
    (h : m.lookup d.id = m'.lookup d.id) :
    (remapStub blake3 rows ownId m d).lookup d.id = (remapStub blake3 rows ownId m' d).lookup d.id := by
  cases hcert : d.certDer with
  | none => rw [lookup_remapStub hcert, lookup_remapStub hcert, h]
  | some cert => rw [remapStub_cert hcert, remapStub_cert hcert, h]

/-- Our own identifier is erased; any other is as it was. -/
theorem lookup_erase_eq : (m.erase ownId).lookup id = if id = ownId then none else m.lookup id := by
  split_ifs with hown
  · rw [hown]
    exact AList.lookup_erase _ _
  · exact AList.lookup_erase_ne hown

/-- **An identifier without a row.** -/
theorem lookup_remapOf_of_notMem (hid : id ∉ rows.map (·.id)) :
    (remapOf blake3 rows ownId legacySelfId).lookup id =
      if id ≠ ownId ∧ legacySelfId = some id then some ownId else none := by
  rw [remapOf_eq, lookup_foldl_of_notMem remapStub_other hid, certMap,
    lookup_foldl_of_notMem remapOwn_other hid, lookup_erase_eq,
    lookup_foldl_of_notMem remapCert_other hid, lookup_legacyMap, ite_and, ite_not]

/-- **A row with a certificate.** -/
theorem lookup_remapOf_cert (hnodup : (rows.map (·.id)).Nodup) (hd : d ∈ rows) {cert : Bytes}
    (hcert : d.certDer = some cert) : (remapOf blake3 rows ownId legacySelfId).lookup d.id =
      if d.id = ownId then none
      else if certToDeviceId blake3 cert ≠ d.id then some (certToDeviceId blake3 cert)
      else if legacySelfId = some d.id then some ownId else none := by
  rw [remapOf_eq, lookup_foldl_of_mem remapStub_other remapStub_local hnodup hd, remapStub_cert hcert,
    certMap, lookup_foldl_of_mem remapOwn_other remapOwn_local hnodup hd, lookup_remapOwn_cert hcert,
    lookup_erase_eq, lookup_foldl_of_mem remapCert_other remapCert_local hnodup hd,
    lookup_remapCert_cert hcert, lookup_legacyMap]
  by_cases hown : d.id = ownId
  · simp only [if_pos hown, if_neg fun h : certToDeviceId blake3 cert = ownId ∧ d.id ≠ ownId => h.2 hown]
  · simp only [if_neg hown]
    by_cases hself : certToDeviceId blake3 cert = ownId
    · rw [if_pos ⟨hself, hown⟩, hself, if_pos (Ne.symm hown)]
    · rw [if_neg fun h => hself h.1]

/-- **A row without one.** -/
theorem lookup_remapOf_stub (hnodup : (rows.map (·.id)).Nodup) (hd : d ∈ rows) (hcert : d.certDer = none) :
    (remapOf blake3 rows ownId legacySelfId).lookup d.id =
      if d.id ≠ ownId ∧ legacySelfId = some d.id then some ownId
      else namesake blake3 rows ownId d.name := by
  have hown : ∀ m : AList fun _ : String => String, remapOwn blake3 ownId m d = m := fun m => by
    unfold remapOwn
    rw [hcert]
  have hcerts : ∀ m : AList fun _ : String => String, remapCert blake3 m d = m := fun m => by
    unfold remapCert
    rw [hcert]
  rw [remapOf_eq, lookup_foldl_of_mem remapStub_other remapStub_local hnodup hd,
    lookup_remapStub hcert, certMap, lookup_foldl_of_mem remapOwn_other remapOwn_local hnodup hd, hown,
    lookup_erase_eq,
    lookup_foldl_of_mem remapCert_other remapCert_local hnodup hd, hcerts, lookup_legacyMap]
  by_cases hself : d.id = ownId
  · rw [if_pos hself, if_neg fun h => h.1 hself, Option.none_or]
  · by_cases hlegacy : legacySelfId = some d.id
    · rw [if_neg hself, if_pos hlegacy, if_pos ⟨hself, hlegacy⟩]
      rfl
    · rw [if_neg hself, if_neg hlegacy, if_neg fun h => hlegacy h.2, Option.none_or]

end

/-! ### What an identifier stands for -/

section

variable {blake3 : Bytes → FileHash} {rows : List Db.Device} {certDer : Bytes} {ownId id : String}
  {legacySelfId : Option String} {d : Db.Device}

/-- Where each certificate belongs there is a row that carries it, and the old identifier of this
device is none of these. -/
def CertsKept (blake3 : Bytes → FileHash) (rows : List Db.Device) (certDer : Bytes)
    (legacySelfId : Option String) : Prop :=
  ∀ d ∈ rows, ∀ cert, d.certDer = some cert → cert = certDer ∨
    certToDeviceId blake3 cert ≠ certToDeviceId blake3 certDer ∧
      legacySelfId ≠ some (certToDeviceId blake3 cert) ∧
      ∃ e ∈ rows, e.id = certToDeviceId blake3 cert ∧ e.certDer = some cert

theorem find_device (hnodup : (rows.map (·.id)).Nodup) (hd : d ∈ rows) :
    (rows.find? fun e => decide (e.id = d.id)) = some d := by
  induction rows with
  | nil => cases hd
  | cons e rows ih =>
    obtain ⟨hnew, hrest⟩ := List.nodup_cons.mp hnodup
    obtain rfl | hd := List.mem_cons.mp hd
    · exact List.find?_cons_of_pos (decide_eq_true rfl)
    · have hne : e.id ≠ d.id := fun heq => hnew (List.mem_map.mpr ⟨d, hd, heq.symm⟩)
      rw [List.find?_cons_of_neg (by simpa using hne)]
      exact ih hrest hd

theorem find_device_none (hid : id ∉ rows.map (·.id)) :
    (rows.find? fun e => decide (e.id = id)) = none := by
  rw [List.find?_eq_none]
  intro e he heq
  exact hid (List.mem_map.mpr ⟨e, he, of_decide_eq_true heq⟩)

@[simp] theorem deviceOf_own : deviceOf blake3 rows certDer legacySelfId (certToDeviceId blake3 certDer) =
    certToDeviceId blake3 certDer := by
  rw [deviceOf, if_pos rfl]

theorem deviceOf_of_notMem (hid : id ∉ rows.map (·.id)) (hown : id ≠ certToDeviceId blake3 certDer) :
    deviceOf blake3 rows certDer legacySelfId id =
      if legacySelfId = some id then certToDeviceId blake3 certDer else id := by
  unfold deviceOf
  rw [if_neg hown, find_device_none hid]

theorem deviceOf_cert (hnodup : (rows.map (·.id)).Nodup) (hd : d ∈ rows)
    (hown : d.id ≠ certToDeviceId blake3 certDer) {cert : Bytes} (hcert : d.certDer = some cert) :
    deviceOf blake3 rows certDer legacySelfId d.id = certToDeviceId blake3 cert := by
  unfold deviceOf
  rw [if_neg hown, find_device hnodup hd]
  simp only [hcert]

theorem deviceOf_stub (hnodup : (rows.map (·.id)).Nodup) (hd : d ∈ rows)
    (hown : d.id ≠ certToDeviceId blake3 certDer) (hcert : d.certDer = none) :
    deviceOf blake3 rows certDer legacySelfId d.id =
      if legacySelfId = some d.id then certToDeviceId blake3 certDer
      else (namesake blake3 rows (certToDeviceId blake3 certDer) d.name).getD d.id := by
  unfold deviceOf
  rw [if_neg hown, find_device hnodup hd]
  simp only [hcert]

theorem certIdByName_eq_some {name canonical : String}
    (h : certIdByName blake3 rows name = some canonical) :
    ∃ d ∈ rows, ∃ cert, d.certDer = some cert ∧ d.name = name ∧
      canonical = certToDeviceId blake3 cert := by
  unfold certIdByName at h
  obtain ⟨cert, hlast, rfl⟩ := Option.map_eq_some_iff.mp h
  obtain ⟨d, hd, hcert⟩ := Option.bind_eq_some_iff.mp hlast
  have hmem := List.mem_filter.mp (List.mem_of_getLast? hd)
  have hname := of_decide_eq_true (Bool.and_eq_true_iff.mp hmem.2).2
  exact ⟨d, hmem.1, cert, hcert, hname, rfl⟩

theorem namesake_eq_some {name canonical : String} (h : namesake blake3 rows ownId name = some canonical) :
    canonical ≠ ownId ∧
      ∃ d ∈ rows, ∃ cert, d.certDer = some cert ∧ canonical = certToDeviceId blake3 cert := by
  unfold namesake at h
  split_ifs at h
  obtain ⟨hsome, hne⟩ := Option.filter_eq_some_iff.mp h
  obtain ⟨d, hd, cert, hcert, -, heq⟩ := certIdByName_eq_some hsome
  exact ⟨of_decide_eq_true hne, d, hd, cert, hcert, heq⟩

/-- An identifier stands for itself, for this device, or for the device of a certificate. -/
theorem deviceOf_cases (hnodup : (rows.map (·.id)).Nodup) (id : String) :
    deviceOf blake3 rows certDer legacySelfId id = id ∨
      deviceOf blake3 rows certDer legacySelfId id = certToDeviceId blake3 certDer ∨
      ∃ d ∈ rows, ∃ cert, d.certDer = some cert ∧
        deviceOf blake3 rows certDer legacySelfId id = certToDeviceId blake3 cert := by
  by_cases hown : id = certToDeviceId blake3 certDer
  · rw [hown]
    exact .inl deviceOf_own
  by_cases hid : id ∈ rows.map (·.id)
  · obtain ⟨d, hd, rfl⟩ := List.mem_map.mp hid
    cases hcert : d.certDer with
    | some cert => exact .inr (.inr ⟨d, hd, cert, hcert, deviceOf_cert hnodup hd hown hcert⟩)
    | none =>
      rw [deviceOf_stub hnodup hd hown hcert]
      split_ifs
      · exact .inr (.inl rfl)
      · cases hname : namesake blake3 rows (certToDeviceId blake3 certDer) d.name with
        | none => exact .inl rfl
        | some canonical =>
          obtain ⟨-, e, he, cert, hcert, heq⟩ := namesake_eq_some hname
          exact .inr (.inr ⟨e, he, cert, hcert, heq⟩)
  · rw [deviceOf_of_notMem hid hown]
    split_ifs
    · exact .inr (.inl rfl)
    · exact .inl rfl

variable (hnodup : (rows.map (·.id)).Nodup) (hkept : CertsKept blake3 rows certDer legacySelfId)
include hnodup hkept

/-- The device of a certificate is this one, or has a row that stays. -/
theorem CertsKept.row (hd : d ∈ rows) {cert : Bytes} (hcert : d.certDer = some cert)
    (hown : certToDeviceId blake3 cert ≠ certToDeviceId blake3 certDer) :
    certToDeviceId blake3 cert ∈ rows.map (·.id) ∧
      deviceOf blake3 rows certDer legacySelfId (certToDeviceId blake3 cert) =
        certToDeviceId blake3 cert ∧
      (remapOf blake3 rows (certToDeviceId blake3 certDer) legacySelfId).lookup
        (certToDeviceId blake3 cert) = none := by
  obtain rfl | ⟨-, hlegacy, e, he, hid, hcarries⟩ := hkept d hd cert hcert
  · exact absurd rfl hown
  · rw [← hid] at hown hlegacy ⊢
    refine ⟨List.mem_map_of_mem he, ?_, ?_⟩
    · rw [deviceOf_cert hnodup he hown hcarries, hid]
    · rw [lookup_remapOf_cert hnodup he hcarries, if_neg hown, if_neg (not_ne_iff.mpr hid.symm),
        if_neg hlegacy]

/-- Standing for something is final. -/
theorem CertsKept.deviceOf_deviceOf (id : String) :
    deviceOf blake3 rows certDer legacySelfId
        (deviceOf blake3 rows certDer legacySelfId id) =
      deviceOf blake3 rows certDer legacySelfId id := by
  by_cases hown : deviceOf blake3 rows certDer legacySelfId id =
      certToDeviceId blake3 certDer
  · rw [hown]
    exact deviceOf_own
  obtain hself | hself | ⟨d, hd, cert, hcert, hself⟩ :=
    @deviceOf_cases blake3 rows certDer legacySelfId hnodup id
  · rw [hself, hself]
  · exact absurd hself hown
  · rw [hself] at hown ⊢
    exact (hkept.row hnodup hd hcert hown).2.1

/-- **The map of any other identifier** leads to what it stands for. -/
theorem CertsKept.lookup (hown : id ≠ certToDeviceId blake3 certDer) :
    (remapOf blake3 rows (certToDeviceId blake3 certDer) legacySelfId).lookup id =
      if deviceOf blake3 rows certDer legacySelfId id = id then none
      else some (deviceOf blake3 rows certDer legacySelfId id) := by
  by_cases hid : id ∈ rows.map (·.id)
  · obtain ⟨d, hd, rfl⟩ := List.mem_map.mp hid
    cases hcert : d.certDer with
    | some cert =>
      rw [lookup_remapOf_cert hnodup hd hcert, if_neg hown, deviceOf_cert hnodup hd hown hcert]
      by_cases hsame : certToDeviceId blake3 cert = d.id
      · obtain rfl | ⟨-, hlegacy, -⟩ := hkept d hd cert hcert
        · exact absurd hsame.symm hown
        · rw [hsame] at hlegacy
          rw [if_neg (not_ne_iff.mpr hsame), if_neg hlegacy, if_pos hsame]
      · rw [if_pos hsame, if_neg hsame]
    | none =>
      rw [lookup_remapOf_stub hnodup hd hcert, deviceOf_stub hnodup hd hown hcert]
      by_cases hlegacy : legacySelfId = some d.id
      · rw [if_pos ⟨hown, hlegacy⟩, if_pos hlegacy, if_neg (Ne.symm hown)]
      · rw [if_neg fun h => hlegacy h.2, if_neg hlegacy]
        cases hname : namesake blake3 rows (certToDeviceId blake3 certDer) d.name with
        | none => rw [Option.getD_none, if_pos rfl]
        | some canonical =>
          -- the row of the namesake has a certificate, and this one has none
          have hne : canonical ≠ d.id := by
            rintro rfl
            obtain ⟨hcanonical, e, he, cert, hcert', heq⟩ := namesake_eq_some hname
            obtain rfl | ⟨-, -, e', he', hid', hcarries⟩ := hkept e he cert hcert'
            · exact hcanonical heq
            · have hrow : e' = d := List.inj_on_of_nodup_map hnodup he' hd (hid'.trans heq.symm)
              rw [hrow, hcert] at hcarries
              cases hcarries
          rw [Option.getD_some, if_neg hne]
  · rw [lookup_remapOf_of_notMem hid, deviceOf_of_notMem hid hown]
    by_cases hlegacy : legacySelfId = some id
    · rw [if_pos ⟨hown, hlegacy⟩, if_pos hlegacy, if_neg (Ne.symm hown)]
    · rw [if_neg fun h => hlegacy h.2, if_neg hlegacy, if_pos rfl]

/-- What a row stands for has a row, if this device has. -/
theorem CertsKept.deviceOf_mem (hid : id ∈ rows.map (·.id))
    (hown : certToDeviceId blake3 certDer ∈ rows.map (·.id) ∨
      deviceOf blake3 rows certDer legacySelfId id ≠ certToDeviceId blake3 certDer) :
    deviceOf blake3 rows certDer legacySelfId id ∈ rows.map (·.id) := by
  by_cases hself : deviceOf blake3 rows certDer legacySelfId id =
      certToDeviceId blake3 certDer
  · rw [hself]
    exact hown.resolve_right (not_not.mpr hself)
  obtain hsame | hsame | ⟨d, hd, cert, hcert, hsame⟩ :=
    @deviceOf_cases blake3 rows certDer legacySelfId hnodup id
  · rw [hsame]
    exact hid
  · exact absurd hsame hself
  · rw [hsame] at hself ⊢
    exact (hkept.row hnodup hd hcert hself).1

end

end Database

end FerriSync
