/-
# Devices by name

The command line takes a device by its identifier, by the beginning of its name in
upper or lower case, or as an address (`commands/device.rs`). An argument with a
colon, or that is an IP address, is an address and nothing else; an exact identifier
goes before all names; and a beginning that several names share is ambiguous, also
where it is the whole name of one of them (`name_of_longer_name`). What is neither
finds its device by its full name, and an identifier does if it does not look like an
address, or is one (`lookup_by_name`).

`str::to_lowercase` and the quoting of `{:?}` are parameters.

Key definitions: `resolveDeviceKey`, `resolveDeviceId`, `AddressLike`, `Distinct`,
`Longer`.
Key theorems: `resolveDeviceId_exact`, `resolveDeviceId_name`, `lookup_by_name`.
-/
import FerriSync.Dialing
import FerriSync.Replicas

open Net

namespace FerriSync

/-- What is used of the standard library's strings. -/
structure StrFns where
  toLowercase : String → String
  debug : String → String

section

variable (str : StrFns) (db : Database) (listing : db.DeviceOrder) (ownDeviceId : String)

/-- The devices but our own, with their names. -/
def pairedNames : List (String × String) :=
  (listing.rows.filter fun d => decide (d.id ≠ ownDeviceId)).map fun d => (d.id, d.name)

/-- Exact id, or unique case-insensitive prefix of a display name, into its id and name. -/
def resolveDeviceId (device : String) : Except String (String × String) :=
  let paired := pairedNames db listing ownDeviceId
  match paired.find? fun p => decide (p.1 = device) with
  | some p => .ok p
  | none =>
    let needle := str.toLowercase device
    let named := paired.filter fun p => needle.toList.isPrefixOf (str.toLowercase p.2).toList
    match named with
    | [one] => .ok one
    | [] => .error s!"unknown device {str.debug device} — pair it first or use an ip[:port] address"
    | many =>
      let names := ", ".intercalate (many.map Prod.snd)
      .error s!"ambiguous device {str.debug device} — matches {names}"

def deviceLastAddr (id : String) : Option String :=
  (db.devices.find? fun d => decide (d.id = id)).bind (·.lastAddr)

/-- An argument that is taken for an address. -/
def addressLike (device : String) : Bool :=
  decide (':' ∈ device.toList) || (parseIpAddr device.toList).isSome

/-- The row key of a `--device` argument plus, when known, its current address. -/
def resolveDeviceKey (device : String) : Except String (String × Option SocketAddr) :=
  if addressLike device = true then
    match parseDevice device defaultPort with
    | .error e => .error e
    | .ok addr => .ok (device, some addr)
  else
    match resolveDeviceId str db listing ownDeviceId device with
    | .error e => .error e
    | .ok p => .ok (p.1, (deviceLastAddr db p.1).bind parseAddr)

end

/-- The name is, but for upper and lower case, no other id and no other name. -/
def Distinct (str : StrFns) (db : Database) (d : Db.Device) : Prop :=
  ∀ e ∈ db.devices, e.id ≠ d.id → str.toLowercase d.name ≠ str.toLowercase e.id ∧
    str.toLowercase d.name ≠ str.toLowercase e.name

/-- Another paired device has a name that begins with this one's. -/
def Longer (str : StrFns) (db : Database) (ownDeviceId : String) (d : Db.Device) : Prop :=
  ∃ e ∈ db.devices, e.id ≠ ownDeviceId ∧ e.id ≠ d.id ∧
    (str.toLowercase d.name).toList <+: (str.toLowercase e.name).toList

section

variable {str : StrFns} {s : DbState} {listing : s.val.DeviceOrder} {ownDeviceId : String}
  {d : Db.Device}

theorem mem_pairedNames {p : String × String} : p ∈ pairedNames s.val listing ownDeviceId ↔
    ∃ d ∈ s.val.devices, d.id ≠ ownDeviceId ∧ p = (d.id, d.name) := by
  simp only [pairedNames, List.mem_map, List.mem_filter, listing.perm.mem_iff, decide_eq_true_eq]
  constructor
  · intro ⟨d, ⟨hd, hne⟩, hp⟩
    exact ⟨d, hd, hne, hp.symm⟩
  · intro ⟨d, hd, hne, hp⟩
    exact ⟨d, ⟨hd, hne⟩, hp.symm⟩

theorem pairedNames_nodup : (pairedNames s.val listing ownDeviceId).Nodup := by
  have hids : (listing.rows.map fun d => d.id).Nodup :=
    (listing.perm.map _).nodup_iff.mpr s.keys.devices
  have hkept := hids.sublist ((List.filter_sublist (p := fun d => decide (d.id ≠ ownDeviceId))).map _)
  unfold pairedNames
  exact List.Nodup.of_map Prod.fst (by rwa [List.map_map])

/-- Ids tell devices apart. -/
theorem device_of_id {d e : Db.Device} (hd : d ∈ s.val.devices) (he : e ∈ s.val.devices)
    (h : e.id = d.id) : e = d := List.inj_on_of_nodup_map s.keys.devices he hd h

/-- The only one is found. -/
theorem find_of_unique {α : Type} {p : α → Bool} {l : List α} {a : α} (ha : a ∈ l) (hp : p a = true)
    (huniq : ∀ b ∈ l, p b = true → b = a) : l.find? p = some a := by
  have hsome : (l.find? p).isSome = true := List.find?_isSome.mpr ⟨a, ha, hp⟩
  obtain ⟨b, hb⟩ := Option.isSome_iff_exists.mp hsome
  rw [hb, huniq b (List.mem_of_find?_eq_some hb) (List.find?_some hb)]

theorem deviceLastAddr_of_mem (hd : d ∈ s.val.devices) : deviceLastAddr s.val d.id = d.lastAddr := by
  have hfind : (s.val.devices.find? fun e => decide (e.id = d.id)) = some d :=
    find_of_unique hd (by simp) fun e he hid => device_of_id hd he (of_decide_eq_true hid)
  rw [deviceLastAddr, hfind, Option.bind_some]

/-- **An exact id** is found before any name. -/
theorem resolveDeviceId_exact (hd : d ∈ s.val.devices) (hown : d.id ≠ ownDeviceId) :
    resolveDeviceId str s.val listing ownDeviceId d.id = .ok (d.id, d.name) := by
  have hmem : (d.id, d.name) ∈ pairedNames s.val listing ownDeviceId :=
    mem_pairedNames.mpr ⟨d, hd, hown, rfl⟩
  have hfind : (pairedNames s.val listing ownDeviceId).find? (fun p => decide (p.1 = d.id)) =
      some (d.id, d.name) := by
    refine find_of_unique hmem (by simp) fun p hp hid => ?_
    obtain ⟨e, he, -, rfl⟩ := mem_pairedNames.mp hp
    rw [device_of_id hd he (of_decide_eq_true hid)]
  simp only [resolveDeviceId, hfind]

/-- **A full name** is found, unless it is the beginning of another. -/
theorem resolveDeviceId_name (hd : d ∈ s.val.devices) (hown : d.id ≠ ownDeviceId)
    (hdistinct : Distinct str s.val d) (hlonger : ¬ Longer str s.val ownDeviceId d) :
    resolveDeviceId str s.val listing ownDeviceId d.name = .ok (d.id, d.name) := by
  by_cases hname : d.name = d.id
  · have hexact : resolveDeviceId str s.val listing ownDeviceId d.id = .ok (d.id, d.name) :=
      resolveDeviceId_exact hd hown
    rwa [← hname] at hexact ⊢
  · have hmem : (d.id, d.name) ∈ pairedNames s.val listing ownDeviceId :=
      mem_pairedNames.mpr ⟨d, hd, hown, rfl⟩
    have hfind : (pairedNames s.val listing ownDeviceId).find? (fun p => decide (p.1 = d.name)) =
        none := by
      apply List.find?_eq_none.mpr
      intro p hp hid
      obtain ⟨e, he, -, rfl⟩ := mem_pairedNames.mp hp
      have hid : e.id = d.name := of_decide_eq_true hid
      by_cases hsame : e.id = d.id
      · exact hname (hid.symm.trans hsame)
      · exact (hdistinct e he hsame).1 (by rw [hid])
    have hnamed : (pairedNames s.val listing ownDeviceId).filter (fun p =>
        (str.toLowercase d.name).toList.isPrefixOf (str.toLowercase p.2).toList) =
        [(d.id, d.name)] := by
      apply List.perm_singleton.mp
      apply (List.perm_ext_iff_of_nodup (pairedNames_nodup.filter _) (List.nodup_singleton _)).mpr
      intro p
      rw [List.mem_filter, List.mem_singleton, List.isPrefixOf_iff_prefix]
      constructor
      · intro ⟨hp, hprefix⟩
        obtain ⟨e, he, hpaired, rfl⟩ := mem_pairedNames.mp hp
        by_cases hsame : e.id = d.id
        · rw [device_of_id hd he hsame]
        · exact absurd ⟨e, he, hpaired, hsame, hprefix⟩ hlonger
      · intro hp
        rw [hp]
        exact ⟨hmem, List.prefix_refl _⟩
    simp only [resolveDeviceId, hfind, hnamed]

/-- What is found is a paired device. -/
theorem mem_of_resolveDeviceId {device : String} {p : String × String}
    (h : resolveDeviceId str s.val listing ownDeviceId device = .ok p) :
    ∃ d ∈ s.val.devices, d.id ≠ ownDeviceId ∧ p = (d.id, d.name) := by
  unfold resolveDeviceId at h
  dsimp only at h
  split at h
  · next q hfind =>
    rw [← Except.ok.inj h]
    exact mem_pairedNames.mp (List.mem_of_find?_eq_some hfind)
  · split at h
    · next one hone =>
      rw [← Except.ok.inj h]
      apply mem_pairedNames.mp (List.mem_of_mem_filter (hone ▸ List.mem_singleton_self one))
    · cases h
    · cases h

/-- An argument that does not look like an address is a device, with the address that is
recorded for it. -/
theorem resolveDeviceKey_of_id {device : String} (haddr : addressLike device = false)
    (hd : d ∈ s.val.devices)
    (hfound : resolveDeviceId str s.val listing ownDeviceId device = .ok (d.id, d.name)) :
    resolveDeviceKey str s.val listing ownDeviceId device = .ok (d.id, d.lastAddr.bind parseAddr) := by
  simp only [resolveDeviceKey, haddr, Bool.false_eq_true, if_false, hfound, deviceLastAddr_of_mem hd]

/-- One that does is the key itself. -/
theorem resolveDeviceKey_of_addr {device : String} {addr : SocketAddr}
    (haddr : addressLike device = true) (hparse : parseDevice device defaultPort = .ok addr) :
    resolveDeviceKey str s.val listing ownDeviceId device = .ok (device, some addr) := by
  simp only [resolveDeviceKey, haddr, if_true, hparse]

/-- Our own row is no paired device. -/
theorem resolveDeviceKey_ne_own (hown : addressLike ownDeviceId = false) (device : String)
    (addr : Option SocketAddr) :
    resolveDeviceKey str s.val listing ownDeviceId device ≠ .ok (ownDeviceId, addr) := by
  intro h
  unfold resolveDeviceKey at h
  split_ifs at h with haddr
  · split at h
    · cases h
    · have hsame := (Prod.mk.inj (Except.ok.inj h)).1
      rw [hsame, hown] at haddr
      cases haddr
  · split at h
    · cases h
    · next p hfound =>
      obtain ⟨d, -, hne, rfl⟩ := mem_of_resolveDeviceId hfound
      exact hne (Prod.mk.inj (Except.ok.inj h)).1

end

/-- **A device is found by its name** when that does not look like an address and is not the
beginning of another's, by its id when that is an address if it looks like one, and our
own device is never found. -/
theorem lookup_by_name (str : StrFns) (s : DbState) (listing : s.val.DeviceOrder)
    (ownDeviceId : String) :
    (∀ d ∈ s.val.devices, d.id ≠ ownDeviceId → Distinct str s.val d → addressLike d.name = false →
      ¬ Longer str s.val ownDeviceId d →
      resolveDeviceKey str s.val listing ownDeviceId d.name = .ok (d.id, d.lastAddr.bind parseAddr)) ∧
    (∀ d ∈ s.val.devices, d.id ≠ ownDeviceId →
      (addressLike d.id = true → ∃ addr, parseDevice d.id defaultPort = .ok addr) →
      ∃ addr, resolveDeviceKey str s.val listing ownDeviceId d.id = .ok (d.id, addr)) ∧
    (addressLike ownDeviceId = false → ∀ device addr,
      resolveDeviceKey str s.val listing ownDeviceId device ≠ .ok (ownDeviceId, addr)) := by
  refine ⟨?_, ?_, resolveDeviceKey_ne_own⟩
  · intro d hd hown hdistinct haddr hlonger
    exact resolveDeviceKey_of_id haddr hd (resolveDeviceId_name hd hown hdistinct hlonger)
  · intro d hd hown hparse
    cases haddr : addressLike d.id with
    | false => exact ⟨_, resolveDeviceKey_of_id haddr hd (resolveDeviceId_exact hd hown)⟩
    | true =>
      obtain ⟨addr, haddr'⟩ := hparse haddr
      exact ⟨_, resolveDeviceKey_of_addr haddr haddr'⟩

/-- Names of ASCII letters. -/
def asciiStr : StrFns where
  toLowercase t := String.ofList (t.toList.map Char.toLower)
  debug t := "\"" ++ t ++ "\""

/-- Two phones, of which one is the other's successor. -/
def twoPhones : Database :=
  { Database.empty with
    devices := [⟨"u-1", "Phone", none, some "192.168.1.20:9847"⟩, ⟨"u-2", "Phone 2", none, none⟩] }

theorem lookup_by_name_phones :
    resolveDeviceKey asciiStr twoPhones ⟨twoPhones.devices, List.Perm.refl _⟩ "laptop" "Phone 2" =
      .ok ("u-2", none) ∧
    (∃ addr, resolveDeviceKey asciiStr twoPhones ⟨twoPhones.devices, List.Perm.refl _⟩ "laptop" "u-1" =
      .ok ("u-1", addr)) ∧
    ∀ device addr, resolveDeviceKey asciiStr twoPhones ⟨twoPhones.devices, List.Perm.refl _⟩ "laptop"
      device ≠ .ok ("laptop", addr) := by
  obtain ⟨hnames, hids, hown⟩ := lookup_by_name asciiStr ⟨twoPhones, by decide⟩
    ⟨twoPhones.devices, List.Perm.refl _⟩ "laptop"
  refine ⟨?_, ?_, hown (by decide +kernel)⟩
  · exact hnames ⟨"u-2", "Phone 2", none, none⟩ (by decide) (by decide)
      (by unfold Distinct; decide +kernel) (by decide +kernel) (by unfold Longer; decide +kernel)
  · have hplain : addressLike "u-1" = false := by decide +kernel
    exact hids ⟨"u-1", "Phone", none, some "192.168.1.20:9847"⟩ (by decide) (by decide)
      fun haddr => absurd (hplain.symm.trans haddr) Bool.false_ne_true

/-- A device whose id and name have colons, and our own, whose id is an address. -/
def colons : Database :=
  { Database.empty with
    devices := [⟨"a:b", "Tom: laptop", none, none⟩, ⟨"10.0.0.1", "Desk", none, none⟩] }

/-- The older phone's name is the beginning of the other's; and what looks like an address is one,
be it a name, an id, or our own id. -/
theorem name_of_longer_name :
    (¬ ∀ (str : StrFns) (s : DbState) (listing : s.val.DeviceOrder) (ownDeviceId : String),
      ∀ d ∈ s.val.devices, d.id ≠ ownDeviceId → Distinct str s.val d →
        ∃ addr, resolveDeviceKey str s.val listing ownDeviceId d.name = .ok (d.id, addr)) ∧
    (¬ ∀ (str : StrFns) (s : DbState) (listing : s.val.DeviceOrder) (ownDeviceId : String),
      ∀ d ∈ s.val.devices, d.id ≠ ownDeviceId → Distinct str s.val d →
        ¬ Longer str s.val ownDeviceId d →
        ∃ addr, resolveDeviceKey str s.val listing ownDeviceId d.name = .ok (d.id, addr)) ∧
    (¬ ∀ (str : StrFns) (s : DbState) (listing : s.val.DeviceOrder) (ownDeviceId : String),
      ∀ d ∈ s.val.devices, d.id ≠ ownDeviceId →
        ∃ addr, resolveDeviceKey str s.val listing ownDeviceId d.id = .ok (d.id, addr)) ∧
    ¬ ∀ (str : StrFns) (s : DbState) (listing : s.val.DeviceOrder) (ownDeviceId device : String)
      (addr : Option SocketAddr),
        resolveDeviceKey str s.val listing ownDeviceId device ≠ .ok (ownDeviceId, addr) := by
  refine ⟨fun h => ?_, fun h => ?_, fun h => ?_, fun h => ?_⟩
  · obtain ⟨addr, haddr⟩ := h asciiStr ⟨twoPhones, by decide⟩ ⟨twoPhones.devices, List.Perm.refl _⟩
      "laptop" ⟨"u-1", "Phone", none, some "192.168.1.20:9847"⟩ (by decide) (by decide)
      (by unfold Distinct; decide +kernel)
    have hambiguous : resolveDeviceKey asciiStr twoPhones ⟨twoPhones.devices, List.Perm.refl _⟩
        "laptop" "Phone" = .error "ambiguous device \"Phone\" — matches Phone, Phone 2" := by
      decide +kernel
    rw [hambiguous] at haddr
    cases haddr
  · obtain ⟨addr, haddr⟩ := h asciiStr ⟨colons, by decide⟩ ⟨colons.devices, List.Perm.refl _⟩
      "10.0.0.1" ⟨"a:b", "Tom: laptop", none, none⟩ (by decide) (by decide)
      (by unfold Distinct; decide +kernel) (by unfold Longer; decide +kernel)
    have hinvalid : resolveDeviceKey asciiStr colons ⟨colons.devices, List.Perm.refl _⟩
        "10.0.0.1" "Tom: laptop" = .error "invalid device address Tom: laptop" := by decide +kernel
    rw [hinvalid] at haddr
    cases haddr
  · obtain ⟨addr, haddr⟩ := h asciiStr ⟨colons, by decide⟩ ⟨colons.devices, List.Perm.refl _⟩
      "10.0.0.1" ⟨"a:b", "Tom: laptop", none, none⟩ (by decide) (by decide)
    have hinvalid : resolveDeviceKey asciiStr colons ⟨colons.devices, List.Perm.refl _⟩
        "10.0.0.1" "a:b" = .error "invalid device address a:b" := by decide +kernel
    rw [hinvalid] at haddr
    cases haddr
  · apply h asciiStr ⟨colons, by decide⟩ ⟨colons.devices, List.Perm.refl _⟩ "10.0.0.1" "10.0.0.1"
      (some (.v4 ⟨10, 0, 0, 1⟩ 9847))
    decide +kernel

end FerriSync
