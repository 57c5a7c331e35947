/-
# Where a device is dialled

A host that accepts a pairing records where it came from, and a sync dials the
address it finds recorded, or the device's identifier when that is one:
`resolve_addr` (`bulk.rs`), and `parse_device` for the command line (`device.rs`).
What is recorded is the peer's address, a colon and the default port. For an address of
version 4, also one that comes mapped into version 6, that is a socket address; any other
of version 6 would need brackets. An identifier that is a bare address gets the default
port when it has no colon, which holds of version 4 only
(`recorded_dialable_iff`).

Key definitions: `recordedAddr`, `resolveAddr`, `parseDevice`, `DialsTo`.
Key theorems: `resolveAddr_recorded_v4`, `recorded_cert_iff`, `recorded_dialable_iff`.
-/
import FerriSync.Commit
import FerriSync.Lib.SocketAddr
import FerriSync.Server

open Net

namespace FerriSync

/-- `str::parse::<SocketAddr>`. -/
def parseAddr (text : String) : Option SocketAddr := parseSocketAddr text.toList

/-- `format!("{host}:{port}")`. -/
def withPort (host : String) (port : ℕ) : String := s!"{host}:{port}"

/-- What `listen_for_sync` records of a peer that it has paired with. -/
def recordedAddr (peer : IpAddr) : String :=
  withPort (String.ofList peer.toCanonical.chars) defaultPort

/-- The address recorded at pairing time, and else the device id itself. -/
def resolveAddr (deviceId : String) (lastAddr : Option String) : Option SocketAddr :=
  match lastAddr.bind parseAddr with
  | some parsed => some parsed
  | none =>
    if ':' ∈ deviceId.toList then parseAddr deviceId
    else parseAddr (withPort deviceId defaultPort)

/-- Parse a device argument that is either an IP or an IP:port. -/
def parseDevice (device : String) (port : ℕ) : Except String SocketAddr :=
  let parsed := if ':' ∈ device.toList then parseAddr device else parseAddr (withPort device port)
  match parsed with
  | some addr => .ok addr
  | none => .error s!"invalid device address {device}"

/-- The peer is dialled, where it listens unless told otherwise. -/
def DialsTo (resolved : Option SocketAddr) (peer : IpAddr) : Prop :=
  ∃ addr, resolved = some addr ∧ addr.ip = peer.toCanonical ∧ addr.port.toNat = defaultPort

/-- Without a recorded address the command line and a sync read an identifier alike. -/
theorem parseDevice_eq_ok_iff {device : String} {addr : SocketAddr} :
    parseDevice device defaultPort = .ok addr ↔ resolveAddr device none = some addr := by
  unfold parseDevice resolveAddr
  simp only [Option.bind_none]
  split
  · next parsed h => rw [h, Except.ok.injEq, Option.some.injEq]
  · next h => simp [h]

/-- What the server stores of a peer is the recorded address. -/
theorem serverStep_recordAddr (blake3 : Bytes → FileHash) {c : Inbound} (req : PairRequest)
    {s : Server} {peer : IpAddr} (hip : c.peerIp = some (String.ofList peer.toCanonical.chars))
    (hstored : s.failing = false) : (serverStep blake3 (.recordAddr c req) s).2.storage =
      s.storage.setDeviceLastAddr (c.identity blake3 req.deviceId) (recordedAddr peer) := by
  simp only [serverStep, hip, hstored, Bool.false_eq_true, if_false]
  rfl

section

variable {deviceId : String} {peer : IpAddr}

theorem toList_withPort (host : String) :
    (withPort host defaultPort).toList = host.toList ++ ":9847".toList := by
  have hport : (":" ++ toString defaultPort).toList = ":9847".toList := by decide
  calc (withPort host defaultPort).toList
      = (host ++ ":" ++ toString defaultPort).toList := rfl
    _ = host.toList ++ (":" ++ toString defaultPort).toList := by
      rw [String.append_assoc, String.toList_append]
    _ = host.toList ++ ":9847".toList := by rw [hport]

theorem readPort_default : readPort ":9847".toList = some (9847, []) := by decide +kernel

/-- **An address of version 4 can be dialled** as it is recorded, whoever the device is. -/
theorem resolveAddr_recorded_v4 {ip : Ipv4Addr} (hpeer : peer.toCanonical = .v4 ip)
    (deviceId : String) : resolveAddr deviceId (some (recordedAddr peer)) = some (.v4 ip 9847) := by
  have hread : readIpv4Addr ip.chars = some (ip, []) := by
    have h := @readIpv4Addr_chars [] ip (by simp)
    rwa [List.append_nil] at h
  have hparse : parseAddr (recordedAddr peer) = some (.v4 ip 9847) := by
    unfold parseAddr recordedAddr
    rw [toList_withPort, String.toList_ofList, hpeer]
    exact parseSocketAddr_append hread readPort_default
  simp [resolveAddr, hparse]

/-- **One of version 6 cannot**: it leaves the identifier. -/
theorem resolveAddr_recorded_v6 {ip : Ipv6Addr} (hpeer : peer.toCanonical = .v6 ip)
    (deviceId : String) :
    resolveAddr deviceId (some (recordedAddr peer)) = resolveAddr deviceId none := by
  have hunmapped := toIpv4Mapped_of_toCanonical hpeer
  have hparse : parseAddr (recordedAddr peer) = none := by
    unfold parseAddr recordedAddr
    rw [toList_withPort, String.toList_ofList, hpeer]
    exact parseSocketAddr_v6_append hunmapped _
  simp [resolveAddr, hparse]

/-- Identifiers made from certificates have hyphens. -/
theorem certToDeviceId_chars (blake3 : Bytes → FileHash) (cert : Bytes) :
    '-' ∈ (certToDeviceId blake3 cert).toList ∧
      ∀ c ∈ (certToDeviceId blake3 cert).toList, c ≠ ':' ∧ c ≠ '[' := by
  have hdigit : ∀ m < 16, Nat.digitChar m ≠ ':' ∧ Nat.digitChar m ≠ '[' := by decide
  have hhex : ∀ bs : Bytes, ∀ c ∈ hexBytes bs, c ≠ ':' ∧ c ≠ '[' := by
    intro bs c hc
    obtain ⟨b, -, hb⟩ := List.mem_flatMap.mp hc
    have hlt : b.toNat < 256 := b.toNat_lt
    simp only [hexByte, List.mem_cons, List.not_mem_nil, or_false] at hb
    obtain rfl | rfl := hb
    · exact hdigit _ (by omega)
    · exact hdigit _ (by omega)
  have hdash : '-' ≠ ':' ∧ '-' ≠ '[' := by decide
  simp only [certToDeviceId, uuidString, String.toList_ofList]
  constructor
  · simp
  · intro c hc
    simp only [List.mem_append, List.mem_cons] at hc
    grind

/-- Such an identifier is no address. -/
theorem resolveAddr_cert (blake3 : Bytes → FileHash) (cert : Bytes) :
    resolveAddr (certToDeviceId blake3 cert) none = none := by
  obtain ⟨hdash, hother⟩ := certToDeviceId_chars blake3 cert
  have hcolon : ':' ∉ (certToDeviceId blake3 cert).toList := fun h => (hother _ h).1 rfl
  have hbracket : ((certToDeviceId blake3 cert).toList ++ ":9847".toList).head? ≠ some '[' := by
    intro hhead
    obtain ⟨c, more, hchars⟩ := List.exists_cons_of_ne_nil (List.ne_nil_of_mem hdash)
    rw [hchars, List.cons_append, List.head?_cons, Option.some.injEq] at hhead
    apply (hother c _).2 hhead
    rw [hchars]
    exact List.mem_cons_self
  simp only [resolveAddr, Option.bind_none, if_neg hcolon, parseAddr, toList_withPort]
  exact parseSocketAddr_char hbracket (List.mem_append_left _ hdash) (by decide) (by decide) (by decide)

theorem not_dialsTo_none : ¬ DialsTo none peer := by
  intro h
  obtain ⟨addr, hnone, -⟩ := h
  cases hnone

/-- **For a device with a certificate** what is recorded is dialled exactly if it is of version 4. -/
theorem recorded_cert_iff (blake3 : Bytes → FileHash) (cert : Bytes) (peer : IpAddr) :
    DialsTo (resolveAddr (certToDeviceId blake3 cert) (some (recordedAddr peer))) peer ↔
      peer.toCanonical.isIpv4 = true := by
  cases hpeer : peer.toCanonical with
  | v4 ip =>
    rw [resolveAddr_recorded_v4 hpeer]
    exact iff_of_true ⟨_, rfl, hpeer.symm, rfl⟩ rfl
  | v6 ip =>
    rw [resolveAddr_recorded_v6 hpeer, resolveAddr_cert]
    exact iff_of_false not_dialsTo_none Bool.false_ne_true

/-- **An identifier that is a bare address** is dialled exactly if it is of version 4. -/
theorem bareId_iff (deviceId : String) (lastAddr : Option String)
    (hbare : parseIpAddr deviceId.toList = some peer) (hlast : lastAddr.bind parseAddr = none) :
    DialsTo (resolveAddr deviceId lastAddr) peer ↔ peer.isIpv4 = true := by
  cases peer with
  | v4 ip =>
    obtain ⟨hread, hcolon⟩ := readIpv4Addr_of_parseIpAddr hbare
    have hparse : resolveAddr deviceId lastAddr = some (.v4 ip 9847) := by
      simp only [resolveAddr, hlast, if_neg hcolon, parseAddr, toList_withPort]
      exact parseSocketAddr_append hread readPort_default
    rw [hparse]
    exact iff_of_true ⟨_, rfl, rfl, rfl⟩ rfl
  | v6 ip =>
    obtain ⟨hcolon, hparse⟩ := parseSocketAddr_of_v6 hbare
    have hnone : resolveAddr deviceId lastAddr = none := by
      simp only [resolveAddr, hlast, if_pos hcolon, parseAddr, hparse]
    rw [hnone]
    exact iff_of_false not_dialsTo_none Bool.false_ne_true

end

/-- **Which addresses can be dialled**: those of version 4, and recorded ones that were mapped
into version 6. -/
theorem recorded_dialable_iff (peer : IpAddr) :
    ((∀ deviceId, DialsTo (resolveAddr deviceId (some (recordedAddr peer))) peer) ↔
      peer.toCanonical.isIpv4 = true) ∧
    ∀ deviceId lastAddr, parseIpAddr deviceId.toList = some peer → lastAddr.bind parseAddr = none →
      (DialsTo (resolveAddr deviceId lastAddr) peer ↔ peer.isIpv4 = true) := by
  refine ⟨⟨fun h => ?_, fun h deviceId => ?_⟩, bareId_iff⟩
  · exact (recorded_cert_iff sampleBlake3 [97] peer).mp (h _)
  · cases hpeer : peer.toCanonical with
    | v4 ip =>
      rw [resolveAddr_recorded_v4 hpeer]
      exact ⟨_, rfl, hpeer.symm, rfl⟩
    | v6 ip =>
      rw [hpeer] at h
      cases h

theorem recorded_dialable_lan :
    (DialsTo (resolveAddr "192.168.1.5" none) (.v4 ⟨192, 168, 1, 5⟩) ↔
      (IpAddr.v4 ⟨192, 168, 1, 5⟩).isIpv4 = true) :=
  (recorded_dialable_iff (.v4 ⟨192, 168, 1, 5⟩)).2 "192.168.1.5" none (by decide +kernel) rfl

/-- The loopback address of version 6. -/
def loopback : IpAddr := .v6 (.ofGroups [0, 0, 0, 0, 0, 0, 0, 1])

/-- It is recorded as `::1:9847`. -/
theorem loopback_not_dialable : ¬ ∀ (blake3 : Bytes → FileHash) (cert : Bytes) (peer : IpAddr),
    DialsTo (resolveAddr (certToDeviceId blake3 cert) (some (recordedAddr peer))) peer ∧
      ∀ deviceId, parseIpAddr deviceId.toList = some peer →
        DialsTo (resolveAddr deviceId none) peer := by
  intro h
  have hrecorded := (recorded_cert_iff sampleBlake3 [97] loopback).mp (h sampleBlake3 [97] loopback).1
  revert hrecorded
  decide +kernel

end FerriSync
