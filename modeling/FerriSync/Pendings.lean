/-
# Held requests as they are listed

The app lists what its listeners hold (`pending_pairings` and `pending_folder_pairings` in
`api/mod.rs`): of all gates, in the order of the table of listeners, sorted, and one request
for each device, or for each folder and device. A decision goes to the first gate that holds
what is decided.

The two fit: a decision is refused as not pending exactly if nothing of the kind is listed,
and a pairing that is approved under the name that is listed stores the certificate
that came with that name (`listed_is_decided`), although the same device may have asked several
listeners under several names.

Key definitions: `Listeners.pendingPairings`, `Listeners.pendingFolderPairings`, `Decision.Listed`.
Key theorems: `mem_pendingPairings`, `mem_pendingFolderPairings`, `listed_is_decided`.
-/
import FerriSync.Lib.OnePerKey
import FerriSync.Listeners
import Mathlib.Data.Prod.Lex
import Mathlib.Data.String.Basic

namespace FerriSync

open Listing

/-- Devices currently held for confirmation: their names and identifiers. -/
def PairGateInner.pendingPairings (g : PairGateInner) : List (String × String) :=
  g.pending.map fun p => (p.deviceName, p.deviceId)

/-- A peer's request to pair to one of our shared folders, awaiting approval. -/
structure PendingFolderPairing where
  deviceId : String
  deviceName : String
  folderGuid : String
  folderName : String
deriving DecidableEq, Repr

def RemoteFolderPairRequest.pending (req : RemoteFolderPairRequest) : PendingFolderPairing :=
  ⟨req.deviceId, req.deviceName, req.folderGuid, req.name⟩

/-- What the list of folder requests is sorted by. -/
def PendingFolderPairing.key (p : PendingFolderPairing) : String ×ₗ String :=
  toLex (p.folderGuid, p.deviceId)

namespace Listeners

variable (s : Listeners)

def pendingPairings : List (String × String) :=
  onePerKey (fun p => p.2) (s.gates.flatMap PairGateInner.pendingPairings)

def pendingFolderPairings : List PendingFolderPairing :=
  onePerKey PendingFolderPairing.key
    (s.gates.flatMap fun g => g.folderPending.map RemoteFolderPairRequest.pending)

end Listeners

/-- What is decided is on the list. -/
def Decision.Listed (s : Listeners) : Decision → Prop
  | approvePairing deviceId _ | denyPairing deviceId => ∃ name, (name, deviceId) ∈ s.pendingPairings
  | approveFolder deviceId folderGuid _ _ _ | denyFolder deviceId folderGuid =>
    ∃ p ∈ s.pendingFolderPairings, p.deviceId = deviceId ∧ p.folderGuid = folderGuid

/-- The first of all lists is the first of the first list that has one. -/
theorem find_flatMap {α β : Type} (f : α → List β) (q : β → Bool) (xs : List α) :
    (xs.flatMap f).find? q =
      (splitFirst (fun x => (f x).any q) xs).bind fun parts => (f parts.2.1).find? q := by
  induction xs with
  | nil => rfl
  | cons x xs ih =>
    rw [List.flatMap_cons, List.find?_append, ih, splitFirst]
    cases hfirst : (f x).find? q with
    | none =>
      have hnone : (f x).any q = false := by
        rw [List.any_eq_false]
        exact List.find?_eq_none.mp hfirst
      rw [hnone]
      simp only [Bool.false_eq_true, if_false, Option.none_or]
      cases splitFirst (fun x => (f x).any q) xs <;> rfl
    | some y =>
      have hany : (f x).any q = true :=
        List.any_eq_true.mpr ⟨y, List.mem_of_find?_eq_some hfirst, List.find?_some hfirst⟩
      rw [if_pos hany]
      simp [hfirst]

section

variable {s : Listeners} {deviceId folderGuid name : String}

/-- **What is listed of a device** is the first request at the first gate that holds one. -/
theorem mem_pendingPairings : (name, deviceId) ∈ s.pendingPairings ↔ ∃ before g after p,
    splitFirst (fun g => g.isHeld deviceId) s.gates = some (before, g, after) ∧
      (g.pending.find? fun p => decide (p.deviceId = deviceId)) = some p ∧ p.deviceName = name := by
  have hheld : (fun g : PairGateInner => g.pendingPairings.any fun p => decide (p.2 = deviceId)) =
      fun g => g.isHeld deviceId := by
    funext g
    rw [PairGateInner.pendingPairings, List.any_map]
    rfl
  have hfind : ∀ g : PairGateInner, (g.pendingPairings.find? fun p => decide (p.2 = deviceId)) =
      (g.pending.find? fun p => decide (p.deviceId = deviceId)).map fun p => (p.deviceName, p.deviceId) := by
    intro g
    rw [PairGateInner.pendingPairings, List.find?_map]
    rfl
  unfold Listeners.pendingPairings
  rw [mem_onePerKey, find_flatMap, hheld]
  constructor
  · intro h
    obtain ⟨⟨before, g, after⟩, hsplit, hg⟩ := Option.bind_eq_some_iff.mp h
    rw [hfind] at hg
    obtain ⟨p, hp, hentry⟩ := Option.map_eq_some_iff.mp hg
    exact ⟨before, g, after, p, hsplit, hp, congrArg Prod.fst hentry⟩
  · rintro ⟨before, g, after, p, hsplit, hp, rfl⟩
    rw [hsplit, Option.bind_some, hfind, hp]
    have hid : p.deviceId = deviceId := by simpa using List.find?_some hp
    rw [← hid]
    rfl

theorem splitFirst_isSome {α : Type} {p : α → Bool} {xs : List α} :
    (splitFirst p xs).isSome = true ↔ ∃ x ∈ xs, p x = true := by
  induction xs with
  | nil => simp [splitFirst]
  | cons x xs ih =>
    unfold splitFirst
    by_cases hx : p x = true
    · simp [hx]
    · rw [if_neg hx, Option.isSome_map, ih]
      simp [hx]

/-- A device is listed if a gate holds it. -/
theorem listed_pairing_iff :
    (∃ name, (name, deviceId) ∈ s.pendingPairings) ↔ ∃ g ∈ s.gates, g.isHeld deviceId = true := by
  have hkeys : (∃ p ∈ s.pendingPairings, p.2 = deviceId) ↔
      ∃ p ∈ s.gates.flatMap PairGateInner.pendingPairings, p.2 = deviceId := exists_onePerKey
  constructor
  · rintro ⟨name, h⟩
    obtain ⟨p, hp, hid⟩ := hkeys.mp ⟨_, h, rfl⟩
    obtain ⟨g, hg, hp⟩ := List.mem_flatMap.mp hp
    obtain ⟨q, hq, rfl⟩ := List.mem_map.mp hp
    exact ⟨g, hg, List.any_eq_true.mpr ⟨q, hq, decide_eq_true hid⟩⟩
  · rintro ⟨g, hg, hheld⟩
    obtain ⟨q, hq, hid⟩ := List.any_eq_true.mp hheld
    obtain ⟨⟨name, id⟩, hp, rfl⟩ := hkeys.mpr
      ⟨_, List.mem_flatMap.mpr ⟨g, hg, List.mem_map_of_mem hq⟩, of_decide_eq_true hid⟩
    exact ⟨name, hp⟩

/-- A folder is listed for a device if a gate holds its request. -/
theorem listed_folder_iff :
    (∃ p ∈ s.pendingFolderPairings, p.deviceId = deviceId ∧ p.folderGuid = folderGuid) ↔
      ∃ g ∈ s.gates, g.holdsFolder deviceId folderGuid = true := by
  have hkey : ∀ p : PendingFolderPairing,
      p.deviceId = deviceId ∧ p.folderGuid = folderGuid ↔ p.key = toLex (folderGuid, deviceId) := by
    intro p
    rw [PendingFolderPairing.key, toLex_inj, Prod.mk.injEq, and_comm]
  simp only [hkey]
  refine exists_onePerKey.trans ?_
  constructor
  · rintro ⟨p, hp, hpkey⟩
    obtain ⟨g, hg, hp⟩ := List.mem_flatMap.mp hp
    obtain ⟨req, hreq, rfl⟩ := List.mem_map.mp hp
    obtain ⟨hid, hguid⟩ := (hkey _).mpr hpkey
    exact ⟨g, hg, List.any_eq_true.mpr ⟨req, hreq, by simpa using ⟨hid, hguid⟩⟩⟩
  · rintro ⟨g, hg, hholds⟩
    obtain ⟨req, hreq, hmatch⟩ := List.any_eq_true.mp hholds
    exact ⟨req.pending, List.mem_flatMap.mpr ⟨g, hg, List.mem_map_of_mem hreq⟩,
      (hkey _).mp (show req.deviceId = deviceId ∧ req.folderGuid = folderGuid by simpa using hmatch)⟩

/-- **A decision is about what is listed.** -/
theorem listed_iff {d : Decision} : d.Listed s ↔ ∃ g ∈ s.gates, d.holds g = true := by
  cases d with
  | approvePairing deviceId deviceName => exact listed_pairing_iff
  | denyPairing deviceId => exact listed_pairing_iff
  | approveFolder deviceId folderGuid folderName localPath remotePath => exact listed_folder_iff
  | denyFolder deviceId folderGuid => exact listed_folder_iff

theorem perform_eq_notPending_iff {d : Decision} :
    d.perform s = .error (.notPending d.notPending) ↔ ¬d.Listed s := by
  rw [listed_iff, ← splitFirst_isSome]
  unfold Decision.perform
  cases hsplit : splitFirst d.holds s.gates with
  | none => simp
  | some parts =>
    obtain ⟨before, g, after⟩ := parts
    dsimp only
    cases d.atGate s.ownId s.host g with
    | none => simp
    | some result => simp

end

/-- **What is listed is what is decided.** Each list has one request for each key, in order; a
decision is refused as not pending exactly if what it is about is not listed; and who approves
a device under the name that is listed stores the certificate that a gate holds with that name. -/
theorem listed_is_decided (s : Listeners) :
    (s.pendingPairings.Pairwise fun a b => a.2 < b.2) ∧
    (s.pendingFolderPairings.Pairwise fun a b => a.key < b.key) ∧
    (∀ d : Decision, d.perform s = .error (.notPending d.notPending) ↔ ¬d.Listed s) ∧
    ∀ name deviceId, (name, deviceId) ∈ s.pendingPairings → ∀ s',
      (Decision.approvePairing deviceId name).perform s = .ok s' →
      ∃ g ∈ s.gates, ∃ p ∈ g.pending, p.deviceId = deviceId ∧ p.deviceName = name ∧
        Database.upsertDevice deviceId name p.certDer none s.host.db = .ok () s'.host.db := by
  refine ⟨pairwise_onePerKey _, pairwise_onePerKey _, fun d => perform_eq_notPending_iff, ?_⟩
  intro name deviceId hlisted s' hs'
  obtain ⟨before, g, after, p, hsplit, hp, hname⟩ := mem_pendingPairings.mp hlisted
  obtain ⟨hgates, -, -⟩ := splitFirst_eq_some hsplit
  have hcert : Decision.heldCert deviceId g = p.certDer := by rw [Decision.heldCert, hp, Option.bind_some]
  refine ⟨g, by rw [hgates]; simp, p, List.mem_of_find?_eq_some hp, by simpa using List.find?_some hp,
    hname, ?_⟩
  unfold Decision.perform at hs'
  rw [show splitFirst (Decision.approvePairing deviceId name).holds s.gates = _ from hsplit] at hs'
  simp only [Decision.atGate, hcert] at hs'
  cases hupsert : Database.upsertDevice deviceId name p.certDer none s.host.db with
  | ok u db =>
    rw [hupsert] at hs'
    cases hs'
    rfl
  | error e db =>
    rw [hupsert] at hs'
    cases hs'

/-- The phone has asked a second listener as a tablet. -/
def askedTwice : Listeners :=
  ⟨"laptop", Host.new 1,
    [phoneGate, { PairGateInner.new with pending := [⟨"phone", "Tablet", some [2]⟩] }]⟩

theorem listed_is_decided_phone : ∃ s' : Listeners,
    Database.upsertDevice "phone" "Phone" (some [1]) none askedTwice.host.db = .ok () s'.host.db := by
  obtain ⟨s', hs'⟩ : ∃ s', (Decision.approvePairing "phone" "Phone").perform askedTwice = .ok s' :=
    ⟨_, rfl⟩
  have hlisted : ("Phone", "phone") ∈ askedTwice.pendingPairings :=
    mem_pendingPairings.mpr ⟨[], phoneGate, _, ⟨"phone", "Phone", some [1]⟩, rfl, rfl, rfl⟩
  obtain ⟨g, hg, p, hp, -, hname, hstored⟩ :=
    (listed_is_decided askedTwice).2.2.2 "Phone" "phone" hlisted s' hs'
  have hcert : p.certDer = some [1] := by
    rcases List.mem_pair.mp hg with rfl | rfl
    · rw [List.mem_singleton.mp hp]
    · rw [List.mem_singleton.mp hp] at hname
      exact absurd hname (by decide)
  rw [hcert] at hstored
  exact ⟨s', hstored⟩

end FerriSync
