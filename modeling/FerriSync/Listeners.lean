/-
# Decisions of the operator

The app has a listener for each folder, and each listener a gate of its own (`api/mod.rs`,
`ServeHandle` in `server.rs`), over one database. A device that contacts several of them
is held at several gates, but listed to the operator once. The operator's decision about
it goes to the first gate that holds it, in the order of a hash map, and to no other:
it reaches all of them exactly if no other holds the device, and, for a refusal, the others
have refused it before (`decision_reaches_all_iff`).

Key definitions: `splitFirst`, `Listeners`, `Decision`, `Decision.perform`,
`Decision.Reached`, `Decision.ReachesAll`.
Key theorems: `requestFolderPair_rejected_iff`, `decision_reaches_all_iff`.
-/
import FerriSync.FolderPairs

namespace FerriSync

open Transactions

/-! ### The first that has a property -/

section

variable {α : Type} {p : α → Bool} {xs before after : List α} {x : α}

/-- What comes before the first element with the property, the element, and what comes
after it. -/
def splitFirst (p : α → Bool) : List α → Option (List α × α × List α)
  | [] => none
  | x :: xs => if p x then some ([], x, xs)
    else (splitFirst p xs).map fun parts => (x :: parts.1, parts.2.1, parts.2.2)

theorem splitFirst_eq_some (h : splitFirst p xs = some (before, x, after)) :
    xs = before ++ x :: after ∧ p x = true ∧ ∀ y ∈ before, p y = false := by
  induction xs generalizing before with
  | nil => cases h
  | cons y ys ih =>
    unfold splitFirst at h
    by_cases hy : p y = true
    · rw [if_pos hy] at h
      cases h
      exact ⟨rfl, hy, fun z hz => absurd hz List.not_mem_nil⟩
    · rw [if_neg hy] at h
      obtain ⟨⟨before', z, after'⟩, hrest, hparts⟩ := Option.map_eq_some_iff.mp h
      cases hparts
      obtain ⟨hys, hz, hbefore⟩ := ih hrest
      refine ⟨by rw [hys, List.cons_append], hz, fun w hw => ?_⟩
      rcases List.mem_cons.mp hw with rfl | hw
      · exact eq_false_of_ne_true hy
      · exact hbefore w hw

/-- None but the first has the property. -/
theorem countP_splitFirst (h : splitFirst p xs = some (before, x, after)) :
    xs.countP p ≤ 1 ↔ ∀ y ∈ after, p y = false := by
  obtain ⟨rfl, hx, hbefore⟩ := splitFirst_eq_some h
  have hnone : before.countP p = 0 := List.countP_eq_zero.mpr fun y hy => by simp [hbefore y hy]
  rw [List.countP_append, List.countP_cons_of_pos hx, hnone]
  constructor
  · intro hle y hy
    have hzero : after.countP p = 0 := by omega
    exact eq_false_of_ne_true (List.countP_eq_zero.mp hzero y hy)
  · intro hafter
    have hzero : after.countP p = 0 := List.countP_eq_zero.mpr fun y hy => by simp [hafter y hy]
    omega

/-- What is said of all, said of the one and of the others. -/
theorem forall_replaced {Q : α → Prop} {y : α} :
    (∀ z ∈ before ++ y :: after, Q z) ↔ Q y ∧ ∀ z ∈ before ++ after, Q z := by
  simp only [List.mem_append, List.mem_cons]
  constructor
  · intro h
    exact ⟨h y (Or.inr (Or.inl rfl)), fun z hz => h z (hz.imp_right Or.inr)⟩
  · rintro ⟨hy, hrest⟩ z (hz | rfl | hz)
    · exact hrest z (Or.inl hz)
    · exact hy
    · exact hrest z (Or.inr hz)

end

/-! ### Gates -/

namespace Database

def getDeviceByCertFingerprint (blake3 : Bytes → FileHash) (fingerprint : FileHash) (db : Database) :
    Option String :=
  (db.devices.find? fun d => d.certDer.any fun cert => decide (blake3 cert = fingerprint)).map (·.id)

end Database

namespace PairGateInner

variable (g : PairGateInner)

/-- The request of the device for the folder is held. -/
def holdsFolder (deviceId folderGuid : String) : Bool :=
  g.folderPending.any fun p => decide (p.deviceId = deviceId) && decide (p.folderGuid = folderGuid)

/-- Deny a held pairing and remember the choice. -/
def denyPairing (deviceId : String) : PairGateInner :=
  { g.dropPending deviceId with denied := insert deviceId g.denied }

def denyFolderPair (deviceId folderGuid : String) : PairGateInner :=
  { g.dropFolderPending deviceId folderGuid with
    folderDenied := insert (deviceId, folderGuid) g.folderDenied }

/-- Decide how to answer an incoming pairing request. -/
def admitPairing (blake3 : Bytes → FileHash) (db : Database) (deviceId deviceName : String)
    (certDer : Option Bytes) : Admission × PairGateInner :=
  if certDer.any fun cert => (db.getDeviceByCertFingerprint blake3 (blake3 cert)).isSome then (.accept, g)
  else if deviceId ∈ g.denied then (.deny, g)
  else (.hold, if g.isHeld deviceId then g
    else { g with pending := g.pending ++ [⟨deviceId, deviceName, certDer⟩] })

end PairGateInner

/-! ### The listeners of an app -/

/-- The gates are in the order in which the table of listeners is iterated over. Each
holds a peer that is not known until the operator decides. -/
structure Listeners where
  ownId : String
  host : Host
  gates : List PairGateInner

inductive DecisionError
  | notPending (message : String)
  | storage
deriving DecidableEq, Repr

/-- A decision of the operator. -/
inductive Decision
  | approvePairing (deviceId deviceName : String)
  | denyPairing (deviceId : String)
  | approveFolder (deviceId folderGuid folderName localPath : String) (remotePath : Option String)
  | denyFolder (deviceId folderGuid : String)
deriving DecidableEq, Repr

namespace Decision

/-- The gate holds what is decided. -/
def holds : Decision → PairGateInner → Bool
  | approvePairing deviceId _, g => g.isHeld deviceId
  | denyPairing deviceId, g => g.isHeld deviceId
  | approveFolder deviceId folderGuid _ _ _, g => g.holdsFolder deviceId folderGuid
  | denyFolder deviceId folderGuid, g => g.holdsFolder deviceId folderGuid

def notPending : Decision → String
  | approvePairing deviceId _ => "no pending pairing for device " ++ deviceId
  | denyPairing deviceId => "no pending pairing for device " ++ deviceId
  | approveFolder deviceId folderGuid _ _ _ =>
    "no pending folder pairing for device " ++ deviceId ++ " on " ++ folderGuid
  | denyFolder deviceId folderGuid =>
    "no pending folder pairing for device " ++ deviceId ++ " on " ++ folderGuid

/-- The certificate that was captured during the hold. -/
def heldCert (deviceId : String) (g : PairGateInner) : Option Bytes :=
  (g.pending.find? fun p => decide (p.deviceId = deviceId)).bind (·.certDer)

/-- The decision at one gate. `none`: the database fails. -/
def atGate (ownId : String) (host : Host) (g : PairGateInner) : Decision → Option (Host × PairGateInner)
  | approvePairing deviceId deviceName =>
    match Database.upsertDevice deviceId deviceName (heldCert deviceId g) none host.db with
    | .ok _ db => some ({ host with db }, g.dropPending deviceId)
    | .error _ _ => none
  | denyPairing deviceId => some (host, g.denyPairing deviceId)
  | approveFolder deviceId folderGuid folderName localPath remotePath =>
    let n : Node := ⟨ownId, host, g⟩
    let approved := n.approveFolderPair deviceId folderGuid folderName localPath remotePath
    approved.1.map fun _ => (approved.2.host, approved.2.gate)
  | denyFolder deviceId folderGuid => some (host, g.denyFolderPair deviceId folderGuid)

/-- The decision goes to the first gate that holds what is decided. -/
def perform (s : Listeners) (d : Decision) : Except DecisionError Listeners :=
  match splitFirst d.holds s.gates with
  | none => .error (.notPending d.notPending)
  | some (before, g, after) =>
    match d.atGate s.ownId s.host g with
    | some (host, g) => .ok { s with host, gates := before ++ g :: after }
    | none => .error .storage

/-- The gate denies the device, unless it comes with a certificate that is stored. -/
def DeniesDevice (blake3 : Bytes → FileHash) (db : Database) (deviceId : String) (g : PairGateInner) :
    Prop :=
  ∀ deviceName cert, certToDeviceId blake3 cert = deviceId →
    (db.getDeviceByCertFingerprint blake3 (blake3 cert)).isSome = false →
    (g.admitPairing blake3 db deviceId deviceName (some cert)).1 = .deny

/-- The gate rejects the device's requests for the folder. -/
def RejectsFolder (s : Listeners) (deviceId folderGuid : String) (g : PairGateInner) : Prop :=
  ∀ (req : RemoteFolderPairRequest) (localPath : String), req.deviceId = deviceId →
    req.folderGuid = folderGuid →
    (Node.requestFolderPair ⟨s.ownId, s.host, g⟩ req localPath).1 = .rejected

/-- A refusal is repeated by the gate. -/
def Repeats (blake3 : Bytes → FileHash) (s : Listeners) (g : PairGateInner) : Decision → Prop
  | denyPairing deviceId => DeniesDevice blake3 s.host.db.val deviceId g
  | denyFolder deviceId folderGuid => RejectsFolder s deviceId folderGuid g
  | approvePairing _ _ | approveFolder _ _ _ _ _ => True

/-- No gate holds any more what has been decided, and every gate repeats a refusal. -/
def Reached (blake3 : Bytes → FileHash) (s : Listeners) (d : Decision) : Prop :=
  (∀ g ∈ s.gates, d.holds g = false) ∧ ∀ g ∈ s.gates, d.Repeats blake3 s g

/-- What is refused the gate holds or has refused already (unless the device's certificate
is stored), and it has not granted it. -/
def Refusable (blake3 : Bytes → FileHash) (s : Listeners) (g : PairGateInner) : Decision → Prop
  | denyPairing deviceId => g.isHeld deviceId = true ∨ deviceId ∈ g.denied ∨
      ∀ cert, certToDeviceId blake3 cert = deviceId →
        (s.host.db.val.getDeviceByCertFingerprint blake3 (blake3 cert)).isSome = true
  | denyFolder deviceId folderGuid => g.folderApproved.lookup (deviceId, folderGuid) = none ∧
      (g.holdsFolder deviceId folderGuid = true ∨ (deviceId, folderGuid) ∈ g.folderDenied)
  | approvePairing _ _ | approveFolder _ _ _ _ _ => True

/-- One gate at most holds what is decided, and every gate is ready for a refusal. -/
def ReachesAll (blake3 : Bytes → FileHash) (s : Listeners) (d : Decision) : Prop :=
  s.gates.countP d.holds ≤ 1 ∧ ∀ g ∈ s.gates, d.Refusable blake3 s g

end Decision

/-! ### What a gate answers -/

namespace PairGateInner

variable {g : PairGateInner} {deviceId folderGuid : String}

theorem isHeld_dropPending : (g.dropPending deviceId).isHeld deviceId = false := by
  unfold isHeld dropPending
  rw [List.any_eq_false]
  intro p hp
  have hne := of_decide_eq_true (List.mem_filter.mp hp).2
  simpa using hne

theorem holdsFolder_dropFolderPending :
    (g.dropFolderPending deviceId folderGuid).holdsFolder deviceId folderGuid = false := by
  unfold holdsFolder dropFolderPending
  rw [List.any_eq_false]
  intro p hp hsame
  have hother := (List.mem_filter.mp hp).2
  rw [Bool.and_eq_true, decide_eq_true_eq, decide_eq_true_eq] at hsame
  simp [hsame.1, hsame.2] at hother

end PairGateInner

namespace Decision

variable {blake3 : Bytes → FileHash} {g : PairGateInner} {deviceId folderGuid : String}

/-- A gate denies what it has denied before, and what cannot come without being known. -/
theorem deniesDevice_iff {db : Database} : DeniesDevice blake3 db deviceId g ↔ deviceId ∈ g.denied ∨
    ∀ cert, certToDeviceId blake3 cert = deviceId →
      (db.getDeviceByCertFingerprint blake3 (blake3 cert)).isSome = true := by
  unfold DeniesDevice PairGateInner.admitPairing
  constructor
  · intro h
    by_contra hnot
    obtain ⟨hdenied, hunknown⟩ := not_or.mp hnot
    obtain ⟨cert, hcert⟩ := not_forall.mp hunknown
    obtain ⟨hid, hstored⟩ := Classical.not_imp.mp hcert
    have hanswer := h "" cert hid (eq_false_of_ne_true hstored)
    rw [Option.any_some, if_neg hstored, if_neg hdenied] at hanswer
    cases hanswer
  · rintro (hdenied | hstored) deviceName cert hid hunknown
    · rw [Option.any_some, hunknown, if_neg Bool.false_ne_true, if_pos hdenied]
    · rw [hstored cert hid] at hunknown
      cases hunknown

/-- **A request is rejected exactly if it has been denied and not granted.** -/
theorem requestFolderPair_rejected_iff {n : Node} {req : RemoteFolderPairRequest} {localPath : String} :
    (n.requestFolderPair req localPath).1 = .rejected ↔
      n.gate.folderApproved.lookup (req.deviceId, req.folderGuid) = none ∧
        (req.deviceId, req.folderGuid) ∈ n.gate.folderDenied := by
  unfold Node.requestFolderPair
  cases hgrant : n.gate.folderApproved.lookup (req.deviceId, req.folderGuid) with
  | some grant => simp
  | none =>
    by_cases hdenied : (req.deviceId, req.folderGuid) ∈ n.gate.folderDenied
    · simp [hdenied]
    · refine iff_of_false ?_ fun h => hdenied h.2
      dsimp only
      rw [if_neg hdenied]
      split
      · split <;> simp
      · simp

theorem rejectsFolder_iff {s : Listeners} : RejectsFolder s deviceId folderGuid g ↔
    g.folderApproved.lookup (deviceId, folderGuid) = none ∧ (deviceId, folderGuid) ∈ g.folderDenied := by
  constructor
  · exact fun h => requestFolderPair_rejected_iff.mp (h ⟨deviceId, "", folderGuid, "", ""⟩ "" rfl rfl)
  · rintro h req localPath rfl rfl
    exact requestFolderPair_rejected_iff.mpr h

/-! ### Whom a decision reaches -/

/-- The gate that the decision goes to does not hold it any more. -/
theorem holds_atGate {ownId : String} {host host' : Host} {g' : PairGateInner} {d : Decision}
    (h : d.atGate ownId host g = some (host', g')) : d.holds g' = false := by
  cases d with
  | approvePairing deviceId deviceName =>
    unfold atGate at h
    dsimp only at h
    split at h
    · cases h
      exact PairGateInner.isHeld_dropPending
    · cases h
  | denyPairing deviceId =>
    cases h
    exact PairGateInner.isHeld_dropPending
  | approveFolder deviceId folderGuid folderName localPath remotePath =>
    obtain ⟨grant, _, hboth⟩ := Option.map_eq_some_iff.mp h
    cases hboth
    unfold Node.approveFolderPair
    dsimp only
    split <;> exact PairGateInner.holdsFolder_dropFolderPending
  | denyFolder deviceId folderGuid =>
    cases h
    exact PairGateInner.holdsFolder_dropFolderPending

/-- **No gate holds it any more exactly if one did.** -/
theorem unheld_iff {d : Decision} {ownId : String} {host host' : Host} {gates before after : List PairGateInner}
    {g' : PairGateInner} (hsplit : splitFirst d.holds gates = some (before, g, after))
    (hgate : d.atGate ownId host g = some (host', g')) :
    (∀ x ∈ before ++ g' :: after, d.holds x = false) ↔ gates.countP d.holds ≤ 1 := by
  obtain ⟨_, _, hbefore⟩ := splitFirst_eq_some hsplit
  rw [countP_splitFirst hsplit, forall_replaced]
  constructor
  · exact fun h x hx => h.2 x (List.mem_append_right _ hx)
  · refine fun h => ⟨holds_atGate hgate, fun x hx => ?_⟩
    rcases List.mem_append.mp hx with hx | hx
    · exact hbefore x hx
    · exact h x hx

/-- The gate that the decision goes to. -/
theorem repeats_atGate {s : Listeners} {host : Host} {g' : PairGateInner} {gates : List PairGateInner}
    {d : Decision} (hgate : d.atGate s.ownId s.host g = some (host, g')) (hheld : d.holds g = true) :
    d.Repeats blake3 { s with host, gates } g' ↔ d.Refusable blake3 s g := by
  cases d with
  | approvePairing deviceId deviceName => exact Iff.rfl
  | approveFolder deviceId folderGuid folderName localPath remotePath => exact Iff.rfl
  | denyPairing deviceId =>
    cases hgate
    exact iff_of_true (deniesDevice_iff.mpr (Or.inl (Finset.mem_insert_self _ _))) (Or.inl hheld)
  | denyFolder deviceId folderGuid =>
    cases hgate
    have hdenied : (deviceId, folderGuid) ∈ (g.denyFolderPair deviceId folderGuid).folderDenied :=
      Finset.mem_insert_self _ _
    exact rejectsFolder_iff.trans
      ⟨fun h => ⟨h.1, Or.inl hheld⟩, fun h => ⟨h.1, hdenied⟩⟩

/-- A gate that the decision does not go to. -/
theorem repeats_elsewhere {s : Listeners} {host : Host} {g' x : PairGateInner} {gates : List PairGateInner}
    {d : Decision} (hgate : d.atGate s.ownId s.host g = some (host, g')) (hunheld : d.holds x = false) :
    d.Repeats blake3 { s with host, gates } x ↔ d.Refusable blake3 s x := by
  cases d with
  | approvePairing deviceId deviceName => exact Iff.rfl
  | approveFolder deviceId folderGuid folderName localPath remotePath => exact Iff.rfl
  | denyPairing deviceId =>
    cases hgate
    have hnot : ¬x.isHeld deviceId = true := ne_true_of_eq_false hunheld
    exact deniesDevice_iff.trans (or_iff_right hnot).symm
  | denyFolder deviceId folderGuid =>
    cases hgate
    have hnot : ¬x.holdsFolder deviceId folderGuid = true := ne_true_of_eq_false hunheld
    exact rejectsFolder_iff.trans (and_congr_right fun _ => (or_iff_right hnot).symm)

end Decision

open Decision in
/-- **A decision reaches every listener exactly if the others have nothing left to
decide.** -/
theorem decision_reaches_all_iff (blake3 : Bytes → FileHash) (s s' : Listeners) (d : Decision)
    (h : d.perform s = .ok s') : d.Reached blake3 s' ↔ d.ReachesAll blake3 s := by
  unfold perform at h
  cases hsplit : splitFirst d.holds s.gates with
  | none =>
    rw [hsplit] at h
    cases h
  | some parts =>
    obtain ⟨before, g, after⟩ := parts
    rw [hsplit] at h
    dsimp only at h
    cases hgate : d.atGate s.ownId s.host g with
    | none =>
      rw [hgate] at h
      cases h
    | some result =>
      obtain ⟨host, g'⟩ := result
      rw [hgate] at h
      cases h
      obtain ⟨hgates, hheld, _⟩ := splitFirst_eq_some hsplit
      unfold Reached ReachesAll
      rw [unheld_iff hsplit hgate]
      refine and_congr_right fun honce => ?_
      have hothers : ∀ x ∈ before ++ after, d.holds x = false :=
        (forall_replaced.mp ((unheld_iff hsplit hgate).mpr honce)).2
      have hrest : (∀ x ∈ before ++ after, d.Repeats blake3 { s with host, gates := before ++ g' :: after } x) ↔
          ∀ x ∈ before ++ after, d.Refusable blake3 s x :=
        forall₂_congr fun x hx => repeats_elsewhere hgate (hothers x hx)
      rw [hgates, forall_replaced, forall_replaced, hrest, repeats_atGate hgate hheld]

/-- A gate that holds a phone. -/
def phoneGate : PairGateInner := { PairGateInner.new with pending := [⟨"phone", "Phone", some [1]⟩] }

/-- One listener. -/
theorem decision_reaches_one : (∃ s', (Decision.denyPairing "phone").perform
      ⟨"laptop", Host.new 1, [phoneGate]⟩ = .ok s' ∧
      (Decision.denyPairing "phone").Reached sampleBlake3 s') := by
  refine ⟨_, rfl, (decision_reaches_all_iff sampleBlake3 ⟨"laptop", Host.new 1, [phoneGate]⟩ _
    (.denyPairing "phone") rfl).mpr ⟨by decide, fun g hg => ?_⟩⟩
  rw [List.mem_singleton.mp hg]
  exact Or.inl (by decide)

/-- **Another listener still lists the phone** that has been denied. -/
theorem denial_reaches_one : ∃ s', (Decision.denyPairing "phone").perform
      ⟨"laptop", Host.new 1, [phoneGate, phoneGate]⟩ = .ok s' ∧
      ¬(Decision.denyPairing "phone").Reached sampleBlake3 s' := by
  refine ⟨_, rfl, fun hreached => ?_⟩
  have hheld : (Decision.denyPairing "phone").holds phoneGate = false :=
    hreached.1 phoneGate (List.mem_cons_of_mem _ List.mem_cons_self)
  exact absurd hheld (by decide)

end FerriSync
