/-
# What the shell runs in the background

The shell (`repl/state.rs`) numbers its watches and servers by one counter, and the
operator stops one by its number. While no more than 32 bits hold have been started, a
number is that of one watch or server for good, also when the servers are restarted under
a new name (`id_names_one_job`).

Pairing requests are numbered anew each time they are read, server after server, so a
number means another request once one has come in at an earlier server; and that is
exactly when. A plain yes is for the only request there is, and refused if there are more.
It reads the requests twice, to count them and to look the first one up, while the servers
go on: it answers one that has come since only if that came between the two, at an earlier
server (`answer_listed_iff`). One reading takes its time too; it is that of the requests that
have come in before their servers were read, as if the others came after it
(`readPending_eq`).

What a listener comes to when it is bound is given, and so is the cleaned name.

Key definitions: `ReplState`, `ReplAct`, `ReplState.step`, `Names`, `collectPending`,
`ReplState.meant`.
Key theorems: `id_names_one_job`, `readPending_eq`, `idxOf_requests`, `head_requests`,
`answer_listed_iff`.
-/
import FerriSync.Lib.Runs
import FerriSync.Listeners
import Mathlib.Data.List.Nodup

namespace FerriSync

open Transactions

structure WatchHandle where
  folder : String
  device : String
deriving DecidableEq, Repr

structure ServeHandle where
  folder : String
  port : ℕ
  gate : PairGateInner

/-- What binding a listener comes to. -/
structure Binding where
  bound : Bool
  /-- The port that is picked if none is asked for. -/
  free : ℕ
  free_pos : 0 < free

/-- Everything the shell owns across a session. -/
structure ReplState where
  deviceInfo : DeviceInfo
  host : Host
  watches : Std.TreeMap ℕ WatchHandle
  servers : Std.TreeMap ℕ ServeHandle
  nextId : ℕ

/-- A pairing request that is held, and the number of the server that holds it. -/
structure HeldRequest where
  server : ℕ
  name : String
  deviceId : String
deriving DecidableEq, Repr

/-- A device asks a server for pairing. -/
structure PairingRequest where
  server : ℕ
  deviceId : String
  deviceName : String
  certDer : Option Bytes
deriving DecidableEq, Repr

/-- What it is held as. -/
def PairingRequest.held (r : PairingRequest) : HeldRequest := ⟨r.server, r.deviceName, r.deviceId⟩

/-- How the operator names the request to answer: by its number, or as the only one. -/
inductive Answered
  | number (n : ℕ)
  /-- These requests come in after those held have been counted. -/
  | latest (between : List PairingRequest)
deriving DecidableEq, Repr

/-- Bring up a folder server. -/
def spawnServer (folder : String) (port : ℕ) (binding : Binding) : Option ServeHandle :=
  if binding.bound then some ⟨folder, if port = 0 then binding.free else port, PairGateInner.new⟩
  else none

namespace ReplState

def new (deviceInfo : DeviceInfo) (host : Host) : ReplState := ⟨deviceInfo, host, ∅, ∅, 1⟩

section

variable (s : ReplState)

/-- The number is taken, and the counter goes on in 32 bits. -/
def takeId : ℕ × ReplState := (s.nextId, { s with nextId := (s.nextId + 1) % 2 ^ 32 })

/-- The watch is started if its device is found and its folder registered. -/
def startWatch (folder device : String) (found : Bool) : ReplState :=
  if found then
    let (id, s) := s.takeId
    { s with watches := s.watches.insert id ⟨folder, device⟩ }
  else s

def stopWatch (id : ℕ) : ReplState := { s with watches := s.watches.erase id }

def startServer (folder : String) (port : ℕ) (binding : Binding) : ReplState :=
  match spawnServer folder port binding with
  | some handle =>
    let (id, s) := s.takeId
    { s with servers := s.servers.insert id handle }
  | none => s

def stopServer (id : ℕ) : ReplState := { s with servers := s.servers.erase id }

/-- Restart the servers one by one; those that cannot be restarted are dropped. -/
def restarted (bindings : ℕ → Binding) (entries : List (ℕ × ServeHandle)) : Std.TreeMap ℕ ServeHandle :=
  entries.foldl (fun servers entry =>
    match spawnServer entry.2.folder entry.2.port (bindings entry.1) with
    | some handle => servers.insert entry.1 handle
    | none => servers) ∅

def rename (name : String) (bindings : ℕ → Binding) : ReplState :=
  { s with deviceInfo := { s.deviceInfo with name }, servers := restarted bindings s.servers.toList }

def stopAll : ReplState := { s with watches := ∅, servers := ∅ }

/-- The requests that a server holds. -/
def heldAt (entry : ℕ × ServeHandle) : List HeldRequest :=
  entry.2.gate.pending.map fun p => ⟨entry.1, p.deviceName, p.deviceId⟩

/-- Held pairing requests across all servers, numbered in the order in which they are displayed. -/
def collectPending : List HeldRequest := s.servers.toList.flatMap heldAt

/-- The requests that one server holds. -/
def heldBy (id : ℕ) : List HeldRequest := (s.servers[id]?.map fun handle => heldAt (id, handle)).getD []

/-- The gate of a server, which others share, has changed. -/
def setGate (server : ℕ) (gate : PairGateInner) : ReplState :=
  { s with servers := s.servers.map fun id handle => if id = server then { handle with gate } else handle }

/-- The request of that number. -/
def numbered (n : ℕ) : Option HeldRequest := if n = 0 then none else s.collectPending[n - 1]?

/-- The request is let in or turned away by the server that holds it. -/
def resolve (held : HeldRequest) (approve : Bool) : ReplState :=
  match s.servers[held.server]? with
  | none => s
  | some handle =>
    let decision := if approve then Decision.approvePairing held.deviceId held.name
      else Decision.denyPairing held.deviceId
    match decision.atGate s.deviceInfo.id s.host handle.gate with
    | some (host, gate) => { s with host }.setGate held.server gate
    | none => s

variable (blake3 : Bytes → FileHash)

/-- A server lets the device in, turns it away or holds its request. -/
def request (r : PairingRequest) : ReplState :=
  match s.servers[r.server]? with
  | none => s
  | some handle => s.setGate r.server
      (handle.gate.admitPairing blake3 s.host.db.val r.deviceId r.deviceName r.certDer).2

/-- Requests come in, one after another. -/
def requests (rs : List PairingRequest) : ReplState := rs.foldl (fun s r => request s blake3 r) s

/-- The held requests as they are read, one server after another; before each is read, requests
come in. -/
def readPending : ReplState → List (ℕ × List PairingRequest) → List HeldRequest
  | _, [] => []
  | s, (id, come) :: visits =>
    (s.requests blake3 come).heldBy id ++ (s.requests blake3 come).readPending visits

/-- When the request to answer is looked up. -/
def lookup : Answered → ReplState
  | .number _ => s
  | .latest between => s.requests blake3 between

/-- The request that is answered. `none`: there is no such request, or more than one. -/
def meant : Answered → Option HeldRequest
  | .number n => s.numbered n
  | .latest between =>
    if s.collectPending.length = 1 then (s.requests blake3 between).numbered 1 else none

def answer (a : Answered) (approve : Bool) : ReplState :=
  match s.meant blake3 a with
  | none => s.lookup blake3 a
  | some held => (s.lookup blake3 a).resolve held approve

end

end ReplState

/-- What the operator enters, and what happens meanwhile. -/
inductive ReplAct
  | startWatch (folder device : String) (found : Bool)
  | stopWatch (id : ℕ)
  | startServer (folder : String) (port : ℕ) (binding : Binding)
  | stopServer (id : ℕ)
  | rename (name : String) (bindings : ℕ → Binding)
  | stopAll
  | answer (a : Answered) (approve : Bool)
  | request (r : PairingRequest)
  /-- The database is changed. -/
  | storage (op : StorageOp)

/-- The act may take a number. -/
def ReplAct.starts : ReplAct → Bool
  | startWatch _ _ _ => true
  | startServer _ _ _ => true
  | _ => false

namespace ReplState

section

variable (blake3 : Bytes → FileHash)

def step (s : ReplState) : ReplAct → ReplState
  | .startWatch folder device found => s.startWatch folder device found
  | .stopWatch id => s.stopWatch id
  | .startServer folder port binding => s.startServer folder port binding
  | .stopServer id => s.stopServer id
  | .rename name bindings => s.rename name bindings
  | .stopAll => s.stopAll
  | .answer a approve => s.answer blake3 a approve
  | .request r => s.request blake3 r
  | .storage op => { s with host := s.host.perform blake3 op }

def run (s : ReplState) (acts : List ReplAct) : ReplState := acts.foldl (step blake3) s

/-- The server holds the request, and has not held it before. -/
def holdsAnew (s : ReplState) (r : PairingRequest) : Bool :=
  s.servers[r.server]?.any fun handle => !handle.gate.isHeld r.deviceId &&
    decide ((handle.gate.admitPairing blake3 s.host.db.val r.deviceId r.deviceName r.certDer).1 = .hold)

/-- No request that comes in is held before the one that is held already. -/
def NoneBefore (held : HeldRequest) : ReplState → List PairingRequest → Prop :=
  Runs.Meets (fun s r => request s blake3 r) fun s r =>
    s.holdsAnew blake3 r = true → held.server ≤ r.server

/-- No request that comes in is held. -/
def NoneHeld : ReplState → List PairingRequest → Prop :=
  Runs.Meets (fun s r => request s blake3 r) fun s r => s.holdsAnew blake3 r = false

/-- The operator sees the request at the place, or as the only one. -/
def Shows (s : ReplState) (held : HeldRequest) : Answered → Prop
  | .number n => s.numbered n = some held
  | .latest _ => s.collectPending = [held]

/-- No request that has come since is before the one that is meant; nor, while those held are
counted, beside the only one. -/
def Undisturbed (s : ReplState) (held : HeldRequest) (rs : List PairingRequest) : Answered → Prop
  | .number _ => NoneBefore blake3 held s rs
  | .latest between => NoneHeld blake3 s rs ∧ NoneBefore blake3 held (s.requests blake3 rs) between

end

end ReplState

/-- A watch or a server. -/
inductive Job
  | watch (folder device : String)
  | serve (folder : String) (port : ℕ)
deriving DecidableEq, Repr

namespace ReplState

/-- The number is that of the watch or server. -/
def Names (s : ReplState) (id : ℕ) : Job → Prop
  | .watch folder device => s.watches[id]? = some ⟨folder, device⟩
  | .serve folder port => ∃ handle, s.servers[id]? = some handle ∧ handle.folder = folder ∧ handle.port = port

/-! ### Numbers -/

/-- A server listens on a port. -/
def Bound : Job → Prop
  | .watch _ _ => True
  | .serve _ port => 0 < port

/-- Every number is that of one watch or server, and is none that is to come. -/
structure Numbered (s : ReplState) : Prop where
  old : ∀ id job, s.Names id job → id < s.nextId
  one : ∀ id job job', s.Names id job → s.Names id job' → job = job'
  bound : ∀ id job, s.Names id job → Bound job

section

variable {s s' : ReplState} {id : ℕ} {job : Job} {folder : String} {port : ℕ} {handle : ServeHandle}

theorem spawnServer_spec {binding : Binding} (h : spawnServer folder port binding = some handle) :
    handle.folder = folder ∧ handle.gate = PairGateInner.new ∧ 0 < handle.port ∧
      (0 < port → handle.port = port) := by
  unfold spawnServer at h
  split_ifs at h with hbound hport
  · cases h
    exact ⟨rfl, rfl, binding.free_pos, fun hpos => absurd hport (Nat.ne_of_gt hpos)⟩
  · cases h
    exact ⟨rfl, rfl, Nat.pos_of_ne_zero hport, fun _ => rfl⟩

/-- What has been restarted was there before. -/
theorem getElem?_restarted {bindings : ℕ → Binding} {entries : List (ℕ × ServeHandle)}
    {servers : Std.TreeMap ℕ ServeHandle}
    (h : (entries.foldl (fun servers entry =>
      match spawnServer entry.2.folder entry.2.port (bindings entry.1) with
      | some handle => servers.insert entry.1 handle
      | none => servers) servers)[id]? = some handle) :
    (∃ before, (id, before) ∈ entries ∧
      spawnServer before.folder before.port (bindings id) = some handle) ∨ servers[id]? = some handle := by
  induction entries generalizing servers with
  | nil => exact Or.inr h
  | cons entry entries ih =>
    rw [List.foldl_cons] at h
    rcases ih h with ⟨before, hmem, hspawn⟩ | hthere
    · exact Or.inl ⟨before, List.mem_cons_of_mem _ hmem, hspawn⟩
    · split at hthere
      · rename_i started hstarted
        rw [Std.TreeMap.getElem?_insert] at hthere
        split_ifs at hthere with hid
        · have heq : entry.1 = id := Std.LawfulEqCmp.eq_of_compare hid
          cases hthere
          subst heq
          exact Or.inl ⟨entry.2, List.mem_cons_self, hstarted⟩
        · exact Or.inr hthere
      · exact Or.inr hthere

theorem names_rename {name : String} {bindings : ℕ → Binding} (hbound : ∀ id job, s.Names id job → Bound job)
    (h : (s.rename name bindings).Names id job) : s.Names id job := by
  cases job with
  | watch folder device => exact h
  | serve folder port =>
    obtain ⟨handle, hhandle, rfl, rfl⟩ := h
    rcases getElem?_restarted hhandle with ⟨before, hmem, hspawn⟩ | hnone
    · have hbefore : s.servers[id]? = some before := Std.TreeMap.mem_toList_iff_getElem?_eq_some.mp hmem
      obtain ⟨hfolder, _, _, hport⟩ := spawnServer_spec hspawn
      have hpos : 0 < before.port := hbound id (.serve before.folder before.port) ⟨before, hbefore, rfl, rfl⟩
      exact ⟨before, hbefore, hfolder.symm, (hport hpos).symm⟩
    · rw [Std.TreeMap.getElem?_emptyc] at hnone
      cases hnone

theorem names_setGate {server : ℕ} {gate : PairGateInner} :
    (s.setGate server gate).Names id job ↔ s.Names id job := by
  cases job with
  | watch folder device => exact Iff.rfl
  | serve folder port =>
    unfold Names setGate
    rw [Std.TreeMap.getElem?_map]
    constructor
    · rintro ⟨handle, hhandle, rfl, rfl⟩
      obtain ⟨before, hbefore, rfl⟩ := Option.map_eq_some_iff.mp hhandle
      refine ⟨before, hbefore, ?_, ?_⟩
      · split_ifs <;> rfl
      · split_ifs <;> rfl
    · rintro ⟨handle, hhandle, rfl, rfl⟩
      refine ⟨_, by rw [hhandle, Option.map_some], ?_, ?_⟩
      · split_ifs <;> rfl
      · split_ifs <;> rfl

theorem names_request {blake3 : Bytes → FileHash} {r : PairingRequest} :
    (s.request blake3 r).Names id job ↔ s.Names id job := by
  unfold request
  split
  · exact Iff.rfl
  · exact names_setGate

theorem names_requests {blake3 : Bytes → FileHash} {rs : List PairingRequest} :
    (s.requests blake3 rs).Names id job ↔ s.Names id job := by
  unfold requests
  induction rs generalizing s with
  | nil => exact Iff.rfl
  | cons r rs ih => exact ih.trans names_request

theorem names_resolve {held : HeldRequest} {approve : Bool} :
    (s.resolve held approve).Names id job ↔ s.Names id job := by
  unfold resolve
  split
  · exact Iff.rfl
  · dsimp only
    split
    · rw [names_setGate]
      cases job <;> exact Iff.rfl
    · exact Iff.rfl

theorem names_answer {blake3 : Bytes → FileHash} {a : Answered} {approve : Bool} :
    (s.answer blake3 a approve).Names id job ↔ s.Names id job := by
  have hlookup : (s.lookup blake3 a).Names id job ↔ s.Names id job := by
    cases a with
    | number n => exact Iff.rfl
    | latest between => exact names_requests
  unfold answer
  split
  · exact hlookup
  · exact names_resolve.trans hlookup

/-- What an act does to the numbers: it may give the next one. -/
inductive Renumbers (s s' : ReplState) : Prop
  | keeps (nextId : s'.nextId = s.nextId) (names : ∀ id job, s'.Names id job → s.Names id job)
  | gives (job : Job) (nextId : s'.nextId = s.nextId + 1) (bound : Bound job)
      (names : ∀ id job', s'.Names id job' → s.Names id job' ∨ id = s.nextId ∧ job' = job)

theorem nextId_request {blake3 : Bytes → FileHash} {r : PairingRequest} :
    (s.request blake3 r).nextId = s.nextId := by
  unfold request
  split <;> rfl

theorem nextId_requests {blake3 : Bytes → FileHash} {rs : List PairingRequest} :
    (s.requests blake3 rs).nextId = s.nextId := by
  unfold requests
  induction rs generalizing s with
  | nil => rfl
  | cons r rs ih => exact ih.trans nextId_request

theorem nextId_resolve {held : HeldRequest} {approve : Bool} : (s.resolve held approve).nextId = s.nextId := by
  unfold resolve
  split
  · rfl
  · dsimp only
    split <;> rfl

theorem nextId_answer {blake3 : Bytes → FileHash} {a : Answered} {approve : Bool} :
    (s.answer blake3 a approve).nextId = s.nextId := by
  have hlookup : (s.lookup blake3 a).nextId = s.nextId := by
    cases a with
    | number n => rfl
    | latest between => exact nextId_requests
  unfold answer
  split
  · exact hlookup
  · exact nextId_resolve.trans hlookup

theorem renumbers_startServer {binding : Binding} (hnext : s.nextId + 1 < 2 ^ 32) :
    Renumbers s (s.startServer folder port binding) := by
  unfold startServer
  cases hspawn : spawnServer folder port binding with
  | none => exact .keeps rfl fun _ _ hn => hn
  | some handle =>
    refine .gives (.serve handle.folder handle.port) (Nat.mod_eq_of_lt hnext)
      (spawnServer_spec hspawn).2.2.1 fun id job hn => ?_
    cases job with
    | watch folder' device' => exact Or.inl hn
    | serve folder' port' =>
      obtain ⟨handle', hget, rfl, rfl⟩ := hn
      have hget : (s.servers.insert s.nextId handle)[id]? = some handle' := hget
      rw [Std.TreeMap.getElem?_insert] at hget
      split_ifs at hget with hid
      · cases hget
        exact Or.inr ⟨(Std.LawfulEqCmp.eq_of_compare hid).symm, rfl⟩
      · exact Or.inl ⟨handle', hget, rfl, rfl⟩

theorem renumbers_step (blake3 : Bytes → FileHash) {a : ReplAct} (h : s.Numbered)
    (hnext : a.starts = true → s.nextId + 1 < 2 ^ 32) : Renumbers s (s.step blake3 a) := by
  cases a with
  | startWatch folder device found =>
    cases found with
    | false => exact .keeps rfl fun _ _ hn => hn
    | true =>
      refine .gives (.watch folder device) (Nat.mod_eq_of_lt (hnext rfl)) trivial fun id job hn => ?_
      cases job with
      | watch folder' device' =>
        have hget : (s.watches.insert s.nextId ⟨folder, device⟩)[id]? = some ⟨folder', device'⟩ := hn
        rw [Std.TreeMap.getElem?_insert] at hget
        split_ifs at hget with hid
        · cases hget
          exact Or.inr ⟨(Std.LawfulEqCmp.eq_of_compare hid).symm, rfl⟩
        · exact Or.inl hget
      | serve folder' port => exact Or.inl hn
  | startServer folder port binding => exact renumbers_startServer (hnext rfl)
  | stopWatch id =>
    refine .keeps rfl fun id' job hn => ?_
    cases job with
    | watch folder device =>
      have hget : (s.watches.erase id)[id']? = some ⟨folder, device⟩ := hn
      rw [Std.TreeMap.getElem?_erase] at hget
      split_ifs at hget
      exact hget
    | serve folder port => exact hn
  | stopServer id =>
    refine .keeps rfl fun id' job hn => ?_
    cases job with
    | watch folder device => exact hn
    | serve folder port =>
      obtain ⟨handle, hget, hrest⟩ := hn
      have hget : (s.servers.erase id)[id']? = some handle := hget
      rw [Std.TreeMap.getElem?_erase] at hget
      split_ifs at hget
      exact ⟨handle, hget, hrest⟩
  | rename name bindings => exact .keeps rfl fun _ _ hn => names_rename h.bound hn
  | stopAll =>
    refine .keeps rfl fun id job hn => ?_
    cases job with
    | watch folder device =>
      have hget : (∅ : Std.TreeMap ℕ WatchHandle)[id]? = some ⟨folder, device⟩ := hn
      rw [Std.TreeMap.getElem?_emptyc] at hget
      cases hget
    | serve folder port =>
      obtain ⟨handle, hget, _⟩ := hn
      have hget : (∅ : Std.TreeMap ℕ ServeHandle)[id]? = some handle := hget
      rw [Std.TreeMap.getElem?_emptyc] at hget
      cases hget
  | answer a approve => exact .keeps nextId_answer fun _ _ hn => names_answer.mp hn
  | request r => exact .keeps nextId_request fun _ _ hn => names_request.mp hn
  | storage op => exact .keeps rfl fun id job hn => by cases job <;> exact hn

theorem Renumbers.numbered (hstep : Renumbers s s') (h : s.Numbered) : s'.Numbered := by
  cases hstep with
  | keeps hid hnames =>
    exact ⟨fun id job hn => hid ▸ h.old id job (hnames id job hn),
      fun id job job' hn hn' => h.one id job job' (hnames id job hn) (hnames id job' hn'),
      fun id job hn => h.bound id job (hnames id job hn)⟩
  | gives new hid hbound hnames =>
    refine ⟨fun id job hn => ?_, fun id job job' hn hn' => ?_, fun id job hn => ?_⟩
    · rcases hnames id job hn with hold | ⟨rfl, _⟩
      · have hlt := h.old id job hold
        omega
      · omega
    · rcases hnames id job hn with hold | ⟨rfl, rfl⟩
      · rcases hnames id job' hn' with hold' | ⟨rfl, _⟩
        · exact h.one id job job' hold hold'
        · exact absurd (h.old _ job hold) (Nat.lt_irrefl _)
      · rcases hnames _ job' hn' with hold' | ⟨_, rfl⟩
        · exact absurd (h.old _ job' hold') (Nat.lt_irrefl _)
        · rfl
    · rcases hnames id job hn with hold | ⟨_, rfl⟩
      · exact h.bound id job hold
      · exact hbound

theorem Renumbers.older (hstep : Renumbers s s') (hid : id < s.nextId) (hn : s'.Names id job) :
    s.Names id job := by
  cases hstep with
  | keeps _ hnames => exact hnames id job hn
  | gives new _ _ hnames =>
    rcases hnames id job hn with hold | ⟨rfl, _⟩
    · exact hold
    · exact absurd hid (Nat.lt_irrefl _)

theorem Renumbers.nextId (hstep : Renumbers s s') : s.nextId ≤ s'.nextId := by
  cases hstep with
  | keeps hid _ => exact Nat.le_of_eq hid.symm
  | gives _ hid _ _ => exact hid ▸ Nat.le_succ _

theorem nextId_startServer {binding : Binding} : (s.startServer folder port binding).nextId ≤ s.nextId + 1 := by
  unfold startServer
  split
  · exact Nat.mod_le _ _
  · exact Nat.le_succ _

theorem nextId_step (blake3 : Bytes → FileHash) (a : ReplAct) :
    (s.step blake3 a).nextId ≤ s.nextId + if a.starts then 1 else 0 := by
  cases a with
  | startWatch folder device found =>
    cases found with
    | false => exact Nat.le_succ _
    | true => exact Nat.mod_le _ _
  | startServer folder port binding => exact nextId_startServer
  | answer a approve => exact Nat.le_of_eq nextId_answer
  | request r => exact Nat.le_of_eq nextId_request
  | stopWatch id => exact Nat.le_refl _
  | stopServer id => exact Nat.le_refl _
  | rename name bindings => exact Nat.le_refl _
  | stopAll => exact Nat.le_refl _
  | storage op => exact Nat.le_refl _

/-- Numbers stay what they are over a run that gives none twice. -/
theorem numbered_run (blake3 : Bytes → FileHash) (acts : List ReplAct) (h : s.Numbered)
    (hstarts : s.nextId + acts.countP ReplAct.starts < 2 ^ 32) :
    (s.run blake3 acts).Numbered ∧ s.nextId ≤ (s.run blake3 acts).nextId ∧
      (s.run blake3 acts).nextId ≤ s.nextId + acts.countP ReplAct.starts ∧
      ∀ id job, id < s.nextId → (s.run blake3 acts).Names id job → s.Names id job := by
  induction acts generalizing s with
  | nil => exact ⟨h, Nat.le_refl _, Nat.le_refl _, fun _ _ _ hn => hn⟩
  | cons a acts ih =>
    rw [List.countP_cons] at hstarts ⊢
    have hstep : Renumbers s (s.step blake3 a) := renumbers_step blake3 h fun ha => by
      rw [if_pos ha] at hstarts
      omega
    have hle : (s.step blake3 a).nextId ≤ s.nextId + if a.starts then 1 else 0 := nextId_step blake3 a
    have hge := hstep.nextId
    obtain ⟨hnumbered, hlow, hhigh, hnames⟩ := ih (hstep.numbered h) (by omega)
    refine ⟨hnumbered, hge.trans hlow, ?_, fun id job hid hn => ?_⟩
    · unfold run at hhigh ⊢
      rw [List.foldl_cons]
      omega
    · exact hstep.older hid (hnames id job (hid.trans_le hge) hn)

theorem not_names_new {deviceInfo : DeviceInfo} {host : Host} : ¬(new deviceInfo host).Names id job := by
  cases job with
  | watch folder device =>
    intro h
    have hget : (∅ : Std.TreeMap ℕ WatchHandle)[id]? = some ⟨folder, device⟩ := h
    rw [Std.TreeMap.getElem?_emptyc] at hget
    cases hget
  | serve folder port =>
    rintro ⟨handle, hget, _⟩
    have hget : (∅ : Std.TreeMap ℕ ServeHandle)[id]? = some handle := hget
    rw [Std.TreeMap.getElem?_emptyc] at hget
    cases hget

theorem numbered_new (deviceInfo : DeviceInfo) (host : Host) : (new deviceInfo host).Numbered :=
  ⟨fun _ _ h => absurd h not_names_new, fun _ _ _ h => absurd h not_names_new,
    fun _ _ h => absurd h not_names_new⟩

end

/-- **A number is that of one watch or server for good**, whatever is entered and happens. -/
theorem id_names_one_job (blake3 : Bytes → FileHash) (deviceInfo : DeviceInfo) (host : Host)
    (acts later : List ReplAct) (hstarts : (acts ++ later).countP ReplAct.starts < 2 ^ 32 - 1)
    (id : ℕ) (job job' : Job) (hjob : ((new deviceInfo host).run blake3 acts).Names id job)
    (hjob' : ((new deviceInfo host).run blake3 (acts ++ later)).Names id job') : job' = job := by
  rw [List.countP_append] at hstarts
  have hnext : (new deviceInfo host).nextId = 1 := rfl
  obtain ⟨hnumbered, _, hle, _⟩ := numbered_run blake3 acts (numbered_new deviceInfo host) (by omega)
  obtain ⟨_, _, _, hnames⟩ := numbered_run blake3 later hnumbered (by omega)
  have hthere := hnames id job' (hnumbered.old id job hjob) (by
    unfold run at hjob' ⊢
    rw [← List.foldl_append]
    exact hjob')
  exact hnumbered.one id job' job hthere hjob

/-- A shell that has started a server. -/
def servesMusic : List ReplAct := [.startServer "/home/music" 9847 ⟨true, 40000, by decide⟩]

theorem id_names_one_job_renamed : ¬((new ⟨"den", "Den", []⟩ (Host.new 1)).run sampleBlake3
    (servesMusic ++ [.rename "Attic" fun _ => ⟨true, 40000, by decide⟩,
      .startWatch "/home/photos" "phone" true])).Names 1 (.watch "/home/photos" "phone") := by
  intro h
  have hjob := id_names_one_job sampleBlake3 ⟨"den", "Den", []⟩ (Host.new 1) servesMusic _ (by decide) 1
    (.serve "/home/music" 9847) _ ⟨⟨"/home/music", 9847, PairGateInner.new⟩, rfl, rfl, rfl⟩ h
  cases hjob

/-! ### Requests -/

/-- No server holds two requests of one device. -/
def HoldsOnce (s : ReplState) : Prop :=
  ∀ (id : ℕ) (handle : ServeHandle), s.servers[id]? = some handle →
    (handle.gate.pending.map (·.deviceId)).Nodup

section

variable {blake3 : Bytes → FileHash} {s : ReplState} {held : HeldRequest} {r : PairingRequest}
  {rs : List PairingRequest}

theorem holdsOnce_new (deviceInfo : DeviceInfo) (host : Host) : (new deviceInfo host).HoldsOnce := by
  intro id handle h
  have hget : (∅ : Std.TreeMap ℕ ServeHandle)[id]? = some handle := h
  rw [Std.TreeMap.getElem?_emptyc] at hget
  cases hget

theorem holdsOnce_setGate {server : ℕ} {gate : PairGateInner} (h : s.HoldsOnce)
    (hgate : (gate.pending.map (·.deviceId)).Nodup) : (s.setGate server gate).HoldsOnce := by
  intro id handle hget
  have hget : (s.servers.map fun id handle => if id = server then { handle with gate } else handle)[id]? =
    some handle := hget
  rw [Std.TreeMap.getElem?_map] at hget
  obtain ⟨before, hbefore, rfl⟩ := Option.map_eq_some_iff.mp hget
  split_ifs
  · exact hgate
  · exact h id before hbefore

theorem admitPairing_pending {g : PairGateInner} {db : Database} {deviceId deviceName : String}
    {certDer : Option Bytes} :
    (g.admitPairing blake3 db deviceId deviceName certDer).2.pending =
      if !g.isHeld deviceId && decide ((g.admitPairing blake3 db deviceId deviceName certDer).1 = .hold)
      then g.pending ++ [⟨deviceId, deviceName, certDer⟩] else g.pending := by
  unfold PairGateInner.admitPairing
  split_ifs <;> simp_all

theorem admitPairing_nodup {g : PairGateInner} (h : (g.pending.map (·.deviceId)).Nodup) (db : Database)
    (deviceId deviceName : String) (certDer : Option Bytes) :
    ((g.admitPairing blake3 db deviceId deviceName certDer).2.pending.map (·.deviceId)).Nodup := by
  rw [admitPairing_pending]
  split_ifs with hnew
  · rw [List.map_append, List.nodup_append]
    refine ⟨h, List.nodup_singleton _, fun a ha b hb heq => ?_⟩
    obtain ⟨p, hp, rfl⟩ := List.mem_map.mp ha
    rw [Bool.and_eq_true, Bool.not_eq_true'] at hnew
    have hheld : g.isHeld deviceId = true :=
      List.any_eq_true.mpr ⟨p, hp, decide_eq_true (heq.trans (List.mem_singleton.mp hb))⟩
    rw [hnew.1] at hheld
    cases hheld
  · exact h

theorem atGate_nodup {decision : Decision} {ownId : String} {host host' : Host} {g g' : PairGateInner}
    (h : (g.pending.map (·.deviceId)).Nodup) (hgate : decision.atGate ownId host g = some (host', g')) :
    (g'.pending.map (·.deviceId)).Nodup := by
  have hdrop : ∀ deviceId, ((g.dropPending deviceId).pending.map (·.deviceId)).Nodup := fun deviceId =>
    h.sublist (List.filter_sublist.map _)
  cases decision with
  | approvePairing deviceId deviceName =>
    unfold Decision.atGate at hgate
    dsimp only at hgate
    split at hgate
    · cases hgate
      exact hdrop deviceId
    · cases hgate
  | denyPairing deviceId =>
    cases hgate
    exact hdrop deviceId
  | approveFolder deviceId folderGuid folderName localPath remotePath =>
    obtain ⟨grant, _, hboth⟩ := Option.map_eq_some_iff.mp hgate
    cases hboth
    unfold Node.approveFolderPair
    dsimp only
    split <;> exact h
  | denyFolder deviceId folderGuid =>
    cases hgate
    exact h

theorem holdsOnce_request (h : s.HoldsOnce) : (s.request blake3 r).HoldsOnce := by
  unfold request
  split
  · exact h
  · rename_i handle hhandle
    exact holdsOnce_setGate h (admitPairing_nodup (h _ handle hhandle) _ _ _ _)

theorem holdsOnce_requests (h : s.HoldsOnce) (rs : List PairingRequest) : (s.requests blake3 rs).HoldsOnce :=
  List.foldlRecOn rs _ h fun _ h _ _ => holdsOnce_request h

theorem holdsOnce_resolve {approve : Bool} (h : s.HoldsOnce) : (s.resolve held approve).HoldsOnce := by
  unfold resolve
  split
  · exact h
  · rename_i handle hhandle
    dsimp only
    split
    · rename_i hgate
      exact holdsOnce_setGate h (atGate_nodup (h _ handle hhandle) hgate)
    · exact h

theorem holdsOnce_answer {a : Answered} {approve : Bool} (h : s.HoldsOnce) :
    (s.answer blake3 a approve).HoldsOnce := by
  have hlookup : (s.lookup blake3 a).HoldsOnce := by
    cases a with
    | number n => exact h
    | latest between => exact holdsOnce_requests h between
  unfold answer
  split
  · exact hlookup
  · exact holdsOnce_resolve hlookup

theorem holdsOnce_step (h : s.HoldsOnce) (a : ReplAct) : (s.step blake3 a).HoldsOnce := by
  cases a with
  | startWatch folder device found => cases found <;> exact h
  | stopWatch id => exact h
  | startServer folder port binding =>
    unfold step startServer
    dsimp only
    cases hspawn : spawnServer folder port binding with
    | none => exact h
    | some handle =>
      intro id handle' hget
      have hget : (s.servers.insert s.nextId handle)[id]? = some handle' := hget
      rw [Std.TreeMap.getElem?_insert] at hget
      split_ifs at hget
      · cases hget
        rw [(spawnServer_spec hspawn).2.1]
        exact List.nodup_nil
      · exact h id handle' hget
  | stopServer id =>
    intro id' handle hget
    have hget : (s.servers.erase id)[id']? = some handle := hget
    rw [Std.TreeMap.getElem?_erase] at hget
    split_ifs at hget
    exact h id' handle hget
  | rename name bindings =>
    intro id handle hget
    rcases getElem?_restarted hget with ⟨before, _, hspawn⟩ | hnone
    · rw [(spawnServer_spec hspawn).2.1]
      exact List.nodup_nil
    · rw [Std.TreeMap.getElem?_emptyc] at hnone
      cases hnone
  | stopAll =>
    intro id handle hget
    have hget : (∅ : Std.TreeMap ℕ ServeHandle)[id]? = some handle := hget
    rw [Std.TreeMap.getElem?_emptyc] at hget
    cases hget
  | answer a approve => exact holdsOnce_answer h
  | request r => exact holdsOnce_request h
  | storage op => exact h

theorem holdsOnce_run (blake3 : Bytes → FileHash) (h : s.HoldsOnce) (acts : List ReplAct) :
    (s.run blake3 acts).HoldsOnce := by
  induction acts generalizing s with
  | nil => exact h
  | cons a acts ih => exact ih (holdsOnce_step h a)

theorem server_of_heldAt {entry : ℕ × ServeHandle} (h : held ∈ heldAt entry) : held.server = entry.1 := by
  obtain ⟨p, _, rfl⟩ := List.mem_map.mp h
  rfl

/-- What is displayed is displayed once. -/
theorem collectPending_nodup (h : s.HoldsOnce) : s.collectPending.Nodup := by
  unfold collectPending
  refine List.nodup_flatMap.mpr ⟨fun entry hentry => ?_, ?_⟩
  · have hnodup := h entry.1 entry.2 (Std.TreeMap.mem_toList_iff_getElem?_eq_some.mp hentry)
    have hmap : (heldAt entry).map (·.deviceId) = entry.2.gate.pending.map (·.deviceId) := by
      unfold heldAt
      rw [List.map_map]
      rfl
    exact List.Nodup.of_map (·.deviceId) (hmap ▸ hnodup)
  · refine s.servers.ordered_keys_toList.imp fun {x y} hlt held hx hy => ?_
    have heq : x.1 = y.1 := (server_of_heldAt hx).symm.trans (server_of_heldAt hy)
    rw [heq] at hlt
    exact Nat.lt_irrefl _ (Nat.compare_eq_lt.mp hlt)

/-! Servers are read one after another, while requests come in. -/

theorem collectPending_eq : s.collectPending = s.servers.keys.flatMap s.heldBy := by
  unfold collectPending
  rw [← Std.TreeMap.map_fst_toList_eq_keys, List.flatMap_map]
  refine List.flatMap_congr fun entry hentry => ?_
  unfold heldBy
  rw [Std.TreeMap.mem_toList_iff_getElem?_eq_some.mp hentry]
  rfl

theorem host_request : (s.request blake3 r).host = s.host := by
  unfold request
  split <;> rfl

theorem keys_request : (s.request blake3 r).servers.keys = s.servers.keys := by
  unfold request
  split
  · rfl
  · exact Std.TreeMap.keys_map

theorem keys_requests : (s.requests blake3 rs).servers.keys = s.servers.keys := by
  unfold requests
  induction rs generalizing s with
  | nil => rfl
  | cons r rs ih => exact ih.trans keys_request

theorem requests_append (rs' : List PairingRequest) :
    s.requests blake3 (rs ++ rs') = (s.requests blake3 rs).requests blake3 rs' := List.foldl_append

/-- What becomes of a server that a device asks. -/
def admitAt (blake3 : Bytes → FileHash) (db : Database) (handle : Option ServeHandle) (r : PairingRequest) :
    Option ServeHandle :=
  handle.map fun handle => { handle with
    gate := (handle.gate.admitPairing blake3 db r.deviceId r.deviceName r.certDer).2 }

theorem getElem?_request (id : ℕ) : (s.request blake3 r).servers[id]? =
    if r.server = id then admitAt blake3 s.host.db.val s.servers[id]? r else s.servers[id]? := by
  unfold request
  cases hhandle : s.servers[r.server]? with
  | none =>
    split_ifs with hid
    · rw [← hid, hhandle]
      rfl
    · rfl
  | some handle =>
    unfold setGate
    dsimp only
    rw [Std.TreeMap.getElem?_map]
    by_cases hid : r.server = id
    · subst hid
      rw [if_pos rfl, hhandle, Option.map_some, if_pos rfl]
      rfl
    · rw [if_neg hid]
      simp only [if_neg (Ne.symm hid)]
      exact Option.map_id'

/-- What a server holds depends on the requests to it alone. -/
theorem getElem?_requests (id : ℕ) : (s.requests blake3 rs).servers[id]? =
    (rs.filter fun r => decide (r.server = id)).foldl (admitAt blake3 s.host.db.val) s.servers[id]? := by
  unfold requests
  induction rs generalizing s with
  | nil => rfl
  | cons r rs ih =>
    rw [List.foldl_cons, ih, host_request, getElem?_request, List.filter_cons]
    by_cases hid : r.server = id
    · rw [if_pos hid, if_pos (decide_eq_true hid), List.foldl_cons]
    · rw [if_neg hid, if_neg (by rw [decide_eq_false hid]; exact Bool.false_ne_true)]

theorem heldBy_requests_congr {rs' : List PairingRequest} {id : ℕ}
    (h : (rs'.filter fun r => decide (r.server = id)) = rs.filter fun r => decide (r.server = id)) :
    (s.requests blake3 rs').heldBy id = (s.requests blake3 rs).heldBy id := by
  unfold heldBy
  rw [getElem?_requests, getElem?_requests, h]

/-- The requests that come in before their server is read. -/
def inTime (visits : List (ℕ × List PairingRequest)) : List PairingRequest :=
  visits.flatMap fun visit => visit.2.filter fun r => decide (visit.1 ≤ r.server)

/-- A server that has been read gets no more requests in time. -/
theorem inTime_past {visits : List (ℕ × List PairingRequest)} {id : ℕ} (h : ∀ visit ∈ visits, id < visit.1) :
    (inTime visits).filter (fun r => decide (r.server = id)) = [] := by
  refine List.filter_eq_nil_iff.mpr fun r hr hid => ?_
  obtain ⟨visit, hvisit, hmem⟩ := List.mem_flatMap.mp hr
  have hle : visit.1 ≤ r.server := of_decide_eq_true (List.mem_filter.mp hmem).2
  have hlt := h visit hvisit
  have heq : r.server = id := of_decide_eq_true hid
  omega

/-- From any server on; `rs'` are those of the requests so far that have come in time. -/
theorem readPending_from (visits : List (ℕ × List PairingRequest)) (rs rs' : List PairingRequest)
    (hordered : (visits.map (·.1)).Pairwise (· < ·))
    (hsame : ∀ visit ∈ visits, (rs'.filter fun r => decide (r.server = visit.1)) =
      rs.filter fun r => decide (r.server = visit.1)) :
    (s.requests blake3 rs).readPending blake3 visits =
      (visits.map (·.1)).flatMap (s.requests blake3 (rs' ++ inTime visits)).heldBy := by
  induction visits generalizing rs rs' with
  | nil => rfl
  | cons visit visits ih =>
    obtain ⟨id, come⟩ := visit
    rw [List.map_cons, List.pairwise_cons] at hordered
    have hafter : ∀ visit ∈ visits, id < visit.1 :=
      fun visit hvisit => hordered.1 _ (List.mem_map_of_mem hvisit)
    have htime : inTime ((id, come) :: visits) =
        come.filter (fun r => decide (id ≤ r.server)) ++ inTime visits := rfl
    have hcome : ∀ j, id ≤ j → ((come.filter fun r => decide (id ≤ r.server)).filter
        fun r => decide (r.server = j)) = come.filter fun r => decide (r.server = j) := by
      intro j hj
      rw [List.filter_filter]
      refine List.filter_congr fun r _ => ?_
      by_cases hr : r.server = j
      · simp [hr, hj]
      · simp [hr]
    rw [readPending, ← requests_append, List.map_cons, List.flatMap_cons, htime, ← List.append_assoc]
    congr 1
    · -- the server that is read now: the later visits bring it nothing
      refine heldBy_requests_congr ?_
      rw [List.filter_append, List.filter_append, List.filter_append, hsame _ List.mem_cons_self,
        hcome id (Nat.le_refl id), inTime_past hafter, List.append_nil]
    · refine ih (rs ++ come) (rs' ++ come.filter fun r => decide (id ≤ r.server)) hordered.2
        fun visit hvisit => ?_
      rw [List.filter_append, List.filter_append, hsame _ (List.mem_cons_of_mem _ hvisit),
        hcome _ (Nat.le_of_lt (hafter visit hvisit))]

/-- **What is read server after server** is what is held once the requests that came in time for
their servers have come in. -/
theorem readPending_eq (visits : List (ℕ × List PairingRequest)) (h : visits.map (·.1) = s.servers.keys) :
    s.readPending blake3 visits = (s.requests blake3 (inTime visits)).collectPending := by
  have hordered : (visits.map (·.1)).Pairwise (· < ·) := by
    rw [h]
    exact s.servers.ordered_keys.imp fun hlt => Nat.compare_eq_lt.mp hlt
  rw [collectPending_eq, keys_requests, ← h]
  have hall : (s.requests blake3 []).readPending blake3 visits = _ :=
    readPending_from visits [] [] hordered fun _ _ => rfl
  exact hall

/-- The ids of servers that come before one are smaller, and of those after it larger. -/
theorem split_at_server {handle : ServeHandle} {id : ℕ} (h : s.servers[id]? = some handle) :
    ∃ before after, s.servers.toList = before ++ (id, handle) :: after ∧
      (∀ x ∈ before, x.1 < id) ∧ ∀ x ∈ after, id < x.1 := by
  obtain ⟨before, after, hsplit⟩ :=
    List.append_of_mem (Std.TreeMap.mem_toList_iff_getElem?_eq_some.mpr h)
  have hordered := s.servers.ordered_keys_toList
  rw [hsplit, List.pairwise_append, List.pairwise_cons] at hordered
  obtain ⟨_, ⟨hafter, _⟩, hbefore⟩ := hordered
  exact ⟨before, after, hsplit,
    fun x hx => Nat.compare_eq_lt.mp (hbefore x hx _ List.mem_cons_self),
    fun x hx => Nat.compare_eq_lt.mp (hafter x hx)⟩

/-- Only what the server holds is displayed differently. -/
theorem collectPending_setGate {handle : ServeHandle} {id : ℕ} (gate : PairGateInner)
    (h : s.servers[id]? = some handle) : ∃ before after,
    s.collectPending = before ++ heldAt (id, handle) ++ after ∧
      (s.setGate id gate).collectPending = before ++ heldAt (id, { handle with gate }) ++ after ∧
      (∀ e ∈ before, e.server < id) ∧ ∀ e ∈ after, id < e.server := by
  obtain ⟨before, after, hsplit, hbefore, hafter⟩ := split_at_server h
  have hkeep : ∀ xs : List (ℕ × ServeHandle), (∀ x ∈ xs, x.1 ≠ id) →
      xs.map (fun x => (x.1, if x.1 = id then { x.2 with gate } else x.2)) = xs := fun xs hne =>
    (List.map_congr_left fun x hx => by rw [if_neg (hne x hx)]).trans (List.map_id' xs)
  refine ⟨before.flatMap heldAt, after.flatMap heldAt, ?_, ?_, fun e he => ?_, fun e he => ?_⟩
  · unfold collectPending
    rw [hsplit, List.flatMap_append, List.flatMap_cons, List.append_assoc]
  · unfold collectPending setGate
    dsimp only
    rw [Std.TreeMap.toList_map, hsplit, List.map_append, List.map_cons, if_pos rfl,
      hkeep before fun x hx => Nat.ne_of_lt (hbefore x hx),
      hkeep after fun x hx => Nat.ne_of_gt (hafter x hx),
      List.flatMap_append, List.flatMap_cons, List.append_assoc]
  · obtain ⟨x, hx, hex⟩ := List.mem_flatMap.mp he
    exact server_of_heldAt hex ▸ hbefore x hx
  · obtain ⟨x, hx, hex⟩ := List.mem_flatMap.mp he
    exact server_of_heldAt hex ▸ hafter x hx

/-- A request that is held anew comes after those of its server, and before those of later ones. -/
theorem collectPending_anew (hnew : s.holdsAnew blake3 r = true) : ∃ before after,
    s.collectPending = before ++ after ∧
      (s.request blake3 r).collectPending = before ++ ⟨r.server, r.deviceName, r.deviceId⟩ :: after ∧
      (∀ e ∈ before, e.server ≤ r.server) ∧ ∀ e ∈ after, r.server < e.server := by
  obtain ⟨handle, hhandle, hanew⟩ := (Option.any_eq_true _ _).mp hnew
  unfold request
  rw [hhandle]
  dsimp only
  obtain ⟨before, after, hold, hnow, hbefore, hafter⟩ := collectPending_setGate
    (handle.gate.admitPairing blake3 s.host.db.val r.deviceId r.deviceName r.certDer).2 hhandle
  refine ⟨before ++ heldAt (r.server, handle), after, hold, ?_, fun e he => ?_, hafter⟩
  · rw [hnow]
    unfold heldAt
    dsimp only
    rw [admitPairing_pending, if_pos hanew, List.map_append]
    simp only [List.map_cons, List.map_nil, List.append_assoc, List.singleton_append]
  · rcases List.mem_append.mp he with he | he
    · exact Nat.le_of_lt (hbefore e he)
    · exact Nat.le_of_eq (server_of_heldAt he)

/-- A request that is not held anew changes nothing. -/
theorem collectPending_known (hnew : s.holdsAnew blake3 r = false) :
    (s.request blake3 r).collectPending = s.collectPending := by
  unfold request
  cases hhandle : s.servers[r.server]? with
  | none => rfl
  | some handle =>
    obtain ⟨before, after, hold, hnow, _, _⟩ := collectPending_setGate
      (handle.gate.admitPairing blake3 s.host.db.val r.deviceId r.deviceName r.certDer).2 hhandle
    dsimp only
    rw [hnow, hold]
    unfold holdsAnew at hnew
    rw [hhandle, Option.any_some] at hnew
    unfold heldAt
    dsimp only
    rw [admitPairing_pending, if_neg (Bool.not_eq_true _ ▸ hnew)]

/-- How many of the requests are held anew, by a server that is counted. -/
def heldAnew (blake3 : Bytes → FileHash) (counted : ℕ → Bool) : ReplState → List PairingRequest → ℕ
  | _, [] => 0
  | s, r :: rs => (if s.holdsAnew blake3 r && counted r.server then 1 else 0) +
      heldAnew blake3 counted (s.request blake3 r) rs

theorem requests_cons : s.requests blake3 (r :: rs) = (s.request blake3 r).requests blake3 rs := rfl

theorem heldAnew_cons {counted : ℕ → Bool} : heldAnew blake3 counted s (r :: rs) =
    (if s.holdsAnew blake3 r && counted r.server then 1 else 0) +
      heldAnew blake3 counted (s.request blake3 r) rs := rfl

/-- **A request moves down by one for every other that comes in at an earlier server.** -/
theorem idxOf_requests (blake3 : Bytes → FileHash) (rs : List PairingRequest) (h : s.HoldsOnce)
    (hheld : held ∈ s.collectPending) :
    held ∈ (s.requests blake3 rs).collectPending ∧
      (s.requests blake3 rs).collectPending.idxOf held =
        s.collectPending.idxOf held + heldAnew blake3 (fun server => decide (server < held.server)) s rs := by
  induction rs generalizing s with
  | nil => exact ⟨hheld, rfl⟩
  | cons r rs ih =>
    have hnext : (s.request blake3 r).HoldsOnce := holdsOnce_request h
    rw [requests_cons, heldAnew_cons]
    cases hnew : s.holdsAnew blake3 r with
    | false =>
      have hsame := collectPending_known hnew
      obtain ⟨hmem, hidx⟩ := ih hnext (hsame.symm ▸ hheld)
      refine ⟨hmem, ?_⟩
      rw [hidx, hsame]
      simp
    | true =>
      obtain ⟨before, after, hold, hnow, hbefore, hafter⟩ := collectPending_anew hnew
      have hthere : held ∈ (s.request blake3 r).collectPending := by
        rw [hold] at hheld
        rw [hnow]
        simp only [List.mem_append, List.mem_cons] at hheld ⊢
        exact hheld.imp_right Or.inr
      obtain ⟨hmem, hidx⟩ := ih hnext hthere
      refine ⟨hmem, ?_⟩
      have hnodup := collectPending_nodup hnext
      rw [hidx, hnow, hold]
      rw [hnow] at hnodup
      rw [hold] at hheld
      by_cases hin : held ∈ before
      · have hle := hbefore held hin
        rw [List.idxOf_append_of_mem hin, List.idxOf_append_of_mem hin]
        simp [Nat.not_lt.mpr hle]
      · have hin' : held ∈ after := (List.mem_append.mp hheld).resolve_left hin
        have hlt := hafter held hin'
        have hne : (⟨r.server, r.deviceName, r.deviceId⟩ : HeldRequest) ≠ held := by
          rintro rfl
          exact Nat.lt_irrefl _ hlt
        rw [List.idxOf_append_of_notMem hin, List.idxOf_append_of_notMem hin, List.idxOf_cons_ne _ hne]
        simp [hlt]
        omega

theorem length_requests (blake3 : Bytes → FileHash) (rs : List PairingRequest) (s : ReplState) :
    (s.requests blake3 rs).collectPending.length =
      s.collectPending.length + heldAnew blake3 (fun _ => true) s rs := by
  induction rs generalizing s with
  | nil => rfl
  | cons r rs ih =>
    rw [requests_cons, heldAnew_cons, ih]
    cases hnew : s.holdsAnew blake3 r with
    | false =>
      rw [collectPending_known hnew]
      simp
    | true =>
      obtain ⟨before, after, hold, hnow, _, _⟩ := collectPending_anew hnew
      rw [hnow, hold]
      simp
      omega

theorem heldAnew_eq_zero {counted : ℕ → Bool} : heldAnew blake3 counted s rs = 0 ↔
    Runs.Meets (fun s r => request s blake3 r)
      (fun s r => s.holdsAnew blake3 r = true → counted r.server = false) s rs := by
  induction rs generalizing s with
  | nil => exact iff_of_true rfl Runs.meets_nil
  | cons r rs ih =>
    rw [heldAnew_cons, Runs.meets_cons, Nat.add_eq_zero_iff, ih]
    refine and_congr_left fun _ => ?_
    cases s.holdsAnew blake3 r <;> cases counted r.server <;> simp

/-- A place on the list is that of the request that is met there first. -/
theorem getElem?_eq_some_iff_idxOf {xs : List HeldRequest} (h : xs.Nodup) {i : ℕ} (hheld : held ∈ xs) :
    xs[i]? = some held ↔ i = xs.idxOf held := by
  have hlt := List.idxOf_lt_length_of_mem hheld
  constructor
  · intro hget
    obtain ⟨hi, heq⟩ := List.getElem?_eq_some_iff.mp hget
    exact (h.getElem_inj_iff.mp (heq.trans (List.getElem_idxOf hlt).symm))
  · rintro rfl
    rw [List.getElem?_eq_getElem hlt, List.getElem_idxOf]

theorem numbered_eq_some {n : ℕ} : s.numbered n = some held ↔ n ≠ 0 ∧ s.collectPending[n - 1]? = some held := by
  unfold numbered
  split_ifs with hn
  · exact iff_of_false nofun fun h => h.1 hn
  · exact ⟨fun h => ⟨hn, h⟩, And.right⟩

/-- **A request keeps its number** exactly if none is held before it. -/
theorem numbered_requests_iff {n : ℕ} (honce : s.HoldsOnce) (h : s.numbered n = some held) :
    (s.requests blake3 rs).numbered n = some held ↔ NoneBefore blake3 held s rs := by
  obtain ⟨hn, hget⟩ := numbered_eq_some.mp h
  have hheld : held ∈ s.collectPending := List.mem_of_getElem? hget
  obtain ⟨hheld', hidx⟩ := idxOf_requests blake3 rs honce hheld
  have hi : n - 1 = s.collectPending.idxOf held :=
    (getElem?_eq_some_iff_idxOf (collectPending_nodup honce) hheld).mp hget
  have hzero : heldAnew blake3 (fun server => decide (server < held.server)) s rs = 0 ↔
      NoneBefore blake3 held s rs := by
    rw [heldAnew_eq_zero]
    unfold NoneBefore
    simp
  have hnodup : (s.requests blake3 rs).collectPending.Nodup :=
    collectPending_nodup (holdsOnce_requests honce rs)
  rw [numbered_eq_some, getElem?_eq_some_iff_idxOf hnodup hheld', hidx, hi, ← hzero]
  omega

/-- **The only request stays the only one** exactly if none is held beside it. -/
theorem single_requests_iff (h : s.collectPending = [held]) :
    (s.requests blake3 rs).collectPending.length = 1 ↔ NoneHeld blake3 s rs := by
  have hzero : heldAnew blake3 (fun _ => true) s rs = 0 ↔ NoneHeld blake3 s rs := by
    rw [heldAnew_eq_zero]
    unfold NoneHeld
    simp
  rw [length_requests, h, List.length_singleton, ← hzero]
  omega

/-- It is still the one that it was. -/
theorem single_requests (honce : s.HoldsOnce) (h : s.collectPending = [held])
    (hnone : NoneHeld blake3 s rs) : (s.requests blake3 rs).collectPending = [held] := by
  obtain ⟨hheld, _⟩ := idxOf_requests blake3 rs honce (h ▸ List.mem_singleton_self held)
  obtain ⟨e, he⟩ := List.length_eq_one_iff.mp ((single_requests_iff h).mpr hnone)
  have heq : held = e := List.mem_singleton.mp (he ▸ hheld)
  rw [he, heq]

/-- **The first request stays the first**, or one that has come at an earlier server is. -/
theorem head_requests {first : HeldRequest} (h : s.collectPending[0]? = some first) :
    ∃ now, (s.requests blake3 rs).collectPending[0]? = some now ∧
      (now = first ∨ ∃ r ∈ rs, now = r.held ∧ r.server < first.server) := by
  induction rs generalizing s first with
  | nil => exact ⟨first, h, Or.inl rfl⟩
  | cons r rs ih =>
    rw [requests_cons]
    cases hnew : s.holdsAnew blake3 r with
    | false =>
      obtain ⟨now, hnow, hfirst⟩ := ih ((collectPending_known hnew).symm ▸ h)
      exact ⟨now, hnow, hfirst.imp_right fun ⟨r', hr', hrest⟩ => ⟨r', List.mem_cons_of_mem _ hr', hrest⟩⟩
    | true =>
      obtain ⟨before, after, hold, hthen, _, hafter⟩ := collectPending_anew hnew
      cases before with
      | nil =>
        have hearlier : r.server < first.server := by
          refine hafter first (List.mem_of_getElem? (i := 0) ?_)
          rwa [hold, List.nil_append] at h
        have hr : (s.request blake3 r).collectPending[0]? = some r.held := by
          rw [hthen]
          rfl
        obtain ⟨now, hnow, hfirst⟩ := ih hr
        refine ⟨now, hnow, Or.inr ?_⟩
        rcases hfirst with rfl | ⟨r', hr', hheld, hlt⟩
        · exact ⟨r, List.mem_cons_self, rfl, hearlier⟩
        · exact ⟨r', List.mem_cons_of_mem _ hr', hheld, Nat.lt_trans hlt hearlier⟩
      | cons e before =>
        have hsame : (s.request blake3 r).collectPending[0]? = some first := by
          rw [hold] at h
          rw [hthen]
          exact h
        obtain ⟨now, hnow, hfirst⟩ := ih hsame
        exact ⟨now, hnow, hfirst.imp_right fun ⟨r', hr', hrest⟩ => ⟨r', List.mem_cons_of_mem _ hr', hrest⟩⟩

end

/-- **An answer is for the request that was listed** exactly if none has come before it since, nor
beside the only one; a plain one is for another only if that has come at an earlier server while
the shell was looking. -/
theorem answer_listed_iff (blake3 : Bytes → FileHash) (deviceInfo : DeviceInfo) (host : Host)
    (acts : List ReplAct) (rs : List PairingRequest) (a : Answered) (held : HeldRequest)
    (h : Shows ((new deviceInfo host).run blake3 acts) held a) :
    ((((new deviceInfo host).run blake3 acts).requests blake3 rs).meant blake3 a = some held ↔
      Undisturbed blake3 ((new deviceInfo host).run blake3 acts) held rs a) ∧
    ∀ between other, a = .latest between →
      (((new deviceInfo host).run blake3 acts).requests blake3 rs).meant blake3 a = some other →
        other = held ∨ ∃ r ∈ between, other = r.held ∧ r.server < held.server := by
  have honce := holdsOnce_run blake3 (holdsOnce_new deviceInfo host) acts
  generalize (new deviceInfo host).run blake3 acts = s at h honce
  cases a with
  | number n => exact ⟨numbered_requests_iff honce h, nofun⟩
  | latest between =>
    have hsingle := @single_requests_iff blake3 s held rs h
    have honce' : (s.requests blake3 rs).HoldsOnce := holdsOnce_requests honce rs
    have hfirst : ∀ hnone : NoneHeld blake3 s rs, (s.requests blake3 rs).numbered 1 = some held := by
      intro hnone
      rw [numbered_eq_some, single_requests honce h hnone]
      exact ⟨Nat.one_ne_zero, rfl⟩
    unfold meant Undisturbed
    dsimp only
    constructor
    · constructor
      · intro hmeant
        split_ifs at hmeant with hone
        have hnone := hsingle.mp hone
        exact ⟨hnone, (numbered_requests_iff honce' (hfirst hnone)).mp hmeant⟩
      · rintro ⟨hnone, hbefore⟩
        rw [if_pos (hsingle.mpr hnone)]
        exact (numbered_requests_iff honce' (hfirst hnone)).mpr hbefore
    · intro between' other heq hmeant
      cases heq
      split_ifs at hmeant with hone
      obtain ⟨_, hother⟩ := numbered_eq_some.mp hmeant
      obtain ⟨_, hheld⟩ := numbered_eq_some.mp (hfirst (hsingle.mp hone))
      obtain ⟨now, hnow, hcases⟩ := @head_requests blake3 (s.requests blake3 rs) between held hheld
      rw [Option.some.inj (hother.symm.trans hnow)]
      exact hcases

/-- A shell with two servers, the later of which holds a request. -/
def holdsPhone : List ReplAct := servesMusic ++
  [.startServer "/home/photos" 9848 ⟨true, 40000, by decide⟩, .request ⟨2, "phone", "Phone", none⟩]

/-- The phone was the only one; the tablet asks the earlier server while the shell looks it up. -/
theorem answer_listed_tablet : (((new ⟨"den", "Den", []⟩ (Host.new 1)).run sampleBlake3 holdsPhone).requests
    sampleBlake3 []).meant sampleBlake3 (.latest [⟨1, "tablet", "Tablet", none⟩]) ≠
      some ⟨2, "Phone", "phone"⟩ := by
  intro h
  have hnone := (answer_listed_iff sampleBlake3 ⟨"den", "Den", []⟩ (Host.new 1) holdsPhone []
    (.latest [⟨1, "tablet", "Tablet", none⟩]) ⟨2, "Phone", "phone"⟩ (show _ = _ by decide)).1.mp h
  have hle := hnone.2 [] _ [] rfl (by decide)
  exact absurd hle (by decide)

end ReplState
end FerriSync
