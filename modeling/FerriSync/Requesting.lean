/-
# Waiting for a folder to be granted

A request for a folder of a peer (`request_folder_pairing` in `api/mod.rs`,
`request_and_collect_pairing` in `shared_folder.rs`): the requester asks, and while the owner
holds the request it sleeps and asks again, until the lifetime is over. Meanwhile both go on with
whatever they do, and time passes. A request is answered, and a grant stored, between two acts of
anybody else.

With a lifetime a call asks a bounded number of times. What it returns is what the owner has
decided at that listener, and a grant that it gets is stored exactly if it can be wired
(`request_result`). No lifetime is not one question, but any number.

Key definitions: `FolderPairingCall`, `CallStage`, `Requesting`, `Requesting.step`, `pollCount`.
Key theorems: `pollCount_le`, `keeps_step`, `answerFolderPair_spec`, `grant_stored`,
`request_result`.
-/
import FerriSync.Couples

namespace FerriSync

open Transactions

/-- Result of driving a folder-pairing request. -/
inductive FolderPairReply
  | approved (grant : RemoteFolderPair)
  | rejected (reason : String)
  | pending
deriving DecidableEq, Repr

/-- What the call returns. -/
inductive FolderPairResult
  | approved (folderGuid name : String) (remotePath : Option String)
  | rejected (reason : String)
  | pending
deriving DecidableEq, Repr

namespace Node

variable (n : Node)

/-- The share is there and open. -/
def shareOk (folderGuid : String) : Bool :=
  (n.db.sharedFolderByGuid n.ownId folderGuid).any fun row => row.discoverable && row.enabled

/-- One request and its answer, as the requester reads it. -/
def singleRequest (req : RemoteFolderPairRequest) : FolderPairReply :=
  match (n.answerFolderPair req).1 with
  | .approved grant => .approved grant
  | .pending => .pending
  | .rejected =>
    .rejected (if n.shareOk req.folderGuid then "denied" else "unknown or not shared folder")

end Node

/-- A request to the owner's listener at an address; no lifetime is 0. -/
structure FolderPairingCall where
  listener : ℕ
  addr : String
  deviceName : String
  folderGuid : String
  shareName : String
  localPath : String
  lifetimeMs : ℕ
deriving DecidableEq, Repr

/-- How long the requester sleeps. -/
def pollIntervalMs : ℕ := 1500

/-- When a call that starts now asks no more, if ever. -/
def FolderPairingCall.deadline (call : FolderPairingCall) (now : ℕ) : Option ℕ :=
  if call.lifetimeMs = 0 then none else some (now + call.lifetimeMs)

/-- Where the call is. -/
inductive CallStage
  | starting
  | asking (deadline : Option ℕ)
  | answered (deadline : Option ℕ) (reply : FolderPairReply)
  | sleeping (deadline : Option ℕ) (wake : ℕ)
  | returned (result : FolderPairResult)
  | failed
deriving DecidableEq, Repr

/-- The owner and the requester, the time, and the call. -/
structure Requesting where
  couple : Couple
  now : ℕ
  stage : CallStage

/-- Anything that the two do, time, or the call's next step. -/
inductive RequestAct
  | act (a : PairAct)
  | elapse (ms : ℕ)
  | turn

def CallStage.ended : CallStage → Bool
  | returned _ | failed => true
  | _ => false

namespace Requesting

variable (blake3 : Bytes → FileHash) (call : FolderPairingCall) (s : Requesting)

def request : RemoteFolderPairRequest :=
  ⟨s.couple.requester.ownId, call.deviceName, call.folderGuid, call.shareName, "bidirectional"⟩

/-- A grant is stored, and then the owner's address. -/
def store (grant : RemoteFolderPair) : Sql Unit := do
  discard (Database.wireFolderPair call.folderGuid call.localPath call.shareName
    s.couple.requester.ownId s.couple.owner.ownId grant.remotePath)
  Database.setDeviceLastAddr s.couple.owner.ownId call.addr

/-- The call registers the requester itself, asks, and stores the grant. -/
def nextCouple : Couple :=
  match s.stage with
  | .starting => s.couple.step blake3
    (.registerDevice .requester s.couple.requester.ownId call.deviceName none none)
  | .asking _ => s.couple.step blake3
    (.ask call.listener call.deviceName call.folderGuid call.shareName)
  | .answered _ (.approved grant) => s.couple.on .requester fun d => d.after (s.store call grant)
  | _ => s.couple

def nextStage : CallStage :=
  match s.stage with
  | .starting =>
    match Database.upsertDevice s.couple.requester.ownId call.deviceName none none
        s.couple.requester.host.db with
    | .ok _ _ => .asking (call.deadline s.now)
    | .error _ _ => .failed
  | .asking deadline =>
    match s.couple.owner.node? call.listener with
    | none => .failed
    | some node => .answered deadline (node.singleRequest (s.request call))
  | .answered _ (.approved grant) =>
    match s.store call grant s.couple.requester.host.db with
    | .ok _ _ => .returned (.approved grant.folderGuid grant.name grant.remotePath)
    | .error _ _ => .failed
  | .answered _ (.rejected reason) => .returned (.rejected reason)
  | .answered deadline .pending =>
    if deadline.any fun d => decide (d ≤ s.now) then .returned .pending
    else .sleeping deadline (s.now + pollIntervalMs)
  | .sleeping deadline wake => if wake ≤ s.now then .asking deadline else s.stage
  | .returned _ | .failed => s.stage

def turn : Requesting := { s with
  couple := s.nextCouple blake3 call
  stage := s.nextStage call }

def step : RequestAct → Requesting
  | .act a => { s with couple := s.couple.step blake3 a }
  | .elapse ms => { s with now := s.now + ms }
  | .turn => s.turn blake3 call

def run (acts : List RequestAct) : Requesting := acts.foldl (step blake3 call) s

/-- The call asks in this act. -/
def polls : RequestAct → Bool
  | .turn => match s.stage with
    | .asking _ => true
    | _ => false
  | _ => false

/-- How often it asks in a run. -/
def pollCount : Requesting → List RequestAct → ℕ
  | _, [] => 0
  | s, a :: acts => (if s.polls a then 1 else 0) + pollCount (s.step blake3 call a) acts

end Requesting

/-! ### What a turn can do -/

namespace Requesting

variable {s : Requesting} {deadline : Option ℕ}

theorem nextStage_starting (h : s.stage = .starting) (call : FolderPairingCall) :
    s.nextStage call = .asking (call.deadline s.now) := by
  obtain ⟨t, ht, -⟩ := @Database.upsertDevice_ok s.couple.requester.host.db s.couple.requester.ownId
    call.deviceName none none
  unfold nextStage
  rw [h]
  dsimp only
  rw [ht]

theorem nextStage_asking (h : s.stage = .asking deadline) (call : FolderPairingCall) :
    s.couple.owner.node? call.listener = none ∧ s.nextStage call = .failed ∨
    ∃ node, s.couple.owner.node? call.listener = some node ∧
      s.nextStage call = .answered deadline (node.singleRequest (s.request call)) := by
  unfold nextStage
  rw [h]
  dsimp only
  cases s.couple.owner.node? call.listener with
  | none => exact Or.inl ⟨rfl, rfl⟩
  | some node => exact Or.inr ⟨node, rfl, rfl⟩

theorem nextStage_approved {grant : RemoteFolderPair} (h : s.stage = .answered deadline (.approved grant))
    (call : FolderPairingCall) :
    s.nextStage call = .failed ∨
      s.nextStage call = .returned (.approved grant.folderGuid grant.name grant.remotePath) := by
  unfold nextStage
  rw [h]
  dsimp only
  cases s.store call grant s.couple.requester.host.db with
  | ok u t => exact Or.inr rfl
  | error e t => exact Or.inl rfl

theorem nextStage_rejected {reason : String} (h : s.stage = .answered deadline (.rejected reason))
    (call : FolderPairingCall) : s.nextStage call = .returned (.rejected reason) := by
  unfold nextStage
  rw [h]

theorem nextStage_pending (h : s.stage = .answered deadline .pending) (call : FolderPairingCall) :
    s.nextStage call = if deadline.any fun d => decide (d ≤ s.now) then .returned .pending
      else .sleeping deadline (s.now + pollIntervalMs) := by
  unfold nextStage
  rw [h]

/-- An answer ends the call, unless it is to wait and there is time left. -/
theorem ended_nextStage {reply : FolderPairReply} (h : s.stage = .answered deadline reply)
    (hlast : reply = .pending → (deadline.any fun d => decide (d ≤ s.now)) = true)
    (call : FolderPairingCall) : (s.nextStage call).ended = true := by
  cases reply with
  | approved grant =>
    rcases nextStage_approved h call with hnext | hnext
    · rw [hnext]
      rfl
    · rw [hnext]
      rfl
  | rejected reason =>
    rw [nextStage_rejected h]
    rfl
  | pending =>
    rw [nextStage_pending h, if_pos (hlast rfl)]
    rfl

theorem nextStage_sleeping {wake : ℕ} (h : s.stage = .sleeping deadline wake) (call : FolderPairingCall) :
    s.nextStage call = if wake ≤ s.now then .asking deadline else .sleeping deadline wake := by
  unfold nextStage
  rw [h]

theorem nextStage_ended (h : s.stage.ended = true) (call : FolderPairingCall) : s.nextStage call = s.stage := by
  unfold nextStage
  cases hstage : s.stage with
  | returned result => rfl
  | failed => rfl
  | starting | asking | answered | sleeping =>
    rw [hstage] at h
    cases h

end Requesting

/-! ### How often it asks -/

/-- How often one can still ask who is about to, so long before the deadline. -/
def pollsLeft (left : ℕ) : ℕ := (left + (pollIntervalMs - 1)) / pollIntervalMs + 1

theorem pollsLeft_mono {a b : ℕ} (h : a ≤ b) : pollsLeft a ≤ pollsLeft b :=
  Nat.add_le_add_right (Nat.div_le_div_right (Nat.add_le_add_right h _)) 1

theorem pollsLeft_sleep {d now : ℕ} (hbefore : now < d) :
    pollsLeft (d - (now + pollIntervalMs)) + 1 ≤ pollsLeft (d - now) := by
  unfold pollsLeft pollIntervalMs
  omega

/-- A call at this stage asks at most so often from now on. -/
def CallStage.Within (call : FolderPairingCall) (k now : ℕ) : CallStage → Prop
  | starting => call.lifetimeMs ≠ 0 ∧ pollsLeft call.lifetimeMs ≤ k
  | asking deadline => ∃ d, deadline = some d ∧ pollsLeft (d - now) ≤ k
  | answered deadline .pending => ∃ d, deadline = some d ∧ pollsLeft (d - now) ≤ k + 1
  | sleeping deadline wake => ∃ d, deadline = some d ∧ pollsLeft (d - max wake now) ≤ k
  | answered _ (.approved _) | answered _ (.rejected _) | returned _ | failed => True

theorem CallStage.Within.later {call : FolderPairingCall} {k now now' : ℕ} {stage : CallStage}
    (h : stage.Within call k now) (hle : now ≤ now') : stage.Within call k now' := by
  cases stage with
  | starting => exact h
  | asking deadline =>
    obtain ⟨d, hd, hk⟩ := h
    exact ⟨d, hd, le_trans (pollsLeft_mono (Nat.sub_le_sub_left hle d)) hk⟩
  | answered deadline reply =>
    cases reply with
    | pending =>
      obtain ⟨d, hd, hk⟩ := h
      exact ⟨d, hd, le_trans (pollsLeft_mono (Nat.sub_le_sub_left hle d)) hk⟩
    | approved grant => trivial
    | rejected reason => trivial
  | sleeping deadline wake =>
    obtain ⟨d, hd, hk⟩ := h
    exact ⟨d, hd, le_trans (pollsLeft_mono (Nat.sub_le_sub_left (max_le_max_left wake hle) d)) hk⟩
  | returned result => trivial
  | failed => trivial

namespace Requesting

variable {blake3 : Bytes → FileHash} {call : FolderPairingCall} {s : Requesting}

/-- **A turn** that asks uses up one of what is left. -/
theorem within_nextStage {k : ℕ} (h : s.stage.Within call k s.now) :
    (if s.polls .turn then 1 else 0) ≤ k ∧
      (s.nextStage call).Within call (k - if s.polls .turn then 1 else 0) s.now := by
  unfold polls
  cases hstage : s.stage with
  | starting =>
    rw [hstage] at h
    rw [nextStage_starting hstage call, FolderPairingCall.deadline, if_neg h.1]
    exact ⟨Nat.zero_le k, _, rfl, by rw [Nat.add_sub_cancel_left]; exact h.2⟩
  | asking deadline =>
    rw [hstage] at h
    obtain ⟨d, rfl, hk⟩ := h
    refine ⟨le_trans (Nat.le_add_left 1 _) hk, ?_⟩
    rcases nextStage_asking hstage call with ⟨-, hnext⟩ | ⟨node, -, hnext⟩
    · rw [hnext]
      trivial
    · rw [hnext]
      cases node.singleRequest (s.request call) with
      | pending => exact ⟨d, rfl, le_trans hk (Nat.le_add_of_sub_le (Nat.le_refl _))⟩
      | approved grant => trivial
      | rejected reason => trivial
  | answered deadline reply =>
    refine ⟨Nat.zero_le k, ?_⟩
    cases reply with
    | approved grant =>
      rcases nextStage_approved hstage call with hnext | hnext
      · rw [hnext]
        trivial
      · rw [hnext]
        trivial
    | rejected reason =>
      rw [nextStage_rejected hstage call]
      trivial
    | pending =>
      rw [hstage] at h
      obtain ⟨d, rfl, hk⟩ := h
      have hnext := nextStage_pending (s := s) hstage call
      simp only [Option.any_some, decide_eq_true_eq] at hnext
      by_cases hover : d ≤ s.now
      · rw [hnext, if_pos hover]
        trivial
      · rw [hnext, if_neg hover]
        refine ⟨d, rfl, ?_⟩
        rw [max_eq_left (Nat.le_add_right s.now _)]
        exact Nat.le_of_succ_le_succ (le_trans (pollsLeft_sleep (not_le.mp hover)) hk)
  | sleeping deadline wake =>
    rw [hstage] at h
    refine ⟨Nat.zero_le k, ?_⟩
    obtain ⟨d, rfl, hk⟩ := h
    rw [nextStage_sleeping hstage call]
    by_cases hwake : wake ≤ s.now
    · rw [if_pos hwake]
      rw [max_eq_right hwake] at hk
      exact ⟨d, rfl, hk⟩
    · rw [if_neg hwake]
      exact ⟨d, rfl, hk⟩
  | returned result =>
    rw [nextStage_ended (by rw [hstage]; rfl) call, hstage]
    exact ⟨Nat.zero_le k, trivial⟩
  | failed =>
    rw [nextStage_ended (by rw [hstage]; rfl) call, hstage]
    exact ⟨Nat.zero_le k, trivial⟩

/-- **A run** asks at most so often as is left. -/
theorem pollCount_le {k : ℕ} (h : s.stage.Within call k s.now) (acts : List RequestAct) :
    s.pollCount blake3 call acts ≤ k := by
  induction acts generalizing s k with
  | nil => exact Nat.zero_le k
  | cons a acts ih =>
    cases a with
    | act p => exact (Nat.zero_add _).trans_le (ih (s := s.step blake3 call (.act p)) h)
    | elapse ms =>
      exact (Nat.zero_add _).trans_le
        (ih (s := s.step blake3 call (.elapse ms)) (h.later (Nat.le_add_right _ ms)))
    | turn =>
      obtain ⟨hle, hwithin⟩ := within_nextStage h
      have hrest := ih (s := s.step blake3 call .turn) hwithin
      show _ + pollCount blake3 call (s.step blake3 call .turn) acts ≤ k
      omega

end Requesting

/-! ### The owner's decision -/

namespace PairGateInner

/-- The requester has been granted the folder at the gate, or denied it. -/
def FolderGranted (g : PairGateInner) (deviceId folderGuid : String) : Prop :=
  (g.folderApproved.lookup (deviceId, folderGuid)).isSome = true

def FolderDecided (g : PairGateInner) (deviceId folderGuid : String) : Prop :=
  g.FolderGranted deviceId folderGuid ∨ (deviceId, folderGuid) ∈ g.folderDenied

/-- What has been decided stays so. -/
structure KeepsDecisions (g g' : PairGateInner) : Prop where
  granted : ∀ deviceId folderGuid,
    g.FolderGranted deviceId folderGuid → g'.FolderGranted deviceId folderGuid
  denied : g.folderDenied ⊆ g'.folderDenied

variable {g g' : PairGateInner} {deviceId folderGuid : String}

theorem KeepsDecisions.refl (g : PairGateInner) : g.KeepsDecisions g := ⟨fun _ _ h => h, subset_refl _⟩

theorem KeepsDecisions.decided (h : g.KeepsDecisions g') (hg : g.FolderDecided deviceId folderGuid) :
    g'.FolderDecided deviceId folderGuid :=
  hg.imp (h.granted _ _) fun hdenied => h.denied hdenied

end PairGateInner

namespace Node

open PairGateInner

variable {n : Node}

theorem keeps_approveFolderPair (id guid name localPath : String) (remotePath : Option String) :
    n.gate.KeepsDecisions (n.approveFolderPair id guid name localPath remotePath).2.gate := by
  have hgate : (n.approveFolderPair id guid name localPath remotePath).2.gate =
      { n.gate.dropFolderPending id guid with
        folderApproved :=
          n.gate.folderApproved.insert (id, guid) ⟨guid, name, "bidirectional", remotePath⟩ } := by
    unfold approveFolderPair
    dsimp only
    split <;> rfl
  rw [hgate]
  refine ⟨fun deviceId folderGuid h => ?_, subset_refl _⟩
  unfold FolderGranted at h ⊢
  dsimp only
  by_cases hkey : (deviceId, folderGuid) = (id, guid)
  · rw [hkey, AList.lookup_insert]
    rfl
  · rw [AList.lookup_insert_ne hkey]
    exact h

theorem keeps_denyFolderPair (id guid : String) : n.gate.KeepsDecisions (n.denyFolderPair id guid).gate :=
  ⟨fun _ _ h => h, Finset.subset_insert _ _⟩

theorem keeps_answerFolderPair (req : RemoteFolderPairRequest) :
    n.gate.KeepsDecisions (n.answerFolderPair req).2.gate := by
  unfold answerFolderPair
  cases n.db.sharedFolderByGuid n.ownId req.folderGuid with
  | none => exact .refl _
  | some row =>
    dsimp only
    split
    · unfold requestFolderPair
      split
      · exact .refl _
      · split_ifs
        · exact .refl _
        · have happroved := @keeps_approveFolderPair n req.deviceId req.folderGuid req.name row.localPath
            (some row.localPath)
          rcases hresult : n.approveFolderPair req.deviceId req.folderGuid req.name row.localPath
            (some row.localPath) with ⟨_ | grant, n'⟩
          · rw [hresult] at happroved
            exact ⟨happroved.granted, happroved.denied⟩
          · rw [hresult] at happroved
            exact happroved
        · unfold PairGateInner.holdFolder
          dsimp only
          split <;> exact ⟨fun _ _ h => h, subset_refl _⟩
    · exact .refl _

/-- Who is approved gets what is stored. -/
theorem lookup_approveFolderPair {id guid name localPath : String} {remotePath : Option String}
    {grant : RemoteFolderPair} {n' : Node}
    (h : n.approveFolderPair id guid name localPath remotePath = (some grant, n')) :
    n'.gate.folderApproved.lookup (id, guid) = some grant := by
  unfold approveFolderPair at h
  dsimp only at h
  split at h
  · cases h
    exact AList.lookup_insert _
  · cases h

/-- **What an answer says of the gate**: a grant is the one that is stored now, a denial is stored
or the share is not open, and who is to wait has nothing decided. -/
theorem answerFolderPair_spec (req : RemoteFolderPairRequest) :
    match (n.answerFolderPair req).1 with
    | .approved grant =>
      (n.answerFolderPair req).2.gate.folderApproved.lookup (req.deviceId, req.folderGuid) = some grant
    | .rejected => n.shareOk req.folderGuid = false ∨ (req.deviceId, req.folderGuid) ∈ n.gate.folderDenied
    | .pending => ¬n.gate.FolderDecided req.deviceId req.folderGuid := by
  unfold answerFolderPair shareOk
  cases n.db.sharedFolderByGuid n.ownId req.folderGuid with
  | none => exact Or.inl rfl
  | some row =>
    rw [Option.any_some]
    dsimp only
    by_cases hopen : (row.discoverable && row.enabled) = true
    · rw [if_pos hopen]
      unfold requestFolderPair
      cases hgrant : n.gate.folderApproved.lookup (req.deviceId, req.folderGuid) with
      | some grant => exact hgrant
      | none =>
        by_cases hdenied : (req.deviceId, req.folderGuid) ∈ n.gate.folderDenied
        · simp only [if_pos hdenied]
          exact Or.inr hdenied
        · have hundecided : ¬n.gate.FolderDecided req.deviceId req.folderGuid := by
            rintro (h | h)
            · unfold FolderGranted at h
              rw [hgrant] at h
              cases h
            · exact hdenied h
          simp only [if_neg hdenied]
          by_cases htrusted : (n.db.getDeviceCert req.deviceId).isSome = true
          · simp only [if_pos htrusted]
            rcases hresult : n.approveFolderPair req.deviceId req.folderGuid req.name row.localPath
              (some row.localPath) with ⟨_ | grant, n'⟩
            · exact hundecided
            · exact lookup_approveFolderPair hresult
          · simp only [if_neg htrusted]
            exact hundecided
    · rw [if_neg hopen]
      exact Or.inl (eq_false_of_ne_true hopen)

/-- **A decision is told** to whoever asks, or the share is closed. -/
theorem singleRequest_decided {req : RemoteFolderPairRequest}
    (h : n.gate.FolderDecided req.deviceId req.folderGuid) : n.singleRequest req ≠ .pending := by
  have hspec := n.answerFolderPair_spec req
  unfold singleRequest
  cases hanswer : (n.answerFolderPair req).1 with
  | approved grant => simp
  | rejected => simp
  | pending =>
    rw [hanswer] at hspec
    exact absurd h hspec

end Node

namespace PairingDevice

variable {d d' : PairingDevice} {n : ℕ} {deviceId folderGuid : String}

/-- What has been decided at a listener's gate stays so. -/
def KeepsDecisions (d d' : PairingDevice) : Prop :=
  ∀ (n : ℕ) (l : FolderListener), d.listeners[n]? = some l →
    ∃ l', d'.listeners[n]? = some l' ∧ l.gate.KeepsDecisions l'.gate

theorem KeepsDecisions.of_eq (h : d'.listeners = d.listeners) : d.KeepsDecisions d' :=
  fun n l hl => ⟨l, by rw [h, hl], .refl _⟩

theorem keeps_put {m : ℕ} {node node' : Node} (hnode : d.node? m = some node)
    (hkeeps : node.gate.KeepsDecisions node'.gate) : d.KeepsDecisions (d.put m node') := by
  intro n l hl
  obtain ⟨l', hl', rfl⟩ := Option.map_eq_some_iff.mp hnode
  unfold put
  dsimp only
  rw [List.getElem?_modify, hl, Option.map_eq_map, Option.map_some]
  by_cases hsame : m = n
  · subst hsame
    cases hl.symm.trans hl'
    rw [if_pos rfl]
    exact ⟨_, rfl, hkeeps⟩
  · rw [if_neg hsame]
    exact ⟨l, rfl, .refl _⟩

theorem listeners_registerFolder (blake3 : Bytes → FileHash) (name path : String) :
    (d.registerFolder blake3 name path).listeners = d.listeners := by
  unfold registerFolder
  split <;> rfl

theorem keeps_serveFolder (blake3 : Bytes → FileHash) (name path : String) :
    d.KeepsDecisions (d.serveFolder blake3 name path) := by
  intro n l hl
  refine ⟨l, ?_, .refl _⟩
  have hlisteners : (d.serveFolder blake3 name path).listeners =
      d.listeners ++ [⟨path, PairGateInner.new⟩] :=
    congrArg (fun ls : List FolderListener => ls ++ [⟨path, PairGateInner.new⟩])
      (d.listeners_registerFolder blake3 name path)
  rw [hlisteners, List.getElem?_append_left (List.getElem?_eq_some_iff.mp hl).1, hl]

end PairingDevice

namespace Couple

variable {blake3 : Bytes → FileHash} {c c' : Couple} {n : ℕ} {folderGuid : String}

/-- The owner has granted the requester the folder at the n-th listener, or denied it. -/
def FolderGranted (c : Couple) (n : ℕ) (folderGuid : String) : Prop :=
  ∃ l, c.owner.listeners[n]? = some l ∧ l.gate.FolderGranted c.requester.ownId folderGuid

def FolderDenied (c : Couple) (n : ℕ) (folderGuid : String) : Prop :=
  ∃ l, c.owner.listeners[n]? = some l ∧ (c.requester.ownId, folderGuid) ∈ l.gate.folderDenied

/-- What has been decided and granted stays so. -/
structure KeepsDecisions (c c' : Couple) : Prop where
  requester : c'.requester.ownId = c.requester.ownId
  owner : c.owner.KeepsDecisions c'.owner
  granted : c.granted ⊆ c'.granted

theorem KeepsDecisions.refl (c : Couple) : c.KeepsDecisions c := ⟨rfl, .of_eq rfl, List.Subset.refl _⟩

theorem KeepsDecisions.isGranted (h : c.KeepsDecisions c') (hc : c.FolderGranted n folderGuid) :
    c'.FolderGranted n folderGuid := by
  obtain ⟨l, hl, hgranted⟩ := hc
  obtain ⟨l', hl', hkeeps⟩ := h.owner n l hl
  exact ⟨l', hl', h.requester ▸ hkeeps.granted _ _ hgranted⟩

theorem KeepsDecisions.isDenied (h : c.KeepsDecisions c') (hc : c.FolderDenied n folderGuid) :
    c'.FolderDenied n folderGuid := by
  obtain ⟨l, hl, hdenied⟩ := hc
  obtain ⟨l', hl', hkeeps⟩ := h.owner n l hl
  exact ⟨l', hl', h.requester ▸ hkeeps.denied hdenied⟩

/-- **A decision stays**, whatever the two do. -/
theorem keeps_step (c : Couple) (act : PairAct) : c.KeepsDecisions (c.step blake3 act) := by
  have hid : (c.step blake3 act).owner.ownId = c.owner.ownId ∧
    (c.step blake3 act).requester.ownId = c.requester.ownId := c.ownIds_step act
  refine ⟨hid.2, ?_, ?_⟩
  · cases act with
    | registerDevice side =>
      cases side <;> exact .of_eq rfl
    | registerFolder side name path =>
      cases side with
      | owner => exact .of_eq (c.owner.listeners_registerFolder blake3 name path)
      | requester => exact .of_eq rfl
    | serve side name path =>
      cases side with
      | owner => exact c.owner.keeps_serveFolder blake3 name path
      | requester => exact .of_eq rfl
    | share | setDiscoverable | unshare => exact .of_eq rfl
    | ask m deviceName guid name =>
      unfold step
      dsimp only
      cases hnode : c.owner.node? m with
      | none => exact .of_eq rfl
      | some node => exact PairingDevice.keeps_put hnode (node.keeps_answerFolderPair _)
    | approve m id guid name localPath remotePath =>
      unfold step
      dsimp only
      cases hnode : c.owner.node? m with
      | none => exact .of_eq rfl
      | some node =>
        exact PairingDevice.keeps_put hnode (node.keeps_approveFolderPair id guid name localPath remotePath)
    | deny m id guid =>
      unfold step
      dsimp only
      cases hnode : c.owner.node? m with
      | none => exact .of_eq rfl
      | some node => exact PairingDevice.keeps_put hnode (node.keeps_denyFolderPair id guid)
    | wire grant localPath name addr =>
      unfold step
      dsimp only
      split <;> exact .of_eq rfl
  · cases act with
    | registerDevice side | registerFolder side | serve side =>
      cases side <;> exact List.Subset.refl _
    | share | setDiscoverable | unshare => exact List.Subset.refl _
    | ask m deviceName guid name =>
      unfold step
      dsimp only
      split
      · exact List.Subset.refl _
      · exact List.subset_append_right _ _
    | approve | deny | wire =>
      unfold step
      dsimp only
      split <;> exact List.Subset.refl _

end Couple

/-- A turn of the call keeps decisions, too. -/
theorem Requesting.keeps_turn (blake3 : Bytes → FileHash) (call : FolderPairingCall) (s : Requesting) :
    s.couple.KeepsDecisions (s.turn blake3 call).couple := by
  show s.couple.KeepsDecisions (s.nextCouple blake3 call)
  unfold nextCouple
  split
  · exact s.couple.keeps_step _
  · exact s.couple.keeps_step _
  · exact ⟨rfl, .of_eq rfl, List.Subset.refl _⟩
  · exact .refl _

/-! ### What a grant is good for -/

namespace Database

variable {s t : DbState} {id : ℕ} {deviceId addr guid localPath name ownId peerId : String}
  {remotePath : Option String}

/-- An address can be stored for any device. -/
theorem setDeviceLastAddr_ok : ∃ t, setDeviceLastAddr deviceId addr s = .ok () t := by
  have hids : (s.val.devices.map fun d => if d.id = deviceId then { d with lastAddr := some addr } else d).map
      (fun d => d.id) = s.val.devices.map fun d => d.id := by
    rw [List.map_map]
    refine List.map_congr_left fun d _ => ?_
    show (if d.id = deviceId then { d with lastAddr := some addr } else d : Db.Device).id = d.id
    split <;> rfl
  obtain ⟨hkeys, hrefs⟩ := violation_eq_none.mp s.valid
  refine ⟨_, execute_ok (violation_eq_none.mpr ⟨⟨?_, hkeys.syncFolders, hkeys.folderDevices,
    hkeys.fileMetadata, hkeys.sharedFolders⟩,
    ⟨?_, hrefs.pairFolder, ?_, hrefs.metadata, hrefs.history, ?_⟩⟩)⟩
  · unfold deviceIds
    rw [hids]
    exact hkeys.devices
  · unfold deviceIds
    rw [hids]
    exact hrefs.folderOwner
  · unfold deviceIds
    rw [hids]
    exact hrefs.pairDevice
  · unfold deviceIds
    rw [hids]
    exact hrefs.share

/-- What has been wired could be. -/
theorem wirable_of_wired (h : wireFolderPair guid localPath name ownId peerId remotePath s = .ok id t) :
    s.val.Wirable ownId peerId guid localPath := by
  unfold wireFolderPair at h
  obtain ⟨folderId, u, hu, hrest⟩ := bind_eq_ok.mp h
  obtain ⟨_, v, hv, -⟩ := bind_eq_ok.mp hrest
  have hwired := transaction_eq_ok.mp hu
  have hvalid := v.valid
  rw [execute_eq_ok.mp hv] at hvalid
  have hpeer := ((putPair_valid u.valid).mp hvalid).2
  rw [(wiredFolder_there hwired).2] at hpeer
  exact wirable_of_ok hpeer hwired

end Database

namespace Requesting

variable {blake3 : Bytes → FileHash} {call : FolderPairingCall} {s : Requesting} {grant : RemoteFolderPair}
  {deadline : Option ℕ}

/-- The pair of the folder as the requester stores it. -/
def storedPair (call : FolderPairingCall) (s : Requesting) (grant : RemoteFolderPair) : PairedFolder :=
  s.couple.requester.db.wiredPair s.couple.owner.ownId call.folderGuid call.localPath grant.remotePath

/-- **A grant is stored** if it can be wired. -/
theorem store_ok (hne : s.couple.owner.ownId ≠ s.couple.requester.ownId)
    (h : s.couple.requester.db.Wirable s.couple.requester.ownId s.couple.owner.ownId call.folderGuid
      call.localPath) :
    ∃ t, s.store call grant s.couple.requester.host.db = .ok () t ∧
      Database.Pairs s.couple.owner.ownId (s.storedPair call grant) s.couple.requester.db t.val := by
  obtain ⟨id, t, ht, hpairs⟩ :=
    Database.wireFolderPair_pairs (s := s.couple.requester.host.db) call.shareName grant.remotePath hne.symm h
  obtain ⟨u, hu⟩ := @Database.setDeviceLastAddr_ok t s.couple.owner.ownId call.addr
  have hsame : u.val.pairedFolders s.couple.owner.ownId = t.val.pairedFolders s.couple.owner.ownId := by
    have haddr : Effects.Does (Database.SamePaired s.couple.owner.ownId)
        (Database.setDeviceLastAddr s.couple.owner.ownId call.addr) :=
      Database.samePaired_execute (fun _ => rfl) fun _ => rfl
    have hafter := haddr t
    rw [Effects.after_ok hu] at hafter
    exact hafter
  refine ⟨u, ?_, ?_⟩
  · unfold store
    rw [Effects.bind_ok (discard_eq_ok.mpr ⟨id, ht⟩)]
    exact hu
  · have hrows : Database.LeavesOthers s.couple.owner.ownId t.val u.val := by
      rw [execute_eq_ok.mp hu]
      exact .of_eq (List.Subset.refl _) rfl
    refine ⟨?_, fun q hq => ?_, fun q hq hpath => ?_, hpairs.elsewhere.trans hrows⟩
    · rw [hsame]
      exact hpairs.there
    · rw [hsame] at hq
      exact hpairs.others q hq
    · rw [hsame]
      exact hpairs.kept q hq hpath

theorem wirable_of_store {t : DbState} (h : s.store call grant s.couple.requester.host.db = .ok () t) :
    s.couple.requester.db.Wirable s.couple.requester.ownId s.couple.owner.ownId call.folderGuid
      call.localPath := by
  obtain ⟨_, u, hu, -⟩ := bind_eq_ok.mp h
  obtain ⟨id, hid⟩ := discard_eq_ok.mp hu
  exact Database.wirable_of_wired hid

/-- **What becomes of a grant**: the call fails exactly if it cannot be wired, and else the two
devices are paired as it says. -/
theorem grant_stored (hne : s.couple.owner.ownId ≠ s.couple.requester.ownId)
    (hstage : s.stage = .answered deadline (.approved grant)) :
    ((s.turn blake3 call).stage = .failed ↔ ¬s.couple.requester.db.Wirable s.couple.requester.ownId
      s.couple.owner.ownId call.folderGuid call.localPath) ∧
    ((s.turn blake3 call).stage ≠ .failed →
      Database.Pairs s.couple.owner.ownId (s.storedPair call grant) s.couple.requester.db
        (s.turn blake3 call).couple.requester.db) := by
  have hnext : (s.turn blake3 call).stage = match s.store call grant s.couple.requester.host.db with
      | .ok _ _ => .returned (.approved grant.folderGuid grant.name grant.remotePath)
      | .error _ _ => .failed := by
    unfold turn nextStage
    rw [hstage]
  have hafter : (s.turn blake3 call).couple.requester.db =
      (Effects.after (s.store call grant) s.couple.requester.host.db).val := by
    unfold turn nextCouple
    rw [hstage]
    rfl
  rw [hnext, hafter]
  cases hstore : s.store call grant s.couple.requester.host.db with
  | ok u t =>
    have hwirable := wirable_of_store hstore
    obtain ⟨t', ht', hpairs⟩ := store_ok hne hwirable
    cases hstore.symm.trans ht'
    rw [Effects.after_ok hstore]
    exact ⟨iff_of_false (by simp) (not_not.mpr hwirable), fun _ => hpairs⟩
  | error e t =>
    refine ⟨iff_of_true rfl fun hwirable => ?_, fun hnot => absurd rfl hnot⟩
    obtain ⟨t', ht', -⟩ := store_ok hne hwirable
    rw [hstore] at ht'
    cases ht'

end Requesting

/-! ### What a call returns -/

section

variable (call : FolderPairingCall) (start now : ℕ) (unshared : Prop) (c : Couple)

/-- No deadline is before the end of the lifetime. -/
def FolderPairingCall.LastsUntil (deadline : Option ℕ) : Prop :=
  ∀ d, deadline = some d → call.lifetimeMs ≠ 0 ∧ start + call.lifetimeMs ≤ d

/-- The folder has been denied, or was not there to be granted when the call asked. -/
def FolderPairingCall.Refused (reason : String) : Prop :=
  reason = "denied" ∧ c.FolderDenied call.listener call.folderGuid ∨
    reason = "unknown or not shared folder" ∧ unshared

def FolderPairReply.Sound : FolderPairReply → Prop
  | approved grant => grant ∈ c.granted ∧ c.FolderGranted call.listener call.folderGuid
  | rejected reason => call.Refused unshared c reason
  | pending => True

/-- What is returned is what the owner has decided, or the lifetime is over. -/
def FolderPairResult.Sound : FolderPairResult → Prop
  | approved folderGuid name remotePath => c.FolderGranted call.listener call.folderGuid ∧
    ∃ grant ∈ c.granted,
      grant.folderGuid = folderGuid ∧ grant.name = name ∧ grant.remotePath = remotePath
  | rejected reason => call.Refused unshared c reason
  | pending => call.lifetimeMs ≠ 0 ∧ start + call.lifetimeMs ≤ now

def CallStage.Sound : CallStage → Prop
  | starting => start ≤ now
  | asking deadline | sleeping deadline _ => call.LastsUntil start deadline
  | answered deadline reply => call.LastsUntil start deadline ∧ reply.Sound call unshared c
  | returned result => result.Sound call start now unshared c
  | failed => True

end

section

variable {blake3 : Bytes → FileHash} {call : FolderPairingCall} {start now now' : ℕ} {unshared : Prop}
  {c c' : Couple}

theorem FolderPairingCall.Refused.keeps {reason : String} (h : call.Refused unshared c reason)
    (hkeeps : c.KeepsDecisions c') : call.Refused unshared c' reason :=
  h.imp_left fun hdenied => ⟨hdenied.1, hkeeps.isDenied hdenied.2⟩

theorem CallStage.Sound.keeps {stage : CallStage} (h : stage.Sound call start now unshared c)
    (hkeeps : c.KeepsDecisions c') (hnow : now ≤ now') : stage.Sound call start now' unshared c' := by
  cases stage with
  | starting => exact le_trans h hnow
  | asking deadline => exact h
  | sleeping deadline wake => exact h
  | failed => trivial
  | answered deadline reply =>
    refine ⟨h.1, ?_⟩
    cases reply with
    | approved grant => exact ⟨hkeeps.granted h.2.1, hkeeps.isGranted h.2.2⟩
    | rejected reason => exact h.2.keeps hkeeps
    | pending => trivial
  | returned result =>
    cases result with
    | approved guid name remotePath =>
      obtain ⟨hgranted, grant, hgrant, hsame⟩ := h
      exact ⟨hkeeps.isGranted hgranted, grant, hkeeps.granted hgrant, hsame⟩
    | rejected reason => exact FolderPairingCall.Refused.keeps h hkeeps
    | pending => exact ⟨h.1, le_trans h.2 hnow⟩

namespace Requesting

variable {s : Requesting}

theorem step_ask {c : Couple} {node : Node} {n : ℕ} (hnode : c.owner.node? n = some node)
    (deviceName folderGuid name : String) :
    c.step blake3 (.ask n deviceName folderGuid name) =
      { c with
        owner := c.owner.put n
          (node.answerFolderPair ⟨c.requester.ownId, deviceName, folderGuid, name, "bidirectional"⟩).2
        granted := (node.answerFolderPair
          ⟨c.requester.ownId, deviceName, folderGuid, name, "bidirectional"⟩).1.grant ++ c.granted } := by
  unfold Couple.step
  dsimp only
  rw [hnode]

/-- It asks a listener where the share is not there, or not open. -/
def AsksUnshared (call : FolderPairingCall) (s : Requesting) : Prop :=
  (∃ deadline, s.stage = .asking deadline) ∧
    ∃ node, s.couple.owner.node? call.listener = some node ∧ node.shareOk call.folderGuid = false

/-- At one of its turns in the run it does. -/
def HasAskedUnshared (blake3 : Bytes → FileHash) (call : FolderPairingCall) (s : Requesting)
    (acts : List RequestAct) : Prop :=
  ∃ before after, acts = before ++ .turn :: after ∧ (s.run blake3 call before).AsksUnshared call

theorem HasAskedUnshared.cons {a : RequestAct} {acts : List RequestAct}
    (h : HasAskedUnshared blake3 call (s.step blake3 call a) acts) :
    HasAskedUnshared blake3 call s (a :: acts) := by
  obtain ⟨before, after, rfl, hasks⟩ := h
  exact ⟨a :: before, after, rfl, hasks⟩

/-- **An answer is sound** where it has been given. -/
theorem sound_answer {node : Node} (hnode : s.couple.owner.node? call.listener = some node)
    (hunshared : node.shareOk call.folderGuid = false → unshared) :
    (node.singleRequest (s.request call)).Sound call unshared
      (s.couple.step blake3 (.ask call.listener call.deviceName call.folderGuid call.shareName)) := by
  have hspec := node.answerFolderPair_spec (s.request call)
  have hkeeps : s.couple.KeepsDecisions (s.couple.step blake3
      (.ask call.listener call.deviceName call.folderGuid call.shareName)) := s.couple.keeps_step _
  obtain ⟨l, hl, hgate⟩ := Option.map_eq_some_iff.mp hnode
  unfold Node.singleRequest
  cases hanswer : (node.answerFolderPair (s.request call)).1 with
  | approved grant =>
    rw [hanswer] at hspec
    rw [step_ask hnode]
    refine ⟨?_, ⟨l.path, (node.answerFolderPair (s.request call)).2.gate⟩, ?_, ?_⟩
    · show grant ∈ (node.answerFolderPair (s.request call)).1.grant ++ s.couple.granted
      rw [hanswer]
      exact List.mem_append_left _ (List.mem_singleton_self grant)
    · show (s.couple.owner.listeners.modify call.listener _)[call.listener]? = _
      rw [List.getElem?_modify, hl, Option.map_eq_map, Option.map_some, if_pos rfl]
      rfl
    · exact Option.isSome_iff_exists.mpr ⟨grant, hspec⟩
  | rejected =>
    rw [hanswer] at hspec
    dsimp only at hspec ⊢
    by_cases hshare : node.shareOk (s.request call).folderGuid = true
    · rw [if_pos hshare]
      refine Or.inl ⟨rfl, hkeeps.isDenied ⟨l, hl, ?_⟩⟩
      subst hgate
      exact hspec.resolve_left (by rw [hshare]; exact Bool.noConfusion)
    · rw [if_neg hshare]
      exact Or.inr ⟨rfl, hunshared (Bool.not_eq_true _ ▸ hshare)⟩
  | pending => trivial

/-- **A turn** keeps it so. -/
theorem sound_turn {start : ℕ} (h : s.stage.Sound call start s.now unshared s.couple)
    (hunshared : s.AsksUnshared call → unshared) :
    (s.turn blake3 call).stage.Sound call start s.now unshared (s.turn blake3 call).couple := by
  have hkeeps : s.couple.KeepsDecisions (s.turn blake3 call).couple := s.keeps_turn blake3 call
  show (s.nextStage call).Sound call start s.now unshared (s.turn blake3 call).couple
  cases hstage : s.stage with
  | starting =>
    rw [hstage] at h
    rw [nextStage_starting hstage]
    intro d hd
    unfold FolderPairingCall.deadline at hd
    split_ifs at hd with hlifetime
    cases hd
    exact ⟨hlifetime, Nat.add_le_add_right h _⟩
  | asking deadline =>
    rw [hstage] at h
    rcases nextStage_asking hstage call with ⟨-, hnext⟩ | ⟨node, hnode, hnext⟩
    · rw [hnext]
      trivial
    · rw [hnext]
      refine ⟨h, ?_⟩
      have hown : (s.turn blake3 call).couple = s.couple.step blake3
          (.ask call.listener call.deviceName call.folderGuid call.shareName) := by
        unfold turn nextCouple
        rw [hstage]
      rw [hown]
      exact sound_answer hnode fun hclosed => hunshared ⟨⟨deadline, hstage⟩, node, hnode, hclosed⟩
  | answered deadline reply =>
    rw [hstage] at h
    obtain ⟨hlasts, hreply⟩ := h
    cases reply with
    | approved grant =>
      rcases nextStage_approved hstage call with hnext | hnext
      · rw [hnext]
        trivial
      · rw [hnext]
        exact ⟨hkeeps.isGranted hreply.2, grant, hkeeps.granted hreply.1, rfl, rfl, rfl⟩
    | rejected reason =>
      rw [nextStage_rejected hstage]
      exact FolderPairingCall.Refused.keeps hreply hkeeps
    | pending =>
      rw [nextStage_pending hstage]
      cases deadline with
      | none => exact hlasts
      | some d =>
        rw [Option.any_some]
        obtain ⟨hlifetime, hd⟩ := hlasts d rfl
        by_cases hover : d ≤ s.now
        · rw [decide_eq_true hover, if_pos rfl]
          exact ⟨hlifetime, hd.trans hover⟩
        · rw [decide_eq_false hover, if_neg Bool.false_ne_true]
          exact hlasts
  | sleeping deadline wake =>
    rw [hstage] at h
    rw [nextStage_sleeping hstage]
    split
    · exact h
    · exact h
  | returned result =>
    rw [nextStage_ended (by rw [hstage]; rfl)]
    exact h.keeps hkeeps (Nat.le_refl _)
  | failed =>
    rw [nextStage_ended (by rw [hstage]; rfl)]
    exact h.keeps hkeeps (Nat.le_refl _)

/-- **A run** keeps it so. -/
theorem sound_run {start : ℕ} (h : s.stage.Sound call start s.now unshared s.couple) (acts : List RequestAct)
    (hunshared : HasAskedUnshared blake3 call s acts → unshared) :
    (s.run blake3 call acts).stage.Sound call start (s.run blake3 call acts).now unshared
      (s.run blake3 call acts).couple := by
  induction acts generalizing s with
  | nil => exact h
  | cons a acts ih =>
    have hrest : HasAskedUnshared blake3 call (s.step blake3 call a) acts → unshared :=
      fun hasked => hunshared hasked.cons
    cases a with
    | act p =>
      exact ih (s := s.step blake3 call (.act p)) (h.keeps (s.couple.keeps_step p) (Nat.le_refl _)) hrest
    | elapse ms =>
      exact ih (s := s.step blake3 call (.elapse ms)) (h.keeps (.refl _) (Nat.le_add_right _ ms)) hrest
    | turn =>
      have hasks : s.AsksUnshared call → unshared := fun hasks => hunshared ⟨[], acts, rfl, hasks⟩
      exact ih (s := s.step blake3 call .turn) (sound_turn h hasks) hrest

end Requesting

end

/-- **What a request comes to**, whatever the owner and the requester do meanwhile: with a lifetime
it asks a bounded number of times; what it returns is what the owner has decided, or found when it
was asked, or its lifetime is over; and a grant that it is given is stored exactly if it can be
wired, and pairs the two as it says. -/
theorem request_result (blake3 : Bytes → FileHash) (call : FolderPairingCall) (c : Couple) (now : ℕ)
    (acts : List RequestAct) :
    let s := Requesting.run blake3 call ⟨c, now, .starting⟩ acts
    (call.lifetimeMs ≠ 0 → Requesting.pollCount blake3 call ⟨c, now, .starting⟩ acts ≤
      (call.lifetimeMs - 1) / pollIntervalMs + 2) ∧
    (∀ result, s.stage = .returned result →
      result.Sound call now s.now (Requesting.HasAskedUnshared blake3 call ⟨c, now, .starting⟩ acts) s.couple) ∧
    ∀ deadline grant, s.stage = .answered deadline (.approved grant) →
      s.couple.owner.ownId ≠ s.couple.requester.ownId →
      ((s.turn blake3 call).stage = .failed ↔ ¬s.couple.requester.db.Wirable s.couple.requester.ownId
        s.couple.owner.ownId call.folderGuid call.localPath) ∧
      ((s.turn blake3 call).stage ≠ .failed →
        Database.Pairs s.couple.owner.ownId (s.storedPair call grant) s.couple.requester.db
          (s.turn blake3 call).couple.requester.db) := by
  intro s
  have hsound : s.stage.Sound call now s.now
      (Requesting.HasAskedUnshared blake3 call ⟨c, now, .starting⟩ acts) s.couple :=
    Requesting.sound_run (s := ⟨c, now, .starting⟩) (Nat.le_refl now) acts id
  refine ⟨fun hlifetime => ?_, fun result hresult => ?_, fun deadline grant hstage hne => ?_⟩
  · have hwithin : CallStage.Within call (pollsLeft call.lifetimeMs) now .starting :=
      ⟨hlifetime, Nat.le_refl _⟩
    have hcount : Requesting.pollCount blake3 call ⟨c, now, .starting⟩ acts ≤ pollsLeft call.lifetimeMs :=
      Requesting.pollCount_le hwithin acts
    refine hcount.trans (Nat.le_of_eq ?_)
    unfold pollsLeft pollIntervalMs
    omega
  · rw [hresult] at hsound
    exact hsound
  · exact Requesting.grant_stored hne hstage

/-- The laptop shares its photos, and does not know the phone. -/
def laptopShares : Couple :=
  [PairAct.registerDevice .owner "laptop" "Laptop" none none, .share photosGuid "Photos" "/photos",
    .serve .owner "Laptop" "/photos"].foldl (Couple.step sampleBlake3) (Couple.new "laptop" "phone" 1 2)

/-- The phone asks for the photos, for three seconds. -/
def photosCall : FolderPairingCall :=
  ⟨0, "192.168.1.2:9847", "Phone", photosGuid, "Photos", "/pictures", 3000⟩

/-- The phone knows the laptop, and asks once the laptop has granted it the photos. -/
def photosAsked : List RequestAct :=
  [.turn, .act (.registerDevice .requester "laptop" "Laptop" (some [1]) none),
    .act (.approve 0 "phone" photosGuid "Photos" "/photos" none), .turn]

/-- The call asks once, is granted the photos, and returns once the pair is stored. -/
theorem request_result_photos :
    let s := Requesting.run sampleBlake3 photosCall ⟨laptopShares, 0, .starting⟩ photosAsked
    Requesting.pollCount sampleBlake3 photosCall ⟨laptopShares, 0, .starting⟩ photosAsked ≤ 3 ∧
      Database.Pairs s.couple.owner.ownId (s.storedPair photosCall ⟨photosGuid, "Photos", "bidirectional", none⟩)
        s.couple.requester.db (s.turn sampleBlake3 photosCall).couple.requester.db ∧
      (Requesting.run sampleBlake3 photosCall ⟨laptopShares, 0, .starting⟩
        (photosAsked ++ [.turn])).couple.FolderGranted 0 photosGuid := by
  intro s
  have hstage : s.stage = .answered (some 3000) (.approved ⟨photosGuid, "Photos", "bidirectional", none⟩) := by
    decide +kernel
  have hne : s.couple.owner.ownId ≠ s.couple.requester.ownId := by decide +kernel
  have hstored : (s.turn sampleBlake3 photosCall).stage ≠ .failed := by decide +kernel
  have hreturned : (Requesting.run sampleBlake3 photosCall ⟨laptopShares, 0, .starting⟩
      (photosAsked ++ [.turn])).stage = .returned (.approved photosGuid "Photos" none) := by decide +kernel
  obtain ⟨hpolls, -, hgrant⟩ := request_result sampleBlake3 photosCall laptopShares 0 photosAsked
  obtain ⟨-, hresult, -⟩ := request_result sampleBlake3 photosCall laptopShares 0 (photosAsked ++ [.turn])
  exact ⟨hpolls (by decide), (hgrant _ _ hstage hne).2 hstored, (hresult _ hreturned).1⟩

end FerriSync
