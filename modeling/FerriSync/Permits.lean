/-
# The listener's permits

A connection that the listener accepts takes one of `MAX_SESSIONS` permits and keeps
it until its task is over (`listen_for_sync`; `ConnTask`). The task waits for its
peer in many places, and in three of them a timer is armed: the TLS handshake, the
receive loop of a session and its final drain. The first message, the one after a
greeting and every write wait for ever.

A peer that has stopped therefore gives its permit back exactly if the messages
that are waited for without a timer have come and all that is written in answer to
what has come is read (`permits_released`).

What is answered to a request is in `serverReplies`; here it is a parameter. A
frame of which a part has come has not come, and a write is one, however many
pieces it goes out in.

Key definitions: `Accepting`, `ConnTask`, `Accepting.next`, `ConnTask.timer`,
`Connection.Answered`.
Key theorems: `conn_descends`, `conn_windsUp`, `opened_iff`, `permits_released`.
-/
import FerriSync.Lib.Stalls
import FerriSync.Server
import FerriSync.Steps

namespace FerriSync

open Machine

/-- Window for an inbound peer to complete its TLS handshake, in milliseconds. -/
def handshakeTimeout : ℕ := 10 * 1000

/-- Maximum time a peer can remain idle after the TLS handshake before the session
is torn down. -/
def sessionTimeout : ℕ := 60 * 1000

/-- How long a session discards what still comes. -/
def drainTimeout : ℕ := 200

/-- Maximum number of concurrent inbound connections. -/
def maxSessions : ℕ := 64

/-- What a peer sends. -/
inductive Wire
  /-- Its part of the TLS handshake. -/
  | handshake
  | frame (m : SyncMessage)

/-- The task of an accepted connection, at what it waits for or goes through. -/
inductive ConnTask
  | handshake
  | first
  | greet
  | second
  /-- A request is answered. -/
  | answer (m : SyncMessage)
  | session (p : Party)
  | ended

/-- What a task is given: the surroundings of its session, the folder it serves, the
certificate its peer presents and whether a device with it is stored, its greeting,
and its answers to requests. -/
structure Accepting where
  cfg : Config
  folder : Folder
  cert : Option Bytes
  paired : Bool
  hello : Hello
  reply : SyncMessage → SyncMessage

namespace Accepting

variable (l : Accepting)

/-- The message is a greeting that is answered. -/
def greets : SyncMessage → Bool
  | .hello h =>
    match h.validate with
    | .error _ => false
    | .ok () => decide (h.deviceId = (⟨l.cert, none, []⟩ : Inbound).identity l.cfg.blake3 h.deviceId)
  | _ => false

/-- The message after the greetings, or the first if it is none. -/
def dispatch : SyncMessage → ConnTask
  | .pairRequest req => .answer (l.reply (.pairRequest req))
  | .index idx =>
    if l.cert.isSome && l.paired then
      .session (serverIndex l.cfg (serverStart l.folder) (.index idx))
    else .ended
  | .listSharedFolders => .answer (l.reply .listSharedFolders)
  | .requestFolderPair req => .answer (l.reply (.requestFolderPair req))
  | _ => .ended

/-- The first message; a greeting that is not accepted ends the task. -/
def onFirst (m : SyncMessage) : ConnTask :=
  match m with
  | .hello _ => if l.greets m then .greet else .ended
  | _ => l.dispatch m

/-- A frame is read; one that is too large is an error. -/
def readFrame (got : SyncMessage → ConnTask) : Wire → ConnTask
  | .handshake => .ended
  | .frame m => if frameTooLarge l.cfg.serialize m then .ended else got m

/-- What a session does next, in its task. -/
def inSession : Move Party SyncMessage SyncEvent → Move ConnTask Wire SyncEvent
  | .halt => .tau .ended
  | .tau p => .tau (.session p)
  | .write m sent failed => .write (.frame m) (.session sent) (.session failed)
  | .send e p => .send e (.session p)
  | .trySend e p => .trySend e (.session p)
  | .read got failed =>
    .read (fun | .handshake => .session failed | .frame m => .session (got m)) (.session failed)
  | .drain stop => .drain (.session stop)

/-- **What a task does next.** It goes on after its greeting whether that was
written or not. -/
def next : ConnTask → Move ConnTask Wire SyncEvent
  | .handshake => .read (fun | .handshake => .first | .frame _ => .ended) .ended
  | .first => .read (l.readFrame l.onFirst) .ended
  | .greet => .write (.frame (.hello l.hello)) .second .second
  | .second => .read (l.readFrame l.dispatch) .ended
  | .answer m => .write (.frame m) .ended .ended
  | .session p => inSession (p.next l.cfg)
  | .ended => .halt

/-- The bytes of what is written. -/
def size : Wire → ℕ
  | .handshake => 0
  | .frame m => (frameMessage l.cfg.serialize m).length

end Accepting

/-- The `timeout` around what a task waits for. -/
def ConnTask.timer : ConnTask → Option ℕ
  | handshake => some handshakeTimeout
  | session p =>
    match p.todo, p.phase with
    | [], .receiving => some sessionTimeout
    | [], .draining => some drainTimeout
    | _, _ => none
  | _ => none

def Accepting.timed (l : Accepting) : Timed ConnTask Wire SyncEvent := ⟨l.next, l.size, ConnTask.timer⟩

/-- A connection whose peer has stopped: what happened to its task before, what of
the peer's has not been read, and how many bytes the peer still takes. -/
structure Connection where
  accepting : Accepting
  before : List (Input Wire)
  arrived : List Wire
  room : ℕ

namespace Accepting

variable (l : Accepting)

/-- The first message has come, and the second if the first is a greeting. -/
def openedFirst : List Wire → Bool
  | .frame m :: rest => frameTooLarge l.cfg.serialize m || !l.greets m || !rest.isEmpty
  | .handshake :: _ => true
  | [] => false

/-- What is waited for without a timer has come. -/
def opened : ConnTask → List Wire → Bool
  | .handshake, .handshake :: rest => l.openedFirst rest
  | .first, arrived => l.openedFirst arrived
  | .greet, arrived => !arrived.isEmpty
  | .second, arrived => !arrived.isEmpty
  | _, _ => true

end Accepting

namespace Connection

variable (c : Connection)

def task : ConnTask := run c.accepting.next .handshake c.before

def now : Silent ConnTask Wire := ⟨c.task, c.arrived, c.room⟩

/-- The task after so many steps. -/
def later (n : ℕ) : ConnTask := (Silent.run c.accepting.timed n c.now).state

/-- Wherever the task waits from now on, a timer is armed. -/
def Guarded : Prop := c.now.Guarded c.accepting.timed

/-- The task is over after some steps. -/
def Releases : Prop := ∃ n, c.later n = .ended

/-- The peer has sent what is waited for without a timer, and reads what is written
in answer to what it has sent. -/
def Answered : Prop :=
  c.accepting.opened c.task c.arrived = true ∧
    ∀ ins outs s, ins <+: c.arrived → Does c.accepting.next c.task ins outs s →
      (outs.map c.accepting.size).sum ≤ c.room

end Connection

/-! ### A session goes downwards -/

def Phase.rank : Phase → ℕ
  | awaitIndex => 4
  | checking => 3
  | receiving => 2
  | draining => 1
  | ended _ => 0

/-- It is replaced by the chunks of a file. -/
def Action.expands : Action → Bool
  | pushFile _ => true
  | serve _ => true
  | _ => false

/-- The phase, the files still to be cut, and all there is to do. -/
def Party.rank (p : Party) : ℕ ×ₗ ℕ ×ₗ ℕ :=
  toLex (p.phase.rank, toLex (p.todo.countP (·.expands), p.todo.length))

section

variable {cfg : Config} {p q : Party}

theorem rank_lt_iff : p.rank < q.rank ↔ p.phase.rank < q.phase.rank ∨
    p.phase.rank = q.phase.rank ∧ (p.todo.countP (·.expands) < q.todo.countP (·.expands) ∨
      p.todo.countP (·.expands) = q.todo.countP (·.expands) ∧ p.todo.length < q.todo.length) := by
  unfold Party.rank
  rw [Prod.Lex.toLex_lt_toLex, Prod.Lex.toLex_lt_toLex]

theorem expands_chunks (path : String) (data : Bytes) :
    (chunkActions cfg path data).countP (·.expands) = 0 := by
  rw [List.countP_eq_zero]
  intro a ha
  obtain ⟨c, _, rfl⟩ := List.mem_map.mp ha
  simp [Action.expands]

variable {a : Action} {rest : List Action}

/-- A thing is done. -/
theorem rank_rest (ht : p.todo = a :: rest) (hphase : q.phase = p.phase) (htodo : q.todo = rest) :
    q.rank < p.rank := by
  rw [rank_lt_iff, hphase, htodo, ht, List.countP_cons, List.length_cons]
  omega

/-- A file is cut. -/
theorem rank_cut (ht : p.todo = a :: rest) (ha : a.expands = true) (hphase : q.phase = p.phase)
    (htodo : q.todo.countP (·.expands) = rest.countP (·.expands)) : q.rank < p.rank := by
  rw [rank_lt_iff, hphase, htodo, ht, List.countP_cons, ha]
  simp

/-- The session is over. -/
theorem rank_ended {r : Except String Unit} (ht : p.todo = a :: rest) (hphase : q.phase = .ended r)
    (htodo : q.todo = [] ∨ q.todo = rest) : q.rank < p.rank := by
  have hzero : q.phase.rank = 0 := by
    rw [hphase]
    rfl
  rw [rank_lt_iff, hzero, ht, List.countP_cons, List.length_cons]
  rcases htodo with htodo | htodo
  · rw [htodo, List.countP_nil, List.length_nil]
    omega
  · rw [htodo]
    omega

theorem act_descends (ht : p.todo = a :: rest) :
    (act cfg { p with todo := rest } a).onward fun q => q.rank < p.rank := by
  cases a with
  | write m => exact ⟨rank_rest ht rfl rfl, rank_ended ht rfl (Or.inl rfl)⟩
  | finishDry => exact rank_ended ht rfl (Or.inr rfl)
  | pushFile path =>
    unfold act
    dsimp only
    split
    · exact rank_ended ht rfl (Or.inl rfl)
    · split
      · exact rank_rest ht rfl rfl
      · refine rank_cut ht rfl rfl ?_
        rw [List.countP_append, expands_chunks, Nat.zero_add]
        rfl
  | serve path =>
    unfold act
    dsimp only
    split
    · exact rank_ended ht rfl (Or.inl rfl)
    · split
      · exact rank_rest ht rfl rfl
      · refine rank_cut ht rfl rfl ?_
        rw [List.countP_append, expands_chunks, Nat.zero_add]
        rfl
  | install path t data =>
    unfold act
    dsimp only
    split
    · exact rank_ended ht rfl (Or.inl rfl)
    · exact rank_rest ht rfl rfl
  | _ => exact rank_rest ht rfl rfl

/-- **Whatever a session does but take a message leads downwards.** -/
theorem party_descends : Descends (Party.next cfg) Party.rank := by
  intro p
  unfold Party.next
  rcases ht : p.todo with _ | ⟨a, rest⟩
  · have hphase : ∀ {q : Party}, q.phase.rank < p.phase.rank → q.rank < p.rank :=
      fun hlt => rank_lt_iff.mpr (Or.inl hlt)
    dsimp only
    cases hph : p.phase with
    | awaitIndex => exact hphase (by rw [hph]; simp [Phase.rank, Party.fail])
    | receiving =>
      dsimp only
      split
      · exact hphase (by rw [hph]; simp [Phase.rank])
      · exact hphase (by rw [hph]; simp [Phase.rank])
    | checking =>
      refine hphase ?_
      rw [hph]
      dsimp only
      split
      · simp [Phase.rank]
      · simp [Phase.rank]
    | draining => exact hphase (by rw [hph]; simp [Phase.rank])
    | ended r => trivial
  · exact act_descends ht

end

/-! ### A task goes downwards -/

def ConnTask.rank : ConnTask → ℕ ×ₗ ℕ ×ₗ ℕ
  | handshake => toLex (9, toLex (0, 0))
  | first => toLex (8, toLex (0, 0))
  | greet => toLex (7, toLex (0, 0))
  | second => toLex (6, toLex (0, 0))
  | answer _ => toLex (6, toLex (0, 0))
  | session p => toLex (p.phase.rank + 1, toLex (p.todo.countP (·.expands), p.todo.length))
  | ended => toLex (0, toLex (0, 0))

section

variable {l : Accepting}

theorem conn_rank_lt {s s' : ConnTask} (h : (ofLex s.rank).1 < (ofLex s'.rank).1) : s.rank < s'.rank :=
  Prod.Lex.lt_iff.mpr (Or.inl h)

theorem session_rank_lt {p q : Party} (h : p.rank < q.rank) :
    (ConnTask.session p).rank < (ConnTask.session q).rank := by
  rw [rank_lt_iff] at h
  unfold ConnTask.rank
  rw [Prod.Lex.toLex_lt_toLex, Prod.Lex.toLex_lt_toLex]
  omega

theorem conn_descends : Descends l.next ConnTask.rank := by
  intro s
  cases s with
  | handshake | first | second => exact conn_rank_lt (by decide)
  | greet => exact ⟨conn_rank_lt (by decide), conn_rank_lt (by decide)⟩
  | answer m => exact ⟨conn_rank_lt (Nat.zero_lt_succ _), conn_rank_lt (Nat.zero_lt_succ _)⟩
  | session p =>
    have hdown := @party_descends l.cfg p
    show (Accepting.inSession (p.next l.cfg)).onward _
    cases hnext : p.next l.cfg with
    | halt => exact conn_rank_lt (Nat.succ_pos _)
    | tau q | send e q | trySend e q | read got q | drain q =>
      rw [hnext] at hdown
      exact session_rank_lt hdown
    | write m sent failed =>
      rw [hnext] at hdown
      exact ⟨session_rank_lt hdown.1, session_rank_lt hdown.2⟩
  | ended => trivial

/-! ### Timers -/

/-- What a session that takes messages is at. -/
theorem next_takes {cfg : Config} {p : Party} (h : (p.next cfg).takes = true) : p.todo = [] ∧
    (p.phase = .awaitIndex ∨
      p.phase = .receiving ∧
        p.next cfg = readMessage cfg (onMessage cfg p) { p with phase := .draining } ∨
      p.phase = .draining ∧ p.next cfg = .drain { p with phase := .ended (.ok ()), stamped := true }) := by
  unfold Party.next at h ⊢
  rcases ht : p.todo with _ | ⟨a, rest⟩
  · refine ⟨rfl, ?_⟩
    rw [ht] at h
    cases hph : p.phase with
    | awaitIndex => exact Or.inl rfl
    | receiving =>
      rw [hph] at h
      dsimp only at h ⊢
      split at h
      · cases h
      · rename_i hmore
        rw [if_neg hmore]
        exact Or.inr (Or.inl ⟨rfl, rfl⟩)
    | draining => exact Or.inr (Or.inr ⟨rfl, rfl⟩)
    | _ => rw [hph] at h; cases h
  · rw [ht] at h
    dsimp only at h
    unfold act at h
    cases a <;> dsimp only at h <;> (try split at h) <;> (try split at h) <;> cases h

theorem write_timer (s : ConnTask) (w : Wire) (sent failed : ConnTask)
    (h : l.next s = .write w sent failed) : s.timer = none := by
  cases s with
  | session p =>
    rcases ht : p.todo with _ | ⟨a, rest⟩
    · exfalso
      have hnext : Accepting.inSession (p.next l.cfg) = .write w sent failed := h
      unfold Party.next at hnext
      rw [ht] at hnext
      cases hph : p.phase with
      | receiving =>
        rw [hph] at hnext
        dsimp only at hnext
        split at hnext
        · cases hnext
        · cases hnext
      | _ => rw [hph] at hnext; cases hnext
    · unfold ConnTask.timer
      dsimp only
      rw [ht]
  | handshake => cases h
  | _ => rfl

/-- A task after an expiry. -/
def ConnTask.closing : ConnTask → Prop
  | session p => p.todo = [] ∧ (p.phase = .draining ∨ ∃ r, p.phase = .ended r)
  | ended => True
  | _ => False

/-- The timers of a session. -/
theorem timer_session {p : Party} (ht : p.todo = []) : (ConnTask.session p).timer =
    match p.phase with
    | .receiving => some sessionTimeout
    | .draining => some drainTimeout
    | _ => none := by
  unfold ConnTask.timer
  dsimp only
  rw [ht]
  cases p.phase <;> rfl

/-- A session in its task takes messages where it does alone. -/
theorem inSession_takes {p : Party} (h : (l.next (.session p)).takes = true) :
    (p.next l.cfg).takes = true := by
  have hin : (Accepting.inSession (p.next l.cfg)).takes = true := h
  cases hnext : p.next l.cfg with
  | read got failed | drain stop => rfl
  | _ => rw [hnext] at hin; cases hin

theorem closing_next {s : ConnTask} (h : s.closing) : l.next s = .halt ∨ l.next s = .tau .ended ∨
    ∃ p, s = .session p ∧ p.todo = [] ∧ p.phase = .draining := by
  cases s with
  | session p =>
    obtain ⟨ht, hph | ⟨r, hph⟩⟩ := h
    · exact Or.inr (Or.inr ⟨p, rfl, ht, hph⟩)
    · refine Or.inr (Or.inl ?_)
      have hhalt : p.next l.cfg = .halt := by
        unfold Party.next
        rw [ht, hph]
      show Accepting.inSession (p.next l.cfg) = _
      rw [hhalt]
      rfl
  | ended => exact Or.inl rfl
  | _ => cases h

/-- The drain at the end of a session. -/
theorem drain_next {p : Party} (ht : p.todo = []) (hph : p.phase = .draining) : l.next (.session p) =
    .drain (.session { p with phase := .ended (.ok ()), stamped := true }) := by
  have hdrain : p.next l.cfg = .drain { p with phase := .ended (.ok ()), stamped := true } := by
    unfold Party.next
    rw [ht, hph]
  show Accepting.inSession (p.next l.cfg) = _
  rw [hdrain]
  rfl

/-- **After an expiry a task only winds up.** -/
theorem conn_windsUp : WindsUp l.timed ConnTask.closing where
  silent {s s'} hclosing hsilent := by
    have hnext : (l.next s).silent = some s' := hsilent
    rcases closing_next (l := l) hclosing with h | h | ⟨p, rfl, ht, hph⟩
    · rw [h] at hnext
      cases hnext
    · rw [h] at hnext
      cases hnext
      trivial
    · rw [drain_next ht hph] at hnext
      cases hnext
  write {s m sent failed} hclosing hwrite := by
    have hnext : l.next s = .write m sent failed := hwrite
    rcases closing_next (l := l) hclosing with h | h | ⟨p, rfl, ht, hph⟩
    · rw [h] at hnext
      cases hnext
    · rw [h] at hnext
      cases hnext
    · rw [drain_next ht hph] at hnext
      cases hnext
  timer {s} hclosing htakes := by
    have hnext : (l.next s).takes = true := htakes
    rcases closing_next (l := l) hclosing with h | h | ⟨p, rfl, ht, hph⟩
    · rw [h] at hnext
      cases hnext
    · rw [h] at hnext
      cases hnext
    · show (ConnTask.session p).timer.isSome = true
      rw [timer_session ht, hph]
      rfl
  read {s got failed} hread htimer := by
    have hnext : l.next s = .read got failed := hread
    cases s with
    | handshake =>
      cases hnext
      trivial
    | session p =>
      have htakes : (p.next l.cfg).takes = true := inSession_takes (by rw [hnext]; rfl)
      have htimer' : (ConnTask.session p).timer.isSome = true := htimer
      obtain ⟨ht, hph | ⟨hph, hmove⟩ | ⟨hph, hmove⟩⟩ := next_takes htakes
      · rw [timer_session ht, hph] at htimer'
        cases htimer'
      · have hin : Accepting.inSession (p.next l.cfg) = .read got failed := hnext
        rw [hmove] at hin
        cases hin
        exact ⟨ht, Or.inl rfl⟩
      · rw [drain_next ht hph] at hnext
        cases hnext
    | _ => cases htimer
  drain {s stop} hdrain htimer := by
    have hnext : l.next s = .drain stop := hdrain
    cases s with
    | session p =>
      have htakes : (p.next l.cfg).takes = true := inSession_takes (by rw [hnext]; rfl)
      obtain ⟨ht, hph | ⟨hph, hmove⟩ | ⟨hph, hmove⟩⟩ := next_takes htakes
      · have htimer' : (ConnTask.session p).timer.isSome = true := htimer
        rw [timer_session ht, hph] at htimer'
        cases htimer'
      · have hin : Accepting.inSession (p.next l.cfg) = .drain stop := hnext
        rw [hmove] at hin
        cases hin
      · rw [drain_next ht hph] at hnext
        cases hnext
        exact ⟨ht, Or.inr ⟨_, rfl⟩⟩
    | _ => cases hnext

/-! ### What is waited for without a timer -/

theorem chunkEffect_phase {cfg : Config} {p p' : Party} {c : FileChunk} (h : ChunkEffect cfg p c p') :
    p'.phase ≠ .awaitIndex := by
  have hbottom : bottom cfg ≠ .awaitIndex := by
    unfold bottom
    cases cfg.role <;> simp
  cases h <;> simp [Party.fail, hbottom]

/-- A session does not come back to its index. -/
theorem effect_phase {cfg : Config} {p p' : Party} {i : Input SyncMessage} (h : Effect cfg p i p')
    (hph : p.phase ≠ .awaitIndex) : p'.phase ≠ .awaitIndex := by
  cases h with
  | idle => exact hph
  | act ht ha => cases ha <;> simp [Party.fail, Party.uploaded, Party.downloaded, hph]
  | noIndex e hawait => exact absurd hawait hph
  | index m ht hawait => exact absurd hawait hph
  | message ht hreceiving hmore hm =>
    cases hm with
    | chunk hc => exact chunkEffect_phase hc
    | request r paths =>
      unfold bottom
      cases cfg.role <;> simp
    | _ => simp [hph]
  | check => split <;> simp
  | _ => simp

/-- The task is not in a session that waits for its index. -/
def ConnTask.settled : ConnTask → Prop
  | session p => p.phase ≠ .awaitIndex
  | _ => True

theorem dispatch_settled (m : SyncMessage) : (l.dispatch m).settled := by
  unfold Accepting.dispatch
  split
  · trivial
  · split
    · unfold serverIndex
      dsimp only
      split
      · simp [ConnTask.settled, Party.fail]
      · split <;> simp [ConnTask.settled, Party.fail]
    · trivial
  · trivial
  · trivial
  · trivial

theorem readFrame_settled {got : SyncMessage → ConnTask} (hgot : ∀ m, (got m).settled) (w : Wire) :
    (l.readFrame got w).settled := by
  unfold Accepting.readFrame
  cases w with
  | handshake => trivial
  | frame m =>
    dsimp only
    split
    · trivial
    · exact hgot m

theorem onFirst_settled (m : SyncMessage) : (l.onFirst m).settled := by
  unfold Accepting.onFirst
  split
  · split <;> trivial
  · exact dispatch_settled m

theorem next_settled (s : ConnTask) (h : s.settled) : (l.next s).leads ConnTask.settled := by
  cases s with
  | handshake => exact ⟨fun w => by cases w <;> trivial, trivial⟩
  | first => exact ⟨readFrame_settled onFirst_settled, trivial⟩
  | second => exact ⟨readFrame_settled dispatch_settled, trivial⟩
  | greet | answer m => exact ⟨trivial, trivial⟩
  | session p =>
    have hleads : (p.next l.cfg).leads fun q => q.phase ≠ .awaitIndex :=
      leads_of_step fun i => effect_phase (step_effect l.cfg p i) h
    show (Accepting.inSession (p.next l.cfg)).leads _
    cases hnext : p.next l.cfg with
    | halt => trivial
    | read got failed =>
      rw [hnext] at hleads
      refine ⟨fun w => ?_, hleads.2⟩
      cases w with
      | handshake => exact hleads.2
      | frame m => exact hleads.1 m
    | _ =>
      rw [hnext] at hleads
      exact hleads
  | ended => trivial

/-- Once a session has begun, or the task is over, nothing is waited for without a
timer but what is read of a write. -/
theorem opened_dispatch (m : SyncMessage) (arrived : List Wire) :
    l.opened (l.dispatch m) arrived = true := by
  unfold Accepting.dispatch
  split
  · rfl
  · split <;> rfl
  · rfl
  · rfl
  · rfl

/-- What has come is still enough after the first message. -/
theorem opened_first {w : Wire} {rest : List Wire} (h : l.openedFirst (w :: rest) = true) :
    l.opened (l.readFrame l.onFirst w) rest = true := by
  cases w with
  | handshake => rfl
  | frame m =>
    unfold Accepting.openedFirst at h
    unfold Accepting.readFrame
    dsimp only
    by_cases hlarge : frameTooLarge l.cfg.serialize m = true
    · rw [if_pos hlarge]
      rfl
    · rw [if_neg hlarge]
      unfold Accepting.onFirst
      split
      · split
        · rename_i hgreets
          simpa [Accepting.opened, hlarge, hgreets] using h
        · rfl
      · exact opened_dispatch m rest

theorem opened_does {s u : ConnTask} {ins outs : List Wire} {rest : List Wire}
    (hdoes : Does l.next s ins outs u) (h : l.opened s (ins ++ rest) = true) :
    l.opened u rest = true := by
  have hsession : ∀ {p : Party} {arrived : List Wire}, l.opened (.session p) arrived = true := rfl
  induction hdoes with
  | nothing => exact h
  | @silent s s' u ins outs hsilent _ ih =>
    refine ih ?_
    cases s with
    | session p =>
      have hin : (Accepting.inSession (p.next l.cfg)).silent = some s' := hsilent
      cases hnext : p.next l.cfg <;> rw [hnext] at hin <;> cases hin <;> rfl
    | _ => cases hsilent
  | @write s sent failed u m ins outs hwrite _ ih =>
    refine ih ?_
    cases s with
    | greet =>
      cases hwrite
      exact h
    | answer =>
      cases hwrite
      rfl
    | session p =>
      have hin : Accepting.inSession (p.next l.cfg) = .write m sent failed := hwrite
      cases hnext : p.next l.cfg <;> rw [hnext] at hin <;> cases hin
      rfl
    | _ => cases hwrite
  | @read s failed u got m ins outs hread _ ih =>
    refine ih ?_
    cases s with
    | handshake =>
      cases hread
      cases m with
      | handshake => exact h
      | frame m => rfl
    | first =>
      cases hread
      exact opened_first h
    | second =>
      cases hread
      cases m with
      | handshake => rfl
      | frame m =>
        unfold Accepting.readFrame
        dsimp only
        split
        · rfl
        · exact opened_dispatch m _
    | session p =>
      have hin : Accepting.inSession (p.next l.cfg) = .read got failed := hread
      cases hnext : p.next l.cfg <;> rw [hnext] at hin <;> cases hin
      cases m <;> rfl
    | _ => cases hread
  | @discard s stop u m ins outs hdrain _ ih =>
    refine ih ?_
    cases s with
    | session p => rfl
    | _ => cases hdrain

/-- A task that reads, with nothing to read, where nothing is missing. -/
theorem timer_of_opened {s : ConnTask} (hsettled : s.settled) (hopened : l.opened s [] = true)
    (htakes : (l.next s).takes = true) : s.timer.isSome = true := by
  cases s with
  | handshake => rfl
  | session p =>
    obtain ⟨ht, hph | ⟨hph, _⟩ | ⟨hph, _⟩⟩ := next_takes (inSession_takes htakes)
    · exact absurd hph hsettled
    · rw [timer_session ht, hph]
      rfl
    · rw [timer_session ht, hph]
      rfl
  | first | second => cases hopened
  | _ => cases htakes

/-- The task comes to wait without a timer, having read all that has come. -/
def Stalls (l : Accepting) (s : ConnTask) (arrived : List Wire) : Prop :=
  ∃ outs u, Does l.next s arrived outs u ∧ (l.next u).takes = true ∧ u.timer = none

theorem stalls_greet : Stalls l .greet [] :=
  ⟨_, .second, .write rfl (.nothing _), rfl, rfl⟩

theorem stalls_first {arrived : List Wire} (h : l.openedFirst arrived = false) :
    Stalls l .first arrived := by
  cases arrived with
  | nil => exact ⟨[], .first, .nothing _, rfl, rfl⟩
  | cons w rest =>
    cases w with
    | handshake => cases h
    | frame m =>
      unfold Accepting.openedFirst at h
      rw [Bool.or_eq_false_iff, Bool.or_eq_false_iff, Bool.not_eq_eq_eq_not, Bool.not_false,
        Bool.not_eq_eq_eq_not, Bool.not_false, List.isEmpty_iff] at h
      obtain ⟨⟨hfits, hgreets⟩, rfl⟩ := h
      have hgreet : l.readFrame l.onFirst (.frame m) = .greet := by
        unfold Accepting.readFrame
        dsimp only
        rw [hfits, if_neg Bool.false_ne_true]
        cases m with
        | hello h => exact if_pos hgreets
        | _ => cases hgreets
      obtain ⟨outs, u, hdoes, hu⟩ := stalls_greet (l := l)
      have hread : Does l.next .first [.frame m] outs u := by
        refine .read (rfl : l.next .first = .read (l.readFrame l.onFirst) .ended) ?_
        rw [hgreet]
        exact hdoes
      exact ⟨outs, u, hread, hu⟩

theorem stalls_of_not_opened {s : ConnTask} {arrived : List Wire} (h : l.opened s arrived = false) :
    Stalls l s arrived := by
  cases s with
  | handshake =>
    cases arrived with
    | nil => cases h
    | cons w rest =>
      cases w with
      | frame m => cases h
      | handshake =>
        obtain ⟨outs, u, hdoes, hu⟩ := @stalls_first l rest h
        exact ⟨outs, u, .read rfl hdoes, hu⟩
  | first => exact stalls_first h
  | greet =>
    cases arrived with
    | nil => exact stalls_greet
    | cons w rest => cases h
  | second =>
    cases arrived with
    | nil => exact ⟨[], .second, .nothing _, rfl, rfl⟩
    | cons w rest => cases h
  | _ => cases h

end

section

variable (c : Connection)

theorem task_settled : c.task.settled :=
  run_leads next_settled (show ConnTask.handshake.settled from trivial) c.before

/-- **What is waited for without a timer has come**, or the task comes to wait for it. -/
theorem opened_iff : c.now.Opened c.accepting.timed ↔ c.accepting.opened c.task c.arrived = true := by
  constructor
  · intro h
    by_contra hmissing
    obtain ⟨outs, u, hdoes, htakes, htimer⟩ := stalls_of_not_opened (Bool.not_eq_true _ ▸ hmissing)
    have harmed : u.timer.isSome = true := h outs u hdoes htakes
    rw [htimer] at harmed
    cases harmed
  · intro h outs u hdoes htakes
    have hdoes' : Does c.accepting.next c.task c.arrived outs u := hdoes
    have hopened : c.accepting.opened u [] = true :=
      opened_does hdoes' (by rw [List.append_nil]; exact h)
    have hsettled : u.settled := hdoes'.leads next_settled (task_settled c)
    exact timer_of_opened hsettled hopened htakes

/-- A task is over where nothing comes next. -/
theorem next_halt_iff {l : Accepting} {s : ConnTask} : l.next s = .halt ↔ s = .ended := by
  constructor
  · intro h
    cases s with
    | session p =>
      have hin : Accepting.inSession (p.next l.cfg) = .halt := h
      cases hnext : p.next l.cfg <;> rw [hnext] at hin <;> cases hin
    | ended => rfl
    | _ => cases h
  · rintro rfl
    rfl

theorem ends_iff_releases : c.now.Ends c.accepting.timed ↔ c.Releases := by
  constructor
  · rintro ⟨n, hn⟩
    exact ⟨n, next_halt_iff.mp hn⟩
  · rintro ⟨n, hn⟩
    exact ⟨n, next_halt_iff.mpr hn⟩

/-- **One connection.** Its task never waits without a timer exactly if its peer has
sent, and reads, what that takes. -/
theorem guarded_iff_answered : c.Guarded ↔ c.Answered := by
  have hguarded := guarded_iff (d := c.now) (t := c.accepting.timed) write_timer conn_windsUp
  rw [opened_iff] at hguarded
  constructor
  · intro h
    exact ⟨(hguarded.mp h).2, (hguarded.mp h).1⟩
  · rintro ⟨hopened, hfits⟩
    exact hguarded.mpr ⟨hfits, hopened⟩

theorem guarded_iff_releases : c.Guarded ↔ c.Releases := by
  rw [← ends_iff_releases]
  exact guarded_iff_ends conn_descends

/-- A task that is over stays so. -/
theorem later_ended {m n : ℕ} (h : c.later m = .ended) (hle : m ≤ n) : c.later n = .ended := by
  obtain ⟨k, rfl⟩ := Nat.exists_eq_add_of_le hle
  unfold Connection.later
  rw [Silent.run_add, Silent.run_fixed (Silent.step_halt (next_halt_iff.mpr h))]
  exact h

end

/-- **The permits come back exactly from peers that say and read enough.** For a
connection at any point of its task: it never waits without a timer and its task is
over after some steps, exactly if its peer has sent what is waited for without a
timer and reads what is written in answer. And of any connections that hold all the
permits, in whatever order their tasks take steps, one gives its permit back exactly
if one of them has such a peer. -/
theorem permits_released (c : Connection) (pool : Fin maxSessions → Connection) :
    ((c.Guarded ∧ c.Releases) ↔ c.Answered) ∧
      ((∃ n, ∀ steps : Fin maxSessions → ℕ, (∀ i, n ≤ steps i) →
        ∃ i, (pool i).later (steps i) = .ended) ↔ ∃ i, (pool i).Answered) := by
  have hone : ∀ c : Connection, c.Releases ↔ c.Answered := fun c => by
    rw [← guarded_iff_releases, guarded_iff_answered]
  refine ⟨?_, ?_, ?_⟩
  · rw [← guarded_iff_releases, and_self, guarded_iff_answered]
  · rintro ⟨n, hfree⟩
    obtain ⟨i, hi⟩ := hfree (fun _ => n) fun _ => le_rfl
    exact ⟨i, (hone _).mp ⟨n, hi⟩⟩
  · rintro ⟨i, hanswered⟩
    obtain ⟨n, hn⟩ := (hone _).mpr hanswered
    exact ⟨n, fun steps hsteps => ⟨i, later_ended _ hn (hsteps i)⟩⟩

/-- A device that has done its part of the handshake, and nothing after it. -/
def silentPeer : Connection where
  accepting := {
    cfg := sampleConfig .server
    folder := sampleFolder []
    cert := some [7]
    paired := true
    hello := ⟨3, "laptop", "laptop", [7], []⟩
    reply := fun _ => .folderPairPending }
  before := []
  arrived := [.handshake]
  room := 0

/-- **A silent peer keeps its permit**, and `MAX_SESSIONS` of them keep all for ever. -/
theorem permits_held : ¬silentPeer.Guarded ∧ ¬silentPeer.Releases ∧
    ∀ (steps : Fin maxSessions → ℕ) (i : Fin maxSessions), silentPeer.later (steps i) ≠ .ended := by
  have hnot : ¬silentPeer.Answered := fun h => by
    have hopened := h.1
    revert hopened
    decide
  have hreleases : ¬silentPeer.Releases := fun h =>
    hnot ((guarded_iff_answered silentPeer).mp ((guarded_iff_releases silentPeer).mpr h))
  exact ⟨fun h => hnot ((guarded_iff_answered silentPeer).mp h), hreleases,
    fun steps i hover => hreleases ⟨steps i, hover⟩⟩

end FerriSync
