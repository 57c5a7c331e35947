/-
# Polling the events

`SyncEngine::events` moves what is in the engine's channel into a new channel of the same
capacity, whose receiver it returns, and waits for room in it when there is none; but nobody can
read from it before it is returned. Senders that have waited for room refill the first channel
meanwhile. So a call that finds an event when it holds as many as the new channel has room for
never returns, and keeps the channel locked; any other does, and no event is lost or returned
twice (`polls_freely_iff`).

Key definitions: `PollPhase`, `EventBus.turn`, `PollsFreely`, `KeepsFree`.
Key theorems: `sound_turn`, `stuck_turn_iff`, `polls_freely_iff`.
-/
import FerriSync.Events
import FerriSync.Lib.Runs

namespace FerriSync

/-- Who asks for the events: a caller of `SyncEngine::events`, or `poll_sync_events`, which reads
the receiver that it returns. -/
inductive EventCall
  | events
  | pollSyncEvents
deriving DecidableEq, Repr

/-- Where a call is: it takes the next event, or has one to put into its own channel, or reads
that channel. -/
inductive PollPhase (E : Type)
  | idle
  | draining (call : EventCall) (rx : List E)
  | forwarding (call : EventCall) (event : E) (rx : List E)
  | collecting (rx events : List E)
deriving DecidableEq, Repr

namespace PollPhase

variable {E : Type}

/-- The events that a call has taken. -/
def held : PollPhase E → List E
  | idle => []
  | draining _ rx => rx
  | forwarding _ event rx => rx ++ [event]
  | collecting rx events => events ++ rx

/-- It waits for room that only a reader could make. -/
def Stuck : PollPhase E → Prop
  | forwarding _ _ rx => eventCapacity ≤ rx.length
  | _ => False

/-- The steps that a call has made if it has not been stuck. -/
def count : PollPhase E → ℕ
  | idle => 0
  | draining _ rx => 2 * rx.length
  | forwarding _ _ rx => 2 * rx.length + 1
  | collecting rx events => 2 * (rx.length + events.length) + 1 + events.length

/-- The events in its channel. -/
def Fits : PollPhase E → Prop
  | idle => True
  | draining _ rx | forwarding _ _ rx => rx.length ≤ eventCapacity
  | collecting rx events => rx.length + events.length ≤ eventCapacity

end PollPhase

/-- The engine's channel, and the call under way. -/
structure EventBus (E : Type) where
  queue : List E
  phase : PollPhase E
  /-- The results of the calls. -/
  returned : List (List E)
  /-- The events sent so far, and the steps of the call, which nothing reads. -/
  sent : List E
  steps : ℕ

/-- Somebody sends an event, or calls, or the call makes a step. -/
inductive BusTurn (E : Type)
  | send (event : E)
  | call (call : EventCall)
  | own
deriving DecidableEq, Repr

namespace EventBus

variable {E : Type}

def new : EventBus E := ⟨[], .idle, [], [], 0⟩

/-- A call returns. -/
def finish (s : EventBus E) (events : List E) : EventBus E :=
  { s with phase := .idle, returned := s.returned ++ [events], steps := 0 }

/-- A step of the call. -/
def own (s : EventBus E) : EventBus E :=
  match s.phase with
  | .idle => s
  | .draining call rx =>
    match s.queue with
    | event :: queue => { s with queue := queue, phase := .forwarding call event rx, steps := s.steps + 1 }
    | [] =>
      match call with
      | .events => s.finish rx
      | .pollSyncEvents => { s with phase := .collecting rx [], steps := s.steps + 1 }
  | .forwarding call event rx =>
    if rx.length < eventCapacity then
      { s with phase := .draining call (rx ++ [event]), steps := s.steps + 1 }
    else { s with steps := s.steps + 1 }
  | .collecting (event :: rx) events =>
    { s with phase := .collecting rx (events ++ [event]), steps := s.steps + 1 }
  | .collecting [] events => s.finish events

/-- A sender waits while there is no room, and a caller while another call is under way. -/
def turn (s : EventBus E) : BusTurn E → EventBus E
  | .send event =>
    if s.queue.length < eventCapacity then
      { s with queue := s.queue ++ [event], sent := s.sent ++ [event] }
    else s
  | .call call => if s.phase matches .idle then { s with phase := .draining call [] } else s
  | .own => s.own

/-- The call can make a step, and returns after so many; and every event that was sent has been
returned once, in order, or is held by the call, or still in the channel. -/
structure PollsFreely (s : EventBus E) : Prop where
  free : ¬s.phase.Stuck
  soon : s.steps ≤ 3 * eventCapacity + 1
  once : s.sent = s.returned.flatten ++ s.phase.held ++ s.queue

/-- A call that holds as many events as its channel has room for finds no other. -/
def KeepsFree (s : EventBus E) (t : BusTurn E) : Prop :=
  t = .own → ∀ call rx, s.phase = .draining call rx → rx.length = eventCapacity → s.queue = []

/-! ### A step -/

structure Sound (s : EventBus E) : Prop where
  once : s.sent = s.returned.flatten ++ s.phase.held ++ s.queue
  fits : s.phase.Fits
  counted : ¬s.phase.Stuck → s.steps = s.phase.count

variable {s : EventBus E} {t : BusTurn E}

theorem sound_new : (new : EventBus E).Sound := ⟨rfl, trivial, fun _ => rfl⟩

theorem once_finish {events : List E} (h : s.sent = s.returned.flatten ++ events ++ s.queue) :
    (s.finish events).sent = (s.finish events).returned.flatten ++ (s.finish events).phase.held ++
      (s.finish events).queue := by
  show s.sent = (s.returned ++ [events]).flatten ++ [] ++ s.queue
  rw [h, List.flatten_append, List.flatten_singleton, List.append_nil]

theorem sound_own (h : s.Sound) : s.own.Sound := by
  obtain ⟨honce, hfits, hcounted⟩ := h
  unfold own
  cases hphase : s.phase with
  | idle =>
    dsimp only
    exact ⟨honce, hfits, hcounted⟩
  | draining call rx =>
    rw [hphase] at honce hfits hcounted
    have hsteps : s.steps = 2 * rx.length := hcounted fun hstuck => hstuck
    cases hqueue : s.queue with
    | cons event queue =>
      rw [hqueue] at honce
      refine ⟨?_, hfits, fun _ => congrArg (· + 1) hsteps⟩
      show s.sent = s.returned.flatten ++ (rx ++ [event]) ++ queue
      rw [honce]
      simp [PollPhase.held]
    | nil =>
      rw [hqueue] at honce
      cases call with
      | events => exact ⟨once_finish (hqueue ▸ honce), trivial, fun _ => rfl⟩
      | pollSyncEvents =>
        refine ⟨?_, hfits, fun _ => ?_⟩
        · show s.sent = s.returned.flatten ++ ([] ++ rx) ++ []
          rw [honce]
          rfl
        · show s.steps + 1 = 2 * (rx.length + 0) + 1 + 0
          rw [hsteps]
          rfl
  | forwarding call event rx =>
    rw [hphase] at honce hfits hcounted
    dsimp only
    split_ifs with hroom
    · have hsteps : s.steps = 2 * rx.length + 1 := hcounted (Nat.not_le_of_lt hroom)
      refine ⟨honce, ?_, fun _ => ?_⟩
      · show (rx ++ [event]).length ≤ eventCapacity
        rw [List.length_append, List.length_singleton]
        exact hroom
      · show s.steps + 1 = 2 * (rx ++ [event]).length
        rw [hsteps, List.length_append, List.length_singleton]
        omega
    · exact ⟨honce, hfits, fun hfree => absurd (Nat.le_of_not_lt hroom) hfree⟩
  | collecting rx events =>
    rw [hphase] at honce hfits hcounted
    have hsteps : s.steps = 2 * (rx.length + events.length) + 1 + events.length :=
      hcounted fun hstuck => hstuck
    cases rx with
    | nil =>
      refine ⟨once_finish ?_, trivial, fun _ => rfl⟩
      rw [honce]
      simp [PollPhase.held]
    | cons event rx =>
      refine ⟨?_, ?_, fun _ => ?_⟩
      · show s.sent = s.returned.flatten ++ (events ++ [event] ++ rx) ++ s.queue
        rw [honce]
        simp [PollPhase.held]
      · show rx.length + (events ++ [event]).length ≤ eventCapacity
        have hfits : (event :: rx).length + events.length ≤ eventCapacity := hfits
        rw [List.length_append, List.length_singleton]
        rw [List.length_cons] at hfits
        omega
      · show s.steps + 1 = 2 * (rx.length + (events ++ [event]).length) + 1 + (events ++ [event]).length
        rw [hsteps, List.length_append, List.length_singleton, List.length_cons]
        omega

theorem sound_turn (h : s.Sound) : (s.turn t).Sound := by
  cases t with
  | send event =>
    unfold turn
    dsimp only
    split_ifs
    · refine ⟨?_, h.fits, h.counted⟩
      show s.sent ++ [event] = _ ++ (s.queue ++ [event])
      rw [h.once, List.append_assoc]
    · exact h
  | call call =>
    unfold turn
    dsimp only
    cases hphase : s.phase with
    | idle =>
      have honce := h.once
      have hcounted := h.counted
      rw [hphase] at honce hcounted
      exact ⟨honce, Nat.zero_le _, fun _ => hcounted fun hstuck => hstuck⟩
    | _ => exact h
  | own => exact sound_own h

/-- What else is asked of the call follows from what it has done. -/
theorem pollsFreely_iff (h : s.Sound) : s.PollsFreely ↔ ¬s.phase.Stuck := by
  refine ⟨fun hfreely => hfreely.free, fun hfree => ⟨hfree, ?_, h.once⟩⟩
  have hfits := h.fits
  rw [h.counted hfree]
  cases hphase : s.phase with
  | idle => exact Nat.zero_le _
  | draining call rx =>
    rw [hphase] at hfits
    have hroom : rx.length ≤ eventCapacity := hfits
    show 2 * rx.length ≤ _
    omega
  | forwarding call event rx =>
    rw [hphase] at hfits
    have hroom : rx.length ≤ eventCapacity := hfits
    show 2 * rx.length + 1 ≤ _
    omega
  | collecting rx events =>
    rw [hphase] at hfits
    have hroom : rx.length + events.length ≤ eventCapacity := hfits
    show 2 * (rx.length + events.length) + 1 + events.length ≤ _
    omega

/-- **A step makes the call wait for ever** exactly if it takes an event for which there is no
room. -/
theorem stuck_turn_iff (h : s.Sound) (hfree : ¬s.phase.Stuck) : ¬(s.turn t).phase.Stuck ↔ s.KeepsFree t := by
  have hnoOwn : t ≠ .own → s.KeepsFree t := fun hne hown => absurd hown hne
  have hnotDraining : (∀ call rx, s.phase ≠ .draining call rx) → s.KeepsFree t :=
    fun hne _ call rx hphase => absurd hphase (hne call rx)
  cases t with
  | send event =>
    refine iff_of_true ?_ (hnoOwn fun heq => (by cases heq))
    unfold turn
    dsimp only
    split_ifs <;> exact hfree
  | call call =>
    refine iff_of_true ?_ (hnoOwn fun heq => (by cases heq))
    unfold turn
    dsimp only
    split_ifs
    · exact fun hstuck => hstuck
    · exact hfree
  | own =>
    show ¬s.own.phase.Stuck ↔ _
    have hfits := h.fits
    unfold own
    cases hphase : s.phase with
    | idle =>
      refine iff_of_true ?_ (hnotDraining fun call rx => by rw [hphase]; exact fun heq => (by cases heq))
      rw [hphase]
      exact fun hstuck => hstuck
    | draining call rx =>
      rw [hphase] at hfits
      have hroom : rx.length ≤ eventCapacity := hfits
      have hkeeps : s.KeepsFree .own ↔ (rx.length = eventCapacity → s.queue = []) := by
        constructor
        · exact fun hkeeps => hkeeps rfl call rx hphase
        · intro hkeeps _ call' rx' hphase'
          rw [hphase] at hphase'
          cases hphase'
          exact hkeeps
      rw [hkeeps]
      cases hqueue : s.queue with
      | cons event queue =>
        show ¬eventCapacity ≤ rx.length ↔ _
        constructor
        · exact fun hless hfull => absurd (Nat.le_of_eq hfull.symm) hless
        · intro hempty hfull
          cases hempty (Nat.le_antisymm hroom hfull)
      | nil =>
        refine iff_of_true ?_ fun _ => rfl
        cases call with
        | _ => exact fun hstuck => hstuck
    | forwarding call event rx =>
      refine iff_of_true ?_ (hnotDraining fun call rx => by rw [hphase]; exact fun heq => (by cases heq))
      rw [hphase] at hfree
      have hroom : rx.length < eventCapacity := Nat.lt_of_not_le hfree
      dsimp only
      rw [if_pos hroom]
      exact fun hstuck => hstuck
    | collecting rx events =>
      refine iff_of_true ?_ (hnotDraining fun call rx => by rw [hphase]; exact fun heq => (by cases heq))
      cases rx with
      | _ => exact fun hstuck => hstuck

end EventBus

/-- **Polling never blocks and loses no event** exactly if no call that holds as many events as
its channel has room for finds another. -/
theorem polls_freely_iff {E : Type} (turns : List (BusTurn E)) :
    Runs.Always EventBus.turn EventBus.PollsFreely EventBus.new turns ↔
      Runs.Meets EventBus.turn EventBus.KeepsFree EventBus.new turns := by
  refine Runs.always_iff_meets (J := EventBus.Sound) (fun _ _ => EventBus.sound_turn) (fun s t h hfreely => ?_)
    EventBus.sound_new ((EventBus.pollsFreely_iff EventBus.sound_new).mpr fun hstuck => hstuck)
  rw [EventBus.pollsFreely_iff (EventBus.sound_turn h)]
  exact EventBus.stuck_turn_iff h hfreely.free

namespace EventBus

variable {E : Type} {s : EventBus E}

theorem turn_call {call : EventCall} (hidle : s.phase = .idle) :
    s.turn (.call call) = { s with phase := .draining call [] } := by
  unfold turn
  dsimp only
  rw [hidle]
  rfl

theorem foldl_send (events : List E) (hroom : s.queue.length + events.length ≤ eventCapacity) :
    ((events.map .send).foldl turn s).queue = s.queue ++ events ∧
      ((events.map .send).foldl turn s).phase = s.phase := by
  induction events generalizing s with
  | nil => exact ⟨(List.append_nil _).symm, rfl⟩
  | cons event events ih =>
    rw [List.length_cons] at hroom
    have hsent : s.turn (.send event) =
        { s with queue := s.queue ++ [event], sent := s.sent ++ [event] } := if_pos (by omega)
    rw [List.map_cons, List.foldl_cons, hsent]
    obtain ⟨hqueue, hphase⟩ := @ih { s with queue := s.queue ++ [event], sent := s.sent ++ [event] } (by
      rw [List.length_append, List.length_singleton]
      omega)
    exact ⟨hqueue.trans (List.append_assoc ..), hphase⟩

/-- Two steps for each event that there is room for. -/
theorem foldl_own {call : EventCall} {rx rest : List E} (events : List E)
    (hphase : s.phase = .draining call rx) (hqueue : s.queue = events ++ rest)
    (hroom : rx.length + events.length ≤ eventCapacity) :
    ((List.replicate (2 * events.length) .own).foldl turn s).phase = .draining call (rx ++ events) ∧
      ((List.replicate (2 * events.length) .own).foldl turn s).queue = rest := by
  induction events generalizing s rx with
  | nil =>
    rw [List.append_nil]
    exact ⟨hphase, hqueue⟩
  | cons event events ih =>
    rw [List.length_cons] at hroom
    have hsteps : (s.turn .own).turn .own = { s with
        queue := events ++ rest, phase := .draining call (rx ++ [event]), steps := s.steps + 1 + 1 } := by
      show s.own.own = _
      have hfirst : s.own = { s with
          queue := events ++ rest, phase := .forwarding call event rx, steps := s.steps + 1 } := by
        unfold own
        rw [hphase, hqueue]
        rfl
      rw [hfirst]
      exact if_pos (by omega)
    rw [List.length_cons, Nat.mul_succ, List.replicate_succ, List.replicate_succ, List.foldl_cons,
      List.foldl_cons, hsteps]
    have hrest := @ih { s with
        queue := events ++ rest, phase := .draining call (rx ++ [event]), steps := s.steps + 1 + 1 }
      (rx ++ [event]) rfl rfl (by
        rw [List.length_append, List.length_singleton]
        omega)
    rw [List.append_assoc] at hrest
    exact hrest

/-- A call begins when the channel is full, and another event is sent once it has taken the first. -/
def refill (call : EventCall) (last : E) (n : ℕ) : List (BusTurn E) :=
  [.call call] ++ List.replicate (2 * 1) .own ++ [.send last] ++ List.replicate (2 * n) .own ++ [.own]

/-- **The call never returns** then. -/
theorem phase_refill {call : EventCall} {first last : E} {events : List E} (hidle : s.phase = .idle)
    (hqueue : s.queue = first :: events) (hfull : events.length + 1 = eventCapacity) :
    ((refill call last events.length).foldl turn s).phase = .forwarding call last (first :: events) := by
  unfold refill
  simp only [List.foldl_append]
  have hcalled : [BusTurn.call call].foldl turn s = { s with phase := .draining call [] } := turn_call hidle
  rw [hcalled]
  obtain ⟨hphase, hqueue⟩ := @foldl_own E { s with phase := .draining call [] } call [] events [first] rfl hqueue
    (by
      rw [List.length_nil, List.length_singleton]
      omega)
  rw [List.length_singleton] at hphase hqueue
  generalize (List.replicate (2 * 1) BusTurn.own).foldl turn { s with phase := .draining call [] } = t
    at hphase hqueue ⊢
  obtain ⟨hqueue', hphase'⟩ := @foldl_send E t [last] (by
    rw [hqueue, List.length_singleton]
    exact Nat.le_of_eq hfull)
  rw [hqueue] at hqueue'
  rw [hphase] at hphase'
  obtain ⟨hdrained, hlast⟩ := @foldl_own E (([last].map .send).foldl turn t) call [first] [last] events hphase'
    hqueue' (by
      rw [List.length_singleton]
      omega)
  have hown : ∀ u : EventBus E, u.phase = .draining call ([first] ++ events) → u.queue = [last] →
      ([BusTurn.own].foldl turn u).phase = .forwarding call last (first :: events) := by
    intro u hphase hqueue
    show u.own.phase = _
    unfold own
    rw [hphase, hqueue]
    rfl
  exact hown _ hdrained hlast

end EventBus

/-- The channel is filled first. -/
def refilledBus : List (BusTurn ℕ) :=
  (0 :: List.range' 1 255).map .send ++ EventBus.refill .pollSyncEvents 256 255

/-- **A call that takes 257 events never returns.** -/
theorem poll_stuck : ¬Runs.Always EventBus.turn EventBus.PollsFreely EventBus.new refilledBus := by
  intro halways
  have hfree := (halways refilledBus [] (List.append_nil _).symm).free
  have hlength : (List.range' 1 255).length = 255 := List.length_range'
  obtain ⟨hqueue, hphase⟩ := @EventBus.foldl_send ℕ EventBus.new (0 :: List.range' 1 255) (by
    rw [List.length_cons, hlength]
    exact Nat.le_refl _)
  have hstuck := @EventBus.phase_refill ℕ _ .pollSyncEvents 0 256 (List.range' 1 255) hphase hqueue (by
    rw [hlength]
    rfl)
  rw [hlength] at hstuck
  rw [refilledBus, List.foldl_append, hstuck] at hfree
  refine hfree (Nat.le_of_eq ?_)
  rw [List.length_cons, hlength]
  rfl

end FerriSync
