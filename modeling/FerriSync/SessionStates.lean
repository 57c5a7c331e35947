/-
# The life of a session

The state machine of a session (`protocol_v2/state_machine.rs`): five calls lead from the
handshake to the end, each from one state only, `error` leads from any state but a final
one to the error, and counts are taken in every state. A call that does not fit leaves the machine
as it is.

So the state after any calls can be told from their order (`state_after_iff`): the machine
is as far along the path as its calls stand in order among those before the first `error`.
Counts go on in a final state too.

Key definitions: `StateMachine`, `MachineCall`, `StateMachine.run`, `sessionPath`.
Key theorems: `step_stateAt`, `state_run`, `state_after_iff`.
-/
import FerriSync.Lib.InOrder
import Mathlib.Tactic.IntervalCases

namespace FerriSync

/-- Current state of a sync session. -/
inductive SessionState
  | handshaking
  | active
  | reconciling
  | transferring
  | finalizing
  | complete
  | error
deriving DecidableEq, Repr

/-- Whether this state is terminal. -/
def SessionState.isTerminal : SessionState → Bool
  | complete | error => true
  | _ => false

/-- A transition from another state than the one it needs, or out of a terminal one. -/
inductive TransitionError
  | invalidTransition (state needed : SessionState)
  | alreadyTerminal
deriving DecidableEq, Repr

structure StateMachine where
  state : SessionState
  pushed : ℕ
  pulled : ℕ
  conflicts : ℕ
deriving DecidableEq, Repr

/-- The calls that change the machine. -/
inductive MachineCall
  | onHandshakeComplete
  | onIndexReceived
  | onTransferStart
  | onTransferComplete
  | recordUpload
  | recordDownload
  | recordConflict
  | finalize
  | error
deriving DecidableEq, Repr

namespace StateMachine

def new : StateMachine := ⟨.handshaking, 0, 0, 0⟩

variable (m : StateMachine)

def requireState (expected : SessionState) : Except TransitionError Unit :=
  if m.state ≠ expected then .error (.invalidTransition m.state expected) else .ok ()

/-- A transition from one state to another. -/
def transition (expected next : SessionState) : Except TransitionError StateMachine := do
  m.requireState expected
  return { m with state := next }

def onHandshakeComplete : Except TransitionError StateMachine := m.transition .handshaking .active

def onIndexReceived : Except TransitionError StateMachine := m.transition .active .reconciling

def onTransferStart : Except TransitionError StateMachine := m.transition .reconciling .transferring

def onTransferComplete : Except TransitionError StateMachine := m.transition .transferring .finalizing

def recordUpload : StateMachine := { m with pushed := m.pushed + 1 }

def recordDownload : StateMachine := { m with pulled := m.pulled + 1 }

def recordConflict : StateMachine := { m with conflicts := m.conflicts + 1 }

def finalize : Except TransitionError StateMachine := m.transition .finalizing .complete

/-- Transition to the error state from any non-terminal state. -/
def error : Except TransitionError StateMachine :=
  if m.state.isTerminal then .error .alreadyTerminal else .ok { m with state := .error }

def call : MachineCall → Except TransitionError StateMachine
  | .onHandshakeComplete => m.onHandshakeComplete
  | .onIndexReceived => m.onIndexReceived
  | .onTransferStart => m.onTransferStart
  | .onTransferComplete => m.onTransferComplete
  | .recordUpload => .ok m.recordUpload
  | .recordDownload => .ok m.recordDownload
  | .recordConflict => .ok m.recordConflict
  | .finalize => m.finalize
  | .error => m.error

/-- The machine after a call; one that fails does nothing to it. -/
def step (c : MachineCall) : StateMachine :=
  match m.call c with
  | .ok next => next
  | .error _ => m

def run (calls : List MachineCall) : StateMachine := calls.foldl step m

end StateMachine

/-! ### The path -/

/-- The calls that lead to the end. -/
def sessionPath : List MachineCall :=
  [.onHandshakeComplete, .onIndexReceived, .onTransferStart, .onTransferComplete, .finalize]

/-- The state after the first calls of the path. -/
def stateAt : ℕ → SessionState
  | 0 => .handshaking
  | 1 => .active
  | 2 => .reconciling
  | 3 => .transferring
  | 4 => .finalizing
  | _ => .complete

theorem stateAt_inj {k n : ℕ} (hk : k ≤ 5) (hn : n ≤ 5) (h : stateAt k = stateAt n) : k = n := by
  interval_cases k <;> interval_cases n <;> first | rfl | cases h

theorem stateAt_ne_error (k : ℕ) : stateAt k ≠ .error := by
  unfold stateAt
  split <;> decide

namespace StateMachine

variable {m : StateMachine}

/-- **A step on the path**: the call that is next leads on, an `error` off it before the end,
and nothing else changes the state. -/
theorem step_stateAt {k : ℕ} (hk : k ≤ 5) (h : m.state = stateAt k) (c : MachineCall) :
    (m.step c).state = if c = .error ∧ k ≠ 5 then .error
      else stateAt (if sessionPath[k]? = some c then k + 1 else k) := by
  obtain ⟨state, pushed, pulled, conflicts⟩ := m
  dsimp only at h
  subst h
  interval_cases k <;> cases c <;> rfl

theorem state_step_error (h : m.state = .error) (c : MachineCall) : (m.step c).state = .error := by
  obtain ⟨state, pushed, pulled, conflicts⟩ := m
  dsimp only at h
  subst h
  cases c <;> rfl

theorem state_run_error (h : m.state = .error) (calls : List MachineCall) :
    (m.run calls).state = .error := by
  induction calls generalizing m with
  | nil => exact h
  | cons c calls ih => exact ih (state_step_error h c)

/-- **The state after a run**, from a state of the path. -/
theorem state_run {k : ℕ} (hk : k ≤ 5) (h : m.state = stateAt k) (calls : List MachineCall) :
    (m.run calls).state =
      if .error ∈ calls ∧ InOrder.reached sessionPath k (calls.takeWhile fun c => decide (c ≠ .error)) ≠ 5
      then .error
      else stateAt (InOrder.reached sessionPath k (calls.takeWhile fun c => decide (c ≠ .error))) := by
  induction calls generalizing m k with
  | nil => rw [if_neg fun hnil => by cases hnil.1]; exact h
  | cons c calls ih =>
    have hstep := step_stateAt hk h c
    show ((m.step c).run calls).state = _
    by_cases hc : c = .error
    · subst hc
      rw [List.takeWhile_cons_of_neg (by simp), InOrder.reached]
      by_cases hend : k = 5
      · -- the end is left by no call
        subst hend
        rw [if_neg fun herror => herror.2 rfl] at hstep ⊢
        have hstays : ∀ xs, InOrder.reached sessionPath 5 xs = 5 := fun xs =>
          Nat.le_antisymm (InOrder.reached_le (w := sessionPath) (Nat.le_refl 5) xs)
            (InOrder.le_reached sessionPath 5 xs)
        rw [ih (Nat.le_refl 5) hstep, if_neg fun herror => herror.2 (hstays _), hstays]
      · rw [if_pos ⟨rfl, hend⟩] at hstep
        rw [if_pos ⟨List.mem_cons_self, hend⟩]
        exact state_run_error hstep calls
    · have hk' : (if sessionPath[k]? = some c then k + 1 else k) ≤ 5 := by
        split_ifs with hnext
        · exact (List.getElem?_eq_some_iff.mp hnext).1
        · exact hk
      rw [if_neg fun herror => hc herror.1] at hstep
      rw [List.takeWhile_cons_of_pos (by simpa using hc), InOrder.reached, ih hk' hstep]
      simp only [List.mem_cons, Ne.symm hc, false_or]

/-- The counts are those of the calls. -/
theorem counts_run (m : StateMachine) (calls : List MachineCall) :
    (m.run calls).pushed = m.pushed + calls.count .recordUpload ∧
      (m.run calls).pulled = m.pulled + calls.count .recordDownload ∧
      (m.run calls).conflicts = m.conflicts + calls.count .recordConflict := by
  induction calls generalizing m with
  | nil => exact ⟨rfl, rfl, rfl⟩
  | cons c calls ih =>
    obtain ⟨hpushed, hpulled, hconflicts⟩ := ih (m.step c)
    have hstep : (m.step c).pushed = m.pushed + (if c == .recordUpload then 1 else 0) ∧
        (m.step c).pulled = m.pulled + (if c == .recordDownload then 1 else 0) ∧
        (m.step c).conflicts = m.conflicts + (if c == .recordConflict then 1 else 0) := by
      obtain ⟨state, pushed, pulled, conflicts⟩ := m
      cases c <;> cases state <;> exact ⟨rfl, rfl, rfl⟩
    obtain ⟨hpush, hpull, hconflict⟩ := hstep
    rw [hpush] at hpushed
    rw [hpull] at hpulled
    rw [hconflict] at hconflicts
    simp only [List.count_cons]
    refine ⟨hpushed.trans ?_, hpulled.trans ?_, hconflicts.trans ?_⟩ <;> omega

end StateMachine

/-- **The state after any calls**, told from their order: the machine is at the n-th state of the
path exactly if the first `n` calls of the path stand in order among those before the first
`error`, one more does not, and there is no `error` unless the path is done; it is in the error
state exactly if there is one and the path is not done before it. All counts are taken. -/
theorem state_after_iff (calls : List MachineCall) :
    let before := calls.takeWhile fun c => decide (c ≠ .error)
    (∀ n ≤ 5, (StateMachine.new.run calls).state = stateAt n ↔ (sessionPath.take n).Sublist before ∧
      (n = 5 ∨ .error ∉ calls ∧ ¬(sessionPath.take (n + 1)).Sublist before)) ∧
    ((StateMachine.new.run calls).state = .error ↔ .error ∈ calls ∧ ¬sessionPath.Sublist before) ∧
    (StateMachine.new.run calls).pushed = calls.count .recordUpload ∧
    (StateMachine.new.run calls).pulled = calls.count .recordDownload ∧
    (StateMachine.new.run calls).conflicts = calls.count .recordConflict := by
  intro before
  have hstate := StateMachine.state_run (Nat.zero_le 5) (rfl : StateMachine.new.state = stateAt 0) calls
  have hle : InOrder.reached sessionPath 0 before ≤ 5 :=
    InOrder.reached_le (w := sessionPath) (Nat.zero_le 5) before
  have hfirst : ∀ n ≤ 5, n ≤ InOrder.reached sessionPath 0 before ↔
      (sessionPath.take n).Sublist before := by
    intro n hn
    rw [InOrder.le_reached_iff (w := sessionPath) (Nat.zero_le n) hn, List.drop_zero]
  have hdone : InOrder.reached sessionPath 0 before ≠ 5 ↔ ¬sessionPath.Sublist before := by
    have hwhole := hfirst 5 (Nat.le_refl 5)
    rw [show sessionPath.take 5 = sessionPath from rfl] at hwhole
    rw [← hwhole]
    omega
  refine ⟨fun n hn => ?_, ?_, ?_⟩
  · rw [hstate, ← hfirst n hn]
    by_cases herror : .error ∈ calls ∧ InOrder.reached sessionPath 0 before ≠ 5
    · rw [if_pos herror]
      refine iff_of_false (stateAt_ne_error n).symm ?_
      rintro ⟨hreached, rfl | ⟨hnone, -⟩⟩
      · exact herror.2 (Nat.le_antisymm hle hreached)
      · exact hnone herror.1
    · rw [if_neg herror]
      constructor
      · intro hsame
        obtain rfl := stateAt_inj hle hn hsame
        refine ⟨Nat.le_refl _, or_iff_not_imp_left.mpr fun hbefore => ?_⟩
        refine ⟨fun hmem => herror ⟨hmem, hbefore⟩, fun hfurther => ?_⟩
        exact Nat.not_succ_le_self _ ((hfirst _ (by omega)).mpr hfurther)
      · rintro ⟨hreached, hlast⟩
        have hsame : InOrder.reached sessionPath 0 before = n := by
          rcases hlast with rfl | ⟨-, hfurther⟩
          · exact Nat.le_antisymm hle hreached
          · by_contra hne
            exact hfurther ((hfirst (n + 1) (by omega)).mp (by omega))
        rw [hsame]
  · rw [hstate]
    rw [← hdone]
    by_cases herror : .error ∈ calls ∧ InOrder.reached sessionPath 0 before ≠ 5
    · rw [if_pos herror]
      exact iff_of_true rfl herror
    · rw [if_neg herror]
      exact iff_of_false (stateAt_ne_error _) herror
  · obtain ⟨hpushed, hpulled, hconflicts⟩ := StateMachine.counts_run .new calls
    exact ⟨hpushed.trans (Nat.zero_add _), hpulled.trans (Nat.zero_add _),
      hconflicts.trans (Nat.zero_add _)⟩

end FerriSync
