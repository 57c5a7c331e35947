/-
# A machine and who listens to it

A machine that reports events into a queue of bounded size, with somebody at
the other end who takes events out, or does not, or closes the queue
(`Turn`, `turns`). A report that may be dropped goes through at once; one that
may not waits for room, and the machine with it (`stalled`).

The machine itself goes the way it would go with nobody to listen
(`turns_machine`). It can stall exactly if, on that way, a report that must
not be dropped comes when as many as the queue holds have come before
(`never_stalled_iff`).

Key definitions: `Queue`, `stalled`, `turns`, `reports`.
Key theorems: `turns_machine`, `reports_inv`, `never_stalled_iff`.
-/
import FerriSync.Lib.Machine
import Mathlib.Data.List.Induction
import Mathlib.Order.MinMax

namespace Machine

variable {σ μ ε : Type}

/-- A bounded queue of events; while `listening`, there is a receiver. -/
structure Queue where
  capacity : ℕ
  queued : ℕ
  listening : Bool := true

namespace Queue

/-- Whoever must put an event into the queue has to wait. -/
def full (q : Queue) : Bool := q.listening && decide (q.capacity ≤ q.queued)

/-- An event is put into the queue if somebody listens and there is room. -/
def put (q : Queue) : Queue :=
  if q.listening && decide (q.queued < q.capacity) then { q with queued := q.queued + 1 } else q

def take (q : Queue) : Queue := { q with queued := q.queued - 1 }

def close (q : Queue) : Queue := { q with listening := false }

theorem put_capacity (q : Queue) : q.put.capacity = q.capacity := by
  unfold put
  split_ifs <;> rfl

theorem put_listening (q : Queue) : q.put.listening = q.listening := by
  unfold put
  split_ifs <;> rfl

theorem put_queued_le (q : Queue) : q.put.queued ≤ q.queued + 1 := by
  unfold put
  split_ifs
  · exact le_rfl
  · exact Nat.le_succ _

theorem full_iff (q : Queue) : q.full = true ↔ q.listening = true ∧ q.capacity ≤ q.queued := by
  rw [full, Bool.and_eq_true, decide_eq_true_eq]

/-- A queue with a receiver holds one event more, or is full. -/
theorem min_le_put {q : Queue} (h : q.listening = true) :
    min q.capacity (q.queued + 1) ≤ q.put.queued := by
  unfold put
  rw [h, Bool.true_and]
  split_ifs with hf
  · exact min_le_right _ _
  · have hfull : ¬ q.queued < q.capacity := by simpa using hf
    omega

end Queue

/-- The answer lets an event through. -/
def Move.reports : Move σ μ ε → Input μ → ℕ
  | send _ _, .go => 1
  | trySend _ _, .go => 1
  | _, _ => 0

/-- The next thing is an event that must not be dropped. -/
def Move.mustReport : Move σ μ ε → Bool
  | send _ _ => true
  | _ => false

theorem Move.reports_le (m : Move σ μ ε) (i : Input μ) : m.reports i ≤ 1 := by
  unfold Move.reports
  split <;> omega

/-- What happens next: the machine gets an answer, or the receiver acts. -/
inductive Turn (μ : Type)
  | machine (i : Input μ)
  | take
  | close

structure Reporting (σ : Type) where
  machine : σ
  queue : Queue

/-- The answers the machine gets. -/
def answers (ts : List (Turn μ)) : List (Input μ) :=
  ts.filterMap fun t => match t with
    | .machine i => some i
    | _ => none

theorem answers_map (is : List (Input μ)) : answers (is.map Turn.machine) = is := by
  rw [answers, List.filterMap_map]
  exact List.filterMap_some

variable (next : σ → Move σ μ ε)

/-- The machine can go on only when somebody takes an event. -/
def stalled (x : Reporting σ) : Bool := (next x.machine).mustReport && x.queue.full

def turn (x : Reporting σ) : Turn μ → Reporting σ
  | .machine i =>
    if stalled next x = true then x
    else ⟨step next x.machine i,
      if (next x.machine).reports i = 1 then x.queue.put else x.queue⟩
  | .take => { x with queue := x.queue.take }
  | .close => { x with queue := x.queue.close }

def turns (x : Reporting σ) (ts : List (Turn μ)) : Reporting σ := ts.foldl (turn next) x

/-- The number of events reported on a run with nobody to listen. -/
def reports : σ → List (Input μ) → ℕ
  | _, [] => 0
  | s, i :: is => (next s).reports i + reports (step next s i) is

variable {next}

/-- A relation between the events reported and the state that every step keeps
holds after a run. -/
theorem reports_inv {I : ℕ → σ → Prop}
    (hstep : ∀ n s i, I n s → I (n + (next s).reports i) (step next s i)) {n : ℕ} {s : σ}
    (hs : I n s) (is : List (Input μ)) : I (n + reports next s is) (run next s is) := by
  induction is generalizing n s with
  | nil => exact hs
  | cons i is ih =>
    have hi := ih (hstep n s i hs)
    rwa [Nat.add_assoc] at hi

/-- **Reporting does not change the machine's way.** Whatever the receiver
does, the machine is where some of its answers, in their order, lead without
anybody listening: those it got while it had not to wait. -/
theorem turns_machine (x : Reporting σ) (ts : List (Turn μ)) :
    ∃ is, is.Sublist (answers ts) ∧ (turns next x ts).machine = run next x.machine is := by
  induction ts generalizing x with
  | nil => exact ⟨[], List.Sublist.refl _, rfl⟩
  | cons t ts ih =>
    obtain ⟨is, hsub, hrun⟩ := ih (turn next x t)
    cases t with
    | machine i =>
      by_cases hs : stalled next x = true
      · refine ⟨is, hsub.cons i, ?_⟩
        rw [turn, if_pos hs] at hrun
        exact (congrArg _ (congrArg (turns next · ts) (if_pos hs))).trans hrun
      · refine ⟨i :: is, hsub.cons_cons i, hrun.trans ?_⟩
        rw [turn, if_neg hs]
        rfl
    | take => exact ⟨is, hsub, hrun⟩
    | close => exact ⟨is, hsub, hrun⟩

section

variable {s : σ} {q : Queue}

/-- If nothing has stalled before, the machine is where its answers lead, and
the queue holds no more than it has reported. -/
theorem turns_of_not_stalled (x : Reporting σ) (ts : List (Turn μ))
    (h : ∀ pre, pre <+: ts → pre ≠ ts → stalled next (turns next x pre) = false) :
    (turns next x ts).machine = run next x.machine (answers ts) ∧
      (turns next x ts).queue.capacity = x.queue.capacity ∧
      (turns next x ts).queue.queued ≤ x.queue.queued + reports next x.machine (answers ts) := by
  induction ts generalizing x with
  | nil => exact ⟨rfl, rfl, Nat.le_add_right _ _⟩
  | cons t ts ih =>
    have hrest := ih (turn next x t) fun pre hp hne =>
      h (t :: pre) (List.cons_prefix_cons.mpr ⟨rfl, hp⟩) fun he => hne (List.cons.inj he).2
    cases t with
    | machine i =>
      have hns : ¬ stalled next x = true := by
        have hx := h [] List.nil_prefix (List.cons_ne_nil _ _).symm
        exact fun hs => by cases hx.symm.trans hs
      obtain ⟨hm, hc, hq⟩ := hrest
      have hturn : turn next x (.machine i) = ⟨step next x.machine i,
          if (next x.machine).reports i = 1 then x.queue.put else x.queue⟩ := if_neg hns
      rw [hturn] at hm hc hq
      show (turns next (turn next x (.machine i)) ts).machine = _ ∧
        (turns next (turn next x (.machine i)) ts).queue.capacity = _ ∧
        (turns next (turn next x (.machine i)) ts).queue.queued ≤ _ +
          ((next x.machine).reports i + reports next (step next x.machine i) (answers ts))
      rw [hturn]
      refine ⟨hm, hc.trans ?_, le_trans hq ?_⟩
      · dsimp only
        split_ifs
        · exact x.queue.put_capacity
        · rfl
      · dsimp only
        split_ifs with hr
        · have hput := x.queue.put_queued_le
          omega
        · omega
    | take =>
      obtain ⟨hm, hc, hq⟩ := hrest
      exact ⟨hm, hc, le_trans hq (Nat.add_le_add_right (Nat.sub_le _ _) _)⟩
    | close => exact hrest

/-- With a receiver that takes nothing, the machine stalls on its way, or gets
to its end with all it has reported in the queue, or the queue full. -/
theorem turns_untaken (next : σ → Move σ μ ε) (x : Reporting σ) (is : List (Input μ))
    (hl : x.queue.listening = true) :
    (∃ pre, pre <+: is ∧ stalled next (turns next x (pre.map Turn.machine)) = true) ∨
      ((turns next x (is.map Turn.machine)).machine = run next x.machine is ∧
        (turns next x (is.map Turn.machine)).queue.listening = true ∧
        (turns next x (is.map Turn.machine)).queue.capacity = x.queue.capacity ∧
        min x.queue.capacity (x.queue.queued + reports next x.machine is) ≤
          (turns next x (is.map Turn.machine)).queue.queued) := by
  induction is generalizing x with
  | nil => exact Or.inr ⟨rfl, hl, rfl, min_le_right _ _⟩
  | cons i is ih =>
    by_cases hs : stalled next x = true
    · exact Or.inl ⟨[], List.nil_prefix, hs⟩
    have hturn : turn next x (.machine i) = ⟨step next x.machine i,
        if (next x.machine).reports i = 1 then x.queue.put else x.queue⟩ := if_neg hs
    have hput : (turn next x (.machine i)).queue.listening = true ∧
        (turn next x (.machine i)).queue.capacity = x.queue.capacity ∧
        min x.queue.capacity (x.queue.queued + (next x.machine).reports i) ≤
          (turn next x (.machine i)).queue.queued := by
      rw [hturn]
      dsimp only
      split_ifs with hr
      · rw [hr]
        exact ⟨x.queue.put_listening.trans hl, x.queue.put_capacity, Queue.min_le_put hl⟩
      · have h0 : (next x.machine).reports i = 0 := by
          have hle := (next x.machine).reports_le i
          omega
        rw [h0]
        exact ⟨hl, rfl, min_le_right _ _⟩
    obtain ⟨hl', hc', hq'⟩ := hput
    have hmachine : (turn next x (.machine i)).machine = step next x.machine i := by rw [hturn]
    rcases ih (turn next x (.machine i)) hl' with ⟨pre, hp, hst⟩ | ⟨hm, hl2, hc2, hq2⟩
    · exact Or.inl ⟨i :: pre, List.cons_prefix_cons.mpr ⟨rfl, hp⟩, hst⟩
    · rw [hmachine] at hm hq2
      rw [hc'] at hc2 hq2
      refine Or.inr ⟨hm, hl2, hc2, le_trans ?_ hq2⟩
      show min x.queue.capacity (x.queue.queued +
        ((next x.machine).reports i + reports next (step next x.machine i) is)) ≤ _
      omega

/-- **When the receiver can stall the machine.** With a receiver in place, no
behaviour of it stalls the machine on its way through the answers `is` exactly
if each event that must not be dropped comes when those reported before it,
with those queued at first, are fewer than the queue holds. -/
theorem never_stalled_iff (s : σ) (q : Queue) (hl : q.listening = true) (is : List (Input μ)) :
    (∀ ts, answers ts <+: is → stalled next (turns next ⟨s, q⟩ ts) = false) ↔
      ∀ pre, pre <+: is → (next (run next s pre)).mustReport = true →
        q.queued + reports next s pre < q.capacity := by
  constructor
  · intro h pre hp hmust
    rcases turns_untaken next ⟨s, q⟩ pre hl with ⟨pre', hp', hst⟩ | ⟨hm, hl', hc, hq⟩
    · have hno := h (pre'.map Turn.machine) (by rw [answers_map]; exact hp'.trans hp)
      cases hno.symm.trans hst
    · have hno := h (pre.map Turn.machine) (by rw [answers_map]; exact hp)
      by_contra hge
      dsimp only at hm hc hq
      have hfull : (turns next ⟨s, q⟩ (pre.map Turn.machine)).queue.full = true :=
        (Queue.full_iff _).mpr ⟨hl', by omega⟩
      rw [stalled, hm, hmust, hfull] at hno
      cases hno
  · intro h
    -- nothing has stalled before, so the machine is on its way
    have hnow : ∀ ts, answers ts <+: is →
        (∀ pre, pre <+: ts → pre ≠ ts → stalled next (turns next ⟨s, q⟩ pre) = false) →
        stalled next (turns next ⟨s, q⟩ ts) = false := by
      intro ts hp hbefore
      obtain ⟨hm, hc, hq⟩ := turns_of_not_stalled ⟨s, q⟩ ts hbefore
      by_contra hst
      rw [Bool.not_eq_false, stalled, Bool.and_eq_true, hm, Queue.full_iff] at hst
      have hlt := h (answers ts) hp hst.1
      dsimp only at hc hq
      omega
    have hall : ∀ ts, answers ts <+: is → ∀ pre, pre <+: ts →
        stalled next (turns next ⟨s, q⟩ pre) = false := by
      intro ts
      induction ts using List.reverseRecOn with
      | nil =>
        intro hp pre hpre
        obtain rfl := List.prefix_nil.mp hpre
        exact hnow [] hp fun pre hpre hne => absurd (List.prefix_nil.mp hpre) hne
      | append_singleton ts t ih =>
        intro hp pre hpre
        have hts : answers ts <+: is := by
          rw [answers, List.filterMap_append] at hp
          exact (List.prefix_append _ _).trans hp
        rcases List.prefix_concat_iff.mp hpre with rfl | hpre
        · exact hnow _ hp fun pre hpre hne =>
            ih hts pre ((List.prefix_concat_iff.mp hpre).resolve_left hne)
        · exact ih hts pre hpre
    exact fun ts hp => hall ts hp ts List.prefix_rfl

end

end Machine
