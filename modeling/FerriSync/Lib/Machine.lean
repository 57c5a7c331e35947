/-
# Machines that talk to a peer

A machine says in each state what it does next (`Move`): work on its own,
write a message to its peer, report an event to whoever listens, read a
message, discard messages until told to stop, or nothing any more.

Alone in surroundings that may do anything, it takes one answer after another
(`Input`, `run`). With a peer that has sent `ins`, and nothing failing, it
reads them one by one and writes as it goes (`Does`); since it is
deterministic, what it does with more messages continues what it does with
fewer (`Does.compare`).

Key definitions: `Move`, `Input`, `run`, `collect`, `Does`.
Key theorems: `run_inv`, `collect_inv`, `Does.trans`, `Does.compare`.
-/
import Mathlib.Logic.Relation
import Mathlib.Tactic.Common

namespace Machine

variable {σ μ ε : Type}

/-- What a machine does next. -/
inductive Move (σ μ ε : Type)
  | halt
  | tau (s : σ)
  /-- Write a message; the connection may fail. -/
  | write (m : μ) (sent failed : σ)
  /-- Report an event, waiting until somebody takes it. -/
  | send (e : ε) (s : σ)
  /-- Report an event if somebody has room for it. -/
  | trySend (e : ε) (s : σ)
  /-- Wait for a message; the connection may fail, or the wait end. -/
  | read (got : μ → σ) (failed : σ)
  /-- Discard messages until this is over. -/
  | drain (stop : σ)

/-- The state after a move that concerns neither the peer nor the connection. -/
def Move.silent : Move σ μ ε → Option σ
  | tau s => some s
  | send _ s => some s
  | trySend _ s => some s
  | _ => none

/-- The machine will write nothing any more, whatever it reads. -/
def Move.quiet : Move σ μ ε → Bool
  | halt => true
  | drain _ => true
  | _ => false

/-! ### Alone -/

/-- What the surroundings answer to a move: it goes through, there is a
message, or it fails. -/
inductive Input (μ : Type)
  | go
  | message (m : μ)
  | failed

/-- The state after a move and its answer; one that does not fit the move
changes nothing. -/
def Move.answer (s : σ) : Move σ μ ε → Input μ → σ
  | .tau s', .go => s'
  | .write _ sent _, .go => sent
  | .write _ _ failed, .failed => failed
  | .send _ s', .go => s'
  | .trySend _ s', .go => s'
  | .read got _, .message m => got m
  | .read _ failed, .failed => failed
  | .drain stop, .failed => stop
  | _, _ => s

variable (next : σ → Move σ μ ε)

def step (s : σ) (i : Input μ) : σ := (next s).answer s i

def run (s : σ) (is : List (Input μ)) : σ := is.foldl (step next) s

theorem run_append (s : σ) (is js : List (Input μ)) :
    run next s (is ++ js) = run next (run next s is) js := by
  rw [run, List.foldl_append]
  rfl

variable {next}

/-- What every step keeps while its answers satisfy `P`, a run keeps. -/
theorem run_inv {I : σ → Prop} {P : Input μ → Prop}
    (hstep : ∀ s i, I s → P i → I (step next s i)) {s : σ} {is : List (Input μ)} (hs : I s)
    (his : ∀ i ∈ is, P i) : I (run next s is) := by
  induction is generalizing s with
  | nil => exact hs
  | cons i is ih =>
    exact ih (hstep s i hs (his i (by simp))) fun j hj => his j (List.mem_cons_of_mem i hj)

/-- Every step of the run meets a condition on its state and its answer. -/
def along (next : σ → Move σ μ ε) (ok : σ → Input μ → Bool) : σ → List (Input μ) → Bool
  | _, [] => true
  | s, i :: is => ok s i && along next ok (step next s i) is

theorem along_append {ok : σ → Input μ → Bool} {s : σ} {is js : List (Input μ)} :
    along next ok s (is ++ js) = true ↔
      along next ok s is = true ∧ along next ok (run next s is) js = true := by
  induction is generalizing s with
  | nil => simp [along, run]
  | cons i is ih =>
    simp only [List.cons_append, along, Bool.and_eq_true, ih, and_assoc]
    rfl

/-- What the steps that meet the condition keep, a run of such steps keeps. -/
theorem along_inv {I : σ → Prop} {ok : σ → Input μ → Bool} {s : σ} {is : List (Input μ)}
    (hstep : ∀ s, ∀ i ∈ is, I s → ok s i = true → I (step next s i))
    (hs : I s) (his : along next ok s is = true) : I (run next s is) := by
  induction is generalizing s with
  | nil => exact hs
  | cons i is ih =>
    rw [along, Bool.and_eq_true] at his
    have hi := hstep s i (List.mem_cons_self ..) hs his.1
    exact ih (fun t j hj => hstep t j (List.mem_cons_of_mem i hj)) hi his.2

/-- What the steps of a run yield, one after another. -/
def collect {β : Type} (next : σ → Move σ μ ε) (f : σ → Input μ → List β) : σ → List (Input μ) → List β
  | _, [] => []
  | s, i :: is => f s i ++ collect next f (step next s i) is

/-- What every step keeps of the state and of what the steps yield, a run keeps. -/
theorem collect_inv {β : Type} {f : σ → Input μ → List β} {I : σ → List β → Prop}
    (hstep : ∀ s i bs, I s bs → I (step next s i) (bs ++ f s i)) :
    ∀ {is : List (Input μ)} {s : σ} {bs : List β}, I s bs →
      I (run next s is) (bs ++ collect next f s is)
  | [], s, bs, hs => by rwa [collect, List.append_nil]
  | i :: is, s, bs, hs => by
    have ih : I _ (bs ++ f s i ++ collect next f (step next s i) is) := collect_inv hstep (hstep s i bs hs)
    rwa [List.append_assoc] at ih

/-! ### With a peer -/

/-- With nothing failing the machine reads `ins`, writes `outs` and comes to
`t`. A machine that discards has read too. -/
inductive Does (next : σ → Move σ μ ε) : σ → List μ → List μ → σ → Prop
  | nothing (s : σ) : Does next s [] [] s
  | silent {s s' t : σ} {ins outs : List μ} :
      (next s).silent = some s' → Does next s' ins outs t → Does next s ins outs t
  | write {s sent failed t : σ} {m : μ} {ins outs : List μ} :
      next s = .write m sent failed → Does next sent ins outs t → Does next s ins (m :: outs) t
  | read {s failed t : σ} {got : μ → σ} {m : μ} {ins outs : List μ} :
      next s = .read got failed → Does next (got m) ins outs t → Does next s (m :: ins) outs t
  | discard {s stop t : σ} {m : μ} {ins outs : List μ} :
      next s = .drain stop → Does next s ins outs t → Does next s (m :: ins) outs t

namespace Does

variable {s t u : σ} {ins ins' outs outs' : List μ}

theorem trans (h : Does next s ins outs t) (h' : Does next t ins' outs' u) :
    Does next s (ins ++ ins') (outs ++ outs') u := by
  induction h with
  | nothing => exact h'
  | silent hs _ ih => exact .silent hs (ih h')
  | write hw _ ih => exact .write hw (ih h')
  | read hr _ ih => exact .read hr (ih h')
  | discard hd _ ih => exact .discard hd (ih h')

/-- A run that reads nothing, then another. -/
theorem trans_nil (h : Does next s [] outs t) (h' : Does next t ins' outs' u) :
    Does next s ins' (outs ++ outs') u := h.trans h'

/-- Two runs from one state, over messages that agree as far as both go: one
continues the other. -/
theorem compare {all : List μ} (h : Does next s ins outs t) (h' : Does next s ins' outs' u)
    (hp : ins <+: all) (hp' : ins' <+: all) :
    (∃ is os, ins' = ins ++ is ∧ outs' = outs ++ os ∧ Does next t is os u) ∨
      ∃ is os, ins = ins' ++ is ∧ outs = outs' ++ os ∧ Does next u is os t := by
  induction h generalizing ins' outs' all with
  | nothing s => exact Or.inl ⟨ins', outs', rfl, rfl, h'⟩
  | @silent s s1 t ins outs hs hrest ih =>
    cases h' with
    | nothing => exact Or.inr ⟨ins, outs, rfl, rfl, .silent hs hrest⟩
    | silent hs' h' =>
      rw [hs] at hs'
      cases hs'
      exact ih h' hp hp'
    | write hw _ => rw [hw] at hs; cases hs
    | read hr _ => rw [hr] at hs; cases hs
    | discard hd _ => rw [hd] at hs; cases hs
  | @write s sent failed t m ins outs hw hrest ih =>
    cases h' with
    | nothing => exact Or.inr ⟨ins, m :: outs, rfl, rfl, .write hw hrest⟩
    | silent hs' _ => rw [hw] at hs'; cases hs'
    | write hw' h' =>
      rw [hw] at hw'
      cases hw'
      rcases ih h' hp hp' with ⟨is, os, h1, h2, h3⟩ | ⟨is, os, h1, h2, h3⟩
      · exact Or.inl ⟨is, os, h1, by rw [h2]; rfl, h3⟩
      · exact Or.inr ⟨is, os, h1, by rw [h2]; rfl, h3⟩
    | read hr _ => rw [hw] at hr; cases hr
    | discard hd _ => rw [hw] at hd; cases hd
  | @read s failed t got m ins outs hr hrest ih =>
    cases h' with
    | nothing => exact Or.inr ⟨m :: ins, outs, rfl, rfl, .read hr hrest⟩
    | silent hs' _ => rw [hr] at hs'; cases hs'
    | write hw _ => rw [hr] at hw; cases hw
    | @read _ _ _ _ m' ins' _ hr' h' =>
      rw [hr] at hr'
      cases hr'
      obtain ⟨all, rfl⟩ : ∃ rest, all = m :: rest := by
        obtain ⟨rest, rfl⟩ := hp
        exact ⟨_, rfl⟩
      have hm := List.cons_prefix_cons.mp hp
      have hm' := List.cons_prefix_cons.mp hp'
      obtain rfl := hm'.1
      rcases ih h' hm.2 hm'.2 with ⟨is, os, h1, h2, h3⟩ | ⟨is, os, h1, h2, h3⟩
      · exact Or.inl ⟨is, os, by rw [h1]; rfl, h2, h3⟩
      · exact Or.inr ⟨is, os, by rw [h1]; rfl, h2, h3⟩
    | discard hd _ => rw [hr] at hd; cases hd
  | @discard s stop t m ins outs hd hrest ih =>
    cases h' with
    | nothing => exact Or.inr ⟨m :: ins, outs, rfl, rfl, .discard hd hrest⟩
    | silent hs' _ => rw [hd] at hs'; cases hs'
    | write hw _ => rw [hd] at hw; cases hw
    | read hr _ => rw [hd] at hr; cases hr
    | @discard _ _ _ m' ins' _ hd' h' =>
      obtain ⟨all, rfl⟩ : ∃ rest, all = m :: rest := by
        obtain ⟨rest, rfl⟩ := hp
        exact ⟨_, rfl⟩
      have hm := List.cons_prefix_cons.mp hp
      have hm' := List.cons_prefix_cons.mp hp'
      obtain rfl := hm'.1
      rcases ih h' hm.2 hm'.2 with ⟨is, os, h1, h2, h3⟩ | ⟨is, os, h1, h2, h3⟩
      · exact Or.inl ⟨is, os, by rw [h1]; rfl, h2, h3⟩
      · exact Or.inr ⟨is, os, by rw [h1]; rfl, h2, h3⟩

end Does

end Machine
