/-
# Statements and transactions

A database is a state with constraints: a statement whose result would violate one
fails and changes nothing (`execute`), so every state that is reached satisfies them
all (`State`). Statements that follow one another are committed one by one; in a
transaction they take effect together or not at all (`transaction`).

A computation is atomic if it leaves the state as it was whenever it fails, as a
transaction does (`Atomic.transaction`). Of others this can be said in some states
(`AtomicAt`).

Key definitions: `State`, `Sql`, `execute`, `transaction`, `Atomic`, `AtomicAt`.
Key theorems: `bind_eq_ok`, `bind_eq_error`, `transaction_eq_ok`, `Atomic.transaction`.
-/
import FerriSync.Lib.Effects

namespace Transactions

variable {σ ε α β : Type} {violation : σ → Option ε}

/-- A state that violates no constraint. -/
structure State (violation : σ → Option ε) where
  val : σ
  valid : violation val = none

@[ext] theorem State.ext {s s' : State violation} (h : s.val = s'.val) : s = s' := by
  cases s
  cases s'
  cases h
  rfl

/-- A computation over the database. -/
abbrev Sql (violation : σ → Option ε) (α : Type) := EStateM ε (State violation) α

/-- Read from the state. -/
def query (f : σ → α) : Sql violation α := fun s => .ok (f s.val) s

/-- Change the state, or fail with the constraint that the change violates. -/
def execute (f : σ → σ) : Sql violation Unit := fun s =>
  match h : violation (f s.val) with
  | none => .ok () ⟨f s.val, h⟩
  | some e => .error e s

/-- All or nothing. -/
def transaction (x : Sql violation α) : Sql violation α := fun s =>
  match x s with
  | .ok a s' => .ok a s'
  | .error e _ => .error e s

/-- It leaves the state as it was whenever it fails. -/
def Atomic (x : Sql violation α) : Prop := ∀ s e s', x s = .error e s' → s' = s

section

variable {s s' : State violation} {x : Sql violation α} {f : α → Sql violation β} {g : σ → σ}

@[simp] theorem query_apply (f : σ → α) : (query f : Sql violation α) s = .ok (f s.val) s := rfl

theorem execute_ok (h : violation (g s.val) = none) :
    (execute g : Sql violation Unit) s = .ok () ⟨g s.val, h⟩ := by
  unfold execute
  split
  · rfl
  · rename_i e he
    rw [h] at he
    cases he

theorem execute_error {e : ε} (h : violation (g s.val) = some e) :
    (execute g : Sql violation Unit) s = .error e s := by
  unfold execute
  split
  · rename_i hnone
    rw [h] at hnone
    cases hnone
  · rename_i e' he
    rw [h] at he
    cases he
    rfl

theorem execute_eq_ok : (execute g : Sql violation Unit) s = .ok () s' ↔ s'.val = g s.val := by
  constructor
  · intro h
    cases hg : violation (g s.val) with
    | none =>
      rw [execute_ok hg] at h
      cases h
      rfl
    | some e =>
      rw [execute_error hg] at h
      cases h
  · intro h
    have hvalid : violation (g s.val) = none := h ▸ s'.valid
    rw [execute_ok hvalid]
    congr 1
    exact State.ext h.symm

theorem execute_eq_error {e : ε} : (execute g : Sql violation Unit) s = .error e s' ↔
    violation (g s.val) = some e ∧ s' = s := by
  constructor
  · intro h
    cases hg : violation (g s.val) with
    | none =>
      rw [execute_ok hg] at h
      cases h
    | some e' =>
      rw [execute_error hg] at h
      cases h
      exact ⟨rfl, rfl⟩
  · rintro ⟨hg, rfl⟩
    exact execute_error hg

/-- A computation does what a change does, if it is possible. -/
theorem exists_state {P : σ → Prop} {a : σ} :
    (∃ s' : State violation, s'.val = a ∧ P s'.val) ↔ violation a = none ∧ P a := by
  constructor
  · rintro ⟨s', rfl, hP⟩
    exact ⟨s'.valid, hP⟩
  · rintro ⟨hvalid, hP⟩
    exact ⟨⟨a, hvalid⟩, rfl, hP⟩

theorem bind_eq_ok {b : β} {s'' : State violation} : (x >>= f) s = .ok b s'' ↔
    ∃ a s', x s = .ok a s' ∧ f a s' = .ok b s'' := by
  cases hx : x s with
  | ok a s' =>
    rw [Effects.bind_ok hx]
    constructor
    · exact fun h => ⟨a, s', rfl, h⟩
    · rintro ⟨a', t, h, hf⟩
      cases h
      exact hf
  | error e s' =>
    rw [Effects.bind_error hx]
    constructor
    · intro h
      cases h
    · rintro ⟨a', t, h, _⟩
      cases h

theorem bind_eq_error {e : ε} {s'' : State violation} : (x >>= f) s = .error e s'' ↔
    x s = .error e s'' ∨ ∃ a s', x s = .ok a s' ∧ f a s' = .error e s'' := by
  cases hx : x s with
  | ok a s' =>
    rw [Effects.bind_ok hx]
    constructor
    · exact fun h => Or.inr ⟨a, s', rfl, h⟩
    · rintro (h | ⟨a', t, h, hf⟩)
      · cases h
      · cases h
        exact hf
  | error e' s' =>
    rw [Effects.bind_error hx]
    constructor
    · exact fun h => Or.inl (by cases h; rfl)
    · rintro (h | ⟨a', t, h, _⟩)
      · cases h
        rfl
      · cases h

/-- A change, and then a result. -/
theorem exists_execute_ok {b : β} :
    (∃ a, (execute g >>= fun _ => (pure b : Sql violation β)) s = .ok a s') ↔ s'.val = g s.val := by
  constructor
  · rintro ⟨a, h⟩
    obtain ⟨_, t, ht, h⟩ := bind_eq_ok.mp h
    cases h
    exact execute_eq_ok.mp ht
  · intro h
    exact ⟨b, bind_eq_ok.mpr ⟨(), s', execute_eq_ok.mpr h, rfl⟩⟩

theorem discard_eq_ok : discard x s = .ok () s' ↔ ∃ a, x s = .ok a s' := by
  have hbind : discard x = x >>= fun _ => pure () := rfl
  rw [hbind, bind_eq_ok]
  constructor
  · rintro ⟨a, t, hx, h⟩
    cases h
    exact ⟨a, hx⟩
  · rintro ⟨a, hx⟩
    exact ⟨a, s', hx, rfl⟩

theorem after_discard (x : Sql violation α) (s : State violation) :
    Effects.after (discard x) s = Effects.after x s := by
  have hbind : discard x = x >>= fun _ => pure () := rfl
  rw [hbind]
  cases hx : x s with
  | ok a t => rw [Effects.after_ok hx, Effects.after, Effects.bind_ok hx]; rfl
  | error e t => rw [Effects.after_error (Effects.bind_error hx), Effects.after_error hx]

theorem transaction_eq_ok {a : α} : transaction x s = .ok a s' ↔ x s = .ok a s' := by
  unfold transaction
  cases x s with
  | ok b t => exact Iff.rfl
  | error e t =>
    constructor
    · intro h
      cases h
    · intro h
      cases h

theorem transaction_eq_error {e : ε} : transaction x s = .error e s' ↔
    s' = s ∧ ∃ t, x s = .error e t := by
  unfold transaction
  cases x s with
  | ok b t =>
    constructor
    · intro h
      cases h
    · rintro ⟨_, t', h⟩
      cases h
  | error e' t =>
    constructor
    · intro h
      cases h
      exact ⟨rfl, t, rfl⟩
    · rintro ⟨rfl, t', h⟩
      cases h
      rfl

end

/-! ### Statements that follow one another -/

/-- The changes are possible one after another, and lead from the one state to the
other. -/
def Chain : List (σ → σ) → State violation → State violation → Prop
  | [], s, s' => s' = s
  | g :: gs, s, s' => ∃ t : State violation, t.val = g s.val ∧ Chain gs t s'

section

variable {gs gs' : List (σ → σ)} {s s' : State violation}

theorem chain_append : Chain (gs ++ gs') s s' ↔ ∃ t, Chain gs s t ∧ Chain gs' t s' := by
  induction gs generalizing s with
  | nil =>
    constructor
    · exact fun h => ⟨s, rfl, h⟩
    · rintro ⟨t, rfl, h⟩
      exact h
  | cons g gs ih =>
    constructor
    · rintro ⟨t, ht, h⟩
      obtain ⟨u, hu, h⟩ := ih.mp h
      exact ⟨u, ⟨t, ht, hu⟩, h⟩
    · rintro ⟨u, ⟨t, ht, hu⟩, h⟩
      exact ⟨t, ht, ih.mpr ⟨u, hu, h⟩⟩

/-- A loop whose rounds do the changes. -/
theorem foldlM_eq_ok {ι : Type} {f : α → ι → Sql violation α} {g : ι → σ → σ}
    (hf : ∀ a i (s s' : State violation), (∃ b, f a i s = .ok b s') ↔ s'.val = g i s.val)
    (is : List ι) (a : α) : (∃ b, is.foldlM f a s = .ok b s') ↔ Chain (is.map g) s s' := by
  induction is generalizing a s with
  | nil =>
    constructor
    · rintro ⟨b, h⟩
      cases h
      rfl
    · rintro rfl
      exact ⟨a, rfl⟩
  | cons i is ih =>
    rw [List.foldlM_cons]
    constructor
    · rintro ⟨b, h⟩
      obtain ⟨a', t, hi, his⟩ := bind_eq_ok.mp h
      exact ⟨t, (hf a i s t).mp ⟨a', hi⟩, (ih a').mp ⟨b, his⟩⟩
    · rintro ⟨t, ht, h⟩
      obtain ⟨a', hi⟩ := (hf a i s t).mpr ht
      obtain ⟨b, his⟩ := (ih a').mpr h
      exact ⟨b, bind_eq_ok.mpr ⟨a', t, hi, his⟩⟩

end

/-- The changes are possible up to one that is not; the state before it. -/
def Fails : List (σ → σ) → State violation → State violation → Prop
  | [], _, _ => False
  | g :: gs, s, s' =>
    (violation (g s.val) ≠ none ∧ s' = s) ∨ ∃ t : State violation, t.val = g s.val ∧ Fails gs t s'

section

variable {gs gs' : List (σ → σ)} {s s' : State violation}

theorem fails_append :
    Fails (gs ++ gs') s s' ↔ Fails gs s s' ∨ ∃ t, Chain gs s t ∧ Fails gs' t s' := by
  induction gs generalizing s with
  | nil =>
    constructor
    · exact fun h => Or.inr ⟨s, rfl, h⟩
    · rintro (h | ⟨t, rfl, h⟩)
      · exact h.elim
      · exact h
  | cons g gs ih =>
    constructor
    · rintro (h | ⟨t, ht, h⟩)
      · exact Or.inl (Or.inl h)
      · rcases ih.mp h with h | ⟨u, hu, h⟩
        · exact Or.inl (Or.inr ⟨t, ht, h⟩)
        · exact Or.inr ⟨u, ⟨t, ht, hu⟩, h⟩
    · rintro ((h | ⟨t, ht, h⟩) | ⟨u, ⟨t, ht, hu⟩, h⟩)
      · exact Or.inl h
      · exact Or.inr ⟨t, ht, ih.mpr (Or.inl h)⟩
      · exact Or.inr ⟨t, ht, ih.mpr (Or.inr ⟨u, hu, h⟩)⟩

/-- The changes one after another. -/
def runAll (gs : List (σ → σ)) (a : σ) : σ := gs.foldl (fun a g => g a) a

theorem chain_iff : Chain gs s s' ↔
    s'.val = runAll gs s.val ∧ ∀ j, violation (runAll (gs.take j) s.val) = none := by
  induction gs generalizing s with
  | nil =>
    constructor
    · rintro rfl
      refine ⟨rfl, fun j => ?_⟩
      rw [List.take_nil]
      exact s'.valid
    · rintro ⟨h, _⟩
      exact State.ext h
  | cons g gs ih =>
    constructor
    · rintro ⟨t, ht, h⟩
      obtain ⟨hend, hvalid⟩ := ih.mp h
      refine ⟨by rw [hend, ht]; rfl, fun j => ?_⟩
      cases j with
      | zero => exact s.valid
      | succ j =>
        have hj := hvalid j
        rw [ht] at hj
        exact hj
    · rintro ⟨hend, hvalid⟩
      have hone : violation (g s.val) = none := by
        have h := hvalid 1
        rw [List.take_succ_cons, List.take_zero] at h
        exact h
      exact ⟨⟨g s.val, hone⟩, rfl, ih.mpr ⟨hend, fun j => hvalid (j + 1)⟩⟩

theorem fails_iff : Fails gs s s' ↔ ∃ j, (∀ i ≤ j, violation (runAll (gs.take i) s.val) = none) ∧
    violation (runAll (gs.take (j + 1)) s.val) ≠ none ∧ s'.val = runAll (gs.take j) s.val := by
  induction gs generalizing s with
  | nil =>
    constructor
    · exact fun h => h.elim
    · rintro ⟨j, _, hfails, _⟩
      rw [List.take_nil] at hfails
      exact absurd s.valid hfails
  | cons g gs ih =>
    constructor
    · rintro (⟨hfails, rfl⟩ | ⟨t, ht, h⟩)
      · refine ⟨0, fun i hi => ?_, ?_, rfl⟩
        · rw [Nat.le_zero.mp hi]
          exact s'.valid
        · rw [List.take_succ_cons, List.take_zero]
          exact hfails
      · obtain ⟨j, hvalid, hfails, hend⟩ := ih.mp h
        rw [ht] at hvalid hfails hend
        refine ⟨j + 1, fun i hi => ?_, hfails, hend⟩
        cases i with
        | zero => exact s.valid
        | succ i => exact hvalid i (Nat.le_of_succ_le_succ hi)
    · rintro ⟨j, hvalid, hfails, hend⟩
      cases j with
      | zero =>
        rw [List.take_succ_cons, List.take_zero] at hfails
        exact Or.inl ⟨hfails, State.ext hend⟩
      | succ j =>
        have hone : violation (g s.val) = none := by
          have h := hvalid 1 (Nat.succ_le_succ (Nat.zero_le j))
          rw [List.take_succ_cons, List.take_zero] at h
          exact h
        exact Or.inr ⟨⟨g s.val, hone⟩, rfl, ih.mpr
          ⟨j, fun i hi => hvalid (i + 1) (Nat.succ_le_succ hi), hfails, hend⟩⟩

theorem forM_flatMap {ι κ : Type} (f : ι → List κ) (g : κ → Sql violation Unit) (is : List ι) :
    (is.flatMap f).forM g = is.forM fun i => (f i).forM g := by
  induction is with
  | nil => rfl
  | cons i is ih =>
    rw [List.flatMap_cons]
    show forM (f i ++ is.flatMap f) g = (f i).forM g >>= fun _ => is.forM fun i => (f i).forM g
    rw [List.forM_append, ← ih]
    rfl

/-- Statements that are run one by one. -/
theorem forM_eq_ok : gs.forM execute s = .ok () s' ↔ Chain gs s s' := by
  induction gs generalizing s with
  | nil =>
    constructor
    · intro h
      cases h
      rfl
    · rintro rfl
      rfl
  | cons g gs ih =>
    show (execute g >>= fun _ => gs.forM execute) s = .ok () s' ↔ _
    rw [bind_eq_ok]
    constructor
    · rintro ⟨_, t, hg, h⟩
      exact ⟨t, execute_eq_ok.mp hg, ih.mp h⟩
    · rintro ⟨t, ht, h⟩
      exact ⟨(), t, execute_eq_ok.mpr ht, ih.mpr h⟩

theorem forM_eq_error : (∃ e, gs.forM execute s = .error e s') ↔ Fails gs s s' := by
  induction gs generalizing s with
  | nil =>
    constructor
    · rintro ⟨e, h⟩
      cases h
    · exact fun h => h.elim
  | cons g gs ih =>
    show (∃ e, (execute g >>= fun _ => gs.forM execute) s = .error e s') ↔ _
    simp only [bind_eq_error]
    constructor
    · rintro ⟨e, hg | ⟨_, t, hg, h⟩⟩
      · obtain ⟨hv, rfl⟩ := execute_eq_error.mp hg
        exact Or.inl ⟨by rw [hv]; simp, rfl⟩
      · exact Or.inr ⟨t, execute_eq_ok.mp hg, ih.mp ⟨e, h⟩⟩
    · rintro (⟨hv, rfl⟩ | ⟨t, ht, h⟩)
      · obtain ⟨e, he⟩ := Option.ne_none_iff_exists'.mp hv
        exact ⟨e, Or.inl (execute_eq_error.mpr ⟨he, rfl⟩)⟩
      · obtain ⟨e, he⟩ := ih.mpr h
        exact ⟨e, Or.inr ⟨(), t, execute_eq_ok.mpr ht, he⟩⟩

end

/-! ### Relations that are kept -/

section

variable {R : State violation → State violation → Prop} (hR : Effects.Composes R)

include hR

theorem Does.execute {g : σ → σ} (h : ∀ s s' : State violation, s'.val = g s.val → R s s') :
    Effects.Does R (execute g : Sql violation Unit) := by
  intro s
  cases hg : violation (g s.val) with
  | none =>
    rw [Effects.after_ok (execute_ok hg)]
    exact h s _ rfl
  | some e =>
    rw [Effects.after_error (execute_error hg)]
    exact hR.refl s

theorem Does.query (f : σ → α) : Effects.Does R (query f : Sql violation α) := fun s => hR.refl s

theorem Does.transaction {x : Sql violation α} (h : Effects.Does R x) :
    Effects.Does R (transaction x) := by
  intro s
  have hx := h s
  cases hs : x s with
  | ok a s' =>
    rw [Effects.after_ok hs] at hx
    rw [Effects.after_ok (transaction_eq_ok.mpr hs)]
    exact hx
  | error e s' =>
    rw [Effects.after_error (transaction_eq_error.mpr ⟨rfl, s', hs⟩)]
    exact hR.refl s

theorem Does.discard {x : Sql violation α} (h : Effects.Does R x) : Effects.Does R (discard x) :=
  Effects.Does.bind hR h fun _ => Effects.Does.pure hR ()

end

/-! ### What is atomic -/

/-- It leaves this state as it is if it fails. -/
def AtomicAt (x : Sql violation α) (s : State violation) : Prop := ∀ e s', x s = .error e s' → s' = s

theorem atomicAt_discard {x : Sql violation α} {s : State violation} :
    AtomicAt (discard x) s ↔ AtomicAt x s := by
  have hbind : discard x = x >>= fun _ => pure () := rfl
  have herror : ∀ e s', discard x s = .error e s' ↔ x s = .error e s' := by
    intro e s'
    rw [hbind, bind_eq_error]
    constructor
    · rintro (h | ⟨a, t, _, h⟩)
      · exact h
      · cases h
    · exact Or.inl
  exact forall₂_congr fun e s' => by rw [herror]

theorem Atomic.at {x : Sql violation α} (h : Atomic x) (s : State violation) : AtomicAt x s := h s

theorem atomicAt_forM {gs : List (σ → σ)} {s : State violation} :
    AtomicAt (gs.forM execute) s ↔ ∀ s', Fails gs s s' → s' = s := by
  constructor
  · intro h s' hfails
    obtain ⟨e, he⟩ := forM_eq_error.mpr hfails
    exact h e s' he
  · intro h e s' he
    exact h s' (forM_eq_error.mp ⟨e, he⟩)

theorem Atomic.transaction (x : Sql violation α) : Atomic (transaction x) :=
  fun _ _ _ h => (transaction_eq_error.mp h).1

end Transactions
