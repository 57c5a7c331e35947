/-
# A machine whose peer has stopped

From some moment on the peer neither sends nor reads. What it has sent before
lies ready (`arrived`), and what the connection takes without being read, it takes
(`room`); then a machine that reads or writes waits. Where a timer is armed its
expiry counts as a failure of the connection, where none is the machine waits for
ever (`Silent.step`).

If every move but taking a message leads downwards (`Descends`), the machine comes
to its end exactly if it never waits without a timer (`guarded_iff_ends`). If
besides no write has a timer, and a machine whose wait has expired only winds up,
it never does so exactly if what it writes on what has arrived fits, and if, all
that read, it does not read on without a timer (`guarded_iff`).

Key definitions: `Timed`, `Silent`, `Silent.Guarded`, `Silent.Ends`.
Key theorems: `guarded_iff_ends`, `guarded_iff`.
-/
import FerriSync.Lib.Machine
import Mathlib.Algebra.GroupWithZero.Nat
import Mathlib.Data.Prod.Lex
import Mathlib.Order.WellFounded
import Mathlib.Tactic.Common

namespace Machine

variable {σ μ ε : Type}

/-- A machine, the bytes that its messages take, and the timers that are armed. -/
structure Timed (σ μ ε : Type) where
  next : σ → Move σ μ ε
  size : μ → ℕ
  /-- The time limit on waiting in a state. -/
  timer : σ → Option ℕ

/-- A machine whose peer has stopped. -/
structure Silent (σ μ : Type) where
  state : σ
  arrived : List μ
  room : ℕ

/-- What the move leads to if there is nothing to read. -/
def Move.onward (P : σ → Prop) : Move σ μ ε → Prop
  | .halt => True
  | .tau s | .send _ s | .trySend _ s => P s
  | .write _ sent failed => P sent ∧ P failed
  | .read _ failed => P failed
  | .drain stop => P stop

/-- What the move leads to. -/
def Move.leads (P : σ → Prop) : Move σ μ ε → Prop
  | .read got failed => (∀ m, P (got m)) ∧ P failed
  | m => m.onward P

/-- The move takes messages from the peer. -/
def Move.takes : Move σ μ ε → Bool
  | .read _ _ | .drain _ => true
  | _ => false

/-- Every move but taking a message leads downwards. -/
def Descends {α : Type} [LT α] (next : σ → Move σ μ ε) (rank : σ → α) : Prop :=
  ∀ s, (next s).onward fun s' => rank s' < rank s

/-- The bytes of messages. -/
def Timed.bytes (t : Timed σ μ ε) (ms : List μ) : ℕ := (ms.map t.size).sum

namespace Silent

variable (t : Timed σ μ ε) (d : Silent σ μ)

/-- The state after an expiry, if a timer is armed. -/
def expire (s : σ) : Silent σ μ := if (t.timer d.state).isSome then { d with state := s } else d

def step : Silent σ μ :=
  match t.next d.state with
  | .halt => d
  | .tau s | .send _ s | .trySend _ s => { d with state := s }
  | .write m sent failed =>
    if t.size m ≤ d.room then ⟨sent, d.arrived, d.room - t.size m⟩ else d.expire t failed
  | .read got failed =>
    match d.arrived with
    | m :: rest => ⟨got m, rest, d.room⟩
    | [] => d.expire t failed
  | .drain stop =>
    match d.arrived with
    | _ :: rest => { d with arrived := rest }
    | [] => d.expire t stop

/-- It can only go on if the peer does something. -/
def waits : Bool :=
  match t.next d.state with
  | .write m _ _ => decide (d.room < t.size m)
  | .read _ _ | .drain _ => d.arrived.isEmpty
  | _ => false

def run : ℕ → Silent σ μ → Silent σ μ
  | 0, d => d
  | n + 1, d => run n (d.step t)

/-- Wherever it waits, a timer is armed. -/
def Guarded : Prop := ∀ n, (run t n d).waits t = true → (t.timer (run t n d).state).isSome = true

/-- It comes to its end. -/
def Ends : Prop := ∃ n, t.next (run t n d).state = .halt

/-- What it writes on what has arrived is taken. -/
def Fits : Prop :=
  ∀ ins outs s, ins <+: d.arrived → Does t.next d.state ins outs s → t.bytes outs ≤ d.room

/-- All that has arrived read, it reads on only if a timer is armed. -/
def Opened : Prop :=
  ∀ outs s, Does t.next d.state d.arrived outs s → (t.next s).takes = true → (t.timer s).isSome = true

end Silent

section

variable {t : Timed σ μ ε} {d : Silent σ μ}

open Silent

@[simp] theorem Timed.bytes_nil : t.bytes [] = 0 := rfl

@[simp] theorem Timed.bytes_cons (m : μ) (ms : List μ) : t.bytes (m :: ms) = t.size m + t.bytes ms := by
  simp [Timed.bytes]

theorem Silent.run_add (m n : ℕ) : run t (m + n) d = run t n (run t m d) := by
  induction m generalizing d with
  | zero => rw [Nat.zero_add]; rfl
  | succ m ih =>
    rw [Nat.add_right_comm]
    exact ih

/-- Where nothing changes any more. -/
theorem Silent.run_fixed (h : d.step t = d) (n : ℕ) : run t n d = d := by
  induction n with
  | zero => rfl
  | succ n ih =>
    have : run t (n + 1) d = run t n (d.step t) := rfl
    rw [this, h, ih]

theorem Silent.step_halt (h : t.next d.state = .halt) : d.step t = d := by
  unfold step
  rw [h]

theorem Silent.Guarded.step (h : d.Guarded t) : (d.step t).Guarded t := fun n => h (n + 1)

theorem Silent.Guarded.now (h : d.Guarded t) (hwaits : d.waits t = true) :
    (t.timer d.state).isSome = true := h 0 hwaits

theorem Silent.expire_eq (h : (t.timer d.state).isSome = true) (s : σ) :
    d.expire t s = { d with state := s } := if_pos h

/-! ### What every move keeps -/

theorem leads_of_step {next : σ → Move σ μ ε} {P : σ → Prop} {s : σ}
    (h : ∀ i, P (Machine.step next s i)) : (next s).leads P := by
  unfold Machine.step at h
  cases hnext : next s with
  | halt => trivial
  | tau s' | send e s' | trySend e s' =>
    rw [hnext] at h
    exact h .go
  | write m sent failed =>
    rw [hnext] at h
    exact ⟨h .go, h .failed⟩
  | read got failed =>
    rw [hnext] at h
    exact ⟨fun m => h (.message m), h .failed⟩
  | drain stop =>
    rw [hnext] at h
    exact h .failed

variable {next : σ → Move σ μ ε} {I : σ → Prop}

theorem step_leads (hleads : ∀ s, I s → (next s).leads I) {s : σ} (hs : I s) (i : Input μ) :
    I (Machine.step next s i) := by
  have h := hleads s hs
  unfold Machine.step
  cases hnext : next s with
  | halt => cases i <;> exact hs
  | tau s' | send e s' | trySend e s' =>
    rw [hnext] at h
    cases i with
    | go => exact h
    | _ => exact hs
  | write m sent failed =>
    rw [hnext] at h
    cases i with
    | go => exact h.1
    | failed => exact h.2
    | message m => exact hs
  | read got failed =>
    rw [hnext] at h
    cases i with
    | go => exact hs
    | failed => exact h.2
    | message m => exact h.1 m
  | drain stop =>
    rw [hnext] at h
    cases i with
    | failed => exact h
    | _ => exact hs

/-- What every move keeps, a run keeps. -/
theorem run_leads (hleads : ∀ s, I s → (next s).leads I) {s : σ} (hs : I s) (is : List (Input μ)) :
    I (Machine.run next s is) :=
  run_inv (I := I) (P := fun _ => True) (fun _ i h _ => step_leads hleads h i) hs fun _ _ => trivial

theorem Does.leads (hleads : ∀ s, I s → (next s).leads I) {s u : σ} {ins outs : List μ}
    (hdoes : Does next s ins outs u) (hs : I s) : I u := by
  induction hdoes with
  | nothing => exact hs
  | @silent s s' u ins outs hsilent _ ih =>
    have h := hleads s hs
    apply ih
    cases hnext : next s <;> rw [hnext] at hsilent h <;> cases hsilent <;> exact h
  | @write s sent failed u m ins outs hnext _ ih =>
    have h := hleads s hs
    rw [hnext] at h
    exact ih h.1
  | @read s failed u got m ins outs hnext _ ih =>
    have h := hleads s hs
    rw [hnext] at h
    exact ih (h.1 m)
  | discard _ _ ih => exact ih hs

/-! ### Waiting and ending -/

/-- Without a timer, a wait is for ever. -/
theorem Silent.step_waits (hwaits : d.waits t = true) (htimer : (t.timer d.state).isSome = false) :
    d.step t = d := by
  have hexpire : ∀ s, d.expire t s = d := fun s => by
    unfold expire
    rw [htimer]
    rfl
  unfold Silent.waits at hwaits
  unfold Silent.step
  split at hwaits
  · rename_i m sent failed hnext
    rw [hnext]
    have hroom : ¬t.size m ≤ d.room := by
      have := of_decide_eq_true hwaits
      omega
    dsimp only
    rw [if_neg hroom, hexpire]
  · rename_i got failed hnext
    rw [hnext, List.isEmpty_iff.mp hwaits]
    exact hexpire failed
  · rename_i stop hnext
    rw [hnext, List.isEmpty_iff.mp hwaits]
    exact hexpire stop
  · cases hwaits

/-- Every step of a machine that does not wait without a timer leads downwards: a
message is taken, or the rank falls. -/
theorem Silent.step_descends {α : Type} [Preorder α] {rank : σ → α} (hdown : Descends t.next rank)
    (hlive : t.next d.state ≠ .halt)
    (hguard : d.waits t = true → (t.timer d.state).isSome = true) :
    (d.step t).arrived.length < d.arrived.length ∨
      (d.step t).arrived = d.arrived ∧ rank (d.step t).state < rank d.state := by
  have hrank := hdown d.state
  unfold Silent.waits at hguard
  unfold Silent.step
  cases hnext : t.next d.state with
  | halt => exact absurd hnext hlive
  | tau s | send e s | trySend e s =>
    rw [hnext] at hrank
    exact Or.inr ⟨rfl, hrank⟩
  | write m sent failed =>
    rw [hnext] at hrank hguard
    dsimp only
    by_cases hfits : t.size m ≤ d.room
    · rw [if_pos hfits]
      exact Or.inr ⟨rfl, hrank.1⟩
    · have htimer := hguard (decide_eq_true (by omega))
      rw [if_neg hfits, expire_eq htimer]
      exact Or.inr ⟨rfl, hrank.2⟩
  | read got failed =>
    rw [hnext] at hrank hguard
    rcases harrived : d.arrived with _ | ⟨m, rest⟩
    · rw [harrived] at hguard
      have htimer := hguard rfl
      dsimp only
      rw [expire_eq htimer]
      exact Or.inr ⟨harrived, hrank⟩
    · exact Or.inl (by simp)
  | drain stop =>
    rw [hnext] at hrank hguard
    rcases harrived : d.arrived with _ | ⟨m, rest⟩
    · rw [harrived] at hguard
      have htimer := hguard rfl
      dsimp only
      rw [expire_eq htimer]
      exact Or.inr ⟨harrived, hrank⟩
    · exact Or.inl (by simp)

/-- **It comes to its end exactly if it never waits without a timer.** -/
theorem guarded_iff_ends {α : Type} [Preorder α] [WellFoundedLT α] {rank : σ → α}
    (hdown : Descends t.next rank) : d.Guarded t ↔ d.Ends t := by
  constructor
  · -- By induction on the messages left, then on the rank.
    intro h
    have hwf : WellFounded fun a b : ℕ × α => Prod.Lex (· < ·) (· < ·) a b :=
      WellFounded.prod_lex wellFounded_lt wellFounded_lt
    induction hmeasure : (d.arrived.length, rank d.state) using hwf.induction generalizing d with
    | _ measure ih =>
    subst hmeasure
    by_cases hlive : t.next d.state = .halt
    · exact ⟨0, hlive⟩
    · have hless : Prod.Lex (· < ·) (· < ·) ((d.step t).arrived.length, rank (d.step t).state)
          (d.arrived.length, rank d.state) := by
        rcases step_descends hdown hlive h.now with hfewer | ⟨hsame, hlower⟩
        · exact Prod.Lex.left _ _ hfewer
        · rw [hsame]
          exact Prod.Lex.right _ hlower
      obtain ⟨n, hn⟩ := ih _ hless h.step rfl
      exact ⟨n + 1, hn⟩
  · rintro ⟨n, hn⟩ k hwaits
    by_contra htimer
    have hfixed := step_waits hwaits (Bool.not_eq_true _ ▸ htimer)
    have hsame : Silent.run t (k + n) d = Silent.run t k d := by
      rw [run_add, run_fixed hfixed]
    have hend : Silent.run t (n + k) d = Silent.run t n d := by
      rw [run_add, run_fixed (step_halt hn)]
    have hhalt : t.next (Silent.run t k d).state = .halt := by
      rw [← hsame, Nat.add_comm, hend, hn]
    unfold Silent.waits at hwaits
    rw [hhalt] at hwaits
    cases hwaits

/-! ### Exactly when it is guarded -/

/-- What the machine does on what has arrived, it does while its peer is silent. -/
theorem Silent.Guarded.does {ins outs : List μ} {s u : σ} {arrived : List μ} {room : ℕ}
    (hwrites : ∀ s m sent failed, t.next s = .write m sent failed → t.timer s = none)
    (h : Guarded t ⟨s, arrived, room⟩) (hins : ins <+: arrived) (hdoes : Does t.next s ins outs u) :
    t.bytes outs ≤ room ∧ ∃ n, Silent.run t n ⟨s, arrived, room⟩ =
      ⟨u, arrived.drop ins.length, room - t.bytes outs⟩ := by
  induction hdoes generalizing arrived room with
  | nothing s => exact ⟨Nat.zero_le _, 0, rfl⟩
  | @silent s s' u ins outs hsilent _ ih =>
    have hstep : Silent.step t ⟨s, arrived, room⟩ = ⟨s', arrived, room⟩ := by
      unfold Silent.step
      cases hnext : t.next s <;> rw [hnext] at hsilent <;> cases hsilent <;> rfl
    have hguarded := h.step
    rw [hstep] at hguarded
    obtain ⟨hle, n, hn⟩ := ih hguarded hins
    refine ⟨hle, n + 1, ?_⟩
    rw [← hn, ← hstep]
    rfl
  | @write s sent failed u m ins outs hnext _ ih =>
    have hfits : t.size m ≤ room := by
      by_contra hlarge
      have hwaits : Silent.waits t ⟨s, arrived, room⟩ = true := by
        unfold Silent.waits
        rw [hnext]
        exact decide_eq_true (Nat.lt_of_not_le hlarge)
      have htimer := h.now hwaits
      rw [hwrites s m sent failed hnext] at htimer
      cases htimer
    have hstep : Silent.step t ⟨s, arrived, room⟩ = ⟨sent, arrived, room - t.size m⟩ := by
      unfold Silent.step
      rw [hnext]
      exact if_pos hfits
    have hguarded := h.step
    rw [hstep] at hguarded
    obtain ⟨hle, n, hn⟩ := ih hguarded hins
    rw [Timed.bytes_cons, ← Nat.sub_sub]
    refine ⟨by omega, n + 1, ?_⟩
    rw [← hn, ← hstep]
    rfl
  | @read s failed u got m ins outs hnext _ ih =>
    obtain ⟨rest, rfl⟩ := hins
    have hstep : Silent.step t ⟨s, m :: (ins ++ rest), room⟩ = ⟨got m, ins ++ rest, room⟩ := by
      unfold Silent.step
      rw [hnext]
    have hguarded := h.step
    rw [List.cons_append, hstep] at hguarded
    obtain ⟨hle, n, hn⟩ := ih hguarded (List.prefix_append ins rest)
    refine ⟨hle, n + 1, ?_⟩
    rw [List.cons_append, List.length_cons, List.drop_succ_cons, ← hn, ← hstep]
    rfl
  | @discard s stop u m ins outs hnext _ ih =>
    obtain ⟨rest, rfl⟩ := hins
    have hstep : Silent.step t ⟨s, m :: (ins ++ rest), room⟩ = ⟨s, ins ++ rest, room⟩ := by
      unfold Silent.step
      rw [hnext]
    have hguarded := h.step
    rw [List.cons_append, hstep] at hguarded
    obtain ⟨hle, n, hn⟩ := ih hguarded (List.prefix_append ins rest)
    refine ⟨hle, n + 1, ?_⟩
    rw [List.cons_append, List.length_cons, List.drop_succ_cons, ← hn, ← hstep]
    rfl

/-- A machine that only winds up: it writes nothing, and reads only with a timer. -/
structure WindsUp (t : Timed σ μ ε) (closed : σ → Prop) : Prop where
  silent : ∀ {s s'}, closed s → (t.next s).silent = some s' → closed s'
  write : ∀ {s m sent failed}, closed s → t.next s ≠ .write m sent failed
  timer : ∀ {s}, closed s → (t.next s).takes = true → (t.timer s).isSome = true
  /-- An expiry has it wind up. -/
  read : ∀ {s got failed}, t.next s = .read got failed → (t.timer s).isSome = true → closed failed
  drain : ∀ {s stop}, t.next s = .drain stop → (t.timer s).isSome = true → closed stop

/-- What keeps it from waiting without a timer. -/
def Kept (t : Timed σ μ ε) (closed : σ → Prop) (d : Silent σ μ) : Prop :=
  d.Fits t ∧ d.Opened t ∨ closed d.state ∧ d.arrived = []

theorem Kept.timer {closed : σ → Prop} (hwinds : WindsUp t closed) (h : Kept t closed d)
    (hwaits : d.waits t = true) : (t.timer d.state).isSome = true := by
  unfold Silent.waits at hwaits
  rcases h with ⟨hfits, hopened⟩ | ⟨hclosed, harrived⟩
  · cases hnext : t.next d.state with
    | write m sent failed =>
      rw [hnext] at hwaits
      have hle := hfits [] [m] sent List.nil_prefix (.write hnext (.nothing sent))
      have hlt := of_decide_eq_true hwaits
      rw [Timed.bytes_cons, Timed.bytes_nil] at hle
      omega
    | read got failed | drain stop =>
      rw [hnext] at hwaits
      have hdone : Does t.next d.state d.arrived [] d.state := by
        rw [List.isEmpty_iff.mp hwaits]
        exact .nothing d.state
      exact hopened [] d.state hdone (by rw [hnext]; rfl)
    | _ => rw [hnext] at hwaits; cases hwaits
  · cases hnext : t.next d.state with
    | write m sent failed => exact absurd hnext (hwinds.write hclosed)
    | read got failed | drain stop => exact hwinds.timer hclosed (by rw [hnext]; rfl)
    | _ => rw [hnext] at hwaits; cases hwaits

/-- A step to a state from which it does what it did before. -/
theorem Kept.onwards {closed : σ → Prop} {s : σ} {rest : List μ} (ins : List μ) (used : ℕ)
    (harrived : d.arrived = ins ++ rest)
    (hdoes : ∀ {is os u}, Does t.next s is os u →
      ∃ out, t.bytes out = used ∧ Does t.next d.state (ins ++ is) (out ++ os) u)
    (h : d.Fits t ∧ d.Opened t) : Kept t closed ⟨s, rest, d.room - used⟩ := by
  have hbytes : ∀ out os : List μ, t.bytes (out ++ os) = t.bytes out + t.bytes os := by
    intro out os
    simp [Timed.bytes]
  refine Or.inl ⟨fun is os u his hrest => ?_, fun os u hrest => ?_⟩
  · obtain ⟨out, hused, hall⟩ := hdoes hrest
    have hle := h.1 _ _ u (harrived ▸ (List.prefix_append_right_inj ins).mpr his) hall
    rw [hbytes] at hle
    show t.bytes os ≤ d.room - used
    omega
  · obtain ⟨out, hused, hall⟩ := hdoes hrest
    exact h.2 _ u (harrived ▸ hall)

theorem Kept.step {closed : σ → Prop} (hwinds : WindsUp t closed) (h : Kept t closed d) :
    Kept t closed (d.step t) := by
  have hguard := Kept.timer hwinds h
  have hread : ∀ {got failed}, t.next d.state = .read got failed → d.arrived = [] →
      closed failed := fun hnext harrived =>
    hwinds.read hnext (hguard (by unfold Silent.waits; rw [hnext, harrived]; rfl))
  have hdrain : ∀ {stop}, t.next d.state = .drain stop → d.arrived = [] → closed stop :=
    fun hnext harrived => hwinds.drain hnext (hguard (by unfold Silent.waits; rw [hnext, harrived]; rfl))
  have hexpire : ∀ s, d.waits t = true → closed s → d.arrived = [] →
      Kept t closed (d.expire t s) := by
    intro s hwaits hclosed harrived
    rw [expire_eq (hguard hwaits)]
    exact Or.inr ⟨hclosed, harrived⟩
  unfold Silent.step
  cases hnext : t.next d.state with
  | halt => exact h
  | tau s | send e s | trySend e s =>
    rcases h with h | ⟨hclosed, harrived⟩
    · exact .onwards [] 0 rfl
        (fun hrest => ⟨[], rfl, .silent (by rw [hnext]; rfl) hrest⟩) h
    · exact Or.inr ⟨hwinds.silent hclosed (by rw [hnext]; rfl), harrived⟩
  | write m sent failed =>
    rcases h with h | ⟨hclosed, harrived⟩
    · have hle := h.1 [] [m] sent List.nil_prefix (.write hnext (.nothing sent))
      rw [Timed.bytes_cons, Timed.bytes_nil, Nat.add_zero] at hle
      dsimp only
      rw [if_pos hle]
      exact .onwards [] (t.size m) rfl (fun hrest => ⟨[m], by simp, .write hnext hrest⟩) h
    · exact absurd hnext (hwinds.write hclosed)
  | read got failed =>
    rcases harrived : d.arrived with _ | ⟨m, rest⟩
    · exact hexpire failed (by unfold Silent.waits; rw [hnext, harrived]; rfl) (hread hnext harrived) harrived
    · rcases h with h | ⟨_, hnone⟩
      · exact .onwards [m] 0 harrived
          (fun hrest => ⟨[], rfl, .read hnext hrest⟩) h
      · rw [harrived] at hnone
        cases hnone
  | drain stop =>
    rcases harrived : d.arrived with _ | ⟨m, rest⟩
    · exact hexpire stop (by unfold Silent.waits; rw [hnext, harrived]; rfl) (hdrain hnext harrived) harrived
    · rcases h with h | ⟨_, hnone⟩
      · exact .onwards [m] 0 harrived
          (fun hrest => ⟨[], rfl, .discard hnext hrest⟩) h
      · rw [harrived] at hnone
        cases hnone

theorem Kept.run {closed : σ → Prop} (hwinds : WindsUp t closed) (h : Kept t closed d) (n : ℕ) :
    Kept t closed (Silent.run t n d) := by
  induction n generalizing d with
  | zero => exact h
  | succ n ih => exact ih (h.step hwinds)

/-- **It never waits without a timer exactly if what it writes is taken and what it
waits for without one has come.** -/
theorem guarded_iff {closed : σ → Prop}
    (hwrites : ∀ s m sent failed, t.next s = .write m sent failed → t.timer s = none)
    (hwinds : WindsUp t closed) : d.Guarded t ↔ d.Fits t ∧ d.Opened t := by
  constructor
  · intro h
    refine ⟨fun ins outs s hins hdoes => (h.does hwrites hins hdoes).1, fun outs s hdoes htakes => ?_⟩
    obtain ⟨_, n, hn⟩ := h.does hwrites List.prefix_rfl hdoes
    have hguard := h n
    rw [hn] at hguard
    refine hguard ?_
    unfold Silent.waits
    rw [List.drop_length]
    dsimp only
    cases hnext : t.next s with
    | read got failed | drain stop => rfl
    | _ => rw [hnext] at htakes; cases htakes
  · intro h n hwaits
    exact (Kept.run hwinds (Or.inl h) n).timer hwinds hwaits

end

end Machine
