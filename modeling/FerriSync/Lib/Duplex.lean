/-
# Two machines and two queues

Two machines write to each other through unbounded first-in first-out queues
(`Duplex`). A machine that discards messages stops once the other will write
nothing any more and its queue is empty.

Each machine is deterministic and a read takes what has arrived first, so the
steps of the two commute (`step_diamond`): what becomes of them does not
depend on the order in which they run (`ends_only_at`). A run is put together
from what each does by itself with a peer (`Reach.left`, `Reach.right`).

Key definitions: `Duplex`, `advance`, `Step`, `Move.Keeps`, `HastyStep`.
Key theorems: `step_diamond`, `Reach.left`, `Reach.right`, `Reach.keeps`, `ends_only_at`.
-/
import FerriSync.Lib.Machine
import FerriSync.Lib.RandomDescent

namespace Machine

variable {σ τ μ ε : Type}

/-- One step of a machine with a queue of arrived messages: its next state,
the queue left, and what it writes. `peerQuiet` says that no more will arrive. -/
def advance (next : σ → Move σ μ ε) (peerQuiet : Bool) (s : σ) (arrived : List μ) :
    Option (σ × List μ × List μ) :=
  match next s with
  | .halt => none
  | .tau s' => some (s', arrived, [])
  | .write m sent _ => some (sent, arrived, [m])
  | .send _ s' => some (s', arrived, [])
  | .trySend _ s' => some (s', arrived, [])
  | .read got _ =>
    match arrived with
    | [] => none
    | m :: rest => some (got m, rest, [])
  | .drain stop =>
    match arrived with
    | _ :: rest => some (s, rest, [])
    | [] => if peerQuiet then some (stop, [], []) else none

structure Duplex (σ τ μ : Type) where
  left : σ
  right : τ
  toRight : List μ
  toLeft : List μ

/-- Either machine takes a step. -/
inductive Step (nextL : σ → Move σ μ ε) (nextR : τ → Move τ μ ε) :
    Duplex σ τ μ → Duplex σ τ μ → Prop
  | left {l l' : σ} {r : τ} {lr rl rl' out : List μ} :
      advance nextL (nextR r).quiet l rl = some (l', rl', out) →
      Step nextL nextR ⟨l, r, lr, rl⟩ ⟨l', r, lr ++ out, rl'⟩
  | right {l : σ} {r r' : τ} {lr rl lr' out : List μ} :
      advance nextR (nextL l).quiet r lr = some (r', lr', out) →
      Step nextL nextR ⟨l, r, lr, rl⟩ ⟨l, r', lr', rl ++ out⟩

/-- A step is not disturbed by what arrives later, nor by the peer's falling
quiet. -/
theorem advance_append {next : σ → Move σ μ ε} {q q' : Bool} {s s' : σ} {inp inp' out : List μ}
    (h : advance next q s inp = some (s', inp', out)) (more : List μ)
    (hq : q = true → more = [] ∧ q' = true) :
    advance next q' s (inp ++ more) = some (s', inp' ++ more, out) := by
  unfold advance at h ⊢
  cases hn : next s with
  | halt => rw [hn] at h; cases h
  | tau t | send e t | trySend e t | write m t f =>
    rw [hn] at h
    simp only [Option.some.injEq, Prod.mk.injEq] at h ⊢
    obtain ⟨rfl, rfl, rfl⟩ := h
    exact ⟨rfl, rfl, rfl⟩
  | read got f =>
    rw [hn] at h
    cases inp with
    | nil => cases h
    | cons m rest =>
      simp only [Option.some.injEq, Prod.mk.injEq, List.cons_append] at h ⊢
      obtain ⟨rfl, rfl, rfl⟩ := h
      exact ⟨rfl, rfl, rfl⟩
  | drain stop =>
    rw [hn] at h
    cases inp with
    | nil =>
      cases hq' : q with
      | false => rw [hq'] at h; cases h
      | true =>
        rw [hq'] at h
        obtain ⟨rfl, rfl⟩ := hq hq'
        simpa using h
    | cons m rest =>
      simp only [Option.some.injEq, Prod.mk.injEq, List.cons_append] at h ⊢
      obtain ⟨rfl, rfl, rfl⟩ := h
      exact ⟨rfl, rfl, rfl⟩

/-- A quiet machine's step writes nothing; it stays quiet if being told to stop
leaves it so. -/
theorem advance_quiet {next : σ → Move σ μ ε} (hstop : ∀ s stop, next s = .drain stop →
    (next stop).quiet = true) {q : Bool} {s s' : σ} {inp inp' out : List μ}
    (h : advance next q s inp = some (s', inp', out)) (hq : (next s).quiet = true) :
    out = [] ∧ (next s').quiet = true := by
  unfold advance at h
  cases hn : next s with
  | halt => rw [hn] at h; cases h
  | tau t | send e t | trySend e t | write m t f | read got f => rw [hn] at hq; cases hq
  | drain stop =>
    rw [hn] at h
    cases inp with
    | nil =>
      cases q with
      | false => cases h
      | true =>
        simp only [↓reduceIte, Option.some.injEq, Prod.mk.injEq] at h
        obtain ⟨rfl, rfl, rfl⟩ := h
        exact ⟨rfl, hstop s stop hn⟩
    | cons m rest =>
      simp only [Option.some.injEq, Prod.mk.injEq] at h
      obtain ⟨rfl, rfl, rfl⟩ := h
      exact ⟨rfl, by rw [hn]; rfl⟩

section

variable {nextL : σ → Move σ μ ε} {nextR : τ → Move τ μ ε}

/-- **The steps of the two machines commute.** -/
theorem step_diamond (hL : ∀ s stop, nextL s = .drain stop → (nextL stop).quiet = true)
    (hR : ∀ s stop, nextR s = .drain stop → (nextR stop).quiet = true) :
    RandomDescent.Diamond (Step nextL nextR) := by
  intro x y z hy hz
  -- the only case with something to show: one step of each machine
  have both : ∀ {l l' : σ} {r r' : τ} {lr rl rl' lr' out out' : List μ},
      advance nextL (nextR r).quiet l rl = some (l', rl', out) →
      advance nextR (nextL l).quiet r lr = some (r', lr', out') →
      ∃ w, Step nextL nextR ⟨l', r, lr ++ out, rl'⟩ w ∧
        Step nextL nextR ⟨l, r', lr', rl ++ out'⟩ w := by
    intro l l' r r' lr rl rl' lr' out out' hl hr
    have hl' : advance nextL (nextR r').quiet l (rl ++ out') = some (l', rl' ++ out', out) :=
      advance_append hl out' fun h => advance_quiet hR hr h
    have hr' : advance nextR (nextL l').quiet r (lr ++ out) = some (r', lr' ++ out, out') :=
      advance_append hr out fun h => advance_quiet hL hl h
    exact ⟨_, .right hr', .left hl'⟩
  cases hy with
  | left hl =>
    cases hz with
    | left hl' =>
      rw [hl] at hl'
      cases hl'
      exact Or.inl rfl
    | right hr => exact Or.inr (both hl hr)
  | right hr =>
    cases hz with
    | left hl =>
      obtain ⟨w, h1, h2⟩ := both hl hr
      exact Or.inr ⟨w, h2, h1⟩
    | right hr' =>
      rw [hr] at hr'
      cases hr'
      exact Or.inl rfl

/-! ### Runs -/

abbrev Reach (nextL : σ → Move σ μ ε) (nextR : τ → Move τ μ ε) :=
  Relation.ReflTransGen (Step nextL nextR)

/-- The left machine does what it does with a peer, while the right one waits. -/
theorem Reach.left {l l' : σ} {ins outs : List μ} (h : Does nextL l ins outs l') :
    ∀ (r : τ) (lr rl : List μ),
      Reach nextL nextR ⟨l, r, lr, ins ++ rl⟩ ⟨l', r, lr ++ outs, rl⟩ := by
  induction h with
  | nothing s => intro r lr rl; rw [List.append_nil]; exact .refl
  | @silent s s' t ins outs hs _ ih =>
    intro r lr rl
    have hstep : advance nextL (nextR r).quiet s (ins ++ rl) = some (s', ins ++ rl, []) := by
      unfold advance
      cases hn : nextL s with
      | tau t | send e t | trySend e t => rw [hn] at hs; cases hs; rfl
      | halt | write m t f | read got f | drain o => rw [hn] at hs; cases hs
    refine .head (.left hstep) ?_
    rw [List.append_nil]
    exact ih r lr rl
  | @write s sent failed t m ins outs hw _ ih =>
    intro r lr rl
    have hstep : advance nextL (nextR r).quiet s (ins ++ rl) = some (sent, ins ++ rl, [m]) := by
      simp only [advance, hw]
    have hrest := ih r (lr ++ [m]) rl
    rw [List.append_assoc] at hrest
    exact .head (.left hstep) hrest
  | @read s failed t got m ins outs hr _ ih =>
    intro r lr rl
    have hstep : advance nextL (nextR r).quiet s (m :: ins ++ rl) = some (got m, ins ++ rl, []) := by
      simp only [advance, hr, List.cons_append]
    refine .head (.left hstep) ?_
    rw [List.append_nil]
    exact ih r lr rl
  | @discard s stop t m ins outs hd _ ih =>
    intro r lr rl
    have hstep : advance nextL (nextR r).quiet s (m :: ins ++ rl) = some (s, ins ++ rl, []) := by
      simp only [advance, hd, List.cons_append]
    refine .head (.left hstep) ?_
    rw [List.append_nil]
    exact ih r lr rl

/-- Exchange the two machines. -/
def Duplex.swap (d : Duplex σ τ μ) : Duplex τ σ μ := ⟨d.right, d.left, d.toLeft, d.toRight⟩

theorem Step.swap {d d' : Duplex σ τ μ} (h : Step nextL nextR d d') :
    Step nextR nextL d.swap d'.swap := by
  cases h with
  | left h => exact .right h
  | right h => exact .left h

theorem Reach.swap {d d' : Duplex σ τ μ} (h : Reach nextL nextR d d') :
    Reach nextR nextL d.swap d'.swap :=
  Relation.ReflTransGen.lift Duplex.swap (fun _ _ hs => Step.swap hs) d d' h

/-- The right machine does what it does with a peer, while the left one waits. -/
theorem Reach.right {r r' : τ} {ins outs : List μ} (h : Does nextR r ins outs r')
    (l : σ) (lr rl : List μ) :
    Reach nextL nextR ⟨l, r, ins ++ lr, rl⟩ ⟨l, r', lr, rl ++ outs⟩ :=
  (Reach.left h l rl lr).swap

/-- The machines take turns, each with what the other has written. -/
theorem Reach.turns {l0 l1 l2 l3 : σ} {r0 r1 r2 : τ} {a b c d out : List μ}
    (h1 : Does nextL l0 [] a l1) (h2 : Does nextR r0 a b r1) (h3 : Does nextL l1 b c l2)
    (h4 : Does nextR r1 c d r2) (h5 : Does nextL l2 d out l3) :
    Reach nextL nextR ⟨l0, r0, [], []⟩ ⟨l3, r2, out, []⟩ := by
  have s1 : Reach nextL nextR ⟨l0, r0, [], []⟩ ⟨l1, r0, a, []⟩ := by
    simpa using Reach.left h1 r0 [] []
  have s2 : Reach nextL nextR ⟨l1, r0, a, []⟩ ⟨l1, r1, [], b⟩ := by
    simpa using Reach.right h2 l1 [] []
  have s3 : Reach nextL nextR ⟨l1, r1, [], b⟩ ⟨l2, r1, c, []⟩ := by
    simpa using Reach.left h3 r1 [] []
  have s4 : Reach nextL nextR ⟨l2, r1, c, []⟩ ⟨l2, r2, [], d⟩ := by
    simpa using Reach.right h4 l2 [] []
  have s5 : Reach nextL nextR ⟨l2, r2, [], d⟩ ⟨l3, r2, out, []⟩ := by
    simpa using Reach.left h5 r2 [] []
  exact s1.trans (s2.trans (s3.trans (s4.trans s5)))

/-- Two machines that only discard messages stop. -/
theorem Reach.stop {l l' : σ} {r r' : τ} (hl : nextL l = .drain l') (hr : nextR r = .drain r')
    (hl' : nextL l' = .halt) : Reach nextL nextR ⟨l, r, [], []⟩ ⟨l', r', [], []⟩ := by
  have hleft : advance nextL (nextR r).quiet l [] = some (l', [], []) := by
    simp only [advance, hl, hr, Move.quiet, if_true]
  have hright : advance nextR (nextL l').quiet r [] = some (r', [], []) := by
    simp only [advance, hr, hl', Move.quiet, if_true]
  exact .head (.left hleft) (.single (.right hright))

/-- A machine that has halted stays as it is. -/
theorem Reach.right_halted {d d' : Duplex σ τ μ} (hr : nextR d.right = .halt)
    (h : Reach nextL nextR d d') : d'.right = d.right := by
  induction h with
  | refl => rfl
  | tail _ hs ih =>
    cases hs with
    | left _ => exact ih
    | right hadv =>
      simp only at ih
      rw [ih] at hadv
      simp only [advance, hr] at hadv
      cases hadv

/-- A move leaves `inv` true and writes what `tells` allows, if it reads only what
`hears` allows. -/
def Move.Keeps (inv : σ → Prop) (hears tells : μ → Prop) : Move σ μ ε → Prop
  | halt => True
  | tau s => inv s
  | write m sent _ => inv sent ∧ tells m
  | send _ s => inv s
  | trySend _ s => inv s
  | read got _ => ∀ m, hears m → inv (got m)
  | drain stop => inv stop

theorem Move.Keeps.advance {next : σ → Move σ μ ε} {inv : σ → Prop} {hears tells : μ → Prop} {q : Bool}
    {s s' : σ} {inp inp' out : List μ} (h : (next s).Keeps inv hears tells)
    (hadv : advance next q s inp = some (s', inp', out)) (hs : inv s) (hinp : ∀ m ∈ inp, hears m) :
    inv s' ∧ (∀ m ∈ inp', hears m) ∧ ∀ m ∈ out, tells m := by
  unfold Machine.advance at hadv
  cases hn : next s with
  | halt =>
    rw [hn] at hadv
    cases hadv
  | tau t | send e t | trySend e t =>
    rw [hn] at hadv h
    cases hadv
    exact ⟨h, hinp, by simp⟩
  | write m sent failed =>
    rw [hn] at hadv h
    cases hadv
    exact ⟨h.1, hinp, by simpa using h.2⟩
  | read got failed =>
    rw [hn] at hadv h
    cases inp with
    | nil => cases hadv
    | cons m rest =>
      cases hadv
      exact ⟨h m (hinp m (List.mem_cons_self ..)), fun x hx => hinp x (List.mem_cons_of_mem m hx),
        by simp⟩
  | drain stop =>
    rw [hn] at hadv h
    cases inp with
    | nil =>
      cases q with
      | false => cases hadv
      | true =>
        cases hadv
        exact ⟨h, by simp, by simp⟩
    | cons m rest =>
      cases hadv
      exact ⟨hs, fun x hx => hinp x (List.mem_cons_of_mem m hx), by simp⟩

/-- **Each machine keeps its invariant if it relies on no more of the messages
than the other guarantees.** -/
theorem Reach.keeps {invL : σ → Prop} {invR : τ → Prop} {fromL fromR : μ → Prop}
    (hl : ∀ s, invL s → (nextL s).Keeps invL fromR fromL)
    (hr : ∀ s, invR s → (nextR s).Keeps invR fromL fromR) {d d' : Duplex σ τ μ}
    (h : Reach nextL nextR d d')
    (hd : invL d.left ∧ invR d.right ∧ (∀ m ∈ d.toRight, fromL m) ∧ ∀ m ∈ d.toLeft, fromR m) :
    invL d'.left ∧ invR d'.right ∧ (∀ m ∈ d'.toRight, fromL m) ∧ ∀ m ∈ d'.toLeft, fromR m := by
  induction h with
  | refl => exact hd
  | tail _ hs ih =>
    obtain ⟨hleft, hright, htoRight, htoLeft⟩ := ih
    cases hs with
    | left hadv =>
      obtain ⟨hleft', hrest, hout⟩ := (hl _ hleft).advance hadv hleft htoLeft
      exact ⟨hleft', hright, List.forall_mem_append.mpr ⟨htoRight, hout⟩, hrest⟩
    | right hadv =>
      obtain ⟨hright', hrest, hout⟩ := (hr _ hright).advance hadv hright htoRight
      exact ⟨hleft, hright', hrest, List.forall_mem_append.mpr ⟨htoLeft, hout⟩⟩

/-- A step of the two machines, where a machine that discards messages may stop
at any moment. -/
inductive HastyStep (nextL : σ → Move σ μ ε) (nextR : τ → Move τ μ ε) :
    Duplex σ τ μ → Duplex σ τ μ → Prop
  | step {d d' : Duplex σ τ μ} : Step nextL nextR d d' → HastyStep nextL nextR d d'
  | stopLeft {l l' : σ} {r : τ} {lr rl : List μ} :
      nextL l = .drain l' → HastyStep nextL nextR ⟨l, r, lr, rl⟩ ⟨l', r, lr, rl⟩
  | stopRight {l : σ} {r r' : τ} {lr rl : List μ} :
      nextR r = .drain r' → HastyStep nextL nextR ⟨l, r, lr, rl⟩ ⟨l, r', lr, rl⟩

abbrev HastyReach (nextL : σ → Move σ μ ε) (nextR : τ → Move τ μ ε) :=
  Relation.ReflTransGen (HastyStep nextL nextR)

theorem HastyReach.of_reach {d d' : Duplex σ τ μ} (h : Reach nextL nextR d d') :
    HastyReach nextL nextR d d' := Relation.ReflTransGen.mono (fun _ _ hs => .step hs) d d' h

/-- Two machines that have halted take no step. -/
theorem final_of_halt {d : Duplex σ τ μ} (hl : nextL d.left = .halt) (hr : nextR d.right = .halt) :
    RandomDescent.Final (Step nextL nextR) d := by
  intro y hy
  cases hy with
  | left h =>
    simp only [advance, hl] at h
    cases h
  | right h =>
    simp only [advance, hr] at h
    cases h

/-- **If one run ends, every run ends there.** No run goes on forever, and a
state that cannot go on is that end. -/
theorem ends_only_at (hL : ∀ s stop, nextL s = .drain stop → (nextL stop).quiet = true)
    (hR : ∀ s stop, nextR s = .drain stop → (nextR stop).quiet = true) {d e : Duplex σ τ μ}
    (h : Reach nextL nextR d e) (he : RandomDescent.Final (Step nextL nextR) e) :
    (∀ f : ℕ → Duplex σ τ μ, f 0 = d → ¬ ∀ i, Step nextL nextR (f i) (f (i + 1))) ∧
      ∀ x, Reach nextL nextR d x → RandomDescent.Final (Step nextL nextR) x → x = e := by
  obtain ⟨n, hn⟩ := RandomDescent.StepsTo.of_reflTransGen h
  have hd := step_diamond hL hR
  exact ⟨fun f h0 => hn.no_infinite_run hd he f h0, fun x hx hf => hn.unique_end hd he hx hf⟩

end

end Machine
