/-
# Two machines and two bounded channels

Two machines write to each other through first-in first-out channels of bytes,
each of a capacity of its own (`Line`). A machine puts the bytes of a message
on its channel one by one, and cannot go on while it is full; it takes bytes
from the other, and cannot go on while that is empty. Of the bytes of a
message only the last one tells which message it is.

Each machine first writes some messages and reads none. Both can be blocked
before both have written theirs if, and only if, one of them, having read a
part of the other's, writes more than its channel holds while the rest of the
other's is more than the other channel holds (`stuck_only_after_iff`).

Key definitions: `Endpoint`, `Port`, `Acts`, `Line`, `Stuck`, `Fits`.
Key theorems: `Endpoint.Acts.keeps`, `exists_overflow`, `stuck_only_after_iff`, `fits_iff`.
-/
import FerriSync.Lib.Conversation
import Mathlib.Algebra.GroupWithZero.Nat

namespace Machine

variable {σ τ μ ε : Type}

/-- What stands before the first complete message, and which one it is. -/
theorem replicate_some_inj {k j : ℕ} {m m' : μ} {xs ys : List (Option μ)}
    (h : List.replicate k none ++ some m :: xs = List.replicate j none ++ some m' :: ys) :
    k = j ∧ m = m' ∧ xs = ys := by
  induction k generalizing j with
  | zero =>
    cases j with
    | zero =>
      obtain ⟨hm, hxs⟩ := List.cons.inj h
      exact ⟨rfl, Option.some.inj hm, hxs⟩
    | succ j => cases (List.cons.inj h).1
  | succ k ih =>
    cases j with
    | zero => cases (List.cons.inj h).1
    | succ j =>
      obtain ⟨hk, hm, hxs⟩ := ih (List.cons.inj h).2
      exact ⟨congrArg Nat.succ hk, hm, hxs⟩

/-- A machine, how long its messages are, and how many bytes the channel holds
to which it writes them. -/
structure Endpoint (σ μ ε : Type) where
  next : σ → Move σ μ ε
  size : μ → ℕ
  cap : ℕ
  /-- A machine that is told to stop does nothing more. -/
  stops : ∀ s stop, next s = .drain stop → next stop = .halt

/-- A machine at work. -/
structure Port (σ μ : Type) where
  state : σ
  /-- What is left of the message it is writing. -/
  unsent : List (Option μ) := []
  /-- How many bytes it has put on its channel. -/
  written : ℕ := 0

namespace Endpoint

variable (A : Endpoint σ μ ε)

/-- The bytes of a message: the last one completes it. -/
def frame (m : μ) : List (Option μ) := List.replicate (A.size m - 1) none ++ [some m]

def wire (ms : List μ) : List (Option μ) := ms.flatMap A.frame

theorem frame_ne_nil (m : μ) : A.frame m ≠ [] := by simp [frame]

theorem frame_length {m : μ} (h : 0 < A.size m) : (A.frame m).length = A.size m := by
  rw [frame, List.length_append, List.length_replicate, List.length_singleton]
  omega

theorem wire_append (ms ns : List μ) : A.wire (ms ++ ns) = A.wire ms ++ A.wire ns := List.flatMap_append ..

theorem wire_cons (m : μ) (ms : List μ) : A.wire (m :: ms) = A.frame m ++ A.wire ms := List.flatMap_cons ..

theorem wire_concat (ms : List μ) (m : μ) : A.wire (ms ++ [m]) = A.wire ms ++ A.frame m := by
  rw [wire_append, wire_cons]
  exact congrArg (A.wire ms ++ ·) (List.append_nil (A.frame m))

/-- Where its first message ends. -/
theorem wire_cons_eq (m : μ) (ms : List μ) :
    A.wire (m :: ms) = List.replicate (A.size m - 1) none ++ some m :: A.wire ms := by
  rw [wire_cons, frame, List.append_assoc, List.singleton_append]

theorem wire_length (h : ∀ m, 0 < A.size m) (ms : List μ) : (A.wire ms).length = (ms.map A.size).sum := by
  induction ms with
  | nil => rfl
  | cons m ms ih => rw [wire_cons, List.length_append, A.frame_length (h m), ih, List.map_cons, List.sum_cons]

/-- It writes to a channel that is full, or waits for one that is empty. -/
def Blocked (p : Port σ μ) (inp out : List (Option μ)) : Prop :=
  (p.unsent ≠ [] ∧ A.cap ≤ out.length) ∨
    (p.unsent = [] ∧ (∃ got failed, A.next p.state = .read got failed) ∧ inp = [])

/-- A step of a machine with the channel it reads and the channel it writes.
One that discards may be told to stop at any moment. -/
inductive Acts : Port σ μ → List (Option μ) → List (Option μ) →
    Port σ μ → List (Option μ) → List (Option μ) → Prop
  | put {s : σ} {b : Option μ} {bs inp out : List (Option μ)} {n : ℕ} :
      out.length < A.cap → Acts ⟨s, b :: bs, n⟩ inp out ⟨s, bs, n + 1⟩ inp (out ++ [b])
  | silent {s s' : σ} {inp out : List (Option μ)} {n : ℕ} :
      (A.next s).silent = some s' → Acts ⟨s, [], n⟩ inp out ⟨s', [], n⟩ inp out
  | write {s sent failed : σ} {m : μ} {inp out : List (Option μ)} {n : ℕ} :
      A.next s = .write m sent failed → Acts ⟨s, [], n⟩ inp out ⟨sent, A.frame m, n⟩ inp out
  | part {s failed : σ} {got : μ → σ} {inp out : List (Option μ)} {n : ℕ} :
      A.next s = .read got failed → Acts ⟨s, [], n⟩ (none :: inp) out ⟨s, [], n⟩ inp out
  | read {s failed : σ} {got : μ → σ} {m : μ} {inp out : List (Option μ)} {n : ℕ} :
      A.next s = .read got failed → Acts ⟨s, [], n⟩ (some m :: inp) out ⟨got m, [], n⟩ inp out
  | discard {s stop : σ} {b : Option μ} {inp out : List (Option μ)} {n : ℕ} :
      A.next s = .drain stop → Acts ⟨s, [], n⟩ (b :: inp) out ⟨s, [], n⟩ inp out
  | stop {s stop : σ} {inp out : List (Option μ)} {n : ℕ} :
      A.next s = .drain stop → Acts ⟨s, [], n⟩ inp out ⟨stop, [], n⟩ inp out

/-- A blocked machine takes no step. -/
theorem Blocked.not_acts {A : Endpoint σ μ ε} {p p' : Port σ μ} {inp out inp' out' : List (Option μ)}
    (h : A.Blocked p inp out) : ¬ A.Acts p inp out p' inp' out' := by
  intro hs
  rcases h with ⟨hne, hfull⟩ | ⟨hnil, ⟨got, failed, hread⟩, rfl⟩
  · cases hs with
    | put hroom => omega
    | silent _ | write _ | part _ | read _ | discard _ | stop _ => exact hne rfl
  · cases hs with
    | put _ => cases hnil
    | silent hn => rw [hread] at hn; cases hn
    | write hn => rw [hread] at hn; cases hn
    | stop hn => rw [hread] at hn; cases hn

end Endpoint

structure Line (σ τ μ : Type) where
  left : Port σ μ
  right : Port τ μ
  toRight : List (Option μ)
  toLeft : List (Option μ)

/-- Either machine takes a step. -/
inductive LineStep (L : Endpoint σ μ ε) (R : Endpoint τ μ ε) : Line σ τ μ → Line σ τ μ → Prop
  | left {l l' : Port σ μ} {r : Port τ μ} {lr lr' rl rl' : List (Option μ)} :
      L.Acts l rl lr l' rl' lr' → LineStep L R ⟨l, r, lr, rl⟩ ⟨l', r, lr', rl'⟩
  | right {l : Port σ μ} {r r' : Port τ μ} {lr lr' rl rl' : List (Option μ)} :
      R.Acts r lr rl r' lr' rl' → LineStep L R ⟨l, r, lr, rl⟩ ⟨l, r', lr', rl'⟩

abbrev LineReach (L : Endpoint σ μ ε) (R : Endpoint τ μ ε) := Relation.ReflTransGen (LineStep L R)

/-- Both machines are blocked. -/
def Stuck (L : Endpoint σ μ ε) (R : Endpoint τ μ ε) (d : Line σ τ μ) : Prop :=
  L.Blocked d.left d.toLeft d.toRight ∧ R.Blocked d.right d.toRight d.toLeft

/-- Having read some of the messages that its peer writes first, the machine
has not written more than its channel holds, or the rest of them fits the
other channel. -/
def Fits (A : Endpoint σ μ ε) (B : Endpoint τ μ ε) (s : σ) (peer : List μ) : Prop :=
  ∀ ins outs t, ins <+: peer → Does A.next s ins outs t →
    (A.wire outs).length ≤ A.cap ∨ (B.wire peer).length ≤ (B.wire ins).length + B.cap

/-- The two machines at their start, and nothing on the way. -/
def Line.start (l : σ) (r : τ) : Line σ τ μ := ⟨⟨l, [], 0⟩, ⟨r, [], 0⟩, [], []⟩

def Line.swap (d : Line σ τ μ) : Line τ σ μ := ⟨d.right, d.left, d.toLeft, d.toRight⟩

section

variable {L : Endpoint σ μ ε} {R : Endpoint τ μ ε}

theorem LineStep.swap {d d' : Line σ τ μ} (h : LineStep L R d d') : LineStep R L d.swap d'.swap := by
  cases h with
  | left h => exact .right h
  | right h => exact .left h

theorem LineReach.swap {d d' : Line σ τ μ} (h : LineReach L R d d') : LineReach R L d.swap d'.swap :=
  Relation.ReflTransGen.lift Line.swap (fun _ _ hs => LineStep.swap hs) d d' h

/-- Two blocked machines stay as they are. -/
theorem Stuck.final {d d' : Line σ τ μ} (h : Stuck L R d) : ¬ LineStep L R d d' := by
  intro hs
  cases hs with
  | left hs => exact h.1.not_acts hs
  | right hs => exact h.2.not_acts hs

end

/-! ### What a machine has done, and what is on the way -/

namespace Does

variable {next : σ → Move σ μ ε} {s t u failed stop : σ} {got : μ → σ} {m : μ} {ins outs : List μ}

theorem then_silent (h : Does next s ins outs t) (ht : (next t).silent = some u) :
    Does next s ins outs u := by
  have hall := h.trans (Does.silent ht (.nothing u))
  rwa [List.append_nil, List.append_nil] at hall

theorem then_write (h : Does next s ins outs t) (ht : next t = .write m u failed) :
    Does next s ins (outs ++ [m]) u := by
  have hall := h.trans (Does.write ht (.nothing u))
  rwa [List.append_nil] at hall

theorem then_read (h : Does next s ins outs t) (ht : next t = .read got failed) :
    Does next s (ins ++ [m]) outs (got m) := by
  have hall := h.trans (Does.read (m := m) ht (.nothing _))
  rwa [List.append_nil] at hall

theorem then_discard (h : Does next s ins outs t) (ht : next t = .drain stop) :
    Does next s (ins ++ [m]) outs t := by
  have hall := h.trans (Does.discard (m := m) ht (.nothing t))
  rwa [List.append_nil] at hall

end Does

/-- The machine has read `ins` and `k` bytes of another message, and has
written `outs`, the last of them perhaps not yet in full. -/
structure Track (A : Endpoint σ μ ε) (s0 : σ) (p : Port σ μ) (ins outs : List μ) (k : ℕ) : Prop where
  does : (p.unsent = [] ∧ A.next p.state = .halt) ∨ Does A.next s0 ins outs p.state
  writing : p.unsent ≠ [] → ∃ before m s failed, outs = before ++ [m] ∧ Does A.next s0 ins before s ∧
    A.next s = .write m p.state failed ∧ p.unsent.length ≤ (A.frame m).length
  count : p.written + p.unsent.length = (A.wire outs).length
  reading : k = 0 ∨ (p.unsent = [] ∧ (waits A.next p.state ∨ A.next p.state = .halt))

/-- Of the messages `outs` the peer has read `ins` and `k` bytes; the others are
on the channel or still to be sent. -/
def OnTheWay (A : Endpoint σ μ ε) (outs ins : List μ) (k : ℕ) (unsent channel : List (Option μ)) : Prop :=
  ∃ rest, outs = ins ++ rest ∧ A.wire rest = List.replicate k none ++ channel ++ unsent

namespace OnTheWay

variable {A : Endpoint σ μ ε} {outs ins : List μ} {k : ℕ} {unsent channel : List (Option μ)} {m : μ}

theorem part (h : OnTheWay A outs ins k unsent (none :: channel)) :
    OnTheWay A outs ins (k + 1) unsent channel := by
  obtain ⟨rest, houts, hwire⟩ := h
  refine ⟨rest, houts, ?_⟩
  rw [hwire, List.replicate_succ']
  simp only [List.append_assoc, List.singleton_append]

theorem read (h : OnTheWay A outs ins k unsent (some m :: channel)) :
    OnTheWay A outs (ins ++ [m]) 0 unsent channel := by
  obtain ⟨rest, houts, hwire⟩ := h
  cases rest with
  | nil => simp [Endpoint.wire] at hwire
  | cons m' rest =>
    rw [A.wire_cons_eq, List.append_assoc] at hwire
    obtain ⟨-, rfl, hrest⟩ := replicate_some_inj hwire
    refine ⟨rest, ?_, ?_⟩
    · rw [houts, List.append_assoc, List.singleton_append]
    · rw [hrest]
      rfl

theorem put {b : Option μ} (h : OnTheWay A outs ins k (b :: unsent) channel) :
    OnTheWay A outs ins k unsent (channel ++ [b]) := by
  obtain ⟨rest, houts, hwire⟩ := h
  refine ⟨rest, houts, ?_⟩
  rw [hwire]
  simp only [List.append_assoc, List.singleton_append]

theorem write (h : OnTheWay A outs ins k [] channel) (m : μ) :
    OnTheWay A (outs ++ [m]) ins k (A.frame m) channel := by
  obtain ⟨rest, houts, hwire⟩ := h
  refine ⟨rest ++ [m], ?_, ?_⟩
  · rw [houts, List.append_assoc]
  · rw [A.wire_concat, hwire, List.append_nil]

end OnTheWay

/-- **A step keeps track** of what the machine has done and what is on both
channels. -/
theorem Endpoint.Acts.keeps {A : Endpoint σ μ ε} {B : Endpoint τ μ ε} {s0 : σ} {p p' : Port σ μ}
    {inp out inp' out' : List (Option μ)} (hs : A.Acts p inp out p' inp' out') {ins outs insB outsB : List μ}
    {k kB : ℕ} {unsentB : List (Option μ)} (hp : Track A s0 p ins outs k)
    (hinp : OnTheWay B outsB ins k unsentB inp) (hout : OnTheWay A outs insB kB p.unsent out) :
    ∃ ins' outs' k', Track A s0 p' ins' outs' k' ∧ OnTheWay B outsB ins' k' unsentB inp' ∧
      OnTheWay A outs' insB kB p'.unsent out' := by
  -- a machine that can still take a step has not halted
  have hlive : A.next p.state ≠ .halt → Does A.next s0 ins outs p.state := fun hn => by
    rcases hp.does with ⟨-, hh⟩ | hd
    · exact absurd hh hn
    · exact hd
  cases hs with
  | @put s b bs inp out n hroom =>
    obtain ⟨before, m, s', failed, houts, hd, hw, hlen⟩ := hp.writing (List.cons_ne_nil b bs)
    have hcount : n + (bs.length + 1) = (A.wire outs).length := hp.count
    have hlen : bs.length + 1 ≤ (A.frame m).length := hlen
    refine ⟨ins, outs, k, ⟨?_, fun _ => ⟨before, m, s', failed, houts, hd, hw, ?_⟩, ?_, ?_⟩, hinp, hout.put⟩
    · rw [houts]
      exact Or.inr (hd.then_write hw)
    · show bs.length ≤ _
      omega
    · show n + 1 + bs.length = _
      omega
    · rcases hp.reading with hk | ⟨hnil, -⟩
      · exact Or.inl hk
      · cases hnil
  | @silent s s' inp out n hn =>
    have hd := hlive fun hh => by rw [hh] at hn; cases hn
    refine ⟨ins, outs, k, ⟨Or.inr (hd.then_silent hn), fun h => absurd rfl h, hp.count, ?_⟩, hinp, hout⟩
    rcases hp.reading with hk | ⟨-, hw | hh⟩
    · exact Or.inl hk
    · obtain ⟨rfl, -⟩ := Does.eq_of_waits hw (.silent hn (.nothing s'))
      exact Or.inr ⟨rfl, Or.inl hw⟩
    · rw [hh] at hn
      cases hn
  | @write s sent failed m inp out n hn =>
    have hd := hlive fun hh => by rw [hh] at hn; cases hn
    have hcount : n = (A.wire outs).length := hp.count
    refine ⟨ins, outs ++ [m], k, ⟨Or.inr (hd.then_write hn),
      fun _ => ⟨outs, m, s, failed, rfl, hd, hn, Nat.le_refl _⟩, ?_, ?_⟩, hinp, hout.write m⟩
    · rw [A.wire_concat, List.length_append]
      show n + (A.frame m).length = _
      omega
    · rcases hp.reading with hk | ⟨-, (⟨got, f, hw⟩ | ⟨stop, hw⟩) | hh⟩
      · exact Or.inl hk
      · cases hn.symm.trans hw
      · cases hn.symm.trans hw
      · cases hn.symm.trans hh
  | @part s failed got inp out n hn =>
    have hwaits : waits A.next s := Or.inl ⟨got, failed, hn⟩
    exact ⟨ins, outs, k + 1, ⟨hp.does, hp.writing, hp.count, Or.inr ⟨rfl, Or.inl hwaits⟩⟩, hinp.part, hout⟩
  | @read s failed got m inp out n hn =>
    have hd := hlive fun hh => by cases hn.symm.trans hh
    exact ⟨ins ++ [m], outs, 0, ⟨Or.inr (hd.then_read hn), fun h => absurd rfl h, hp.count, Or.inl rfl⟩,
      hinp.read, hout⟩
  | @discard s stop b inp out n hn =>
    have hwaits : waits A.next s := Or.inr ⟨stop, hn⟩
    have hd := hlive fun hh => by cases hn.symm.trans hh
    cases b with
    | none =>
      exact ⟨ins, outs, k + 1, ⟨hp.does, hp.writing, hp.count, Or.inr ⟨rfl, Or.inl hwaits⟩⟩, hinp.part, hout⟩
    | some m =>
      exact ⟨ins ++ [m], outs, 0, ⟨Or.inr (hd.then_discard hn), fun h => absurd rfl h, hp.count, Or.inl rfl⟩,
        hinp.read, hout⟩
  | @stop s stop inp out n hn =>
    have hhalt := A.stops s stop hn
    exact ⟨ins, outs, k, ⟨Or.inl ⟨rfl, hhalt⟩, fun h => absurd rfl h, hp.count, Or.inr ⟨rfl, Or.inr hhalt⟩⟩,
      hinp, hout⟩

section

variable {L : Endpoint σ μ ε} {R : Endpoint τ μ ε} {l0 : σ} {r0 : τ}

/-- What both machines have done, and what is on the way. -/
def Tracked (L : Endpoint σ μ ε) (R : Endpoint τ μ ε) (l0 : σ) (r0 : τ) (d : Line σ τ μ) : Prop :=
  ∃ insL outsL kL insR outsR kR, Track L l0 d.left insL outsL kL ∧ Track R r0 d.right insR outsR kR ∧
    OnTheWay L outsL insR kR d.left.unsent d.toRight ∧ OnTheWay R outsR insL kL d.right.unsent d.toLeft

theorem Tracked.swap {d : Line σ τ μ} (h : Tracked L R l0 r0 d) : Tracked R L r0 l0 d.swap := by
  obtain ⟨insL, outsL, kL, insR, outsR, kR, hl, hr, hlr, hrl⟩ := h
  exact ⟨insR, outsR, kR, insL, outsL, kL, hr, hl, hrl, hlr⟩

theorem LineStep.tracked {d d' : Line σ τ μ} (hs : LineStep L R d d') (h : Tracked L R l0 r0 d) :
    Tracked L R l0 r0 d' := by
  obtain ⟨insL, outsL, kL, insR, outsR, kR, hl, hr, hlr, hrl⟩ := h
  cases hs with
  | left hs =>
    obtain ⟨insL', outsL', kL', hl', hrl', hlr'⟩ := hs.keeps hl hrl hlr
    exact ⟨insL', outsL', kL', insR, outsR, kR, hl', hr, hlr', hrl'⟩
  | right hs =>
    obtain ⟨insR', outsR', kR', hr', hlr', hrl'⟩ := hs.keeps hr hlr hrl
    exact ⟨insL, outsL, kL, insR', outsR', kR', hl, hr', hlr', hrl'⟩

theorem LineReach.tracked {d : Line σ τ μ} (h : LineReach L R (Line.start l0 r0) d) :
    Tracked L R l0 r0 d := by
  induction h with
  | refl =>
    have hnothing : ∀ {υ : Type} (A : Endpoint υ μ ε) (s : υ), Track A s ⟨s, [], 0⟩ [] [] 0 := fun A s =>
      ⟨Or.inr (.nothing s), fun hne => absurd rfl hne, rfl, Or.inl rfl⟩
    exact ⟨[], [], 0, [], [], 0, hnothing L l0, hnothing R r0, ⟨[], rfl, rfl⟩, ⟨[], rfl, rfl⟩⟩
  | tail _ hs ih => exact hs.tracked ih

/-! ### Both blocked, one of them in its first phase -/

/-- A machine that is blocked before it has written all of `first` is writing:
it has read nothing, and writes a message of `first`. -/
theorem Track.writing_first {A : Endpoint σ μ ε} {s0 s1 : σ} {p : Port σ μ} {ins outs first : List μ} {k : ℕ}
    {inp out : List (Option μ)} (h : Track A s0 p ins outs k) (hfirst : Does A.next s0 [] first s1)
    (hb : A.Blocked p inp out) (hlt : p.written < (A.wire first).length) :
    ins = [] ∧ k = 0 ∧ outs <+: first ∧ p.unsent ≠ [] ∧ A.cap ≤ out.length := by
  have hcount := h.count
  rcases hb with ⟨hne, hfull⟩ | ⟨hnil, ⟨got, failed, hread⟩, -⟩
  · obtain ⟨before, m, s, f, rfl, hd, hw, hlen⟩ := h.writing hne
    have hlength : (A.wire (before ++ [m])).length = (A.wire before).length + (A.frame m).length := by
      rw [A.wire_concat, List.length_append]
    have hk : k = 0 := by
      rcases h.reading with hk | ⟨hnil, -⟩
      · exact hk
      · exact absurd hnil hne
    -- it has not come to the end of its first phase
    have hshort : (A.wire before).length < (A.wire first).length := by omega
    rcases hd.compare hfirst (List.prefix_refl ins) (List.nil_prefix) with
      ⟨is, os, hins, houts, hrest⟩ | ⟨is, os, -, houts, -⟩
    · obtain ⟨rfl, rfl⟩ := List.append_eq_nil_iff.mp hins.symm
      refine ⟨rfl, hk, ?_, hne, hfull⟩
      cases hrest with
      | nothing =>
        rw [List.append_nil] at houts
        rw [houts] at hshort
        omega
      | silent hs _ => rw [hw] at hs; cases hs
      | @write _ _ _ _ m' _ os hw' _ =>
        cases hw.symm.trans hw'
        exact ⟨os, by rw [houts, List.append_assoc]; rfl⟩
    · rw [houts, A.wire_append, List.length_append] at hshort
      omega
  · rw [hnil, List.length_nil, Nat.add_zero] at hcount
    have hd : Does A.next s0 ins outs p.state := by
      rcases h.does with ⟨-, hh⟩ | hd
      · cases hread.symm.trans hh
      · exact hd
    -- a machine that waits has come to the end of it
    rcases hd.compare hfirst (List.prefix_refl ins) (List.nil_prefix) with
      ⟨is, os, hins, houts, hrest⟩ | ⟨is, os, -, houts, -⟩
    · obtain ⟨rfl, rfl⟩ := List.append_eq_nil_iff.mp hins.symm
      obtain ⟨-, rfl⟩ := Does.eq_of_waits (Or.inl ⟨got, failed, hread⟩) hrest
      rw [List.append_nil] at houts
      rw [houts] at hlt
      omega
    · rw [hcount, houts, A.wire_append, List.length_append] at hlt
      omega

/-- **If what the right machine writes fits, both are blocked only after the
left one has written all of its first messages.** -/
theorem Fits.written {first : List μ} {l1 : σ} {d : Line σ τ μ} (hfits : Fits R L r0 first)
    (hfirst : Does L.next l0 [] first l1) (hcap : 0 < L.cap) (h : Tracked L R l0 r0 d) (hstuck : Stuck L R d) :
    (L.wire first).length ≤ d.left.written := by
  by_contra hlt
  rw [Nat.not_le] at hlt
  obtain ⟨insL, outsL, kL, insR, outsR, kR, hl, hr, ⟨restL, houtsL, hwireL⟩, ⟨restR, houtsR, hwireR⟩⟩ := h
  obtain ⟨rfl, rfl, hprefix, hneL, hfullL⟩ := hl.writing_first hfirst hstuck.1 hlt
  -- the right machine has bytes to read, so it is blocked as it writes
  rcases hstuck.2 with ⟨hneR, hfullR⟩ | ⟨-, -, hempty⟩
  · have hkR : kR = 0 := by
      rcases hr.reading with hk | ⟨hnil, -⟩
      · exact hk
      · exact absurd hnil hneR
    have hunsentL := List.length_pos_iff.mpr hneL
    have hunsentR := List.length_pos_iff.mpr hneR
    have hdoes : Does R.next r0 insR outsR d.right.state := by
      rcases hr.does with ⟨hnil, -⟩ | hd
      · exact absurd hnil hneR
      · exact hd
    have hread : insR <+: first := (List.prefix_append insR restL).trans (houtsL ▸ hprefix)
    -- all that it has written is on its channel, or still to be sent
    have hwritten : R.cap < (R.wire outsR).length := by
      have hlen := congrArg List.length hwireR
      simp only [List.length_append, List.length_replicate] at hlen
      rw [houtsR, List.nil_append, hlen]
      omega
    rcases hfits insR outsR _ hread hdoes with hle | hle
    · omega
    · obtain ⟨more, rfl⟩ := hprefix
      have hlen := congrArg List.length hwireL
      simp only [List.length_append, List.length_replicate, hkR] at hlen
      rw [houtsL] at hle
      rw [L.wire_append, L.wire_append, List.length_append, List.length_append] at hle
      omega
  · rw [hempty, List.length_nil] at hfullL
    omega

/-! ### A run into such a state -/

/-- The machine has these bytes to write before it reads. -/
def Streams (A : Endpoint σ μ ε) (p : Port σ μ) (bytes : List (Option μ)) : Prop :=
  ∃ os t, Does A.next p.state [] os t ∧ bytes = p.unsent ++ A.wire os

/-- A machine with a message to write comes to write it. -/
theorem exists_unsent {s t : σ} {ins os : List μ} (hd : Does L.next s ins os t) (hins : ins = [])
    {b : Option μ} {bytes : List (Option μ)} (hbytes : b :: bytes = L.wire os) (n : ℕ) (r : Port τ μ)
    (lr rl : List (Option μ)) :
    ∃ s' bs, LineReach L R ⟨⟨s, [], n⟩, r, lr, rl⟩ ⟨⟨s', b :: bs, n⟩, r, lr, rl⟩ ∧
      Streams L ⟨s', b :: bs, n⟩ (b :: bytes) := by
  induction hd with
  | nothing s => cases hbytes
  | silent hs _ ih =>
    obtain ⟨s', bs, hreach, hstreams⟩ := ih hins hbytes
    exact ⟨s', bs, .head (.left (.silent hs)) hreach, hstreams⟩
  | @write s sent failed t m ins os hw hrest ih =>
    have hwire : b :: bytes = L.frame m ++ L.wire os := hbytes.trans (L.wire_cons m os)
    obtain ⟨c, cs, hframe⟩ := List.exists_cons_of_ne_nil (L.frame_ne_nil m)
    rw [hframe] at hwire
    obtain ⟨rfl, -⟩ := List.cons.inj hwire
    have hstep : L.Acts ⟨s, [], n⟩ rl lr ⟨sent, b :: cs, n⟩ rl lr := hframe ▸ .write hw
    exact ⟨sent, cs, .single (.left hstep), os, t, hins ▸ hrest, hwire⟩
  | read _ _ _ => cases hins
  | discard _ _ _ => cases hins

theorem Streams.settle {p : Port σ μ} {b : Option μ} {bytes : List (Option μ)} (h : Streams L p (b :: bytes))
    (r : Port τ μ) (lr rl : List (Option μ)) :
    ∃ s bs, LineReach L R ⟨p, r, lr, rl⟩ ⟨⟨s, b :: bs, p.written⟩, r, lr, rl⟩ ∧
      Streams L ⟨s, b :: bs, p.written⟩ (b :: bytes) := by
  obtain ⟨os, t, hd, hbytes⟩ := h
  obtain ⟨s, unsent, n⟩ := p
  cases unsent with
  | nil => exact exists_unsent hd rfl hbytes n r lr rl
  | cons c cs =>
    obtain ⟨rfl, -⟩ := List.cons.inj hbytes
    exact ⟨s, cs, .refl, os, t, hd, hbytes⟩

/-- The next of them is put on the channel. -/
theorem Streams.put {s : σ} {b : Option μ} {bs bytes : List (Option μ)} {n : ℕ}
    (h : Streams L ⟨s, b :: bs, n⟩ (b :: bytes)) : Streams L ⟨s, bs, n + 1⟩ bytes := by
  obtain ⟨os, t, hd, hbytes⟩ := h
  exact ⟨os, t, hd, (List.cons.inj hbytes).2⟩

/-- It writes `total` bytes in all; `channel` holds the last of those it has
written. -/
structure Feeds (A : Endpoint σ μ ε) (p : Port σ μ) (channel bytes : List (Option μ)) (total : ℕ) : Prop where
  streams : Streams A p bytes
  room : channel.length ≤ A.cap
  sum : p.written + bytes.length = total

namespace Feeds

variable {p : Port σ μ} {channel bytes more : List (Option μ)} {total : ℕ}

/-- The peer can be given its next byte. -/
theorem supply {b : Option μ} (h : Feeds L p channel bytes total) (hcap : 0 < L.cap)
    (hnext : channel ++ bytes = b :: more) (r : Port τ μ) (rl : List (Option μ)) :
    ∃ p' channel' bytes', LineReach L R ⟨p, r, channel, rl⟩ ⟨p', r, b :: channel', rl⟩ ∧
      Feeds L p' channel' bytes' total ∧ channel' ++ bytes' = more := by
  cases channel with
  | nil =>
    rw [List.nil_append] at hnext
    subst hnext
    obtain ⟨s, bs, hreach, hstreams⟩ := h.streams.settle (R := R) r [] rl
    have hput : L.Acts ⟨s, b :: bs, p.written⟩ rl [] ⟨s, bs, p.written + 1⟩ rl ([] ++ [b]) := .put hcap
    have hsum := h.sum
    rw [List.length_cons] at hsum
    refine ⟨_, [], more, hreach.trans (.single (.left hput)), ⟨hstreams.put, Nat.zero_le _, ?_⟩, rfl⟩
    show p.written + 1 + more.length = total
    omega
  | cons c channel =>
    obtain ⟨rfl, hmore⟩ := List.cons.inj hnext
    have hroom := h.room
    rw [List.length_cons] at hroom
    exact ⟨p, channel, bytes, .refl, ⟨h.streams, by omega, h.sum⟩, hmore⟩

/-- And a whole message, if it takes all of its bytes. -/
theorem message {s s' : τ} {m : μ} (n : ℕ) (rl : List (Option μ)) (hcap : 0 < L.cap)
    (hpart : ∀ inp, R.Acts ⟨s, [], n⟩ (none :: inp) rl ⟨s, [], n⟩ inp rl)
    (hlast : ∀ inp, R.Acts ⟨s, [], n⟩ (some m :: inp) rl ⟨s', [], n⟩ inp rl) (k : ℕ)
    (h : Feeds L p channel bytes total)
    (hnext : channel ++ bytes = List.replicate k none ++ some m :: more) :
    ∃ p' channel' bytes', LineReach L R ⟨p, ⟨s, [], n⟩, channel, rl⟩ ⟨p', ⟨s', [], n⟩, channel', rl⟩ ∧
      Feeds L p' channel' bytes' total ∧ channel' ++ bytes' = more := by
  induction k generalizing p channel bytes with
  | zero =>
    obtain ⟨p', channel', bytes', hreach, hfeeds, hmore⟩ := h.supply hcap hnext ⟨s, [], n⟩ rl
    exact ⟨p', channel', bytes', hreach.trans (.single (.right (hlast channel'))), hfeeds, hmore⟩
  | succ k ih =>
    obtain ⟨p', channel', bytes', hreach, hfeeds, hmore⟩ := h.supply hcap hnext ⟨s, [], n⟩ rl
    obtain ⟨p2, channel2, bytes2, hrest, hfeeds2, hmore2⟩ := ih hfeeds hmore
    exact ⟨p2, channel2, bytes2, hreach.trans (.head (.right (hpart channel')) hrest), hfeeds2, hmore2⟩

/-- A machine with more to write than its channel takes comes to be blocked. -/
theorem fill (h : Feeds L p channel bytes total) (hmore : L.cap < channel.length + bytes.length)
    (r : Port τ μ) (rl : List (Option μ)) :
    ∃ p' channel', LineReach L R ⟨p, r, channel, rl⟩ ⟨p', r, channel', rl⟩ ∧ p'.unsent ≠ [] ∧
      L.cap ≤ channel'.length ∧ p'.written < total := by
  induction bytes generalizing p channel with
  | nil =>
    have hroom := h.room
    rw [List.length_nil] at hmore
    omega
  | cons b bytes ih =>
    obtain ⟨s, bs, hreach, hstreams⟩ := h.streams.settle (R := R) r channel rl
    have hsum := h.sum
    rw [List.length_cons] at hsum hmore
    by_cases hroom : channel.length < L.cap
    · have hput : L.Acts ⟨s, b :: bs, p.written⟩ rl channel ⟨s, bs, p.written + 1⟩ rl (channel ++ [b]) :=
        .put hroom
      have hlen : (channel ++ [b]).length = channel.length + 1 := by
        rw [List.length_append, List.length_singleton]
      have hfeeds : Feeds L ⟨s, bs, p.written + 1⟩ (channel ++ [b]) bytes total := by
        refine ⟨hstreams.put, by omega, ?_⟩
        show p.written + 1 + bytes.length = total
        omega
      obtain ⟨p', channel', hrest, hblocked⟩ := ih hfeeds (by omega)
      exact ⟨p', channel', hreach.trans (.head (.left hput) hrest), hblocked⟩
    · refine ⟨_, channel, hreach, List.cons_ne_nil b bs, by omega, ?_⟩
      show p.written < total
      omega

end Feeds

/-- The right machine puts all of a message on its channel, or comes to be
blocked as it does. -/
theorem exists_put (l : Port σ μ) (lr : List (Option μ)) (s : τ) (bs rl : List (Option μ)) (n : ℕ)
    (hroom : rl.length ≤ R.cap) :
    (LineReach L R ⟨l, ⟨s, bs, n⟩, lr, rl⟩ ⟨l, ⟨s, [], n + bs.length⟩, lr, rl ++ bs⟩ ∧
        (rl ++ bs).length ≤ R.cap) ∨
      ∃ q rl', LineReach L R ⟨l, ⟨s, bs, n⟩, lr, rl⟩ ⟨l, q, lr, rl'⟩ ∧ q.unsent ≠ [] ∧ R.cap ≤ rl'.length := by
  induction bs generalizing rl n with
  | nil =>
    rw [List.append_nil]
    exact Or.inl ⟨.refl, hroom⟩
  | cons b bs ih =>
    by_cases hlt : rl.length < R.cap
    · have hput : R.Acts ⟨s, b :: bs, n⟩ lr rl ⟨s, bs, n + 1⟩ lr (rl ++ [b]) := .put hlt
      have hlen : (rl ++ [b]).length ≤ R.cap := by
        rw [List.length_append, List.length_singleton]
        omega
      rcases ih (rl ++ [b]) (n + 1) hlen with ⟨hreach, hfit⟩ | ⟨q, rl', hreach, hblocked⟩
      · have hsame : rl ++ [b] ++ bs = rl ++ b :: bs := by rw [List.append_assoc, List.singleton_append]
        have hsum : n + 1 + bs.length = n + (b :: bs).length := by
          rw [List.length_cons]
          omega
        rw [hsame, hsum] at hreach
        exact Or.inl ⟨.head (.right hput) hreach, hsame ▸ hfit⟩
      · exact Or.inr ⟨q, rl', .head (.right hput) hreach, hblocked⟩
    · exact Or.inr ⟨_, rl, .refl, List.cons_ne_nil b bs, by omega⟩

/-- **A machine that writes too much as it reads comes to be blocked**, while
its peer has all that it has not read still to write. -/
theorem exists_overflow (hcap : 0 < L.cap) {s t : τ} {ins outs : List μ} (hd : Does R.next s ins outs t)
    {p : Port σ μ} {channel bytes rl : List (Option μ)} {total n : ℕ} {more : List μ}
    (h : Feeds L p channel bytes total) (hnext : channel ++ bytes = L.wire (ins ++ more))
    (hroom : rl.length ≤ R.cap) (hover : R.cap < rl.length + (R.wire outs).length) :
    ∃ p' q channel' bytes' rl', LineReach L R ⟨p, ⟨s, [], n⟩, channel, rl⟩ ⟨p', q, channel', rl'⟩ ∧
      Feeds L p' channel' bytes' total ∧ (L.wire more).length ≤ channel'.length + bytes'.length ∧
      q.unsent ≠ [] ∧ R.cap ≤ rl'.length := by
  induction hd generalizing p channel bytes rl n with
  | nothing s =>
    have hnil : (R.wire ([] : List μ)).length = 0 := rfl
    omega
  | silent hs _ ih =>
    obtain ⟨p', q, channel', bytes', rl', hreach, hrest⟩ := ih h hnext hroom hover
    exact ⟨p', q, channel', bytes', rl', .head (.right (.silent hs)) hreach, hrest⟩
  | @write s sent failed t m ins outs hw _ ih =>
    have hstep : R.Acts ⟨s, [], n⟩ channel rl ⟨sent, R.frame m, n⟩ channel rl := .write hw
    have hlen : (R.wire (m :: outs)).length = (R.frame m).length + (R.wire outs).length := by
      rw [R.wire_cons, List.length_append]
    rcases exists_put (L := L) p channel sent (R.frame m) rl n hroom with
      ⟨hput, hfit⟩ | ⟨q, rl', hput, hne, hfull⟩
    · have hover' : R.cap < (rl ++ R.frame m).length + (R.wire outs).length := by
        rw [List.length_append]
        omega
      obtain ⟨p', q, channel', bytes', rl', hreach, hrest⟩ := ih h hnext hfit hover'
      exact ⟨p', q, channel', bytes', rl', .head (.right hstep) (hput.trans hreach), hrest⟩
    · have hall := congrArg List.length hnext
      rw [L.wire_append, List.length_append, List.length_append] at hall
      exact ⟨p, q, channel, bytes, rl', .head (.right hstep) hput, h, by omega, hne, hfull⟩
  | @read s failed t got m ins outs hr _ ih =>
    obtain ⟨p1, channel1, bytes1, hreach1, hfeeds, hnext1⟩ := h.message (R := R) n rl hcap
      (fun _ => .part hr) (fun _ => .read hr) (L.size m - 1) (hnext.trans (L.wire_cons_eq m (ins ++ more)))
    obtain ⟨p', q, channel', bytes', rl', hreach, hrest⟩ := ih hfeeds hnext1 hroom hover
    exact ⟨p', q, channel', bytes', rl', hreach1.trans hreach, hrest⟩
  | @discard s stop t m ins outs hr _ ih =>
    obtain ⟨p1, channel1, bytes1, hreach1, hfeeds, hnext1⟩ := h.message (R := R) n rl hcap
      (fun _ => .discard hr) (fun _ => .discard hr) (L.size m - 1) (hnext.trans (L.wire_cons_eq m (ins ++ more)))
    obtain ⟨p', q, channel', bytes', rl', hreach, hrest⟩ := ih hfeeds hnext1 hroom hover
    exact ⟨p', q, channel', bytes', rl', hreach1.trans hreach, hrest⟩

/-- **If what the right machine writes does not fit, both come to be blocked**
with the left one in its first phase. -/
theorem exists_stuck {first : List μ} {l1 : σ} (hfits : ¬ Fits R L r0 first)
    (hfirst : Does L.next l0 [] first l1) (hcap : 0 < L.cap) :
    ∃ d, LineReach L R (Line.start l0 r0) d ∧ Stuck L R d ∧ d.left.written < (L.wire first).length := by
  simp only [Fits, not_forall, not_or, Nat.not_le] at hfits
  obtain ⟨ins, outs, t, ⟨more, rfl⟩, hd, hover, hmore⟩ := hfits
  have hstart : Feeds L ⟨l0, [], 0⟩ [] (L.wire (ins ++ more)) (L.wire (ins ++ more)).length :=
    ⟨⟨ins ++ more, l1, hfirst, rfl⟩, Nat.zero_le _, Nat.zero_add _⟩
  obtain ⟨p, q, channel, bytes, rl, hreach, hfeeds, hrest, hne, hfull⟩ :=
    exists_overflow (n := 0) hcap hd hstart rfl (Nat.zero_le _) (by rw [List.length_nil]; omega)
  have hlen : (L.wire (ins ++ more)).length = (L.wire ins).length + (L.wire more).length := by
    rw [L.wire_append, List.length_append]
  obtain ⟨p', channel', hfill, hne', hfull', hwritten⟩ := hfeeds.fill (R := R) (by omega) q rl
  exact ⟨_, hreach.trans hfill, ⟨Or.inl ⟨hne', hfull'⟩, Or.inl ⟨hne, hfull⟩⟩, hwritten⟩

/-- **Both are blocked only after each has written all of its first messages
if, and only if, what each writes as it reads the other's fits.** -/
theorem stuck_only_after_iff {firstL firstR : List μ} {l1 : σ} {r1 : τ} (hl : Does L.next l0 [] firstL l1)
    (hr : Does R.next r0 [] firstR r1) (hcapL : 0 < L.cap) (hcapR : 0 < R.cap) :
    (∀ d, LineReach L R (Line.start l0 r0) d → Stuck L R d →
        (L.wire firstL).length ≤ d.left.written ∧ (R.wire firstR).length ≤ d.right.written) ↔
      Fits L R l0 firstR ∧ Fits R L r0 firstL := by
  constructor
  · intro h
    constructor
    · by_contra hfits
      obtain ⟨d, hreach, hstuck, hlt⟩ := exists_stuck hfits hr hcapR
      have hle := (h d.swap hreach.swap ⟨hstuck.2, hstuck.1⟩).2
      exact absurd hlt (Nat.not_lt.mpr hle)
    · by_contra hfits
      obtain ⟨d, hreach, hstuck, hlt⟩ := exists_stuck hfits hl hcapL
      exact absurd hlt (Nat.not_lt.mpr (h d hreach hstuck).1)
  · rintro ⟨hfitsL, hfitsR⟩ d hreach hstuck
    have htracked := LineReach.tracked hreach
    refine ⟨hfitsR.written hl hcapL htracked hstuck, ?_⟩
    have hswap : Stuck R L d.swap := ⟨hstuck.2, hstuck.1⟩
    exact hfitsL.written hr hcapR htracked.swap hswap

/-- **A machine that then replies to the other's messages block by block fits**
exactly if at the end of every block what it has written fits its channel, or
the blocks that are left fit the other. -/
theorem fits_iff {s1 t : τ} {first : List μ} {bs : List (List μ × List μ)} (hfirst : Does R.next r0 [] first s1)
    (hconv : Conversation R.next s1 bs t) :
    Fits R L r0 (asked bs) ↔ ∀ j,
      (R.wire first).length + (R.wire (replies (bs.take j))).length ≤ R.cap ∨
        (L.wire (asked (bs.drop j))).length ≤ L.cap := by
  have hsplit : ∀ j, asked bs = asked (bs.take j) ++ asked (bs.drop j) := fun j => by
    rw [← asked_append, List.take_append_drop]
  constructor
  · intro h j
    obtain ⟨u, hu, -⟩ := hconv.cut_block j
    have hj := h _ _ u ⟨_, (hsplit j).symm⟩ (hfirst.trans_nil hu)
    have hlen := congrArg (fun ms => (L.wire ms).length) (hsplit j)
    simp only [L.wire_append, R.wire_append, List.length_append] at hj hlen
    omega
  · intro h ins outs u hins hd
    have hle := hins.length_le
    obtain ⟨j, v, -, hlen, hv, hwaits⟩ := hconv.cut hle
    have htake : (asked bs).take ins.length = ins := (List.prefix_iff_eq_take.mp hins).symm
    rw [htake] at hv
    -- it has written no more than the replies to the blocks that it has read
    have houts : (R.wire outs).length ≤ (R.wire first).length + (R.wire (replies (bs.take j))).length := by
      rw [← List.length_append, ← R.wire_append]
      rcases hd.compare (hfirst.trans_nil hv) (List.prefix_refl ins) (List.prefix_refl ins) with
        ⟨is, os, -, heq, -⟩ | ⟨is, os, hnil, heq, hrest⟩
      · rw [heq, R.wire_append outs, List.length_append]
        omega
      · have hisnil : is = [] := List.append_right_eq_self.mp hnil.symm
        subst hisnil
        obtain ⟨-, rfl⟩ := Does.eq_of_waits hwaits hrest
        have hsame : outs = first ++ replies (bs.take j) := heq.trans (List.append_nil _)
        exact Nat.le_of_eq (by rw [hsame])
    have hread : (L.wire (asked (bs.take j))).length ≤ (L.wire ins).length := by
      obtain ⟨more, hmore⟩ : asked (bs.take j) <+: ins :=
        List.prefix_of_prefix_length_le ⟨_, (hsplit j).symm⟩ hins hlen
      rw [← hmore, L.wire_append, List.length_append]
      omega
    have hsum := congrArg (fun ms => (L.wire ms).length) (hsplit j)
    simp only [L.wire_append, List.length_append] at hsum
    rcases h j with hfit | hfit
    · exact Or.inl (Nat.le_trans houts hfit)
    · exact Or.inr (by omega)

end

end Machine
