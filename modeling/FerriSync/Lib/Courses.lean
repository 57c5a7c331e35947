/-
# What two machines have done so far

Each of two machines has a course that it takes when it hears all that the other says on its
own course. Then in every state of a run each is on its course (`Reach.on_course`): what it
has read and written so far is the beginning of what it reads and writes in all.

What the steps of a machine keep is kept on the way to a state that it can still be brought
to (`Does.inv_toward`).

Key definitions: `Stopped`, `OnCourse`.
Key theorems: `Does.inv_toward`, `Reach.on_course`.
-/
import FerriSync.Lib.Conversation
import FerriSync.Lib.Duplex

namespace Machine

variable {σ τ μ ε : Type}

namespace Does

variable {next : σ → Move σ μ ε} {s t q : σ} {ins outs : List μ}

/-- What a step keeps if the machine can still come to `q` after it, it keeps on the way to
a state from which it can. -/
theorem inv_toward {I : σ → Prop} {P : μ → Prop}
    (hstep : ∀ s i, I s → (∀ m, i = .message m → P m) →
      (∃ is os, (∀ m ∈ is, P m) ∧ Does next (step next s i) is os q) → I (step next s i))
    (h : Does next s ins outs t) (hins : ∀ m ∈ ins, P m)
    (hq : ∃ is os, (∀ m ∈ is, P m) ∧ Does next t is os q) (hs : I s) : I t := by
  induction h with
  | nothing => exact hs
  | @silent s s' t ins outs hn hrest ih =>
    obtain ⟨is, os, his, hq'⟩ := hq
    have hgo : step next s .go = s' := by
      unfold step
      cases hm : next s with
      | tau u | send e u | trySend e u => rw [hm] at hn; cases hn; rfl
      | halt | write m u f | read got f | drain u => rw [hm] at hn; cases hn
    refine ih hins ⟨is, os, his, hq'⟩ ?_
    have hmore := List.forall_mem_append.mpr ⟨hins, his⟩
    have hkeep := hstep s .go hs nofun
    rw [hgo] at hkeep
    exact hkeep ⟨_, _, hmore, hrest.trans hq'⟩
  | @write s sent failed t m ins outs hn hrest ih =>
    obtain ⟨is, os, his, hq'⟩ := hq
    have hgo : step next s .go = sent := by
      unfold step
      rw [hn]
      rfl
    refine ih hins ⟨is, os, his, hq'⟩ ?_
    have hmore := List.forall_mem_append.mpr ⟨hins, his⟩
    have hkeep := hstep s .go hs nofun
    rw [hgo] at hkeep
    exact hkeep ⟨_, _, hmore, hrest.trans hq'⟩
  | @read s failed t got m ins outs hn hrest ih =>
    obtain ⟨is, os, his, hq'⟩ := hq
    have hread : step next s (.message m) = got m := by
      unfold step
      rw [hn]
      rfl
    refine ih (fun x hx => hins x (List.mem_cons_of_mem m hx)) ⟨is, os, his, hq'⟩ ?_
    have hmore := List.forall_mem_append.mpr ⟨fun x hx => hins x (List.mem_cons_of_mem m hx), his⟩
    have hkeep := hstep s (.message m) hs fun x hx => by
      cases hx
      exact hins m List.mem_cons_self
    rw [hread] at hkeep
    exact hkeep ⟨_, _, hmore, hrest.trans hq'⟩
  | discard _ _ ih => exact ih (fun x hx => hins x (List.mem_cons_of_mem _ hx)) hq hs

/-- What every step keeps. -/
theorem inv {I : σ → Prop} (hstep : ∀ s i, I s → I (step next s i)) (h : Does next s ins outs t) (hs : I s) :
    I t :=
  h.inv_toward (q := t) (P := fun _ => True) (fun s i hi _ _ => hstep s i hi) (fun _ _ => trivial)
    ⟨[], [], nofun, .nothing t⟩ hs

end Does

/-- The machine may have been told to stop since. -/
def Stopped (next : σ → Move σ μ ε) (s s' : σ) : Prop := s' = s ∨ next s = .drain s'

/-- A step of one machine, as part of its course. -/
theorem advance_does {next : σ → Move σ μ ε} (hstop : ∀ s stop, next s = .drain stop → next stop = .halt)
    {peerQuiet : Bool} {s t t' : σ} {arrived arrived' out : List μ} (ht : Stopped next s t)
    (h : advance next peerQuiet t arrived = some (t', arrived', out)) :
    ∃ s' read, Does next s read out s' ∧ arrived = read ++ arrived' ∧ Stopped next s' t' := by
  rcases ht with rfl | hdrain
  · unfold advance at h
    cases hn : next t with
    | halt => rw [hn] at h; cases h
    | tau u | send e u | trySend e u =>
      rw [hn] at h
      cases h
      exact ⟨_, [], .silent (by rw [hn]; rfl) (.nothing _), rfl, Or.inl rfl⟩
    | write m sent failed =>
      rw [hn] at h
      cases h
      exact ⟨_, [], .write hn (.nothing _), rfl, Or.inl rfl⟩
    | read got failed =>
      rw [hn] at h
      cases arrived with
      | nil => cases h
      | cons m rest =>
        cases h
        exact ⟨_, [m], .read hn (.nothing _), rfl, Or.inl rfl⟩
    | drain stop =>
      rw [hn] at h
      cases arrived with
      | nil =>
        cases peerQuiet with
        | false => cases h
        | true =>
          cases h
          exact ⟨t, [], .nothing _, rfl, Or.inr hn⟩
      | cons m rest =>
        cases h
        exact ⟨_, [m], .discard hn (.nothing _), rfl, Or.inl rfl⟩
  · -- it has stopped, and a machine that has stopped does nothing
    unfold advance at h
    rw [hstop s t hdrain] at h
    cases h

/-- The machine is on the course from `s` to `q`, on which it reads `ins` in all: it has read and
written `read` and `wrote`, and may have been told to stop. -/
def OnCourse (next : σ → Move σ μ ε) (s q : σ) (ins read wrote : List μ) (t : σ) : Prop :=
  ∃ u rest os, Does next s read wrote u ∧ Stopped next u t ∧ ins = read ++ rest ∧ Does next u rest os q

section

variable {nextL : σ → Move σ μ ε} {nextR : τ → Move τ μ ε}

/-- What is written so far is the beginning of what is written in all. -/
theorem Does.wrote_prefix {next : σ → Move σ μ ε} {s q u : σ} {ins outs read wrote : List μ}
    (hall : Does next s ins outs q) (hq : waits next q) (h : Does next s read wrote u) (hread : read <+: ins) :
    wrote <+: outs ∧ ∃ rest os, ins = read ++ rest ∧ Does next u rest os q := by
  rcases h.compare hall hread List.prefix_rfl with ⟨is, os, his, hos, hrest⟩ | ⟨is, os, his, hos, hrest⟩
  · exact ⟨⟨os, hos.symm⟩, is, os, his, hrest⟩
  · obtain ⟨rest, hrest'⟩ := hread
    have hnil : is = [] := by
      have hlen := congrArg List.length (hrest'.trans (List.append_nil ins).symm)
      rw [his] at hlen
      simp only [List.length_append, List.length_nil] at hlen
      exact List.eq_nil_of_length_eq_zero (by omega)
    subst hnil
    obtain ⟨rfl, rfl⟩ := Does.eq_of_waits hq hrest
    rw [List.append_nil] at hos his
    exact ⟨hos ▸ List.prefix_rfl, [], [], by rw [his, List.append_nil], .nothing _⟩

/-- **In every state of a run each machine is on its course.** -/
theorem Reach.on_course (hstopL : ∀ s stop, nextL s = .drain stop → nextL stop = .halt)
    (hstopR : ∀ s stop, nextR s = .drain stop → nextR stop = .halt) {l qL : σ} {r qR : τ} {a b : List μ}
    (hl : Does nextL l b a qL) (hr : Does nextR r a b qR) (hwL : waits nextL qL) (hwR : waits nextR qR)
    {x : Duplex σ τ μ} (h : Reach nextL nextR ⟨l, r, [], []⟩ x) :
    ∃ readL wroteL readR wroteR, OnCourse nextL l qL b readL wroteL x.left ∧
      OnCourse nextR r qR a readR wroteR x.right ∧ wroteL = readR ++ x.toRight ∧ wroteR = readL ++ x.toLeft ∧
      wroteL <+: a ∧ wroteR <+: b := by
  induction h with
  | refl =>
    exact ⟨[], [], [], [], ⟨l, b, a, .nothing l, Or.inl rfl, rfl, hl⟩, ⟨r, a, b, .nothing r, Or.inl rfl, rfl, hr⟩,
      rfl, rfl, List.nil_prefix, List.nil_prefix⟩
  | tail _ hs ih =>
    obtain ⟨readL, wroteL, readR, wroteR, hL, hR, htoRight, htoLeft, hwroteL, hwroteR⟩ := ih
    cases hs with
    | left hadv =>
      obtain ⟨u, -, -, hu, hstop, -, -⟩ := hL
      obtain ⟨u', read, hdo, harrived, hstop'⟩ := advance_does hstopL hstop hadv
      dsimp only at harrived htoRight htoLeft
      have hnow := hu.trans hdo
      rw [harrived, ← List.append_assoc] at htoLeft
      have hwithin : readL ++ read <+: b := List.IsPrefix.trans ⟨_, htoLeft.symm⟩ hwroteR
      obtain ⟨hwrote, rest, os, hrest, hgoes⟩ := hl.wrote_prefix hwL hnow hwithin
      refine ⟨_, _, readR, wroteR, ⟨u', rest, os, hnow, hstop', hrest, hgoes⟩, hR, ?_, ?_, hwrote, hwroteR⟩
      · rw [htoRight, List.append_assoc]
      · exact htoLeft
    | right hadv =>
      obtain ⟨u, -, -, hu, hstop, -, -⟩ := hR
      obtain ⟨u', read, hdo, harrived, hstop'⟩ := advance_does hstopR hstop hadv
      dsimp only at harrived htoRight htoLeft
      have hnow := hu.trans hdo
      rw [harrived, ← List.append_assoc] at htoRight
      have hwithin : readR ++ read <+: a := List.IsPrefix.trans ⟨_, htoRight.symm⟩ hwroteL
      obtain ⟨hwrote, rest, os, hrest, hgoes⟩ := hr.wrote_prefix hwR hnow hwithin
      refine ⟨readL, wroteL, _, _, hL, ⟨u', rest, os, hnow, hstop', hrest, hgoes⟩, ?_, ?_, hwroteL, hwrote⟩
      · exact htoRight
      · rw [htoLeft, List.append_assoc]

end

end Machine
