/-
# When a request ends

A request for a folder that is held asks again and again (`Requesting`). Whatever the
owner and the requester do meanwhile, in whatever order, if the call gets its turns again and
again and time goes on, then a call with a lifetime comes to an end, and so does one that
is not told to wait; one without a lifetime never ends else. Once the owner has decided, either way,
the call comes to an end (`request_ends_iff`).

Key definitions: `Requesting.Answered`, `Couple.FolderDecided`.
Key theorems: `asks_again`, `ends_by_deadline`, `ends_if_answered`, `request_ends_iff`.
-/
import FerriSync.Lib.Rest
import FerriSync.Requesting

namespace FerriSync

/-- The owner has decided about the requester's folder at the n-th listener. -/
def Couple.FolderDecided (c : Couple) (n : ℕ) (folderGuid : String) : Prop :=
  ∃ l, c.owner.listeners[n]? = some l ∧ l.gate.FolderDecided c.requester.ownId folderGuid

theorem Couple.KeepsDecisions.isDecided {c c' : Couple} {n : ℕ} {folderGuid : String}
    (h : c.KeepsDecisions c') (hc : c.FolderDecided n folderGuid) : c'.FolderDecided n folderGuid := by
  obtain ⟨l, hl, hdecided⟩ := hc
  obtain ⟨l', hl', hkeeps⟩ := h.owner n l hl
  exact ⟨l', hl', h.requester ▸ hkeeps.decided hdecided⟩

namespace Requesting

variable {blake3 : Bytes → FileHash} {call : FolderPairingCall} {s : Requesting}

/-- The call asks, and is not told to wait. -/
def Answered (call : FolderPairingCall) (s : Requesting) : Prop :=
  ∃ deadline, s.stage = .asking deadline ∧ ∀ node, s.couple.owner.node? call.listener = some node →
    node.singleRequest (s.request call) ≠ .pending

theorem stage_of_no_turn {a : RequestAct} (ha : a ≠ .turn) : (s.step blake3 call a).stage = s.stage := by
  cases a with
  | turn => exact absurd rfl ha
  | act p => rfl
  | elapse ms => rfl

theorem now_step (a : RequestAct) : s.now ≤ (s.step blake3 call a).now := by
  cases a with
  | elapse ms => exact Nat.le_add_right s.now ms
  | turn => exact Nat.le_refl _
  | act p => exact Nat.le_refl _

theorem ended_step (h : s.stage.ended = true) (a : RequestAct) :
    (s.step blake3 call a).stage.ended = true := by
  cases a with
  | turn =>
    show (s.nextStage call).ended = true
    rw [nextStage_ended h]
    exact h
  | act p => exact h
  | elapse ms => exact h

theorem decided_turn (h : s.couple.FolderDecided call.listener call.folderGuid) (a : RequestAct) :
    (s.step blake3 call a).couple.FolderDecided call.listener call.folderGuid := by
  cases a with
  | act p => exact (s.couple.keeps_step p).isDecided h
  | elapse ms => exact h
  | turn => exact (s.keeps_turn blake3 call).isDecided h

/-- A decision is an answer. -/
theorem answered_of_decided {deadline : Option ℕ} (hstage : s.stage = .asking deadline)
    (h : s.couple.FolderDecided call.listener call.folderGuid) : s.Answered call := by
  refine ⟨deadline, hstage, fun node hnode => Node.singleRequest_decided ?_⟩
  obtain ⟨l, hl, hdecided⟩ := h
  obtain ⟨l', hl', rfl⟩ := Option.map_eq_some_iff.mp hnode
  cases hl.symm.trans hl'
  exact hdecided

end Requesting

section

variable {blake3 : Bytes → FileHash} {call : FolderPairingCall} {s : Requesting} {acts : ℕ → RequestAct}

open Requesting Rest

/-- What keeps being so from some act on. -/
theorem after_keeps {P : Requesting → Prop} (hstep : ∀ s a, P s → P (s.step blake3 call a)) {n m : ℕ}
    (hle : n ≤ m) (h : P (after (step blake3 call) s acts n)) : P (after (step blake3 call) s acts m) := by
  induction m, hle using Nat.le_induction with
  | base => exact h
  | succ m _ ih => exact hstep _ _ ih

variable (blake3 call s)

/-- **The next turn** finds the call at the same stage. -/
theorem turn_follows (hturns : ∀ n, ∃ m, n ≤ m ∧ acts m = .turn) (n : ℕ) :
    ∃ m, n ≤ m ∧ acts m = .turn ∧
      (after (step blake3 call) s acts m).stage = (after (step blake3 call) s acts n).stage := by
  classical
  have hfirst := Nat.find_spec (hturns n)
  refine ⟨Nat.find (hturns n), hfirst.1, hfirst.2, ?_⟩
  have hsame : ∀ k, n ≤ k → k ≤ Nat.find (hturns n) →
      (after (step blake3 call) s acts k).stage = (after (step blake3 call) s acts n).stage := by
    intro k hk
    induction k, hk using Nat.le_induction with
    | base => exact fun _ => rfl
    | succ k hk ih =>
      intro hbefore
      have hno : acts k ≠ .turn := fun hturn => Nat.find_min (hturns n) hbefore ⟨hk, hturn⟩
      exact (stage_of_no_turn hno).trans (ih (Nat.le_of_succ_le hbefore))
  exact hsame _ hfirst.1 (Nat.le_refl _)

/-- And after it the call has gone on. -/
theorem goes_on (hturns : ∀ n, ∃ m, n ≤ m ∧ acts m = .turn) (n : ℕ) :
    ∃ m, n ≤ m ∧ acts m = .turn ∧
      (after (step blake3 call) s acts m).stage = (after (step blake3 call) s acts n).stage ∧
      (after (step blake3 call) s acts (m + 1)).stage =
        (after (step blake3 call) s acts m).nextStage call := by
  obtain ⟨m, hm, hturn, hstage⟩ := turn_follows blake3 call s hturns n
  refine ⟨m, hm, hturn, hstage, ?_⟩
  rw [after, hturn]
  rfl

variable {blake3 call s}

/-- Who sleeps wakes up and asks. -/
theorem wakes_up (hturns : ∀ n, ∃ m, n ≤ m ∧ acts m = .turn)
    (htime : ∀ t, ∃ n, t ≤ (after (step blake3 call) s acts n).now) {n wake : ℕ} {deadline : Option ℕ}
    (h : (after (step blake3 call) s acts n).stage = .sleeping deadline wake) :
    ∃ m, n ≤ m ∧ (after (step blake3 call) s acts m).stage = .asking deadline := by
  have hsleeps : ∀ k, n ≤ k → (after (step blake3 call) s acts k).stage = .sleeping deadline wake ∨
      ∃ m, n ≤ m ∧ (after (step blake3 call) s acts m).stage = .asking deadline := by
    intro k hk
    induction k, hk using Nat.le_induction with
    | base => exact Or.inl h
    | succ k hk ih =>
      refine ih.elim (fun hstage => ?_) Or.inr
      by_cases hturn : acts k = .turn
      · have hnext := nextStage_sleeping hstage call
        have hafter : (after (step blake3 call) s acts (k + 1)).stage =
            (after (step blake3 call) s acts k).nextStage call := by
          rw [after, hturn]
          rfl
        rw [hnext] at hafter
        split at hafter
        · exact Or.inr ⟨k + 1, Nat.le_succ_of_le hk, hafter⟩
        · exact Or.inl hafter
      · exact Or.inl ((stage_of_no_turn hturn).trans hstage)
  obtain ⟨late, hlate⟩ := htime wake
  rcases hsleeps (max n late) (le_max_left n late) with hstage | hasks
  · obtain ⟨m, hm, -, hsame, hgoes⟩ := goes_on blake3 call s hturns (max n late)
    have hnow : wake ≤ (after (step blake3 call) s acts m).now :=
      after_keeps (P := fun s => wake ≤ s.now) (fun s a hw => le_trans hw (now_step a))
        (le_trans (le_max_right n late) hm) hlate
    rw [nextStage_sleeping (hsame.trans hstage) call, if_pos hnow] at hgoes
    exact ⟨m + 1, by omega, hgoes⟩
  · exact hasks

/-- An answer ends the call, or leads to another question. -/
theorem answer_leads (hturns : ∀ n, ∃ m, n ≤ m ∧ acts m = .turn)
    (htime : ∀ t, ∃ n, t ≤ (after (step blake3 call) s acts n).now) {n : ℕ} {deadline : Option ℕ}
    {reply : FolderPairReply} (h : (after (step blake3 call) s acts n).stage = .answered deadline reply) :
    ∃ m, n ≤ m ∧ ((after (step blake3 call) s acts m).stage.ended = true ∨
      reply = .pending ∧ (after (step blake3 call) s acts m).stage = .asking deadline) := by
  obtain ⟨m, hm, -, hsame, hgoes⟩ := goes_on blake3 call s hturns n
  have hstage := hsame.trans h
  by_cases hwait : reply = .pending ∧
      ¬(deadline.any fun d => decide (d ≤ (after (step blake3 call) s acts m).now)) = true
  · obtain ⟨rfl, hleft⟩ := hwait
    rw [nextStage_pending hstage call, if_neg hleft] at hgoes
    obtain ⟨k, hk, hasks⟩ := wakes_up hturns htime hgoes
    exact ⟨k, by omega, Or.inr ⟨rfl, hasks⟩⟩
  · refine ⟨m + 1, by omega, Or.inl ?_⟩
    rw [hgoes]
    exact ended_nextStage hstage (fun hpending => not_not.mp fun hleft => hwait ⟨hpending, hleft⟩) call

/-- **A round**: who asks has ended some time later, or asks again. -/
theorem asks_again (hturns : ∀ n, ∃ m, n ≤ m ∧ acts m = .turn)
    (htime : ∀ t, ∃ n, t ≤ (after (step blake3 call) s acts n).now) {n : ℕ} {deadline : Option ℕ}
    (h : (after (step blake3 call) s acts n).stage = .asking deadline) :
    ∃ m, n < m ∧ ((after (step blake3 call) s acts m).stage.ended = true ∨
      (after (step blake3 call) s acts m).stage = .asking deadline) := by
  obtain ⟨m, hm, -, hsame, hgoes⟩ := goes_on blake3 call s hturns n
  rcases nextStage_asking (hsame.trans h) call with ⟨-, hnext⟩ | ⟨node, -, hnext⟩
  · exact ⟨m + 1, by omega, Or.inl (by rw [hgoes, hnext]; rfl)⟩
  · rw [hnext] at hgoes
    obtain ⟨k, hk, hleads⟩ := answer_leads hturns htime hgoes
    exact ⟨k, by omega, hleads.imp_right And.right⟩

/-- A call that has not ended asks some time later. -/
theorem asks_later (hturns : ∀ n, ∃ m, n ≤ m ∧ acts m = .turn)
    (htime : ∀ t, ∃ n, t ≤ (after (step blake3 call) s acts n).now) (n : ℕ) :
    ∃ m, n ≤ m ∧ ((after (step blake3 call) s acts m).stage.ended = true ∨
      ∃ deadline, (after (step blake3 call) s acts m).stage = .asking deadline) := by
  cases hstage : (after (step blake3 call) s acts n).stage with
  | starting =>
    obtain ⟨m, hm, -, hsame, hgoes⟩ := goes_on blake3 call s hturns n
    rw [nextStage_starting (hsame.trans hstage)] at hgoes
    exact ⟨m + 1, by omega, Or.inr ⟨_, hgoes⟩⟩
  | asking deadline => exact ⟨n, Nat.le_refl n, Or.inr ⟨deadline, hstage⟩⟩
  | answered deadline reply =>
    obtain ⟨m, hm, hleads⟩ := answer_leads hturns htime hstage
    exact ⟨m, hm, hleads.imp_right fun h => ⟨deadline, h.2⟩⟩
  | sleeping deadline wake =>
    obtain ⟨m, hm, hasks⟩ := wakes_up hturns htime hstage
    exact ⟨m, hm, Or.inr ⟨deadline, hasks⟩⟩
  | returned result => exact ⟨n, Nat.le_refl n, Or.inl (by rw [hstage]; rfl)⟩
  | failed => exact ⟨n, Nat.le_refl n, Or.inl (by rw [hstage]; rfl)⟩

/-- **A call with a deadline ends**: it asks after the deadline if it has not ended before. -/
theorem ends_by_deadline (hturns : ∀ n, ∃ m, n ≤ m ∧ acts m = .turn)
    (htime : ∀ t, ∃ n, t ≤ (after (step blake3 call) s acts n).now) {n d : ℕ}
    (h : (after (step blake3 call) s acts n).stage = .asking (some d)) :
    ∃ m, (after (step blake3 call) s acts m).stage.ended = true := by
  have hagain : ∀ k, n ≤ k → ∃ m, k ≤ m ∧ ((after (step blake3 call) s acts m).stage.ended = true ∨
      (after (step blake3 call) s acts m).stage = .asking (some d)) := by
    intro k hk
    induction k, hk using Nat.le_induction with
    | base => exact ⟨n, Nat.le_refl n, Or.inr h⟩
    | succ k _ ih =>
      obtain ⟨m, hm, hended | hasks⟩ := ih
      · exact ⟨m + 1, Nat.succ_le_succ hm, Or.inl (ended_step hended _)⟩
      · obtain ⟨m', hm', hnext⟩ := asks_again hturns htime hasks
        exact ⟨m', by omega, hnext⟩
  obtain ⟨late, hlate⟩ := htime d
  obtain ⟨m, hm, hended | hasks⟩ := hagain (max n late) (le_max_left n late)
  · exact ⟨m, hended⟩
  · -- its answer is looked at after the deadline
    obtain ⟨k, hk, -, hsame, hgoes⟩ := goes_on blake3 call s hturns m
    rcases nextStage_asking (hsame.trans hasks) call with ⟨-, hnext⟩ | ⟨node, -, hnext⟩
    · exact ⟨k + 1, by rw [hgoes, hnext]; rfl⟩
    · rw [hnext] at hgoes
      obtain ⟨j, hj, -, hsame, hread⟩ := goes_on blake3 call s hturns (k + 1)
      have hanswer := hsame.trans hgoes
      have hnow : d ≤ (after (step blake3 call) s acts j).now :=
        after_keeps (P := fun s => d ≤ s.now) (fun s a hd => le_trans hd (now_step a))
          (show late ≤ j by have := le_max_right n late; omega) hlate
      refine ⟨j + 1, ?_⟩
      rw [hread]
      exact ended_nextStage hanswer (fun _ => decide_eq_true hnow) call

/-- **A call that is answered ends.** -/
theorem ends_if_answered (hturns : ∀ n, ∃ m, n ≤ m ∧ acts m = .turn)
    (htime : ∀ t, ∃ n, t ≤ (after (step blake3 call) s acts n).now) {n : ℕ} (hturn : acts n = .turn)
    (h : (after (step blake3 call) s acts n).Answered call) :
    ∃ m, (after (step blake3 call) s acts m).stage.ended = true := by
  obtain ⟨deadline, hstage, hreply⟩ := h
  have hgoes : (after (step blake3 call) s acts (n + 1)).stage =
      (after (step blake3 call) s acts n).nextStage call := by
    rw [after, hturn]
    rfl
  rcases nextStage_asking hstage call with ⟨-, hnext⟩ | ⟨node, hnode, hnext⟩
  · exact ⟨n + 1, by rw [hgoes, hnext]; rfl⟩
  · obtain ⟨m, -, hended | ⟨hpending, -⟩⟩ := answer_leads hturns htime (hgoes.trans hnext)
    · exact ⟨m, hended⟩
    · exact absurd hpending (hreply node hnode)

/-- The call has been answered. -/
def PastAnswer : CallStage → Prop
  | .answered _ (.approved _) | .answered _ (.rejected _) | .returned _ | .failed => True
  | .starting | .asking _ | .answered _ .pending | .sleeping _ _ => False

/-- The call has no deadline. -/
def Endless : CallStage → Prop
  | .asking deadline | .answered deadline _ | .sleeping deadline _ => deadline = none
  | .starting | .returned _ | .failed => True

/-- **A turn without a deadline** gets past the answer by being answered only. -/
theorem endless_nextStage (hlifetime : call.lifetimeMs = 0) (h : Endless s.stage) :
    Endless (s.nextStage call) ∧
      (PastAnswer (s.nextStage call) → PastAnswer s.stage ∨ s.Answered call) := by
  cases hstage : s.stage with
  | starting =>
    rw [nextStage_starting hstage]
    exact ⟨if_pos hlifetime, False.elim⟩
  | asking deadline =>
    rw [hstage] at h
    rcases nextStage_asking hstage call with ⟨hnone, hnext⟩ | ⟨node, hnode, hnext⟩
    · rw [hnext]
      refine ⟨trivial, fun _ => Or.inr ⟨deadline, hstage, fun node hnode => ?_⟩⟩
      rw [hnone] at hnode
      cases hnode
    · rw [hnext]
      refine ⟨h, fun hpast => Or.inr ⟨deadline, hstage, fun node' hnode' hpending => ?_⟩⟩
      cases hnode.symm.trans hnode'
      rw [hpending] at hpast
      exact hpast
  | answered deadline reply =>
    rw [hstage] at h
    obtain rfl : deadline = none := h
    cases reply with
    | approved grant =>
      rcases nextStage_approved hstage call with hnext | hnext
      · rw [hnext]
        exact ⟨trivial, fun _ => Or.inl trivial⟩
      · rw [hnext]
        exact ⟨trivial, fun _ => Or.inl trivial⟩
    | rejected reason =>
      rw [nextStage_rejected hstage]
      exact ⟨trivial, fun _ => Or.inl trivial⟩
    | pending =>
      rw [nextStage_pending hstage]
      exact ⟨rfl, False.elim⟩
  | sleeping deadline wake =>
    rw [hstage] at h
    rw [nextStage_sleeping hstage]
    split
    · exact ⟨h, False.elim⟩
    · exact ⟨h, False.elim⟩
  | returned result =>
    rw [nextStage_ended (by rw [hstage]; rfl), hstage]
    exact ⟨trivial, fun _ => Or.inl trivial⟩
  | failed =>
    rw [nextStage_ended (by rw [hstage]; rfl), hstage]
    exact ⟨trivial, fun _ => Or.inl trivial⟩

theorem answered_of_past (hlifetime : call.lifetimeMs = 0) (hstart : s.stage = .starting) (n : ℕ) :
    Endless (after (step blake3 call) s acts n).stage ∧
      (PastAnswer (after (step blake3 call) s acts n).stage →
        ∃ m, acts m = .turn ∧ (after (step blake3 call) s acts m).Answered call) := by
  induction n with
  | zero =>
    rw [after, hstart]
    exact ⟨trivial, False.elim⟩
  | succ n ih =>
    obtain ⟨hendless, hpast⟩ := ih
    by_cases hturn : acts n = .turn
    · have hgoes : (after (step blake3 call) s acts (n + 1)).stage =
          (after (step blake3 call) s acts n).nextStage call := by
        rw [after, hturn]
        rfl
      obtain ⟨hnext, hcomes⟩ := endless_nextStage hlifetime hendless
      rw [hgoes]
      exact ⟨hnext, fun hnow => (hcomes hnow).elim hpast fun hanswered => ⟨n, hturn, hanswered⟩⟩
    · have hsame : (after (step blake3 call) s acts (n + 1)).stage =
          (after (step blake3 call) s acts n).stage := stage_of_no_turn hturn
      rw [hsame]
      exact ⟨hendless, hpast⟩

theorem pastAnswer_of_ended {stage : CallStage} (h : stage.ended = true) : PastAnswer stage := by
  cases stage with
  | returned result => trivial
  | failed => trivial
  | starting | asking | answered | sleeping => cases h

end

/-- **When a request ends**: whatever the owner and the requester do meanwhile, in whatever order,
if the call gets its turns again and again and time goes on, then the call ends exactly if it has a
lifetime or is answered once; and it ends if the owner ever decides, either way. -/
theorem request_ends_iff (blake3 : Bytes → FileHash) (call : FolderPairingCall) (c : Couple) (now : ℕ)
    (acts : ℕ → RequestAct) (hturns : ∀ n, ∃ m, n ≤ m ∧ acts m = .turn)
    (htime : ∀ t, ∃ n, t ≤ (Rest.after (Requesting.step blake3 call) ⟨c, now, .starting⟩ acts n).now) :
    ((∃ n, (Rest.after (Requesting.step blake3 call) ⟨c, now, .starting⟩ acts n).stage.ended = true) ↔
      call.lifetimeMs ≠ 0 ∨ ∃ n, acts n = .turn ∧
        (Rest.after (Requesting.step blake3 call) ⟨c, now, .starting⟩ acts n).Answered call) ∧
    ((∃ n, (Rest.after (Requesting.step blake3 call) ⟨c, now, .starting⟩ acts n).couple.FolderDecided
        call.listener call.folderGuid) →
      ∃ n, (Rest.after (Requesting.step blake3 call) ⟨c, now, .starting⟩ acts n).stage.ended = true) := by
  refine ⟨⟨?_, ?_⟩, ?_⟩
  · rintro ⟨n, hended⟩
    refine or_iff_not_imp_left.mpr fun hlifetime => ?_
    exact (answered_of_past (not_not.mp hlifetime) rfl n).2 (pastAnswer_of_ended hended)
  · rintro (hlifetime | ⟨n, hturn, hanswered⟩)
    · obtain ⟨m, -, -, hstage, hgoes⟩ := goes_on blake3 call ⟨c, now, .starting⟩ hturns 0
      rw [Requesting.nextStage_starting hstage, FolderPairingCall.deadline, if_neg hlifetime] at hgoes
      exact ends_by_deadline hturns htime hgoes
    · exact ends_if_answered hturns htime hturn hanswered
  · rintro ⟨n, hdecided⟩
    obtain ⟨m, hm, hended | ⟨deadline, hasks⟩⟩ := asks_later hturns htime n
    · exact ⟨m, hended⟩
    · obtain ⟨k, hk, hturn, hstage, -⟩ := goes_on blake3 call ⟨c, now, .starting⟩ hturns m
      refine ends_if_answered hturns htime hturn (Requesting.answered_of_decided (hstage.trans hasks) ?_)
      exact after_keeps (P := fun s => s.couple.FolderDecided call.listener call.folderGuid)
        (fun s a h => Requesting.decided_turn h a) (hm.trans hk) hdecided

/-- A turn of the call, and a millisecond, over and over. -/
def inTurn (n : ℕ) : RequestAct := if n % 2 = 0 then .turn else .elapse 1

theorem now_inTurn (blake3 : Bytes → FileHash) (call : FolderPairingCall) (s : Requesting) (n : ℕ) :
    n / 2 ≤ (Rest.after (Requesting.step blake3 call) s inTurn n).now := by
  induction n with
  | zero => exact Nat.zero_le _
  | succ n ih =>
    rw [Rest.after]
    unfold inTurn
    split
    · show (n + 1) / 2 ≤ (Rest.after (Requesting.step blake3 call) s inTurn n).now
      omega
    · show (n + 1) / 2 ≤ (Rest.after (Requesting.step blake3 call) s inTurn n).now + 1
      omega

/-- The laptop does nothing, and the phone's call ends. -/
theorem request_ends_iff_photos : ∃ n, (Rest.after (Requesting.step sampleBlake3 photosCall)
    ⟨laptopShares, 0, .starting⟩ inTurn n).stage.ended = true := by
  refine (request_ends_iff sampleBlake3 photosCall laptopShares 0 inTurn (fun n => ?_) fun t => ?_).1.mpr
    (Or.inl (by decide))
  · exact ⟨2 * n, by omega, if_pos (by omega)⟩
  · refine ⟨2 * t, ?_⟩
    have hnow := now_inTurn sampleBlake3 photosCall ⟨laptopShares, 0, .starting⟩ (2 * t)
    omega

end FerriSync
