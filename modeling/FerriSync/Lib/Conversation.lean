/-
# What a machine answers

A machine that reads its messages in blocks, and says nothing before a block
is over (`Takes`, `Conversation`): what it has written after any number of
messages are the replies to the blocks it has read (`Conversation.cut`).

Key definitions: `waits`, `Takes`, `Conversation`.
Key theorems: `Conversation.does`, `Conversation.cut`.
-/
import FerriSync.Lib.Machine

namespace Machine

variable {σ μ ε : Type}

/-- The machine waits for a message. -/
def waits (next : σ → Move σ μ ε) (s : σ) : Prop :=
  (∃ got failed, next s = .read got failed) ∨ ∃ stop, next s = .drain stop

/-- A machine that waits does nothing by itself. -/
theorem Does.eq_of_waits {next : σ → Move σ μ ε} {s t : σ} {outs : List μ} (hw : waits next s)
    (h : Does next s [] outs t) : t = s ∧ outs = [] := by
  cases h with
  | nothing => exact ⟨rfl, rfl⟩
  | silent hs =>
    rcases hw with ⟨got, failed, hn⟩ | ⟨stop, hn⟩ <;> (rw [hn] at hs; cases hs)
  | write hs =>
    rcases hw with ⟨got, failed, hn⟩ | ⟨stop, hn⟩ <;> (rw [hn] at hs; cases hs)

variable (next : σ → Move σ μ ε)

/-- Reading a block of messages, waiting for each, with a reply at the end. -/
inductive Takes : σ → List μ → List μ → σ → Prop
  | last {s t : σ} {m : μ} {reply : List μ} :
      waits next s → Does next s [m] reply t → Takes s [m] reply t
  | more {s s' t : σ} {m : μ} {ms reply : List μ} :
      waits next s → Does next s [m] [] s' → Takes s' ms reply t → Takes s (m :: ms) reply t

/-- Reading one block after the other; a block comes with the reply to it. -/
inductive Conversation : σ → List (List μ × List μ) → σ → Prop
  | finished {s : σ} : waits next s → Conversation s [] s
  | block {s s' t : σ} {b : List μ × List μ} {bs : List (List μ × List μ)} :
      Takes next s b.1 b.2 s' → Conversation s' bs t → Conversation s (b :: bs) t

/-- The messages of the blocks. -/
def asked (bs : List (List μ × List μ)) : List μ := bs.flatMap (·.1)

/-- The replies to the blocks. -/
def replies (bs : List (List μ × List μ)) : List μ := bs.flatMap (·.2)

theorem asked_append (bs cs : List (List μ × List μ)) : asked (bs ++ cs) = asked bs ++ asked cs :=
  List.flatMap_append ..

theorem replies_append (bs cs : List (List μ × List μ)) :
    replies (bs ++ cs) = replies bs ++ replies cs := List.flatMap_append ..

variable {next}

namespace Takes

variable {s t : σ} {ms reply : List μ}

theorem does (h : Takes next s ms reply t) : Does next s ms reply t := by
  induction h with
  | last _ hd => exact hd
  | more _ hd _ ih => exact hd.trans ih

theorem waits_first (h : Takes next s ms reply t) : waits next s := by
  cases h with
  | last hw _ => exact hw
  | more hw _ _ => exact hw

theorem ne_nil (h : Takes next s ms reply t) : ms ≠ [] := by
  cases h <;> simp

/-- Before the end of the block the machine waits, and has said nothing. -/
theorem cut (h : Takes next s ms reply t) {n : ℕ} (hn : n < ms.length) :
    ∃ u, Does next s (ms.take n) [] u ∧ waits next u := by
  induction h generalizing n with
  | last hw hd =>
    rw [List.length_singleton] at hn
    obtain rfl : n = 0 := by omega
    exact ⟨_, .nothing _, hw⟩
  | more hw hd _ ih =>
    cases n with
    | zero => exact ⟨_, .nothing _, hw⟩
    | succ n =>
      rw [List.length_cons] at hn
      obtain ⟨u, hu, hwu⟩ := ih (show n < _ by omega)
      exact ⟨u, hd.trans hu, hwu⟩

end Takes

namespace Conversation

variable {s t u : σ} {bs cs : List (List μ × List μ)}

theorem does (h : Conversation next s bs t) : Does next s (asked bs) (replies bs) t := by
  induction h with
  | finished _ => exact .nothing _
  | block hb _ ih => exact hb.does.trans ih

theorem waits_first (h : Conversation next s bs t) : waits next s := by
  cases h with
  | finished hw => exact hw
  | block hb _ => exact hb.waits_first

theorem trans (h : Conversation next s bs t) (h' : Conversation next t cs u) :
    Conversation next s (bs ++ cs) u := by
  induction h with
  | finished _ => exact h'
  | block hb _ ih => exact .block hb (ih h')

/-- **After any number of messages** the machine waits, having replied to the
blocks it has read. -/
theorem cut (h : Conversation next s bs t) {n : ℕ} (hn : n ≤ (asked bs).length) :
    ∃ j u, j ≤ bs.length ∧ (asked (bs.take j)).length ≤ n ∧
      Does next s ((asked bs).take n) (replies (bs.take j)) u ∧ waits next u := by
  induction h generalizing n with
  | finished hw =>
    obtain rfl : n = 0 := by simpa [asked] using hn
    exact ⟨0, _, Nat.le_refl _, Nat.le_refl _, .nothing _, hw⟩
  | @block s s' t b bs hb hrest ih =>
    have hcons : asked (b :: bs) = b.1 ++ asked bs := rfl
    by_cases hlt : n < b.1.length
    · obtain ⟨u, hu, hw⟩ := hb.cut hlt
      refine ⟨0, u, Nat.zero_le _, Nat.zero_le _, ?_, hw⟩
      rw [hcons, List.take_append_of_le_length (by omega)]
      exact hu
    · rw [hcons, List.length_append] at hn
      obtain ⟨j, u, hj, hlen, hu, hw⟩ := ih (n := n - b.1.length) (by omega)
      refine ⟨j + 1, u, Nat.succ_le_succ hj, ?_, ?_, hw⟩
      · show (b.1 ++ asked (bs.take j)).length ≤ n
        rw [List.length_append]
        omega
      · have htake : (asked (b :: bs)).take n = b.1 ++ (asked bs).take (n - b.1.length) := by
          rw [hcons, List.take_append, List.take_of_length_le (by omega)]
        rw [htake]
        exact hb.does.trans hu

/-- After any number of blocks the machine has replied to them. -/
theorem cut_block (h : Conversation next s bs t) (j : ℕ) :
    ∃ u, Does next s (asked (bs.take j)) (replies (bs.take j)) u ∧ waits next u := by
  induction h generalizing j with
  | finished hw => exact ⟨_, by rw [List.take_nil]; exact .nothing _, hw⟩
  | block hb hrest ih =>
    cases j with
    | zero => exact ⟨_, .nothing _, hb.waits_first⟩
    | succ j =>
      obtain ⟨u, hu, hw⟩ := ih j
      exact ⟨u, hb.does.trans hu, hw⟩

end Conversation

end Machine
