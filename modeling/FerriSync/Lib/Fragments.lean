/-
# Reading from a stream that comes in pieces

A stream of items of which each read yields some that have arrived, at least
one unless the stream has ended. Reading until a buffer is full (`readExact`)
yields the first items of the stream, however it is cut into pieces
(`readExact_of_le`), and fails when it has not enough of them
(`readExact_of_lt`).

Key definitions: `readExact`, `Pieces`.
Key theorems: `readExact_of_le`, `readExact_of_lt`.
-/
import Mathlib.Data.List.Basic

namespace Fragments

variable {α ε : Type}

/-- Fill a buffer of `n` items. A read yields no more than the buffer has room
for; one that yields nothing is the end of the stream. -/
def readExact (closed : ε) : List (List α) → ℕ → Except ε (List α × List (List α))
  | pieces, 0 => .ok ([], pieces)
  | [], _ + 1 => .error closed
  | piece :: pieces, n + 1 =>
    if piece = [] then .error closed
    else if n + 1 < piece.length then .ok (piece.take (n + 1), piece.drop (n + 1) :: pieces)
    else match readExact closed pieces (n + 1 - piece.length) with
      | .error e => .error e
      | .ok (items, rest) => .ok (piece ++ items, rest)

/-- The pieces of a stream that has not ended before its last item. -/
def Pieces (pieces : List (List α)) (stream : List α) : Prop :=
  (∀ piece ∈ pieces, piece ≠ []) ∧ pieces.flatten = stream

theorem Pieces.tail {piece stream : List α} {pieces : List (List α)}
    (h : Pieces (piece :: pieces) stream) :
    ∃ rest, stream = piece ++ rest ∧ Pieces pieces rest :=
  ⟨pieces.flatten, by rw [← h.2, List.flatten_cons], fun p hp => h.1 p (List.mem_cons_of_mem _ hp), rfl⟩

variable (closed : ε) {pieces : List (List α)} {stream : List α} {n : ℕ}

/-- **There is enough**: the first items come, and the rest is left. -/
theorem readExact_of_le (h : Pieces pieces stream) (hn : n ≤ stream.length) :
    ∃ rest, readExact closed pieces n = .ok (stream.take n, rest) ∧ Pieces rest (stream.drop n) := by
  induction pieces generalizing stream n with
  | nil =>
    obtain rfl : stream = [] := h.2.symm
    obtain rfl : n = 0 := Nat.le_zero.mp hn
    exact ⟨[], by rw [readExact]; rfl, h⟩
  | cons piece pieces ih =>
    cases n with
    | zero => exact ⟨piece :: pieces, by rw [readExact]; rfl, h⟩
    | succ n =>
      have hne := h.1 piece (List.mem_cons_self ..)
      obtain ⟨rest, rfl, hrest⟩ := h.tail
      rw [readExact, if_neg hne]
      by_cases hlt : n + 1 < piece.length
      · rw [if_pos hlt]
        refine ⟨_, by rw [List.take_append_of_le_length (by omega)], ?_, ?_⟩
        · intro p hp
          rcases List.mem_cons.mp hp with rfl | hp
          · refine List.ne_nil_of_length_pos ?_
            rw [List.length_drop]
            omega
          · exact hrest.1 p hp
        · rw [List.flatten_cons, hrest.2, List.drop_append_of_le_length (by omega)]
      · rw [if_neg hlt]
        rw [List.length_append] at hn
        obtain ⟨left, hread, hleft⟩ := ih (n := n + 1 - piece.length) hrest (by omega)
        rw [hread]
        refine ⟨left, ?_, ?_⟩
        · have htake : piece.take (n + 1) = piece := List.take_of_length_le (by omega)
          rw [List.take_append, htake]
        · have hdrop : piece.drop (n + 1) = [] := List.drop_of_length_le (by omega)
          rw [List.drop_append, hdrop, List.nil_append]
          exact hleft

/-- **There is not enough.** -/
theorem readExact_of_lt (h : Pieces pieces stream) (hn : stream.length < n) :
    readExact closed pieces n = .error closed := by
  induction pieces generalizing stream n with
  | nil =>
    cases n with
    | zero => omega
    | succ n => rw [readExact]
  | cons piece pieces ih =>
    have hne := h.1 piece (List.mem_cons_self ..)
    obtain ⟨rest, rfl, hrest⟩ := h.tail
    rw [List.length_append] at hn
    cases n with
    | zero => omega
    | succ n => rw [readExact, if_neg hne, if_neg (by omega), ih hrest (by omega)]

end Fragments
