/-
# Text in UTF-8

The bytes of a list of characters (`encode`) and the characters of bytes that are
some (`decode`), as Lean's strings have them.

Bytes that are cut off after a number of them are a text again if and only if the
next byte begins a character (`decode_take_isSome_iff`), and then that of the
longest beginning of the text that has no more bytes (`LongestFit.of_encode`).

Key definitions: `encode`, `decode`, `LongestFit`.
Key theorems: `decode_eq_some`, `prefix_of_encode`, `cut_iff`, `decode_take_isSome_iff`.
-/
import Mathlib.Data.List.Basic
import Mathlib.Data.List.Infix
import Mathlib.Tactic.Common

namespace Utf8

def encode (cs : List Char) : List UInt8 := cs.flatMap String.utf8EncodeChar

def decode (bytes : List UInt8) : Option (List Char) :=
  bytes.toByteArray.utf8Decode?.map Array.toList

/-- The longest beginning of a text that has at most so many bytes. -/
structure LongestFit (limit : ℕ) (cs p : List Char) : Prop where
  begins : p <+: cs
  fits : (encode p).length ≤ limit
  longest : ∀ q, q <+: cs → (encode q).length ≤ limit → q <+: p

variable {bytes : List UInt8} {cs p q : List Char} {c : Char} {n limit : ℕ}

@[simp] theorem encode_nil : encode [] = [] := rfl

@[simp] theorem encode_cons : encode (c :: cs) = String.utf8EncodeChar c ++ encode cs := rfl

theorem encode_append : encode (p ++ q) = encode p ++ encode q := List.flatMap_append

theorem toByteArray_encode (cs : List Char) : (encode cs).toByteArray = cs.utf8Encode := rfl

/-- **What is decoded is what was encoded.** -/
theorem decode_eq_some : decode bytes = some cs ↔ encode cs = bytes := by
  constructor
  · intro h
    obtain ⟨a, ha, rfl⟩ := Option.map_eq_some_iff.mp h
    have hsome : (bytes.toByteArray.utf8Decode?).isSome := by rw [ha]; rfl
    have hget : bytes.toByteArray.utf8Decode?.get hsome = a := Option.get_of_eq_some hsome ha
    have hencode := @ByteArray.utf8Encode_get_utf8Decode? bytes.toByteArray hsome
    rw [hget, ← toByteArray_encode] at hencode
    exact List.toByteArray_inj.mp hencode
  · rintro rfl
    unfold decode
    rw [toByteArray_encode, List.utf8Decode?_utf8Encode]
    rfl

theorem decode_encode (cs : List Char) : decode (encode cs) = some cs := decode_eq_some.mpr rfl

/-- A text whose bytes begin another's begins the other. -/
theorem prefix_of_encode (h : encode p <+: encode cs) : p <+: cs := by
  obtain ⟨rest, hrest⟩ := h
  apply List.isPrefix_of_utf8Encode_append_eq_utf8Encode rest.toByteArray
  rw [← toByteArray_encode, ← toByteArray_encode, ← hrest, List.toByteArray_append]

theorem encode_isPrefix (h : p <+: cs) : encode p <+: encode cs := by
  obtain ⟨rest, rfl⟩ := h
  exact ⟨encode rest, encode_append.symm⟩

/-- **Where a text can be cut**: before a byte that begins a character. -/
theorem cut_iff (hn : n < (encode cs).length) :
    (∃ p, p <+: cs ∧ (encode p).length = n) ↔ (encode cs)[n].IsUTF8FirstByte := by
  induction cs generalizing n with
  | nil => simp at hn
  | cons c cs ih =>
    have hlen : (encode (c :: cs)).length = (String.utf8EncodeChar c).length + (encode cs).length := by
      rw [encode_cons, List.length_append]
    have hpos : 0 < (String.utf8EncodeChar c).length := by
      rw [String.length_utf8EncodeChar]
      exact c.utf8Size_pos
    by_cases hc : n < (String.utf8EncodeChar c).length
    · have hbyte : (encode (c :: cs))[n] = (String.utf8EncodeChar c)[n] := by
        simp only [encode_cons, List.getElem_append_left hc]
      rw [hbyte, UInt8.isUTF8FirstByte_getElem_utf8EncodeChar]
      constructor
      · rintro ⟨p, hp, rfl⟩
        cases p with
        | nil => rfl
        | cons d p =>
          obtain rfl : d = c := (List.cons_prefix_cons.mp hp).1
          rw [encode_cons, List.length_append] at hc
          omega
      · rintro rfl
        exact ⟨[], List.nil_prefix, rfl⟩
    · obtain ⟨m, rfl⟩ := Nat.exists_eq_add_of_le (Nat.le_of_not_lt hc)
      have hm : m < (encode cs).length := by omega
      have hbyte : (encode (c :: cs))[(String.utf8EncodeChar c).length + m] = (encode cs)[m] := by
        simp only [encode_cons]
        rw [List.getElem_append_right (Nat.le_add_right ..)]
        simp
      rw [hbyte, ← ih hm]
      constructor
      · rintro ⟨p, hp, hlength⟩
        cases p with
        | nil =>
          rw [encode_nil, List.length_nil] at hlength
          omega
        | cons d p =>
          obtain ⟨rfl, hbelow⟩ := List.cons_prefix_cons.mp hp
          rw [encode_cons, List.length_append] at hlength
          exact ⟨p, hbelow, by omega⟩
      · rintro ⟨p, hp, rfl⟩
        exact ⟨c :: p, List.cons_prefix_cons.mpr ⟨rfl, hp⟩, by rw [encode_cons, List.length_append]⟩

/-- **What is left of a text that is cut** is one, if the next byte begins a character. -/
theorem decode_take_isSome_iff (hn : n < (encode cs).length) :
    (∃ p, decode ((encode cs).take n) = some p) ↔ (encode cs)[n].IsUTF8FirstByte := by
  rw [← cut_iff hn]
  constructor
  · rintro ⟨p, hp⟩
    have hencode := decode_eq_some.mp hp
    refine ⟨p, prefix_of_encode (hencode ▸ List.take_prefix n _), ?_⟩
    rw [hencode, List.length_take, Nat.min_eq_left (Nat.le_of_lt hn)]
  · rintro ⟨p, hp, rfl⟩
    refine ⟨p, decode_eq_some.mpr ?_⟩
    exact List.prefix_iff_eq_take.mp (encode_isPrefix hp)

/-- A beginning that has as many bytes as are asked for is the longest. -/
theorem LongestFit.of_encode (hp : encode p = (encode cs).take limit) : LongestFit limit cs p where
  begins := prefix_of_encode (hp ▸ List.take_prefix limit _)
  fits := by
    rw [hp, List.length_take]
    exact Nat.min_le_left ..
  longest q hq hlength := by
    apply prefix_of_encode
    rw [hp]
    exact List.prefix_take_iff.mpr ⟨encode_isPrefix hq, hlength⟩

end Utf8
