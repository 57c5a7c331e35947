/-
# What a receive loop puts together

The chunks an end receives may name any path and any offset, in any order and
more than once. A file is handed to verification at the first chunk that ends
at the total it declares (`receiveChunk`), whatever has come before it; and
the count of buffered bytes grows by a chunk's length and shrinks by a
buffer's.

So a file handed over is whole, its length the declared total and each of its
bytes sent, if and only if its chunks declare one total and leave no gap
(`delivered_whole_iff`). And the count is that of the bytes buffered, if and
only if each chunk continues its file where its buffer ends (`accounts_iff`).

`Reassembly` follows one session's chunks and remembers those of the files
begun; a refused chunk ends the session.

Key definitions: `Reassembly`, `reassemble`, `Delivery.Whole`, `Delivery.gapless`,
`Reassembly.Accounts`, `Reassembly.continues`.
Key theorems: `Buffered.chunk`, `delivered_whole_iff`, `accounts_iff`.
-/
import FerriSync.Transfer
import FerriSync.Lib.Spans
import Mathlib.Data.List.Induction

namespace FerriSync

open Spans

/-- The bytes of its file a chunk covers. -/
def FileChunk.span (c : FileChunk) : Span := ⟨c.offset, c.offset + c.data.length, Nat.le_add_right ..⟩

/-- A file that is handed to verification, and the chunks received for it. -/
structure Delivery where
  path : String
  data : Bytes
  parts : List FileChunk

/-- The chunks of a session so far, as its receive loop has taken them. -/
structure Reassembly where
  inbox : Inbox := .empty
  /-- The chunks of each file begun. -/
  parts : String → List FileChunk := fun _ => []
  delivered : List Delivery := []
  /-- A subtraction from the count of buffered bytes went below zero. -/
  underflow : Bool := false
  refused : Bool := false

/-- One more chunk. -/
def Reassembly.chunk (r : Reassembly) (c : FileChunk) : Reassembly :=
  if r.refused || decide (c.path = "metadata.db") then r
  else match receiveChunk r.inbox c with
  | .refused _ => { r with refused := true }
  | .more inbox => { r with
      inbox := inbox, parts := Function.update r.parts c.path (r.parts c.path ++ [c]) }
  | .complete inbox data => { r with
      inbox := inbox
      parts := Function.update r.parts c.path []
      delivered := r.delivered ++ [⟨c.path, data, r.parts c.path ++ [c]⟩]
      underflow := r.underflow || decide (r.inbox.buffered + c.data.length < data.length) }

def reassemble (cs : List FileChunk) : Reassembly := cs.foldl Reassembly.chunk {}

theorem reassemble_append (cs : List FileChunk) (c : FileChunk) :
    reassemble (cs ++ [c]) = (reassemble cs).chunk c := by
  rw [reassemble, List.foldl_append]
  rfl

/-! ### A buffer and its chunks -/

theorem writeAt_length (b d : Bytes) (start : ℕ) :
    (writeAt b start d).length = max b.length (start + d.length) := by
  unfold writeAt
  dsimp only
  split_ifs with h
  · simp only [List.length_append, List.length_take, List.length_drop, List.length_replicate]
    omega
  · simp only [List.length_append, List.length_take, List.length_drop]
    omega

/-- What has just been written. -/
theorem writeAt_getElem?_of_has (b d : Bytes) {start i : ℕ} (h : start ≤ i) (h' : i < start + d.length) :
    (writeAt b start d)[i]? = d[i - start]? := by
  have key : ∀ b : Bytes, start + d.length ≤ b.length →
      (b.take start ++ d ++ b.drop (start + d.length))[i]? = d[i - start]? := by
    intro b hb
    have htake : (b.take start).length = start := by
      rw [List.length_take]
      omega
    rw [List.append_assoc, List.getElem?_append_right (by omega), htake,
      List.getElem?_append_left (by omega)]
  unfold writeAt
  dsimp only
  split_ifs with hlt
  · refine key _ ?_
    rw [List.length_append, List.length_replicate]
    omega
  · exact key _ (by omega)

/-- What was there before, elsewhere. -/
theorem writeAt_getElem?_of_lt (b d : Bytes) {start i : ℕ} (h : i < b.length)
    (h' : ¬ (start ≤ i ∧ i < start + d.length)) : (writeAt b start d)[i]? = b[i]? := by
  have key : ∀ b' : Bytes, start + d.length ≤ b'.length → i < b'.length →
      (b'.take start ++ d ++ b'.drop (start + d.length))[i]? = b'[i]? := by
    intro b' hb hi
    have htake : (b'.take start).length = start := by
      rw [List.length_take]
      omega
    by_cases hs : i < start
    · rw [List.append_assoc, List.getElem?_append_left (by omega), List.getElem?_take_of_lt hs]
    · have hlen : (b'.take start ++ d).length = start + d.length := by rw [List.length_append, htake]
      rw [List.getElem?_append_right (by omega), hlen, List.getElem?_drop]
      congr 1
      omega
  unfold writeAt
  dsimp only
  split_ifs with hlt
  · rw [key _ (by rw [List.length_append, List.length_replicate]; omega)
      (by rw [List.length_append]; omega), List.getElem?_append_left h]
  · exact key b (by omega) h

/-- A buffer is what these chunks have written. -/
structure Written (parts : List FileChunk) (b : Bytes) : Prop where
  length : b.length = reach (parts.map FileChunk.span)
  bytes : ∀ i, (∃ c ∈ parts, c.span.Has i) →
    ∃ c ∈ parts, c.span.Has i ∧ b[i]? = c.data[i - c.offset]?

theorem Written.nil : Written [] [] := ⟨rfl, by simp⟩

theorem Written.snoc {parts : List FileChunk} {b : Bytes} (h : Written parts b) (c : FileChunk) :
    Written (parts ++ [c]) (writeAt b c.offset c.data) := by
  refine ⟨?_, fun i hi => ?_⟩
  · rw [writeAt_length, h.length, List.map_append, reach_append]
    show max _ (c.offset + c.data.length) = max _ (max (c.offset + c.data.length) 0)
    rw [Nat.max_zero]
  · by_cases hc : c.span.Has i
    · exact ⟨c, by simp, hc, writeAt_getElem?_of_has b c.data hc.1 hc.2⟩
    · obtain ⟨c', hc', hi'⟩ := hi
      rcases List.mem_append.mp hc' with hc' | hc'
      · obtain ⟨c₀, hc₀, hi₀, hb⟩ := h.bytes i ⟨c', hc', hi'⟩
        have hlt : i < b.length := by
          have hstop := stop_le_reach (List.mem_map_of_mem (f := FileChunk.span) hc₀)
          rw [← h.length] at hstop
          exact Nat.lt_of_lt_of_le hi₀.2 hstop
        exact ⟨c₀, List.mem_append_left _ hc₀, hi₀,
          (writeAt_getElem?_of_lt b c.data hlt hc).trans hb⟩
      · rw [List.mem_singleton.mp hc'] at hi'
        exact absurd hi' hc

/-! ### What is delivered -/

/-- The file's length is the total its chunks declare, and each of its bytes has
been sent. -/
structure Delivery.Whole (d : Delivery) : Prop where
  length : ∀ c ∈ d.parts, d.data.length = c.totalSize
  bytes : ∀ i < d.data.length, ∃ c ∈ d.parts, c.span.Has i ∧ d.data[i]? = c.data[i - c.offset]?

/-- The chunks declare one total and leave no gap. -/
def Delivery.gapless (d : Delivery) : Bool :=
  (d.parts.all fun c => d.parts.all fun c' => decide (c.totalSize = c'.totalSize)) &&
    Spans.gapless (d.parts.map FileChunk.span)

/-- What is known of a file that is handed over. -/
structure Delivery.Put (d : Delivery) : Prop where
  written : Written d.parts d.data
  within : ∀ c ∈ d.parts, c.offset + c.data.length ≤ c.totalSize
  /-- One of the chunks ends at its total. -/
  last : ∃ c ∈ d.parts, c.offset + c.data.length = c.totalSize

theorem Delivery.Put.whole_iff {d : Delivery} (h : d.Put) : d.Whole ↔ d.gapless = true := by
  obtain ⟨l, hl, hend⟩ := h.last
  rw [Delivery.gapless, Bool.and_eq_true, Spans.gapless_iff]
  constructor
  · intro hw
    refine ⟨?_, fun i hi => ?_⟩
    · simp only [List.all_eq_true, decide_eq_true_eq]
      exact fun c hc c' hc' => (hw.length c hc).symm.trans (hw.length c' hc')
    · rw [← h.written.length] at hi
      obtain ⟨c, hc, hci, -⟩ := hw.bytes i hi
      exact ⟨c.span, List.mem_map_of_mem hc, hci⟩
  · rintro ⟨hone, hcover⟩
    simp only [List.all_eq_true, decide_eq_true_eq] at hone
    -- no chunk goes beyond the one total, and one reaches it
    have hlen : d.data.length = l.totalSize := by
      rw [h.written.length]
      refine Nat.le_antisymm (reach_le fun s hs => ?_) ?_
      · obtain ⟨c, hc, rfl⟩ := List.mem_map.mp hs
        exact (h.within c hc).trans (hone c hc l hl).le
      · have hstop := stop_le_reach (List.mem_map_of_mem (f := FileChunk.span) hl)
        exact hend ▸ hstop
    refine ⟨fun c hc => hlen.trans (hone l hl c hc), fun i hi => ?_⟩
    rw [h.written.length] at hi
    obtain ⟨s, hs, hsi⟩ := hcover i hi
    obtain ⟨c, hc, rfl⟩ := List.mem_map.mp hs
    exact h.written.bytes i ⟨c, hc, hsi⟩

/-! ### One more chunk -/

namespace Reassembly

variable (r : Reassembly) (c : FileChunk)

/-- The chunk is taken in. -/
def takes : Bool :=
  !r.refused && decide (c.path ≠ "metadata.db") &&
    (validateChunk c r.inbox.incoming.entries.length r.inbox.buffered).isOk

/-- The bytes buffered of a file. -/
def buffer (path : String) : Bytes := (r.inbox.incoming.lookup path).getD []

/-- The chunk's file once the chunk is written. -/
def written : Bytes := writeAt (r.buffer c.path) c.offset c.data

/-- The chunk ends at the total it declares. -/
abbrev ends (c : FileChunk) : Prop := c.totalSize ≤ c.offset + c.data.length

/-- The count of buffered bytes with the chunk's. -/
def counted : ℕ := (r.inbox.buffered + c.data.length) % UInt64.size

variable {r c}

theorem valid_of_takes (h : r.takes c = true) :
    validateChunk c r.inbox.incoming.entries.length r.inbox.buffered = .ok () := by
  simp only [takes, Bool.and_eq_true] at h
  cases hv : validateChunk c r.inbox.incoming.entries.length r.inbox.buffered with
  | ok u => rfl
  | error e =>
    rw [hv] at h
    cases h.2

theorem chunk_of_not_takes (h : r.takes c = false) : ∃ b, r.chunk c = { r with refused := b } := by
  unfold chunk
  by_cases hskip : (r.refused || decide (c.path = "metadata.db")) = true
  · rw [if_pos hskip]
    exact ⟨r.refused, rfl⟩
  · rw [if_neg hskip]
    simp only [Bool.or_eq_true, decide_eq_true_eq, not_or, Bool.not_eq_true] at hskip
    cases hv : validateChunk c r.inbox.incoming.entries.length r.inbox.buffered with
    | ok u =>
      have htakes : r.takes c = true := by
        simp only [takes, hskip.1, hv, Bool.not_false, Bool.true_and, Bool.and_eq_true,
          decide_eq_true_eq]
        exact ⟨hskip.2, rfl⟩
      rw [htakes] at h
      cases h
    | error e =>
      refine ⟨true, ?_⟩
      simp only [receiveChunk, hv]

theorem chunk_of_takes (h : r.takes c = true) : r.chunk c =
    if ends c then { r with
      inbox := ⟨r.inbox.incoming.erase c.path,
        (r.counted c + UInt64.size - (r.written c).length) % UInt64.size⟩
      parts := Function.update r.parts c.path []
      delivered := r.delivered ++ [⟨c.path, r.written c, r.parts c.path ++ [c]⟩]
      underflow := r.underflow ||
        decide (r.inbox.buffered + c.data.length < (r.written c).length) }
    else { r with
      inbox := ⟨r.inbox.incoming.insert c.path (r.written c), r.counted c⟩
      parts := Function.update r.parts c.path (r.parts c.path ++ [c]) } := by
  have hvalid := valid_of_takes h
  simp only [takes, Bool.and_eq_true, Bool.not_eq_true', decide_eq_true_eq] at h
  unfold chunk
  rw [if_neg (by simp [h.1.1, h.1.2])]
  simp only [receiveChunk, hvalid]
  by_cases hend : ends c
  · rw [if_pos hend, if_pos hend]
    rfl
  · rw [if_neg hend, if_neg hend]
    rfl

theorem parts_chunk (h : r.takes c = true) (path : String) : (r.chunk c).parts path =
    if path = c.path then (if ends c then [] else r.parts c.path ++ [c]) else r.parts path := by
  rw [chunk_of_takes h]
  by_cases hend : ends c
  · rw [if_pos hend, if_pos hend]
    exact Function.update_apply ..
  · rw [if_neg hend, if_neg hend]
    exact Function.update_apply ..

theorem buffer_chunk (h : r.takes c = true) (path : String) : (r.chunk c).buffer path =
    if path = c.path then (if ends c then [] else r.written c) else r.buffer path := by
  rw [chunk_of_takes h]
  by_cases hp : path = c.path
  · subst hp
    rw [if_pos rfl]
    by_cases hend : ends c
    · rw [if_pos hend, if_pos hend]
      show ((r.inbox.incoming.erase c.path).lookup c.path).getD [] = []
      rw [AList.lookup_erase]
      rfl
    · rw [if_neg hend, if_neg hend]
      show ((r.inbox.incoming.insert c.path (r.written c)).lookup c.path).getD [] = r.written c
      rw [AList.lookup_insert]
      rfl
  · rw [if_neg hp]
    by_cases hend : ends c
    · rw [if_pos hend]
      show ((r.inbox.incoming.erase c.path).lookup path).getD [] = r.buffer path
      rw [AList.lookup_erase_ne hp]
      rfl
    · rw [if_neg hend]
      show ((r.inbox.incoming.insert c.path (r.written c)).lookup path).getD [] = r.buffer path
      rw [AList.lookup_insert_ne hp]
      rfl

theorem delivered_chunk (h : r.takes c = true) : (r.chunk c).delivered =
    if ends c then r.delivered ++ [⟨c.path, r.written c, r.parts c.path ++ [c]⟩] else r.delivered := by
  rw [chunk_of_takes h]
  by_cases hend : ends c
  · rw [if_pos hend, if_pos hend]
  · rw [if_neg hend, if_neg hend]

/-- Every buffer is what the chunks of its file have written, and what has been
handed over has been put together so. -/
structure Buffered (r : Reassembly) : Prop where
  written : ∀ path, Written (r.parts path) (r.buffer path)
  within : ∀ path, ∀ c ∈ r.parts path, c.offset + c.data.length ≤ c.totalSize
  put : ∀ d ∈ r.delivered, d.Put

theorem Buffered.start : Buffered {} where
  written _ := Written.nil
  within _ _ hc := absurd hc List.not_mem_nil
  put _ hd := absurd hd List.not_mem_nil

/-- **Taking a chunk keeps this.** -/
theorem Buffered.chunk (h : Buffered r) (c : FileChunk) : Buffered (r.chunk c) := by
  cases htakes : r.takes c with
  | false =>
    obtain ⟨b, hb⟩ := chunk_of_not_takes htakes
    rw [hb]
    exact ⟨h.written, h.within, h.put⟩
  | true =>
    obtain ⟨-, -, -, -, hle, -, -⟩ := (validateChunk_ok ..).mp (valid_of_takes htakes)
    have hparts : Written (r.parts c.path ++ [c]) (r.written c) := (h.written c.path).snoc c
    have hwithin : ∀ c' ∈ r.parts c.path ++ [c], c'.offset + c'.data.length ≤ c'.totalSize := by
      intro c' hc'
      rcases List.mem_append.mp hc' with hc' | hc'
      · exact h.within c.path c' hc'
      · rw [List.mem_singleton.mp hc']
        exact hle
    refine ⟨fun path => ?_, fun path c' hc' => ?_, fun d hd => ?_⟩
    · rw [parts_chunk htakes, buffer_chunk htakes]
      by_cases hp : path = c.path
      · rw [if_pos hp, if_pos hp]
        by_cases hend : ends c
        · rw [if_pos hend, if_pos hend]
          exact Written.nil
        · rw [if_neg hend, if_neg hend]
          exact hparts
      · rw [if_neg hp, if_neg hp]
        exact h.written path
    · rw [parts_chunk htakes] at hc'
      split_ifs at hc' with hp hend
      · exact absurd hc' List.not_mem_nil
      · exact hwithin c' hc'
      · exact h.within path c' hc'
    · rw [delivered_chunk htakes] at hd
      split_ifs at hd with hend
      · rcases List.mem_append.mp hd with hd | hd
        · exact h.put d hd
        · rw [List.mem_singleton.mp hd]
          exact ⟨hparts, hwithin, c, by simp, Nat.le_antisymm hle hend⟩
      · exact h.put d hd

end Reassembly

/-- What a run keeps. -/
theorem reassemble_buffered (cs : List FileChunk) : (reassemble cs).Buffered := by
  induction cs using List.reverseRecOn with
  | nil => exact .start
  | append_singleton cs c ih =>
    rw [reassemble_append]
    exact ih.chunk c

/-- **Whatever chunks come**, the files handed over are whole exactly when the
chunks of each declare one total and leave no gap. -/
theorem delivered_whole_iff (cs : List FileChunk) :
    (∀ d ∈ (reassemble cs).delivered, d.Whole) ↔
      ∀ d ∈ (reassemble cs).delivered, d.gapless = true :=
  forall₂_congr fun d hd => ((reassemble_buffered cs).put d hd).whole_iff

/-- One chunk with the last byte of two: the first is a zero nobody sent. -/
theorem delivered_with_gap :
    ¬ ∀ cs, ∀ d ∈ (reassemble cs).delivered, d.Whole := by
  intro h
  have hd : (⟨"f", [0, 97], [⟨"1", "f", 1, [97], 2⟩]⟩ : Delivery) ∈
      (reassemble [⟨"1", "f", 1, [97], 2⟩]).delivered := by
    have hall : (reassemble [⟨"1", "f", 1, [97], 2⟩]).delivered =
        [⟨"f", [0, 97], [⟨"1", "f", 1, [97], 2⟩]⟩] := by rfl
    rw [hall]
    exact List.mem_singleton_self _
  obtain ⟨c, hc, hhas, -⟩ := (h _ _ hd).bytes 0 (by decide)
  rw [List.mem_singleton.mp hc] at hhas
  exact absurd hhas.1 (by decide)

/-! ### The count of buffered bytes -/

/-- The bytes in all buffers. -/
def sizes (m : AList fun _ : String => Bytes) : ℕ := (m.entries.map fun x => x.2.length).sum

theorem sizes_erase (m : AList fun _ : String => Bytes) (path : String) :
    sizes (m.erase path) + ((m.lookup path).getD []).length = sizes m := by
  by_cases hmem : path ∈ m.entries.keys
  · obtain ⟨b, l₁, l₂, hnot, hl, herase⟩ := List.exists_of_kerase hmem
    have hlookup : m.lookup path = some b := by
      show List.dlookup path m.entries = some b
      exact (List.mem_dlookup_iff m.nodupKeys).mpr (by rw [hl]; simp)
    have hentries : (m.erase path).entries = l₁ ++ l₂ := herase
    simp only [sizes, hlookup, hentries, hl, List.map_append, List.map_cons, List.sum_append,
      List.sum_cons, Option.getD_some]
    omega
  · have hlookup : m.lookup path = none := AList.lookup_eq_none.mpr hmem
    have hentries : (m.erase path).entries = m.entries := List.kerase_of_notMem_keys hmem
    simp only [sizes, hlookup, hentries, Option.getD_none, List.length_nil, Nat.add_zero]

theorem sizes_insert (m : AList fun _ : String => Bytes) (path : String) (b : Bytes) :
    sizes (m.insert path b) = b.length + sizes (m.erase path) := by
  show (((⟨path, b⟩ : Sigma fun _ : String => Bytes) :: m.entries.kerase path).map
    fun x => x.2.length).sum = _
  rw [List.map_cons, List.sum_cons]
  rfl

theorem length_erase_le (m : AList fun _ : String => Bytes) (path : String) :
    (m.erase path).entries.length ≤ m.entries.length :=
  (List.kerase_sublist path m.entries).length_le

theorem length_insert_le (m : AList fun _ : String => Bytes) (path : String) (b : Bytes) :
    (m.insert path b).entries.length ≤ m.entries.length + 1 := by
  show ((⟨path, b⟩ : Sigma fun _ : String => Bytes) :: m.entries.kerase path).length ≤ _
  rw [List.length_cons]
  exact Nat.succ_le_succ (List.kerase_sublist path m.entries).length_le

namespace Reassembly

variable {r : Reassembly} {c : FileChunk}

def total (r : Reassembly) : ℕ := sizes r.inbox.incoming

/-- The count is right, has not gone below zero, and the limits are kept. -/
structure Accounts (r : Reassembly) : Prop where
  count : r.inbox.buffered = r.total
  noUnderflow : r.underflow = false
  bytes : r.total ≤ 256 * 1024 * 1024
  files : r.inbox.incoming.entries.length ≤ 64

/-- The chunk begins where its file's buffer ends, or is empty and within it. -/
def continues (r : Reassembly) (c : FileChunk) : Bool :=
  decide (c.offset = (r.buffer c.path).length) ||
    (c.data.isEmpty && decide (c.offset ≤ (r.buffer c.path).length))

theorem continues_iff : r.continues c = true ↔
    max (r.buffer c.path).length (c.offset + c.data.length) =
      (r.buffer c.path).length + c.data.length := by
  simp only [continues, Bool.or_eq_true, Bool.and_eq_true, decide_eq_true_eq, List.isEmpty_iff,
    ← List.length_eq_zero_iff]
  omega

theorem buffer_le_total (r : Reassembly) (path : String) : (r.buffer path).length ≤ r.total := by
  have h := sizes_erase r.inbox.incoming path
  have hb : ((r.inbox.incoming.lookup path).getD []).length = (r.buffer path).length := rfl
  simp only [total]
  omega

/-- The bytes in the buffers after a chunk. -/
theorem total_chunk (h : r.takes c = true) : (r.chunk c).total + (r.buffer c.path).length =
    r.total + if ends c then 0 else (r.written c).length := by
  have herase := sizes_erase r.inbox.incoming c.path
  have hb : ((r.inbox.incoming.lookup c.path).getD []).length = (r.buffer c.path).length := rfl
  rw [chunk_of_takes h]
  by_cases hend : ends c
  · rw [if_pos hend, if_pos hend]
    show sizes (r.inbox.incoming.erase c.path) + _ = sizes r.inbox.incoming + 0
    omega
  · rw [if_neg hend, if_neg hend]
    show sizes (r.inbox.incoming.insert c.path (r.written c)) + _ = sizes r.inbox.incoming + _
    rw [sizes_insert]
    omega

/-- What the count is after a chunk. -/
theorem buffered_chunk (h : r.takes c = true) : (r.chunk c).inbox.buffered =
    if ends c then (r.counted c + UInt64.size - (r.written c).length) % UInt64.size
    else r.counted c := by
  rw [chunk_of_takes h]
  by_cases hend : ends c
  · rw [if_pos hend, if_pos hend]
  · rw [if_neg hend, if_neg hend]

theorem underflow_chunk (h : r.takes c = true) : (r.chunk c).underflow =
    if ends c then r.underflow || decide (r.inbox.buffered + c.data.length < (r.written c).length)
    else r.underflow := by
  rw [chunk_of_takes h]
  by_cases hend : ends c
  · rw [if_pos hend, if_pos hend]
  · rw [if_neg hend, if_neg hend]

theorem files_chunk (h : r.takes c = true) :
    (r.chunk c).inbox.incoming.entries.length ≤ 64 := by
  obtain ⟨-, -, -, -, -, hlt, -⟩ := (validateChunk_ok ..).mp (valid_of_takes h)
  rw [chunk_of_takes h]
  by_cases hend : ends c
  · rw [if_pos hend]
    exact (length_erase_le ..).trans hlt.le
  · rw [if_neg hend]
    exact (length_insert_le ..).trans hlt

/-- While the accounts are right the count does not wrap around. -/
theorem Accounts.counted (hr : r.Accounts) (h : r.takes c = true) :
    r.counted c = r.total + c.data.length ∧ r.total + c.data.length ≤ 256 * 1024 * 1024 := by
  obtain ⟨-, -, hlen, -, -, -, hlimit⟩ := (validateChunk_ok ..).mp (valid_of_takes h)
  have hbytes := hr.bytes
  have hmod : (r.inbox.buffered + c.data.length) % UInt64.size = r.total + c.data.length := by
    rw [hr.count]
    refine Nat.mod_eq_of_lt ?_
    simp only [maxChunkFrame] at hlen
    simp only [UInt64.size]
    omega
  exact ⟨hmod, hmod ▸ hlimit⟩

/-- **A chunk that is taken keeps the count right exactly when it continues its
file.** -/
theorem Accounts.count_chunk_iff (hr : r.Accounts) (h : r.takes c = true) :
    (r.chunk c).inbox.buffered = (r.chunk c).total ↔ r.continues c = true := by
  obtain ⟨hcounted, hlimit⟩ := hr.counted h
  obtain ⟨-, hsize, -, -, hle, -, -⟩ := (validateChunk_ok ..).mp (valid_of_takes h)
  have htotal := total_chunk h
  have hwritten : (r.written c).length = max (r.buffer c.path).length (c.offset + c.data.length) :=
    writeAt_length ..
  have hbuffer := r.buffer_le_total c.path
  rw [continues_iff, buffered_chunk h, hcounted]
  simp only [maxFileSize] at hsize
  simp only [UInt64.size]
  by_cases hend : ends c
  · rw [if_pos hend] at htotal ⊢
    by_cases hneg : r.total + c.data.length < (r.written c).length
    · have hmod := Nat.mod_eq_of_lt (show r.total + c.data.length + 18446744073709551616 -
        (r.written c).length < 18446744073709551616 by omega)
      rw [hmod]
      constructor
      · intro heq
        omega
      · intro heq
        omega
    · have hmod : (r.total + c.data.length + 18446744073709551616 - (r.written c).length) %
          18446744073709551616 = r.total + c.data.length - (r.written c).length := by omega
      rw [hmod]
      omega
  · rw [if_neg hend] at htotal ⊢
    omega

theorem Accounts.chunk (hr : r.Accounts) (c : FileChunk)
    (hc : r.takes c = true → r.continues c = true) : (r.chunk c).Accounts := by
  cases h : r.takes c with
  | false =>
    obtain ⟨b, hb⟩ := chunk_of_not_takes h
    rw [hb]
    exact ⟨hr.count, hr.noUnderflow, hr.bytes, hr.files⟩
  | true =>
    obtain ⟨hcounted, hlimit⟩ := hr.counted h
    have hcontinues := continues_iff.mp (hc h)
    have htotal := total_chunk h
    have hbuffer := r.buffer_le_total c.path
    have hwritten : (r.written c).length = (r.buffer c.path).length + c.data.length :=
      (writeAt_length ..).trans hcontinues
    refine ⟨(hr.count_chunk_iff h).mpr (hc h), ?_, ?_, files_chunk h⟩
    · rw [underflow_chunk h, hr.noUnderflow, hr.count, hwritten]
      split_ifs
      · rw [Bool.false_or]
        exact decide_eq_false (by omega)
      · rfl
    · split_ifs at htotal
      · omega
      · omega

theorem Accounts.start : Accounts {} := ⟨rfl, rfl, by decide, by decide⟩

end Reassembly

/-- **Whatever chunks come**, the accounts are right all along exactly when each
chunk that is taken continues its file. -/
theorem accounts_iff (cs : List FileChunk) :
    (∀ pre, pre <+: cs → (reassemble pre).Accounts) ↔
      ∀ pre c, pre ++ [c] <+: cs → (reassemble pre).takes c = true →
        (reassemble pre).continues c = true := by
  constructor
  · intro h pre c hpre htakes
    have hr := h pre ((List.prefix_append pre [c]).trans hpre)
    have hr' := h (pre ++ [c]) hpre
    rw [reassemble_append] at hr'
    exact (hr.count_chunk_iff htakes).mp hr'.count
  · intro h pre
    induction pre using List.reverseRecOn with
    | nil => exact fun _ => .start
    | append_singleton pre c ih =>
      intro hpre
      rw [reassemble_append]
      exact (ih ((List.prefix_append pre [c]).trans hpre)).chunk c (h pre c hpre)

/-- The first chunk of a file twice: two bytes counted, one buffered. -/
theorem accounts_drift : ¬ ∀ cs, (reassemble cs).Accounts := by
  intro h
  have hcount := (h [⟨"1", "f", 0, [97], 2⟩, ⟨"1", "f", 0, [97], 2⟩]).count
  have hbuffered : (reassemble [⟨"1", "f", 0, [97], 2⟩, ⟨"1", "f", 0, [97], 2⟩]).inbox.buffered = 2 := by
    rfl
  have htotal : (reassemble [⟨"1", "f", 0, [97], 2⟩, ⟨"1", "f", 0, [97], 2⟩]).total = 1 := by rfl
  omega

end FerriSync
