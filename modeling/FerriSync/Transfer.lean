/-
# Files in chunks

A file goes over the wire in chunks of 64 KiB (`sendFileChunks`); the receiver
writes each at its offset into a buffer and takes the file out when a chunk
reaches its end (`receiveChunk`). `session.rs`: `send_file_chunks`, and the
first half of the `FileChunk` branch of the two receive loops, which is the
same in both.

An end of the session that receives the chunks of one file, in order and with
no other file begun, gets the file (`receiveChunk_sent`).

The counter of buffered bytes is a `usize`; a chunk that leaves a gap makes
its subtraction wrap around.

Key definitions: `sendFileChunks`, `receiveChunk`, `expectedHash`.
Key theorems: `writeAt_take`, `receiveChunk_sent`, `receiveChunk_beyond`.
-/
import FerriSync.Orchestrator

namespace FerriSync

/-! ### Sending -/

/-- Size of a chunk, 64 KiB. -/
def chunkSize : ℕ := 64 * 1024

/-- The chunk of a file at an offset. -/
def chunkAt (folderId path : String) (data : Bytes) (offset : ℕ) : FileChunk where
  folderId := folderId
  path := path
  offset := offset
  data := (data.drop offset).take (min (offset + chunkSize) data.length - offset)
  totalSize := data.length

/-- The loop of `send_file_chunks`, from an offset on. -/
def chunksFrom (folderId path : String) (data : Bytes) : ℕ → ℕ → List FileChunk
  | 0, _ => []
  | fuel + 1, offset =>
    chunkAt folderId path data offset ::
      if data.length ≤ min (offset + chunkSize) data.length then []
      else chunksFrom folderId path data fuel (min (offset + chunkSize) data.length)

def sendFileChunks (folderId path : String) (data : Bytes) : List FileChunk :=
  chunksFrom folderId path data (data.length + 1) 0

/-! ### Receiving -/

/-- The files begun and the count of their bytes. -/
structure Inbox where
  incoming : AList fun _ : String => Bytes
  buffered : ℕ

def Inbox.empty : Inbox := ⟨∅, 0⟩

def Inbox.isEmpty (i : Inbox) : Bool := i.incoming.entries.isEmpty

/-- Write into a buffer, filling up with zeros what lies before. -/
def writeAt (buffer : Bytes) (start : ℕ) (data : Bytes) : Bytes :=
  let stop := start + data.length
  let buffer := if buffer.length < stop then
    buffer ++ List.replicate (stop - buffer.length) 0 else buffer
  buffer.take start ++ data ++ buffer.drop stop

/-- What comes of a chunk. -/
inductive Received
  | refused (e : String)
  | more (inbox : Inbox)
  | complete (inbox : Inbox) (data : Bytes)

def receiveChunk (inbox : Inbox) (chunk : FileChunk) : Received :=
  match validateChunk chunk inbox.incoming.entries.length inbox.buffered with
  | .error e => .refused e
  | .ok () =>
    let buffer := writeAt ((inbox.incoming.lookup chunk.path).getD []) chunk.offset chunk.data
    let buffered := (inbox.buffered + chunk.data.length) % UInt64.size
    if chunk.totalSize ≤ chunk.offset + chunk.data.length then
      .complete ⟨inbox.incoming.erase chunk.path,
        (buffered + UInt64.size - buffer.length) % UInt64.size⟩ buffer
    else .more ⟨inbox.incoming.insert chunk.path buffer, buffered⟩

/-- The hash the peer's index gives for a path; of two, the later. -/
def expectedHash (entries : List IndexEntry) (path : String) : Option Bytes :=
  (entries.reverse.find? fun e => e.path = path).map (·.hash)

/-- The check of a complete file; there is none for a path that is not in the
index. -/
def hashMatches (blake3 : Bytes → FileHash) (entries : List IndexEntry) (path : String)
    (data : Bytes) : Bool :=
  match expectedHash entries path with
  | none => true
  | some hash => decide ((blake3 data).bytes = hash)

/-! ### A file sent is a file received -/

section

variable (folderId path : String) (data : Bytes)

theorem chunkAt_length (offset : ℕ) :
    (chunkAt folderId path data offset).data.length =
      min (offset + chunkSize) data.length - offset := by
  simp only [chunkAt, List.length_take, List.length_drop]
  omega

/-- The end of the chunk that starts at an offset. -/
theorem chunkAt_stop {offset : ℕ} (h : offset ≤ data.length) :
    offset + (chunkAt folderId path data offset).data.length =
      min (offset + chunkSize) data.length := by
  rw [chunkAt_length]
  omega

/-- The last chunk is the one that reaches the file's end. -/
theorem stop_iff (offset : ℕ) :
    data.length ≤ min (offset + chunkSize) data.length ↔ data.length ≤ offset + chunkSize := by
  omega

end

/-- The inbox when a file has arrived up to an offset, and nothing else. -/
def Inbox.upTo (path : String) (data : Bytes) (offset : ℕ) : Inbox :=
  if offset = 0 then .empty else ⟨AList.singleton path (data.take offset), offset⟩

theorem Inbox.upTo_zero (path : String) (data : Bytes) : Inbox.upTo path data 0 = .empty := rfl

theorem Inbox.upTo_of_pos {path : String} {data : Bytes} {offset : ℕ} (h : offset ≠ 0) :
    Inbox.upTo path data offset = ⟨AList.singleton path (data.take offset), offset⟩ := if_neg h

/-- Writing the next part after what has arrived. -/
theorem writeAt_take (data : Bytes) (offset len : ℕ) (h : offset + len ≤ data.length) :
    writeAt (data.take offset) offset ((data.drop offset).take len) = data.take (offset + len) := by
  have hlen : ((data.drop offset).take len).length = len := by simp; omega
  have htake : (data.take offset).length = offset := by simp; omega
  have hs : data.take offset ++ (data.drop offset).take len = data.take (offset + len) :=
    (List.take_add ..).symm
  simp only [writeAt, hlen, htake]
  split_ifs with hlt
  · rw [List.take_append_of_le_length (by rw [htake]), List.drop_append, List.take_take]
    simp [htake, hs]
  · obtain rfl : len = 0 := by omega
    simp [List.take_take]

theorem Inbox.upTo_lookup (path : String) (data : Bytes) (offset : ℕ) :
    ((Inbox.upTo path data offset).incoming.lookup path).getD [] = data.take offset := by
  by_cases h : offset = 0
  · subst h; rfl
  · rw [upTo_of_pos h, ← AList.insert_empty]
    simp only [AList.lookup_insert, Option.getD_some]

theorem Inbox.upTo_count (path : String) (data : Bytes) (offset : ℕ) :
    (Inbox.upTo path data offset).incoming.entries.length ≤ 1 ∧
      (Inbox.upTo path data offset).buffered = offset := by
  by_cases h : offset = 0
  · subst h; exact ⟨Nat.zero_le _, rfl⟩
  · rw [upTo_of_pos h]
    exact ⟨Nat.le_refl 1, rfl⟩

theorem Inbox.upTo_insert (path : String) (data b : Bytes) (offset : ℕ) :
    (Inbox.upTo path data offset).incoming.insert path b = AList.singleton path b := by
  by_cases h : offset = 0
  · subst h; exact AList.insert_empty _ _
  · rw [upTo_of_pos h]
    exact AList.insert_singleton_eq

theorem Inbox.upTo_erase (path : String) (data : Bytes) (offset : ℕ) :
    (Inbox.upTo path data offset).incoming.erase path = ∅ := by
  by_cases h : offset = 0
  · subst h; rfl
  · rw [upTo_of_pos h]
    exact AList.ext (List.kerase_cons_eq rfl)

/-- **The next chunk of a file**, while it fits into the buffers. It is added to
what has arrived, and the file is complete when that is all. -/
theorem receiveChunk_within (folderId : String) {path : String} {data : Bytes} {offset : ℕ}
    (hpath : path.utf8ByteSize ≤ maxPathLen) (hdata : data.length ≤ maxFileSize)
    (hfits : min (offset + chunkSize) data.length ≤ 256 * 1024 * 1024) (ho : offset ≤ data.length) :
    receiveChunk (Inbox.upTo path data offset) (chunkAt folderId path data offset) =
      if data.length ≤ offset + chunkSize then .complete .empty data
      else .more (Inbox.upTo path data (min (offset + chunkSize) data.length)) := by
  obtain ⟨hcount, hbuf⟩ := Inbox.upTo_count path data offset
  have hlen := chunkAt_length folderId path data offset
  have hstop := chunkAt_stop folderId path data ho
  have hoff : (chunkAt folderId path data offset).offset = offset := rfl
  have htotal : (chunkAt folderId path data offset).totalSize = data.length := rfl
  have hcs : chunkSize = 64 * 1024 := rfl
  have hvalid : validateChunk (chunkAt folderId path data offset)
      (Inbox.upTo path data offset).incoming.entries.length
      (Inbox.upTo path data offset).buffered = .ok () := by
    rw [validateChunk_ok, hoff, hbuf, htotal, hstop]
    have hmod := Nat.mod_le (min (offset + chunkSize) data.length) UInt64.size
    simp only [maxFileSize, maxChunkFrame, UInt64.size] at hdata hmod ⊢
    refine ⟨hpath, ?_, ?_, ?_, ?_, ?_, ?_⟩ <;> omega
  have hbuffer : writeAt (((Inbox.upTo path data offset).incoming.lookup path).getD []) offset
      (chunkAt folderId path data offset).data = data.take (min (offset + chunkSize) data.length) := by
    rw [Inbox.upTo_lookup]
    have := writeAt_take data offset (min (offset + chunkSize) data.length - offset) (by omega)
    rw [show offset + (min (offset + chunkSize) data.length - offset) =
      min (offset + chunkSize) data.length by omega] at this
    exact this
  unfold receiveChunk
  rw [hvalid]
  simp only [hoff, htotal, hstop, hbuf, stop_iff]
  have hp : (chunkAt folderId path data offset).path = path := rfl
  have hmod : min (offset + chunkSize) data.length % UInt64.size =
      min (offset + chunkSize) data.length := Nat.mod_eq_of_lt (by simp only [UInt64.size]; omega)
  rw [hp, hbuffer, Inbox.upTo_erase, Inbox.upTo_insert, hmod]
  split_ifs with hend
  · rw [Nat.min_eq_right hend, List.take_length]
    simp [Inbox.empty]
  · rw [Inbox.upTo_of_pos (by omega)]

theorem receiveChunk_sent (folderId : String) {path : String} {data : Bytes} {offset : ℕ}
    (hpath : path.utf8ByteSize ≤ maxPathLen) (hdata : data.length ≤ 256 * 1024 * 1024)
    (ho : offset ≤ data.length) :
    receiveChunk (Inbox.upTo path data offset) (chunkAt folderId path data offset) =
      if data.length ≤ offset + chunkSize then .complete .empty data
      else .more (Inbox.upTo path data (min (offset + chunkSize) data.length)) := by
  refine receiveChunk_within folderId hpath ?_ (Nat.le_trans (Nat.min_le_right ..) hdata) ho
  simp only [maxFileSize]
  omega

/-- A chunk that would make a file's buffer too large is refused. -/
theorem receiveChunk_beyond (folderId : String) {path : String} {data : Bytes} {offset : ℕ}
    (hdata : data.length ≤ maxFileSize) (ho : offset ≤ data.length)
    (hbeyond : 256 * 1024 * 1024 < min (offset + chunkSize) data.length) :
    ∃ why, receiveChunk (Inbox.upTo path data offset) (chunkAt folderId path data offset) =
      .refused why := by
  obtain ⟨-, hbuf⟩ := Inbox.upTo_count path data offset
  have hstop := chunkAt_stop folderId path data ho
  cases hv : validateChunk (chunkAt folderId path data offset)
      (Inbox.upTo path data offset).incoming.entries.length (Inbox.upTo path data offset).buffered with
  | error why => exact ⟨why, by simp only [receiveChunk, hv]⟩
  | ok u =>
    obtain ⟨-, -, -, -, -, -, hlimit⟩ := (validateChunk_ok ..).mp hv
    rw [hbuf, hstop, Nat.mod_eq_of_lt (by simp only [maxFileSize, UInt64.size] at hdata ⊢; omega)] at hlimit
    omega

/-- So is a chunk with a long path. -/
theorem receiveChunk_refused (inbox : Inbox) (c : FileChunk) (h : maxPathLen < c.path.utf8ByteSize) :
    ∃ why, receiveChunk inbox c = .refused why := by
  obtain ⟨why, hwhy⟩ : ∃ why, validateChunk c inbox.incoming.entries.length inbox.buffered =
      .error why := ⟨_, if_pos h⟩
  exact ⟨why, by simp only [receiveChunk, hwhy]⟩

end FerriSync
