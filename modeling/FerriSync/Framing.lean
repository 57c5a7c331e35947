/-
# Frames on the wire

A frame is the payload's length, in four bytes, and the payload
(`frameMessage`). It is read in five places: from a buffer by `parse_frame`
and, for file data, by `parse_chunk_frame` (`protocol/mod.rs`); from a stream by
`read_message` and `read_tls_message` (`session.rs`) and by `read_frame`
(`shared_folder.rs`). The three stream readers differ in the error that their
`read_exact` gives at the end of the stream, and are one definition here.

A list of messages that are not too large is read back as it was written, from
a buffer and from a stream in whatever pieces (`framing_round_trip`). An index
can be read if and only if its encoding fits into a control frame, which the
limit on its entries does not imply (`index_accepted_iff`, `index_refused`).

`bincode::deserialize` is a parameter, as the encoder is.

Key definitions: `parseFrame`, `parseChunkFrame`, `readFramed`, `indexSize`.
Key theorems: `parseFrame_frame`, `readFramed_frame`, `framing_round_trip`,
`index_accepted_iff`.
-/
import FerriSync.Protocol
import FerriSync.Lib.Fragments

namespace FerriSync

open Fragments

/-- `u32::from_be_bytes`. -/
def fromBeBytes (bytes : Bytes) : ℕ := bytes.foldl (fun n b => n * 256 + b.toNat) 0

/-- The length is written as a `u32`. -/
theorem fromBeBytes_beBytes (n : ℕ) : fromBeBytes (beBytes n) = n % UInt32.size := by
  have h24 : n >>> 24 = n / 16777216 := Nat.shiftRight_eq_div_pow n 24
  have h16 : n >>> 16 = n / 65536 := Nat.shiftRight_eq_div_pow n 16
  have h8 : n >>> 8 = n / 256 := Nat.shiftRight_eq_div_pow n 8
  simp only [fromBeBytes, beBytes, List.foldl_cons, List.foldl_nil, UInt8.toNat_ofNat', h24, h16, h8,
    UInt32.size]
  omega

section

variable (deserialize : Bytes → Except String SyncMessage)

/-- `parse_frame`: the message and the length of its frame. -/
def parseFrame (data : Bytes) : Except String (SyncMessage × ℕ) :=
  if data.length < 4 then .error "frame too short"
  else
    let len := fromBeBytes (data.take 4)
    if maxControlFrame < len then
      .error s!"frame too large: {len} bytes exceeds {maxControlFrame} limit"
    else if data.length < 4 + len then .error "incomplete frame"
    else match deserialize ((data.drop 4).take len) with
      | .error e => .error e
      | .ok msg => .ok (msg, 4 + len)

def SyncMessage.isFileChunk : SyncMessage → Bool
  | .fileChunk _ => true
  | _ => false

/-- `parse_chunk_frame`. -/
def parseChunkFrame (data : Bytes) : Except String (SyncMessage × ℕ) :=
  if data.length < 4 then .error "frame too short"
  else
    let len := fromBeBytes (data.take 4)
    if maxChunkFrame < len then
      .error s!"chunk frame too large: {len} bytes exceeds {maxChunkFrame} limit"
    else if data.length < 4 + len then .error "incomplete frame"
    else match deserialize ((data.drop 4).take len) with
      | .error e => .error e
      | .ok msg => if msg.isFileChunk then .ok (msg, 4 + len) else .error "expected FileChunk frame"

/-- A frame from a stream; `closed` is the error at the end of it. -/
def readFramed (closed : String) (pieces : List Bytes) :
    Except String (SyncMessage × List Bytes) :=
  match readExact closed pieces 4 with
  | .error e => .error e
  | .ok (head, rest) =>
    let len := fromBeBytes head
    if maxControlFrame < len then .error s!"frame too large: {len} bytes (max {maxControlFrame})"
    else match readExact closed rest len with
      | .error e => .error e
      | .ok (payload, rest) =>
        match deserialize payload with
        | .error e => .error e
        | .ok msg => .ok (msg, rest)

def readMessageFrom := readFramed deserialize "connection closed"

def readTlsMessage := readFramed deserialize "early eof"

/-- `read_frame` of a shared-folder request. -/
def readFrame := readFramed deserialize "peer closed connection mid-frame"

/-- `parse_frame` again and again: the messages, and the bytes consumed. -/
def parseFrames : ℕ → Bytes → Except String (List SyncMessage × ℕ)
  | 0, _ => .ok ([], 0)
  | n + 1, data =>
    match parseFrame deserialize data with
    | .error e => .error e
    | .ok (msg, used) =>
      match parseFrames n (data.drop used) with
      | .error e => .error e
      | .ok (msgs, total) => .ok (msg :: msgs, used + total)

/-- One frame of a stream after the other. -/
def readFrames (closed : String) : ℕ → List Bytes → Except String (List SyncMessage × List Bytes)
  | 0, pieces => .ok ([], pieces)
  | n + 1, pieces =>
    match readFramed deserialize closed pieces with
    | .error e => .error e
    | .ok (msg, rest) =>
      match readFrames closed n rest with
      | .error e => .error e
      | .ok (msgs, rest) => .ok (msg :: msgs, rest)

end

section

variable {serialize : SyncMessage → Bytes} {deserialize : Bytes → Except String SyncMessage}
  {msg : SyncMessage}

/-- A message that is not too large, and that the decoder gives back. -/
structure Framable (serialize : SyncMessage → Bytes) (deserialize : Bytes → Except String SyncMessage)
    (msg : SyncMessage) : Prop where
  size : (serialize msg).length ≤ maxControlFrame
  decodes : deserialize (serialize msg) = .ok msg

theorem Framable.prefix_eq (h : Framable serialize deserialize msg) :
    fromBeBytes (beBytes (serialize msg).length) = (serialize msg).length := by
  have hsize := h.size
  rw [fromBeBytes_beBytes]
  refine Nat.mod_eq_of_lt ?_
  simp only [maxControlFrame] at hsize
  simp only [UInt32.size]
  omega

theorem take_frameMessage (serialize : SyncMessage → Bytes) (msg : SyncMessage) :
    (frameMessage serialize msg).take 4 = beBytes (serialize msg).length := rfl

/-- A frame that is too large is not parsed, unless its length has been cut off. -/
theorem parseFrame_tooLarge (deserialize : Bytes → Except String SyncMessage)
    (h : frameTooLarge serialize msg = true)
    (hlen : (serialize msg).length < UInt32.size) (tail : Bytes) :
    ∃ e, parseFrame deserialize (frameMessage serialize msg ++ tail) = .error e := by
  have hlarge : maxControlFrame < (serialize msg).length := of_decide_eq_true h
  have hhead : (frameMessage serialize msg ++ tail).take 4 = beBytes (serialize msg).length := rfl
  unfold parseFrame
  dsimp only
  rw [hhead, fromBeBytes_beBytes, Nat.mod_eq_of_lt hlen, if_pos hlarge]
  split_ifs
  · exact ⟨_, rfl⟩
  · exact ⟨_, rfl⟩

/-- Nor is it read. -/
theorem readFramed_tooLarge (h : frameTooLarge serialize msg = true)
    (hlen : (serialize msg).length < UInt32.size) (closed : String) {pieces : List Bytes}
    {tail : Bytes} (hp : Pieces pieces (frameMessage serialize msg ++ tail)) :
    ∃ e, readFramed deserialize closed pieces = .error e := by
  have hlarge : maxControlFrame < (serialize msg).length := of_decide_eq_true h
  have hframe := frameMessage_length serialize msg
  obtain ⟨left, hhead, -⟩ := readExact_of_le closed (n := 4) hp
    (by rw [List.length_append]; omega)
  have htake : (frameMessage serialize msg ++ tail).take 4 = beBytes (serialize msg).length := rfl
  simp only [readFramed, hhead, htake, fromBeBytes_beBytes, Nat.mod_eq_of_lt hlen, if_pos hlarge]
  exact ⟨_, rfl⟩

/-- **A frame is parsed**, whatever follows it. -/
theorem parseFrame_frame (h : Framable serialize deserialize msg) (tail : Bytes) :
    parseFrame deserialize (frameMessage serialize msg ++ tail) =
      .ok (msg, (frameMessage serialize msg).length) := by
  have hlen := frameMessage_length serialize msg
  have hhead : (frameMessage serialize msg ++ tail).take 4 = beBytes (serialize msg).length := rfl
  have hrest : (frameMessage serialize msg ++ tail).drop 4 = serialize msg ++ tail := rfl
  have htotal : (frameMessage serialize msg ++ tail).length =
      4 + (serialize msg).length + tail.length := by rw [List.length_append, hlen]
  simp only [parseFrame, hhead, hrest, h.prefix_eq, htotal]
  rw [if_neg (by omega), if_neg (Nat.not_lt.mpr h.size), if_neg (by omega), List.take_left, h.decodes,
    hlen]

/-- **A frame is read**, in whatever pieces it comes. -/
theorem readFramed_frame (h : Framable serialize deserialize msg) (closed : String)
    {pieces : List Bytes} {tail : Bytes} (hp : Pieces pieces (frameMessage serialize msg ++ tail)) :
    ∃ rest, readFramed deserialize closed pieces = .ok (msg, rest) ∧ Pieces rest tail := by
  have hlen := frameMessage_length serialize msg
  obtain ⟨left, hhead, hleft⟩ := readExact_of_le closed (n := 4) hp
    (by rw [List.length_append]; omega)
  have hdrop : (frameMessage serialize msg ++ tail).drop 4 = serialize msg ++ tail := rfl
  rw [hdrop] at hleft
  obtain ⟨rest, hpayload, hrest⟩ := readExact_of_le closed (n := (serialize msg).length) hleft
    (by rw [List.length_append]; omega)
  rw [List.drop_left] at hrest
  have htake : (frameMessage serialize msg ++ tail).take 4 = beBytes (serialize msg).length := rfl
  refine ⟨rest, ?_, hrest⟩
  simp only [readFramed, hhead, htake, h.prefix_eq, if_neg (Nat.not_lt.mpr h.size), hpayload,
    List.take_left, h.decodes]

/-- **What is cut off is an error**, in a buffer. -/
theorem parseFrame_cut (h : Framable serialize deserialize msg) {data : Bytes}
    (hp : data <+: frameMessage serialize msg) (hne : data ≠ frameMessage serialize msg) :
    ∃ e, parseFrame deserialize data = .error e := by
  have hlen := frameMessage_length serialize msg
  have hlt : data.length < (frameMessage serialize msg).length :=
    lt_of_le_of_ne hp.length_le fun heq => hne (hp.eq_of_length heq)
  unfold parseFrame
  by_cases hshort : data.length < 4
  · exact ⟨_, if_pos hshort⟩
  · have hhead : data.take 4 = beBytes (serialize msg).length := by
      obtain ⟨rest, hrest⟩ := hp
      have htake : (data ++ rest).take 4 = beBytes (serialize msg).length := by
        rw [hrest]
        rfl
      rwa [List.take_append_of_le_length (by omega)] at htake
    rw [if_neg hshort]
    dsimp only
    rw [hhead, h.prefix_eq, if_neg (Nat.not_lt.mpr h.size), if_pos (by omega)]
    exact ⟨_, rfl⟩

/-- And in a stream. -/
theorem readFramed_cut (h : Framable serialize deserialize msg) (closed : String) {data : Bytes}
    (hp : data <+: frameMessage serialize msg) (hne : data ≠ frameMessage serialize msg)
    {pieces : List Bytes} (hpieces : Pieces pieces data) :
    ∃ e, readFramed deserialize closed pieces = .error e := by
  have hlen := frameMessage_length serialize msg
  have hlt : data.length < (frameMessage serialize msg).length :=
    lt_of_le_of_ne hp.length_le fun heq => hne (hp.eq_of_length heq)
  unfold readFramed
  by_cases hshort : data.length < 4
  · rw [readExact_of_lt closed hpieces hshort]
    exact ⟨_, rfl⟩
  · obtain ⟨left, hhead, hleft⟩ := readExact_of_le closed (n := 4) hpieces (by omega)
    have htake : data.take 4 = beBytes (serialize msg).length := by
      obtain ⟨rest, hrest⟩ := hp
      have htake : (data ++ rest).take 4 = beBytes (serialize msg).length := by
        rw [hrest]
        rfl
      rwa [List.take_append_of_le_length (by omega)] at htake
    have hmissing : (data.drop 4).length < (serialize msg).length := by
      rw [List.length_drop]
      omega
    simp only [hhead, htake, h.prefix_eq, if_neg (Nat.not_lt.mpr h.size)]
    rw [readExact_of_lt closed hleft hmissing]
    exact ⟨_, rfl⟩

/-- What the chunk parser accepts the other accepts too. -/
theorem parseFrame_of_parseChunkFrame {data : Bytes} {used : ℕ}
    (h : parseChunkFrame deserialize data = .ok (msg, used)) :
    parseFrame deserialize data = .ok (msg, used) := by
  unfold parseChunkFrame at h
  dsimp only at h
  split_ifs at h with hshort hlarge hcut
  have hlimit : maxChunkFrame ≤ maxControlFrame := by decide
  have hnot : ¬ maxControlFrame < fromBeBytes (data.take 4) := by omega
  simp only [parseFrame, if_neg hshort, if_neg hnot, if_neg hcut]
  cases hd : deserialize ((data.drop 4).take (fromBeBytes (data.take 4))) with
  | error e =>
    rw [hd] at h
    cases h
  | ok m =>
    rw [hd] at h
    dsimp only at h
    split_ifs at h
    exact h

/-! ### Lists of messages -/

/-- The frames of a list of messages, one after the other. -/
def wire (serialize : SyncMessage → Bytes) (msgs : List SyncMessage) : Bytes :=
  msgs.flatMap (frameMessage serialize)

theorem parseFrames_wire (msgs : List SyncMessage) (tail : Bytes)
    (h : ∀ msg ∈ msgs, Framable serialize deserialize msg) :
    parseFrames deserialize msgs.length (wire serialize msgs ++ tail) =
      .ok (msgs, (wire serialize msgs).length) := by
  induction msgs with
  | nil => rfl
  | cons msg msgs ih =>
    have hcons : wire serialize (msg :: msgs) = frameMessage serialize msg ++ wire serialize msgs :=
      List.flatMap_cons
    have hfirst := parseFrame_frame (h msg (List.mem_cons_self ..)) (wire serialize msgs ++ tail)
    have hrest := ih fun m hm => h m (List.mem_cons_of_mem msg hm)
    rw [List.length_cons, hcons, List.append_assoc, parseFrames, hfirst]
    dsimp only
    rw [List.drop_left, hrest, List.length_append]

theorem readFrames_wire (closed : String) (msgs : List SyncMessage) {tail : Bytes}
    {pieces : List Bytes} (h : ∀ msg ∈ msgs, Framable serialize deserialize msg)
    (hp : Pieces pieces (wire serialize msgs ++ tail)) :
    ∃ rest, readFrames deserialize closed msgs.length pieces = .ok (msgs, rest) ∧ Pieces rest tail := by
  induction msgs generalizing pieces with
  | nil => exact ⟨pieces, rfl, hp⟩
  | cons msg msgs ih =>
    have hcons : wire serialize (msg :: msgs) = frameMessage serialize msg ++ wire serialize msgs :=
      List.flatMap_cons
    rw [hcons, List.append_assoc] at hp
    obtain ⟨left, hfirst, hleft⟩ := readFramed_frame (h msg (List.mem_cons_self ..)) closed hp
    obtain ⟨rest, hread, hrest⟩ := ih (fun m hm => h m (List.mem_cons_of_mem msg hm)) hleft
    refine ⟨rest, ?_, hrest⟩
    rw [List.length_cons, readFrames, hfirst]
    dsimp only
    rw [hread]

end

/-- **Frames are read back as they were written**: from a buffer with anything
after them, and from a stream in any pieces by each of its readers; a frame cut
off is an error; and the chunk parser agrees with the other. -/
theorem framing_round_trip (serialize : SyncMessage → Bytes)
    (deserialize : Bytes → Except String SyncMessage) (msgs : List SyncMessage)
    (hsize : ∀ msg ∈ msgs, (serialize msg).length ≤ maxControlFrame)
    (hdecodes : ∀ msg ∈ msgs, deserialize (serialize msg) = .ok msg) :
    (∀ tail, parseFrames deserialize msgs.length (wire serialize msgs ++ tail) =
      .ok (msgs, (wire serialize msgs).length)) ∧
    (∀ msg ∈ msgs, ∀ data, data <+: frameMessage serialize msg → data ≠ frameMessage serialize msg →
      (∃ e, parseFrame deserialize data = .error e) ∧
      ∀ closed pieces, Pieces pieces data → ∃ e, readFramed deserialize closed pieces = .error e) ∧
    (∀ data msg used, parseChunkFrame deserialize data = .ok (msg, used) →
      parseFrame deserialize data = .ok (msg, used)) ∧
    ∀ closed tail pieces, Pieces pieces (wire serialize msgs ++ tail) →
      ∃ rest, readFrames deserialize closed msgs.length pieces = .ok (msgs, rest) ∧ Pieces rest tail := by
  have h : ∀ msg ∈ msgs, Framable serialize deserialize msg := fun msg hm =>
    ⟨hsize msg hm, hdecodes msg hm⟩
  refine ⟨fun tail => parseFrames_wire msgs tail h, fun msg hm data hp hne => ⟨?_, ?_⟩, ?_, ?_⟩
  · exact parseFrame_cut (h msg hm) hp hne
  · exact fun closed pieces hpieces => readFramed_cut (h msg hm) closed hp hne hpieces
  · exact fun data msg used hc => parseFrame_of_parseChunkFrame hc
  · exact fun closed tail pieces hp => readFrames_wire closed msgs h hp

/-- A decoder for the examples, of two messages. -/
def sampleDeserialize (bytes : Bytes) : Except String SyncMessage :=
  if bytes = Bincode.serialize sentinel then .ok sentinel
  else if bytes = Bincode.serialize .listSharedFolders then .ok .listSharedFolders
  else .error "invalid value"

theorem framing_round_trip_two :
    parseFrames sampleDeserialize 2 (wire Bincode.serialize [.listSharedFolders, sentinel] ++ [0]) =
      .ok ([.listSharedFolders, sentinel],
        (wire Bincode.serialize [.listSharedFolders, sentinel]).length) :=
  (framing_round_trip Bincode.serialize sampleDeserialize [.listSharedFolders, sentinel]
    (by decide +kernel) (by decide +kernel)).1 [0]

/-! ### Indexes -/

/-- How long an index becomes: 29 bytes and its labels, and 48 bytes for an entry
with its path and its hash. -/
def indexSize (i : Index) : ℕ :=
  29 + i.folderId.utf8ByteSize + i.deviceId.utf8ByteSize +
    (i.remotePath.map fun p => 8 + p.utf8ByteSize).getD 0 +
    (i.entries.map fun e => 48 + e.path.utf8ByteSize + e.hash.length).sum

/-- The frame of an index is read back by every reader. -/
def IndexAccepted (serialize : SyncMessage → Bytes) (deserialize : Bytes → Except String SyncMessage)
    (i : Index) : Prop :=
  parseFrame deserialize (frameMessage serialize (.index i)) =
      .ok (.index i, (frameMessage serialize (.index i)).length) ∧
    ∀ closed pieces, Pieces pieces (frameMessage serialize (.index i)) →
      ∃ rest, readFramed deserialize closed pieces = .ok (.index i, rest) ∧ Pieces rest []

/-- **An index is accepted exactly when it fits into a control frame**, however
many entries it has. -/
theorem index_accepted_iff (serialize : SyncMessage → Bytes)
    (deserialize : Bytes → Except String SyncMessage)
    (hsize : ∀ i, (serialize (.index i)).length = indexSize i) (i : Index)
    (hdecodes : deserialize (serialize (.index i)) = .ok (.index i)) :
    IndexAccepted serialize deserialize i ↔ indexSize i ≤ maxControlFrame := by
  have hlen := frameMessage_length serialize (.index i)
  constructor
  · rintro ⟨hparse, -⟩
    unfold parseFrame at hparse
    dsimp only at hparse
    rw [take_frameMessage, fromBeBytes_beBytes] at hparse
    split_ifs at hparse with hshort hlarge hcut
    -- the frame has been consumed, so its length has not been cut off
    cases hd : deserialize (((frameMessage serialize (.index i)).drop 4).take
        ((serialize (.index i)).length % UInt32.size)) with
    | error e =>
      rw [hd] at hparse
      cases hparse
    | ok m =>
      rw [hd] at hparse
      simp only [Except.ok.injEq, Prod.mk.injEq] at hparse
      have hused := hparse.2
      rw [← hsize]
      omega
  · intro hle
    have h : Framable serialize deserialize (.index i) := ⟨by rw [hsize]; exact hle, hdecodes⟩
    refine ⟨?_, fun closed pieces hp => ?_⟩
    · have hparse := parseFrame_frame h []
      rwa [List.append_nil] at hparse
    · exact readFramed_frame h closed (by rw [List.append_nil]; exact hp)

/-- An index of `n` entries with the path `f`. -/
def sampleIndex (n : ℕ) : Index where
  folderId := "1"
  deviceId := "laptop"
  remotePath := none
  entries := List.replicate n ⟨"f", 0, 0, 0, 0, List.replicate 32 0⟩

theorem index_accepted_two :
    IndexAccepted Bincode.serialize (fun _ => .ok (.index (sampleIndex 2))) (sampleIndex 2) ↔
      indexSize (sampleIndex 2) ≤ maxControlFrame :=
  index_accepted_iff Bincode.serialize (fun _ => .ok (.index (sampleIndex 2)))
    Bincode.index_length (sampleIndex 2) rfl

/-- As many entries as an index may have, each with a path of one byte: eight
megabytes. -/
theorem index_refused : ¬ ∀ (deserialize : Bytes → Except String SyncMessage) (i : Index),
    i.entries.length ≤ maxIndexEntries → (∀ e ∈ i.entries, e.path.utf8ByteSize ≤ maxPathLen) →
    deserialize (Bincode.serialize (.index i)) = .ok (.index i) →
    IndexAccepted Bincode.serialize deserialize i := by
  intro h
  have hlen : (sampleIndex 100000).entries.length = 100000 := List.length_replicate ..
  have hpaths : ∀ e ∈ (sampleIndex 100000).entries, e.path.utf8ByteSize ≤ maxPathLen := by
    intro e he
    rw [List.eq_of_mem_replicate he]
    decide
  have hsize : (Bincode.serialize (.index (sampleIndex 100000))).length = 8100036 := by
    have hf : ("f" : String).utf8ByteSize = 1 := by decide
    have hfolder : ("1" : String).utf8ByteSize = 1 := by decide
    have hdevice : ("laptop" : String).utf8ByteSize = 6 := by decide
    rw [Bincode.index_length]
    simp only [sampleIndex, List.map_replicate, List.sum_replicate_nat, List.length_replicate, hf,
      hfolder, hdevice, Option.map_none, Option.getD_none]
  obtain ⟨hparse, -⟩ := h (fun _ => .ok (.index (sampleIndex 100000))) (sampleIndex 100000)
    (by rw [hlen]; decide) hpaths rfl
  obtain ⟨e, herror⟩ := parseFrame_tooLarge (fun _ => .ok (.index (sampleIndex 100000)))
    (show frameTooLarge Bincode.serialize (.index (sampleIndex 100000)) = true by
      rw [frameTooLarge, hsize]
      decide) (by rw [hsize]; decide) []
  rw [List.append_nil, hparse] at herror
  cases herror

end FerriSync
