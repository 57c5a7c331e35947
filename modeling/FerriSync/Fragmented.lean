/-
# A pairing answer in pieces

A device that asks for pairing reads the host's answer with a single read into a
buffer of 4096 bytes, and parses what that read has yielded (`pair_attempt` in
`pairing.rs`). The readers of a session fill their buffers first
(`readFramed_frame`). So the answer is understood exactly if it comes in one
piece that the buffer holds (`pair_answer_understood_iff`), and an answer in two
pieces is an error although nothing is missing (`answer_in_two_pieces`).

Key definitions: `readOnce`, `readPairAnswer`, `Understood`.
Key theorems: `readPairAnswer_eq_iff`, `pair_answer_understood_iff`.
-/
import FerriSync.Framing
import FerriSync.Pairing

namespace FerriSync

open Fragments

/-- The buffer for the host's answer. -/
def pairBuffer : ℕ := 4096

/-- What one read into a buffer of `n` bytes yields. -/
def readOnce (n : ℕ) (pieces : List Bytes) : Bytes := (pieces.headD []).take n

/-- The end of `pair_attempt`: what it makes of a stream. -/
def readPairAnswer (deserialize : Bytes → Except String SyncMessage) (cert : Option Bytes)
    (pieces : List Bytes) : PairAttempt :=
  match parseFrame deserialize (readOnce pairBuffer pieces) with
  | .error e => .failed e
  | .ok (.pairResponse resp, _) => .response cert resp
  | .ok _ => .failed "unexpected response during pairing"

/-- The answer is decoded, and the device goes on as the host's answer says:
it stores the host, asks again, or gives up. -/
structure Understood (blake3 : Bytes → FileHash) (deserialize : Bytes → Except String SyncMessage)
    (cert : Option Bytes) (resp : PairResponse) (pieces : List Bytes) : Prop where
  decoded : readPairAnswer deserialize cert pieces = .response cert resp
  acts : ∀ addr s later,
    pairAttempt blake3 addr s (readPairAnswer deserialize cert pieces) =
        pairAttempt blake3 addr s (.response cert resp) ∧
      pairWith blake3 addr s (readPairAnswer deserialize cert pieces :: later) =
        pairWith blake3 addr s (.response cert resp :: later)

section

variable {serialize : SyncMessage → Bytes} {deserialize : Bytes → Except String SyncMessage}
  {resp : PairResponse} {pieces : List Bytes}

theorem readOnce_begins {n : ℕ} {stream : Bytes} (hp : Pieces pieces stream) :
    readOnce n pieces <+: stream := by
  cases pieces with
  | nil =>
    rw [readOnce, List.headD_nil, List.take_nil]
    exact List.nil_prefix
  | cons piece rest =>
    apply (List.take_prefix n piece).trans
    rw [← hp.2, List.flatten_cons]
    exact List.prefix_append piece rest.flatten

/-- A read that yields the whole stream is the only one. -/
theorem readOnce_eq_iff {n : ℕ} {stream : Bytes} (hp : Pieces pieces stream) (hne : stream ≠ []) :
    readOnce n pieces = stream ↔ pieces = [stream] ∧ stream.length ≤ n := by
  constructor
  · intro h
    cases pieces with
    | nil =>
      rw [readOnce, List.headD_nil, List.take_nil] at h
      exact absurd h.symm hne
    | cons piece rest =>
      have htake : piece.take n = stream := h
      have hlength : stream.length = min n piece.length := by rw [← htake, List.length_take]
      have htotal : piece.length + rest.flatten.length = stream.length := by
        rw [← hp.2, List.flatten_cons, List.length_append]
      have hrest : rest.flatten = [] := List.length_eq_zero_iff.mp (by omega)
      have hpiece : piece = stream := by
        have hflat := hp.2
        rwa [List.flatten_cons, hrest, List.append_nil] at hflat
      have hnone : rest = [] := by
        apply List.eq_nil_iff_forall_not_mem.mpr
        intro p hmem
        apply hp.1 p (List.mem_cons_of_mem _ hmem)
        exact List.flatten_eq_nil_iff.mp hrest p hmem
      rw [hpiece, hnone]
      exact ⟨rfl, by omega⟩
  · rintro ⟨rfl, hlen⟩
    exact List.take_of_length_le hlen

/-- **When the answer is read**: it comes in one piece, and the buffer holds it. -/
theorem readPairAnswer_eq_iff (h : Framable serialize deserialize (.pairResponse resp))
    (cert : Option Bytes) (hp : Pieces pieces (frameMessage serialize (.pairResponse resp))) :
    readPairAnswer deserialize cert pieces = .response cert resp ↔
      pieces = [frameMessage serialize (.pairResponse resp)] ∧
        (frameMessage serialize (.pairResponse resp)).length ≤ pairBuffer := by
  have hlen := frameMessage_length serialize (.pairResponse resp)
  have hne : frameMessage serialize (.pairResponse resp) ≠ [] := by
    apply List.ne_nil_of_length_pos
    omega
  rw [← readOnce_eq_iff hp hne]
  constructor
  · intro hread
    by_contra hcut
    obtain ⟨e, he⟩ := parseFrame_cut h (readOnce_begins hp) hcut
    simp only [readPairAnswer, he] at hread
    cases hread
  · intro hwhole
    have hparse := parseFrame_frame h []
    rw [List.append_nil] at hparse
    simp only [readPairAnswer, hwhole, hparse]

end

/-- **A pairing answer is understood exactly if one read brings all of it.** -/
theorem pair_answer_understood_iff (blake3 : Bytes → FileHash) (serialize : SyncMessage → Bytes)
    (deserialize : Bytes → Except String SyncMessage) (cert : Option Bytes) (resp : PairResponse)
    (pieces : List Bytes) (hsize : (serialize (.pairResponse resp)).length ≤ maxControlFrame)
    (hdecodes : deserialize (serialize (.pairResponse resp)) = .ok (.pairResponse resp))
    (hp : Pieces pieces (frameMessage serialize (.pairResponse resp))) :
    Understood blake3 deserialize cert resp pieces ↔
      pieces = [frameMessage serialize (.pairResponse resp)] ∧
        (frameMessage serialize (.pairResponse resp)).length ≤ pairBuffer := by
  rw [← readPairAnswer_eq_iff ⟨hsize, hdecodes⟩ cert hp]
  constructor
  · exact Understood.decoded
  · intro h
    exact ⟨h, fun addr s later => by rw [h]; exact ⟨rfl, rfl⟩⟩

/-- The answer of a host that accepts. -/
def sampleAnswer : PairResponse := ⟨true, "nas", "NAS", [7], none⟩

/-- Its frame. -/
def sampleAnswerFrame : Bytes := frameMessage Bincode.serialize (.pairResponse sampleAnswer)

theorem pair_answer_whole :
    Understood sampleBlake3 (fun _ => .ok (.pairResponse sampleAnswer)) none sampleAnswer
        [sampleAnswerFrame] ↔
      [sampleAnswerFrame] = [sampleAnswerFrame] ∧ sampleAnswerFrame.length ≤ pairBuffer :=
  pair_answer_understood_iff sampleBlake3 Bincode.serialize
    (fun _ => .ok (.pairResponse sampleAnswer)) none sampleAnswer [sampleAnswerFrame]
    (by decide +kernel) rfl
    ⟨fun piece hmem => by rw [List.mem_singleton.mp hmem]; decide +kernel, by decide +kernel⟩

/-- The length of the frame comes first, and the rest in a second read. -/
theorem answer_in_two_pieces : ¬ ∀ (blake3 : Bytes → FileHash) (serialize : SyncMessage → Bytes)
    (deserialize : Bytes → Except String SyncMessage) (cert : Option Bytes) (resp : PairResponse)
    (pieces : List Bytes), (serialize (.pairResponse resp)).length ≤ maxControlFrame →
    deserialize (serialize (.pairResponse resp)) = .ok (.pairResponse resp) →
    Pieces pieces (frameMessage serialize (.pairResponse resp)) →
    Understood blake3 deserialize cert resp pieces := by
  intro h
  have hdecoded := (h sampleBlake3 Bincode.serialize (fun _ => .ok (.pairResponse sampleAnswer)) none
    sampleAnswer [sampleAnswerFrame.take 4, sampleAnswerFrame.drop 4] (by decide +kernel) rfl
    ⟨by decide +kernel, by decide +kernel⟩).decoded
  have hread : parseFrame (fun _ => .ok (.pairResponse sampleAnswer))
      (readOnce pairBuffer [sampleAnswerFrame.take 4, sampleAnswerFrame.drop 4]) =
      .error "incomplete frame" := by decide +kernel
  simp only [readPairAnswer, hread] at hdecoded
  cases hdecoded

end FerriSync
