/-
# The chunks of a file

The loop of `send_file_chunks` is in the source twice, for a transport connection
and for a TLS stream; it is one loop here over what the connection's `write_all`
does (`chunkLoop`). It ends, whatever the file, and has then written the frames of
the chunks that start at the multiples of the chunk size (`chunkLoop_eq`,
`sends_exactly`).

A receive loop to which these chunks are fed puts the file together at the last of
them and at none before, if and only if the file is within the loop's limits
(`chunking_exact_iff`): it counts every byte it buffers and refuses more than
256 MiB, while a file may have 10 GiB.

Key definitions: `chunkLoop`, `sendFileChunksTransport`, `sendFileChunksTls`,
`SendsExactly`, `PutTogether`.
Key theorems: `sendFileChunks_eq`, `sends_exactly`, `reassemble_take`,
`chunking_exact_iff`.
-/
import FerriSync.Backpressure
import FerriSync.Reassembly

namespace FerriSync

/-! ### The loop -/

section

-- How a message is encoded, and what a connection does with bytes to write.
variable {σ : Type} (serialize : SyncMessage → Bytes) (writeAll : Bytes → σ → Except String σ)

/-- `write_all` of a framed chunk. -/
def writeChunk (conn : σ) (chunk : FileChunk) : Except String σ :=
  writeAll (frameMessage serialize (.fileChunk chunk)) conn

/-- The loop from an offset on; nothing if it has not ended after so many rounds. -/
def chunkLoop (folderId path : String) (data : Bytes) : ℕ → ℕ → σ → Option (Except String σ)
  | 0, _, _ => none
  | rounds + 1, offset, conn =>
    let stop := min (offset + chunkSize) data.length
    match writeChunk serialize writeAll conn (chunkAt folderId path data offset) with
    | .error e => some (.error e)
    | .ok conn =>
      if data.length ≤ stop then some (.ok conn)
      else chunkLoop folderId path data rounds stop conn

/-- `send_file_chunks`, over a transport connection. -/
def sendFileChunksTransport (folderId path : String) (data : Bytes) (rounds : ℕ) :=
  chunkLoop serialize writeAll folderId path data rounds 0

/-- `send_file_chunks_tls`, over a TLS stream. -/
def sendFileChunksTls (folderId path : String) (data : Bytes) (rounds : ℕ) :=
  chunkLoop serialize writeAll folderId path data rounds 0

end

/-- The chunk after so many others. -/
def nthChunk (folderId path : String) (data : Bytes) (k : ℕ) : FileChunk :=
  chunkAt folderId path data (k * chunkSize)

section

variable {σ : Type} {serialize : SyncMessage → Bytes} {writeAll : Bytes → σ → Except String σ}
variable {folderId path : String} {data : Bytes} {k : ℕ}

theorem nthChunk_length :
    (nthChunk folderId path data k).data.length = min ((k + 1) * chunkSize) data.length - k * chunkSize := by
  rw [nthChunk, chunkAt_length, Nat.add_mul, Nat.one_mul]

/-- The chunk is not the last. -/
theorem succ_lt_chunkCount : k + 1 < chunkCount data.length ↔ (k + 1) * chunkSize < data.length := by
  simp only [chunkCount, chunkSize]
  omega

/-- Where the loop stops. -/
theorem stops_iff : data.length ≤ min (k * chunkSize + chunkSize) data.length ↔
    ¬ k + 1 < chunkCount data.length := by
  have hstop : k * chunkSize + chunkSize = (k + 1) * chunkSize := by rw [Nat.add_mul, Nat.one_mul]
  rw [succ_lt_chunkCount, hstop]
  omega

/-- Where it goes on otherwise. -/
theorem stop_eq (h : k + 1 < chunkCount data.length) :
    min (k * chunkSize + chunkSize) data.length = (k + 1) * chunkSize := by
  have hlt := succ_lt_chunkCount.mp h
  have hstop : k * chunkSize + chunkSize = (k + 1) * chunkSize := by rw [Nat.add_mul, Nat.one_mul]
  omega

theorem range_chunks (h : k < chunkCount data.length) :
    List.range' k (chunkCount data.length - k) =
      k :: List.range' (k + 1) (chunkCount data.length - (k + 1)) := by
  obtain ⟨n, hn⟩ : ∃ n, chunkCount data.length - k = n + 1 := ⟨chunkCount data.length - k - 1, by omega⟩
  have hn' : chunkCount data.length - (k + 1) = n := by omega
  rw [hn, hn', List.range'_succ]

theorem ok_bind {ε α β : Type} (a : α) (f : α → Except ε β) : (Except.ok a >>= f) = f a := rfl

/-- **The loop writes the chunks one after the other**, and ends. -/
theorem chunkLoop_eq {rounds : ℕ} (hk : k < chunkCount data.length)
    (hrounds : chunkCount data.length ≤ k + rounds) (conn : σ) :
    chunkLoop serialize writeAll folderId path data rounds (k * chunkSize) conn =
      some (((List.range' k (chunkCount data.length - k)).map (nthChunk folderId path data)).foldlM
        (writeChunk serialize writeAll) conn) := by
  induction rounds generalizing k conn with
  | zero => omega
  | succ rounds ih =>
    rw [chunkLoop, range_chunks hk, List.map_cons, List.foldlM_cons, ← nthChunk]
    cases writeChunk serialize writeAll conn (nthChunk folderId path data k) with
    | error e => rfl
    | ok conn =>
      dsimp only
      rw [if_congr stops_iff rfl rfl, ok_bind]
      by_cases hnext : k + 1 < chunkCount data.length
      · rw [if_neg (not_not.mpr hnext), stop_eq hnext]
        exact ih hnext (by omega) conn
      · have hnone : chunkCount data.length - (k + 1) = 0 := by omega
        rw [if_pos hnext, hnone]
        rfl

theorem chunksFrom_eq {fuel : ℕ} (hk : k < chunkCount data.length)
    (hfuel : chunkCount data.length ≤ k + fuel) :
    chunksFrom folderId path data fuel (k * chunkSize) =
      (List.range' k (chunkCount data.length - k)).map (nthChunk folderId path data) := by
  induction fuel generalizing k with
  | zero => omega
  | succ fuel ih =>
    rw [chunksFrom, range_chunks hk, List.map_cons, if_congr stops_iff rfl rfl]
    by_cases hnext : k + 1 < chunkCount data.length
    · rw [if_neg (not_not.mpr hnext), stop_eq hnext, ih hnext (by omega)]
      rfl
    · have hnone : chunkCount data.length - (k + 1) = 0 := by omega
      rw [if_pos hnext, hnone]
      rfl

theorem chunkCount_pos : 0 < chunkCount data.length := Nat.le_max_left ..

theorem chunkCount_le : chunkCount data.length ≤ data.length + 1 := by
  simp only [chunkCount, chunkSize]
  omega

/-- The chunks in a list. -/
theorem sendFileChunks_eq (folderId path : String) (data : Bytes) :
    sendFileChunks folderId path data =
      (List.range (chunkCount data.length)).map (nthChunk folderId path data) := by
  have hfuel := @chunkCount_le data
  have h := @chunksFrom_eq folderId path data 0 (data.length + 1) chunkCount_pos (by omega)
  rw [Nat.zero_mul, Nat.sub_zero] at h
  rw [sendFileChunks, h, List.range_eq_range']

end

/-! ### What is sent -/

/-- The two senders write the frames of these chunks and nothing else, and end. -/
def Emits (folderId path : String) (data : Bytes) (chunks : List FileChunk) : Prop :=
  ∀ (σ : Type) (serialize : SyncMessage → Bytes) (writeAll : Bytes → σ → Except String σ) (conn : σ),
    ∃ enough, ∀ rounds, enough ≤ rounds →
      sendFileChunksTransport serialize writeAll folderId path data rounds conn =
        some (chunks.foldlM (writeChunk serialize writeAll) conn) ∧
      sendFileChunksTls serialize writeAll folderId path data rounds conn =
        some (chunks.foldlM (writeChunk serialize writeAll) conn)

/-- The chunks of a file as they should be. -/
structure SendsExactly (folderId path : String) (data : Bytes) (chunks : List FileChunk) : Prop where
  emitted : Emits folderId path data chunks
  first : (chunks.head?.map (·.offset)) = some 0
  /-- Each begins where the one before it ends. -/
  consecutive : ∀ k c c', chunks[k]? = some c → chunks[k + 1]? = some c' →
    c'.offset = c.offset + c.data.length
  named : ∀ c ∈ chunks, c.folderId = folderId ∧ c.path = path ∧ c.totalSize = data.length
  size : ∀ c ∈ chunks, c.data.length ≤ chunkSize
  nonempty : data ≠ [] → ∀ c ∈ chunks, c.data ≠ []
  empty : data = [] → chunks.length = 1
  whole : chunks.flatMap (·.data) = data

section

variable (folderId path : String) (data : Bytes)

theorem flatMap_chunks (n : ℕ) :
    ((List.range n).map (nthChunk folderId path data)).flatMap (·.data) = data.take (n * chunkSize) := by
  induction n with
  | zero => rw [Nat.zero_mul, List.take_zero]; rfl
  | succ n ih =>
    have hnth : (nthChunk folderId path data n).data = (data.drop (n * chunkSize)).take chunkSize := by
      rw [nthChunk, chunkAt, List.take_eq_take_iff, List.length_drop]
      omega
    rw [List.range_succ, List.map_append, List.flatMap_append, ih, List.map_singleton,
      List.flatMap_singleton, hnth, Nat.add_mul, Nat.one_mul, List.take_add]

theorem sends_exactly : SendsExactly folderId path data (sendFileChunks folderId path data) := by
  have hpos := @chunkCount_pos data
  have hget : ∀ k c, (sendFileChunks folderId path data)[k]? = some c →
      k < chunkCount data.length ∧ c = nthChunk folderId path data k := by
    intro k c hc
    rw [sendFileChunks_eq] at hc
    obtain ⟨hk, rfl⟩ := List.getElem?_eq_some_iff.mp hc
    exact ⟨by simpa using hk, by simp⟩
  have hmem : ∀ c ∈ sendFileChunks folderId path data,
      ∃ k < chunkCount data.length, c = nthChunk folderId path data k := by
    intro c hc
    obtain ⟨k, hk⟩ := List.mem_iff_getElem?.mp hc
    exact ⟨k, hget k c hk⟩
  constructor
  case emitted =>
    intro σ serialize writeAll conn
    refine ⟨chunkCount data.length, fun rounds hrounds => ?_⟩
    have hloop := @chunkLoop_eq σ serialize writeAll folderId path data 0 rounds hpos (by omega) conn
    rw [Nat.zero_mul, Nat.sub_zero, ← List.range_eq_range', ← sendFileChunks_eq] at hloop
    exact ⟨hloop, hloop⟩
  case first =>
    rw [sendFileChunks_eq, List.range_eq_range', ← Nat.sub_zero (chunkCount data.length),
      range_chunks hpos]
    show some (0 * chunkSize) = some 0
    rw [Nat.zero_mul]
  case consecutive =>
    intro k c c' hc hc'
    obtain ⟨-, rfl⟩ := hget k c hc
    obtain ⟨hlt, rfl⟩ := hget (k + 1) c' hc'
    have hnext := succ_lt_chunkCount.mp hlt
    rw [nthChunk_length]
    show (k + 1) * chunkSize = k * chunkSize + _
    rw [Nat.add_mul] at hnext ⊢
    omega
  case named =>
    intro c hc
    obtain ⟨k, -, rfl⟩ := hmem c hc
    exact ⟨rfl, rfl, rfl⟩
  case size =>
    intro c hc
    obtain ⟨k, -, rfl⟩ := hmem c hc
    rw [nthChunk_length, Nat.add_mul]
    omega
  case nonempty =>
    intro hdata c hc
    obtain ⟨k, hk, rfl⟩ := hmem c hc
    have hlen := List.length_pos_of_ne_nil hdata
    have hbegin : k * chunkSize < data.length := by
      rcases Nat.eq_zero_or_pos k with rfl | hkpos
      · omega
      · obtain ⟨j, rfl⟩ := Nat.exists_eq_succ_of_ne_zero (Nat.ne_of_gt hkpos)
        exact succ_lt_chunkCount.mp hk
    have hcs : chunkSize = 64 * 1024 := rfl
    apply List.ne_nil_of_length_pos
    rw [nthChunk_length, Nat.add_mul]
    omega
  case empty =>
    rintro rfl
    rw [sendFileChunks_eq, List.length_map, List.length_range]
    rfl
  case whole =>
    rw [sendFileChunks_eq, flatMap_chunks]
    apply List.take_of_length_le
    simp only [chunkCount, chunkSize]
    omega

end

/-! ### What is received -/

section

variable (folderId path : String) (data : Bytes)

/-- The receive loop that is fed the chunks hands the file over at the last of them,
whole, and nothing before. -/
structure PutTogether (chunks : List FileChunk) : Prop where
  before : ∀ k < chunks.length, (reassemble (chunks.take k)).delivered = []
  after : (reassemble chunks).delivered.map (fun d => (d.path, d.data)) = [(path, data)]

/-- The chunks of the file are as they should be, and put the file together. -/
structure ChunkedExactly : Prop where
  sends : SendsExactly folderId path data (sendFileChunks folderId path data)
  received : PutTogether path data (sendFileChunks folderId path data)

variable {folderId path data}

theorem take_chunks (k : ℕ) (hk : k ≤ chunkCount data.length) :
    (sendFileChunks folderId path data).take k = (List.range k).map (nthChunk folderId path data) := by
  rw [sendFileChunks_eq, ← List.map_take, List.take_range, Nat.min_eq_left hk]

theorem take_succ_chunks (k : ℕ) (hk : k < chunkCount data.length) :
    (sendFileChunks folderId path data).take (k + 1) =
      (sendFileChunks folderId path data).take k ++ [nthChunk folderId path data k] := by
  rw [take_chunks (k + 1) hk, take_chunks k (Nat.le_of_lt hk), List.range_succ, List.map_append,
    List.map_singleton]

section

variable {r : Reassembly} {c : FileChunk}

theorem chunk_stopped (h : r.refused = true) (cs : List FileChunk) : cs.foldl Reassembly.chunk r = r := by
  induction cs with
  | nil => rfl
  | cons c cs ih =>
    have hchunk : r.chunk c = r := by
      unfold Reassembly.chunk
      rw [if_pos (by rw [h, Bool.true_or])]
    rw [List.foldl_cons, hchunk, ih]

theorem chunk_skipped {cs : List FileChunk} (h : ∀ c ∈ cs, c.path = "metadata.db") (r : Reassembly) :
    cs.foldl Reassembly.chunk r = r := by
  induction cs with
  | nil => rfl
  | cons c cs ih =>
    have hchunk : r.chunk c = r := by
      unfold Reassembly.chunk
      rw [if_pos (by rw [decide_eq_true (h c (List.mem_cons_self ..)), Bool.or_true])]
    rw [List.foldl_cons, hchunk, ih fun c hc => h c (List.mem_cons_of_mem _ hc)]

theorem chunk_taken (hrefused : r.refused = false) (hpath : c.path ≠ "metadata.db") :
    (r.refused || decide (c.path = "metadata.db")) = false := by
  rw [hrefused, decide_eq_false hpath]
  rfl

theorem chunk_more {inbox : Inbox} (hrefused : r.refused = false) (hpath : c.path ≠ "metadata.db")
    (h : receiveChunk r.inbox c = .more inbox) : (r.chunk c).inbox = inbox ∧
      (r.chunk c).delivered = r.delivered ∧ (r.chunk c).refused = false := by
  unfold Reassembly.chunk
  rw [if_neg (by rw [chunk_taken hrefused hpath]; decide), h]
  exact ⟨rfl, rfl, hrefused⟩

theorem chunk_complete {inbox : Inbox} {whole : Bytes} (hrefused : r.refused = false)
    (hpath : c.path ≠ "metadata.db") (h : receiveChunk r.inbox c = .complete inbox whole) :
    (r.chunk c).delivered.map (fun d => (d.path, d.data)) =
      r.delivered.map (fun d => (d.path, d.data)) ++ [(c.path, whole)] := by
  unfold Reassembly.chunk
  rw [if_neg (by rw [chunk_taken hrefused hpath]; decide), h]
  exact List.map_append

theorem chunk_refused (hrefused : r.refused = false) (hpath : c.path ≠ "metadata.db")
    (h : ∃ why, receiveChunk r.inbox c = .refused why) :
    (r.chunk c).delivered = r.delivered ∧ (r.chunk c).refused = true := by
  obtain ⟨why, hwhy⟩ := h
  unfold Reassembly.chunk
  rw [if_neg (by rw [chunk_taken hrefused hpath]; decide), hwhy]
  exact ⟨rfl, rfl⟩

end

/-- **What the loop holds on the way**: the part of the file that has come. -/
theorem reassemble_take (hmeta : path ≠ "metadata.db") (hpath : path.utf8ByteSize ≤ maxPathLen)
    (hdata : data.length ≤ maxFileSize) {k : ℕ} (hk : k < chunkCount data.length)
    (hfits : min (k * chunkSize) data.length ≤ 256 * 1024 * 1024) :
    (reassemble ((sendFileChunks folderId path data).take k)).inbox = .upTo path data (k * chunkSize) ∧
      (reassemble ((sendFileChunks folderId path data).take k)).delivered = [] ∧
      (reassemble ((sendFileChunks folderId path data).take k)).refused = false := by
  induction k with
  | zero => rw [Nat.zero_mul]; exact ⟨rfl, rfl, rfl⟩
  | succ k ih =>
    have hstop := stop_eq hk
    have hbegin : k * chunkSize ≤ (k + 1) * chunkSize := Nat.mul_le_mul_right _ (Nat.le_succ k)
    have hlt := succ_lt_chunkCount.mp hk
    have hfits' : min (k * chunkSize) data.length ≤ 256 * 1024 * 1024 :=
      Nat.le_trans (min_le_min_right _ hbegin) hfits
    obtain ⟨hinbox, hdelivered, hrefused⟩ := ih (Nat.lt_of_succ_lt hk) hfits'
    have hnext : min (k * chunkSize + chunkSize) data.length ≤ 256 * 1024 * 1024 := by
      rw [← Nat.succ_mul]
      exact hfits
    have hmiddle : ¬ data.length ≤ k * chunkSize + chunkSize := fun h =>
      stops_iff.mp ((stop_iff data _).mpr h) hk
    have hmore : receiveChunk (reassemble ((sendFileChunks folderId path data).take k)).inbox
        (nthChunk folderId path data k) = .more (.upTo path data ((k + 1) * chunkSize)) := by
      rw [hinbox, nthChunk, receiveChunk_within folderId hpath hdata hnext
        (Nat.le_of_lt (Nat.lt_of_le_of_lt hbegin hlt)), hstop, if_neg hmiddle]
    rw [take_succ_chunks k (Nat.lt_of_succ_lt hk), reassemble_append]
    obtain ⟨h₁, h₂, h₃⟩ := chunk_more hrefused hmeta hmore
    exact ⟨h₁, h₂.trans hdelivered, h₃⟩

/-- A chunk on the way is refused: nothing is handed over. -/
theorem not_put_of_refused {k : ℕ} (hk : k < chunkCount data.length)
    (hdelivered : (reassemble ((sendFileChunks folderId path data).take k)).delivered = [])
    (hrefused : (reassemble ((sendFileChunks folderId path data).take k)).refused = false)
    (hmeta : path ≠ "metadata.db")
    (h : ∃ why, receiveChunk (reassemble ((sendFileChunks folderId path data).take k)).inbox
      (nthChunk folderId path data k) = .refused why) :
    ¬PutTogether path data (sendFileChunks folderId path data) := by
  intro hput
  obtain ⟨hnothing, hstopped⟩ := chunk_refused hrefused hmeta h
  have hall : reassemble (sendFileChunks folderId path data) =
      (reassemble ((sendFileChunks folderId path data).take k)).chunk (nthChunk folderId path data k) := by
    have hsplit := List.take_append_drop (k + 1) (sendFileChunks folderId path data)
    rw [← reassemble_append, ← take_succ_chunks k hk]
    conv_lhs => rw [← hsplit]
    rw [reassemble, List.foldl_append]
    refine chunk_stopped ?_ _
    show (reassemble _).refused = true
    rw [take_succ_chunks k hk, reassemble_append]
    exact hstopped
  have hafter := hput.after
  rw [hall, hnothing, hdelivered] at hafter
  cases hafter

/-- What is put together is within the limits of the receive loop. -/
theorem limits_of_put (hdata : data.length ≤ maxFileSize)
    (h : PutTogether path data (sendFileChunks folderId path data)) :
    path ≠ "metadata.db" ∧ path.utf8ByteSize ≤ maxPathLen ∧ data.length ≤ 256 * 1024 * 1024 := by
  have hpos := @chunkCount_pos data
  have hmeta : path ≠ "metadata.db" := by
    intro hmeta
    have hnamed := (sends_exactly folderId path data).named
    have hskipped : reassemble (sendFileChunks folderId path data) = {} :=
      chunk_skipped (fun c hc => (hnamed c hc).2.1.trans hmeta) {}
    have hafter := h.after
    rw [hskipped] at hafter
    cases hafter
  have hpath : path.utf8ByteSize ≤ maxPathLen := by
    by_contra hlong
    refine not_put_of_refused hpos rfl rfl hmeta ?_ h
    exact receiveChunk_refused _ (nthChunk folderId path data 0) (Nat.lt_of_not_le hlong)
  refine ⟨hmeta, hpath, ?_⟩
  by_contra hlarge
  -- the chunk that begins at 256 MiB
  have hk : 4096 < chunkCount data.length := by
    simp only [chunkCount, chunkSize]
    omega
  have hcs : chunkSize = 64 * 1024 := rfl
  obtain ⟨hinbox, hdelivered, hrefused⟩ := @reassemble_take folderId path data hmeta hpath hdata
    4096 hk (by omega)
  refine not_put_of_refused hk hdelivered hrefused hmeta ?_ h
  rw [hinbox]
  exact receiveChunk_beyond folderId hdata (by omega) (by omega)

/-- Within the limits, the last chunk completes the file. -/
theorem put_of_limits (hmeta : path ≠ "metadata.db") (hpath : path.utf8ByteSize ≤ maxPathLen)
    (hdata : data.length ≤ maxFileSize) (hlimit : data.length ≤ 256 * 1024 * 1024) :
    PutTogether path data (sendFileChunks folderId path data) := by
  have hlength : (sendFileChunks folderId path data).length = chunkCount data.length := by
    rw [sendFileChunks_eq, List.length_map, List.length_range]
  have hfits : ∀ n, min n data.length ≤ 256 * 1024 * 1024 := fun n =>
    Nat.le_trans (Nat.min_le_right ..) hlimit
  constructor
  case before =>
    intro k hk
    rw [hlength] at hk
    exact (reassemble_take hmeta hpath hdata hk (hfits _)).2.1
  case after =>
    obtain ⟨last, hlast⟩ := Nat.exists_eq_succ_of_ne_zero (Nat.ne_of_gt (@chunkCount_pos data))
    have hk : last < chunkCount data.length := by omega
    have hend : data.length ≤ last * chunkSize + chunkSize :=
      (stop_iff data _).mp (stops_iff.mpr (by omega))
    have hbegin : last * chunkSize ≤ data.length := by
      rcases Nat.eq_zero_or_pos last with rfl | hpos
      · omega
      · obtain ⟨j, rfl⟩ := Nat.exists_eq_succ_of_ne_zero (Nat.ne_of_gt hpos)
        exact Nat.le_of_lt (succ_lt_chunkCount.mp hk)
    obtain ⟨hinbox, hdelivered, hrefused⟩ := @reassemble_take folderId path data hmeta hpath hdata
      last hk (hfits _)
    have hcomplete : receiveChunk (reassemble ((sendFileChunks folderId path data).take last)).inbox
        (nthChunk folderId path data last) = .complete .empty data := by
      rw [hinbox, nthChunk, receiveChunk_within folderId hpath hdata (hfits _) hbegin, if_pos hend]
    have hwhole : (sendFileChunks folderId path data).take last ++ [nthChunk folderId path data last] =
        sendFileChunks folderId path data := by
      rw [← take_succ_chunks last hk, List.take_of_length_le (by omega)]
    have hfinal := chunk_complete hrefused hmeta hcomplete
    rw [← reassemble_append, hwhole, hdelivered] at hfinal
    exact hfinal

end

/-- **Chunking is exact within the receiver's limits**, and only there. -/
theorem chunking_exact_iff (folderId path : String) (data : Bytes) (hdata : data.length ≤ maxFileSize) :
    ChunkedExactly folderId path data ↔ path ≠ "metadata.db" ∧ path.utf8ByteSize ≤ maxPathLen ∧
      data.length ≤ 256 * 1024 * 1024 := by
  constructor
  · intro h
    exact limits_of_put hdata h.received
  · intro h
    exact ⟨sends_exactly folderId path data, put_of_limits h.1 h.2.1 hdata h.2.2⟩

/-- A file of one byte. -/
theorem chunking_exact_iff_byte : ChunkedExactly "1" "f" [97] :=
  (chunking_exact_iff "1" "f" [97] (by decide)).mpr ⟨by decide, by decide, by decide⟩

/-- A file of 300 MiB, far below `MAX_FILE_SIZE`, is not received. -/
theorem chunking_refused : ¬ChunkedExactly "1" "f" (List.replicate (300 * 1024 * 1024) 0) := by
  intro h
  have hlength : (List.replicate (300 * 1024 * 1024) (0 : UInt8)).length = 300 * 1024 * 1024 :=
    List.length_replicate
  have hlimit := (limits_of_put (by rw [hlength]; decide) h.received).2.2
  rw [hlength] at hlimit
  omega

end FerriSync
