/-
# Two push phases and two bounded channels

After the exchange of the indexes each end pushes all of its files and the
sentinel before it reads anything, through a connection that takes only so
many bytes that its peer has not read. If at some point neither what is left of
the one direction nor what has been written in the other fits, the two ends
wait for each other: a read has a time limit, a write has none.

That is a matter of sizes only. Two ends that accept each other's files are
never both blocked in their push phases exactly if, after any number of files
that one of them has received, its own files and the Acks fit their channel
or the files that it has not received fit theirs (`no_deadlock_iff`).

Key definitions: `Config.endpoint`, `pushStream`, `Ends.NoDeadlock`, `fileBytes`, `Roomy`.
Key theorems: `plan_pushes`, `no_deadlock_iff_fits`, `no_deadlock_iff`.
-/
import FerriSync.Converge
import FerriSync.Lib.Bounded

namespace FerriSync

open Machine

/-- An end, with the capacity of the channel that it writes to. -/
def Config.endpoint (cfg : Config) (cap : ℕ) : Endpoint Party SyncMessage SyncEvent where
  next := Party.next cfg
  size m := (frameMessage cfg.serialize m).length
  cap := cap
  stops := halt_of_drain cfg

/-! ### What an end pushes -/

/-- The chunks of a planned file; none if it cannot be read. -/
def plannedMessages (cfg : Config) (f : Folder) (path : String) : List SyncMessage :=
  match safeJoin path with
  | .error _ => []
  | .ok t =>
    match f.read t with
    | .error _ => []
    | .ok data => (sendFileChunks cfg.folderIdStr path data).map .fileChunk

/-- All that an end writes before it reads: the planned files, and the sentinel. -/
def pushStream (cfg : Config) (f : Folder) (paths : List String) : List SyncMessage :=
  paths.flatMap (plannedMessages cfg f) ++ [sentinel]

section

variable (cfg : Config)

theorem planned_does {p : Party} (paths : List String) (rest : List Action)
    (hpaths : ∀ x ∈ paths, ∃ t, safeJoin x = .ok t) :
    ∃ q, q.todo = rest ∧ Does (Party.next cfg) { p with todo := paths.map Action.pushFile ++ rest } []
      (paths.flatMap (plannedMessages cfg p.folder)) q := by
  induction paths generalizing p with
  | nil => exact ⟨{ p with todo := rest }, rfl, .nothing _⟩
  | cons x paths ih =>
    obtain ⟨t, hj⟩ := hpaths x (List.mem_cons_self ..)
    have hrest := fun y hy => hpaths y (List.mem_cons_of_mem x hy)
    cases hread : p.folder.read t with
    | error e =>
      have hskip : (Party.next cfg { p with todo := (x :: paths).map Action.pushFile ++ rest }).silent =
          some { p with todo := paths.map Action.pushFile ++ rest } := by
        simp only [Party.next, List.map_cons, List.cons_append, act, hj, hread]
        rfl
      have hnone : plannedMessages cfg p.folder x = [] := by simp only [plannedMessages, hj, hread]
      obtain ⟨q, hq, hdoes⟩ := ih (p := p) hrest
      refine ⟨q, hq, ?_⟩
      rw [List.flatMap_cons, hnone, List.nil_append]
      exact .silent hskip hdoes
    | ok data =>
      have hsome : plannedMessages cfg p.folder x =
          (sendFileChunks cfg.folderIdStr x data).map .fileChunk := by
        simp only [plannedMessages, hj, hread]
      have hfirst := push_path_does cfg (p := p) (paths.map Action.pushFile ++ rest) hj hread
      obtain ⟨q, hq, hdoes⟩ := ih (p := p.uploaded x data.length) hrest
      refine ⟨q, hq, ?_⟩
      rw [List.flatMap_cons, hsome]
      exact hfirst.trans_nil hdoes

/-- **The push phase, whatever of its plan can be read.** -/
theorem plan_pushes {p : Party} (entries : List IndexEntry)
    (htodo : p.todo = .progress "starting" :: (entries.map (fun y => .pushFile y.path) ++ [.write sentinel]))
    (hentries : ∀ y ∈ entries, ∃ t, safeJoin y.path = .ok t) :
    ∃ q, Does (Party.next cfg) p [] (pushStream cfg p.folder (entries.map (·.path))) q := by
  have hstart : (Party.next cfg p).silent =
      some { p with todo := (entries.map (·.path)).map Action.pushFile ++ [.write sentinel] } := by
    simp only [Party.next, htodo, List.map_map]
    rfl
  obtain ⟨q, hq, hdoes⟩ := planned_does cfg (p := p) (entries.map (·.path)) [.write sentinel] fun x hx => by
    obtain ⟨y, hy, rfl⟩ := List.mem_map.mp hx
    exact hentries y hy
  have hsentinel : Party.next cfg q = .write sentinel { q with todo := [] }
      (({ q with todo := [] } : Party).fail "write failed") := by
    simp only [Party.next, hq, act]
  have hlast : Does (Party.next cfg) q [] [sentinel] { q with todo := [] } := .write hsentinel (.nothing _)
  exact ⟨_, .silent hstart (hdoes.trans_nil hlast)⟩

end

/-- A path of an index names a place in the folder. -/
theorem safeJoin_of_index {blake3 : Bytes → FileHash} {f : Folder} {device : String} {y : IndexEntry}
    (hy : y ∈ buildProtocolIndex blake3 f device) : ∃ t, safeJoin y.path = .ok t := by
  obtain ⟨u, x, -, rfl⟩ := entry_of_mem_index hy
  by_cases hu : u = []
  · subst hu
    exact ⟨⟨[], true⟩, rfl⟩
  · exact ⟨⟨u, false⟩, safeJoin_render u hu⟩

section

variable {own remote : Index} {folder : FolderId}
  {o : PathOrder (indexToSnapshot own folder) (indexToSnapshot remote folder)}

theorem mem_of_uploadEntry {entries : List IndexEntry} {op : SyncOperation} {y : IndexEntry}
    (h : uploadEntry entries op = some y) : y ∈ entries := by
  cases op with
  | upload path l r => exact List.mem_of_find?_eq_some h
  | _ => cases h

/-- An end pushes files of its own index. -/
theorem mem_own_of_toPush {y : IndexEntry} (hy : y ∈ (clientPlan own remote folder o).toPush) :
    y ∈ own.entries := by
  obtain ⟨op, -, hop⟩ := List.mem_filterMap.mp hy
  exact mem_of_uploadEntry hop

theorem mem_own_of_toPushToClient {y : IndexEntry} (hy : y ∈ (serverPlan own remote folder o).toPushToClient) :
    y ∈ own.entries := by
  rcases List.mem_append.mp hy with hy | hy
  · obtain ⟨op, -, hop⟩ := List.mem_filterMap.mp hy
    exact mem_of_uploadEntry hop
  · obtain ⟨op, -, hop⟩ := List.mem_filterMap.mp hy
    exact List.mem_of_find?_eq_some hop

end

namespace Ends

variable (e : Ends)

def clientStream : List SyncMessage :=
  pushStream e.client e.clientFolder (e.clientPlan.toPush.map (·.path))

def serverStream : List SyncMessage :=
  pushStream e.server e.serverFolder (e.serverPlan.toPushToClient.map (·.path))

theorem client_stream_does : ∃ q, Does (Party.next e.client) e.clientReady [] e.clientStream q :=
  plan_pushes e.client e.clientPlan.toPush rfl fun _ hy => safeJoin_of_index (mem_own_of_toPush hy)

theorem server_stream_does : ∃ q, Does (Party.next e.server) e.serverReady [] e.serverStream q :=
  plan_pushes e.server e.serverPlan.toPushToClient rfl fun _ hy =>
    safeJoin_of_index (mem_own_of_toPushToClient hy)

/-- From the exchange of the indexes on, both ends are blocked only when each has
written all of its push phase, with so many bytes of room to the server and to
the client. -/
def NoDeadlock (toServer toClient : ℕ) : Prop :=
  ∀ d, LineReach (e.client.endpoint toServer) (e.server.endpoint toClient)
      (Line.start e.clientReady e.serverReady) d →
    Stuck (e.client.endpoint toServer) (e.server.endpoint toClient) d →
    ((e.client.endpoint toServer).wire e.clientStream).length ≤ d.left.written ∧
      ((e.server.endpoint toClient).wire e.serverStream).length ≤ d.right.written

/-- What each end writes on reading some of the other's push phase fits its
channel, or the rest of the push phase fits the other channel. -/
def FitsChannels (toServer toClient : ℕ) : Prop :=
  Fits (e.client.endpoint toServer) (e.server.endpoint toClient) e.clientReady e.serverStream ∧
    Fits (e.server.endpoint toClient) (e.client.endpoint toServer) e.serverReady e.clientStream

theorem no_deadlock_iff_fits {toServer toClient : ℕ} (hs : 0 < toServer) (hc : 0 < toClient) :
    e.NoDeadlock toServer toClient ↔ e.FitsChannels toServer toClient := by
  obtain ⟨p, hp⟩ := e.client_stream_does
  obtain ⟨q, hq⟩ := e.server_stream_does
  exact stuck_only_after_iff hp hq hs hc

end Ends

/-! ### Sizes -/

/-- How many chunks a file of so many bytes is sent in. -/
def chunkCount (n : ℕ) : ℕ := max 1 ((n + (chunkSize - 1)) / chunkSize)

/-- The bytes on the wire of a file: those of the file, and for each chunk its
frame. -/
def fileBytes (folderId : String) (x : SentFile) : ℕ :=
  chunkCount x.2.length * (48 + folderId.utf8ByteSize + x.name.utf8ByteSize) + x.2.length

def ackBytes (x : SentFile) : ℕ := 18 + x.name.utf8ByteSize

/-- However many files an end has received, its own files, its sentinel and the
Acks fit the channel that it writes to, or the other files and their sentinel
fit the channel that it reads. -/
def Roomy (own peer : String) (sent received : List SentFile) (capOut capIn : ℕ) : Prop :=
  ∀ j, (sent.map (fileBytes own)).sum + 18 + ((received.take j).map ackBytes).sum ≤ capOut ∨
    ((received.drop j).map (fileBytes peer)).sum + 18 ≤ capIn

theorem size_pos (cfg : Config) (cap : ℕ) (m : SyncMessage) : 0 < (cfg.endpoint cap).size m := by
  show 0 < (frameMessage cfg.serialize m).length
  rw [frameMessage_length]
  omega

section

variable {cfg : Config} (hsizes : EncodedSizes cfg.serialize) (cap : ℕ)
include hsizes

theorem size_chunk (folderId path : String) (data : Bytes) (offset : ℕ) :
    (cfg.endpoint cap).size (.fileChunk (chunkAt folderId path data offset)) =
      48 + folderId.utf8ByteSize + path.utf8ByteSize + (min (offset + chunkSize) data.length - offset) := by
  show (frameMessage cfg.serialize _).length = _
  rw [frameMessage_length, hsizes.chunk, chunkAt_length]
  show 4 + (44 + folderId.utf8ByteSize + path.utf8ByteSize + _) = _
  omega

theorem size_chunksFrom (folderId path : String) (data : Bytes) (fuel : ℕ) {offset : ℕ}
    (hfuel : data.length < offset + fuel) (hoffset : offset ≤ data.length) :
    (((chunksFrom folderId path data fuel offset).map SyncMessage.fileChunk).map (cfg.endpoint cap).size).sum =
      chunkCount (data.length - offset) * (48 + folderId.utf8ByteSize + path.utf8ByteSize) +
        (data.length - offset) := by
  induction fuel generalizing offset with
  | zero => omega
  | succ fuel ih =>
    rw [chunksFrom, List.map_cons, List.map_cons, List.sum_cons, size_chunk hsizes cap]
    by_cases hend : data.length ≤ min (offset + chunkSize) data.length
    · have hcount : chunkCount (data.length - offset) = 1 := by
        simp only [chunkCount, chunkSize] at hend ⊢
        omega
      rw [if_pos hend, hcount, List.map_nil, List.map_nil, List.sum_nil, Nat.one_mul]
      omega
    · have hcount : chunkCount (data.length - offset) =
          chunkCount (data.length - min (offset + chunkSize) data.length) + 1 := by
        simp only [chunkCount, chunkSize] at hend ⊢
        omega
      have hpos : 0 < chunkSize := by decide
      rw [if_neg hend, ih (by omega) (by omega), hcount, Nat.add_mul, Nat.one_mul]
      omega

theorem size_file (folderId : String) (x : SentFile) :
    ((cfg.endpoint cap).wire (fileMessages folderId x)).length = fileBytes folderId x := by
  rw [Endpoint.wire_length _ (size_pos cfg cap)]
  have hfuel : x.2.length < 0 + (x.2.length + 1) := by omega
  exact size_chunksFrom hsizes cap folderId x.name x.2 (x.2.length + 1) hfuel (Nat.zero_le _)

theorem size_files (folderId : String) (xs : List SentFile) :
    ((cfg.endpoint cap).wire (xs.flatMap (fileMessages folderId))).length =
      (xs.map (fileBytes folderId)).sum := by
  induction xs with
  | nil => rfl
  | cons x xs ih =>
    rw [List.flatMap_cons, Endpoint.wire_append, List.length_append, size_file hsizes cap, ih, List.map_cons,
      List.sum_cons]

theorem size_ack (a : Ack) (h : a.error = none) :
    (cfg.endpoint cap).size (.ack a) = 18 + a.path.utf8ByteSize := by
  show (frameMessage cfg.serialize _).length = _
  rw [frameMessage_length, hsizes.ack a h]
  omega

theorem size_sentinel : ((cfg.endpoint cap).wire [sentinel]).length = 18 := by
  rw [Endpoint.wire_length _ (size_pos cfg cap), List.map_singleton, List.sum_singleton, sentinel,
    size_ack hsizes cap _ rfl]
  rfl

theorem size_push (folderId : String) (xs : List SentFile) :
    ((cfg.endpoint cap).wire (pushMessages folderId xs)).length = (xs.map (fileBytes folderId)).sum + 18 := by
  rw [pushMessages, Endpoint.wire_append, List.length_append, size_files hsizes cap, size_sentinel hsizes cap]

theorem size_acks (xs : List SentFile) :
    ((cfg.endpoint cap).wire (xs.map ackOf)).length = (xs.map ackBytes).sum := by
  rw [Endpoint.wire_length _ (size_pos cfg cap), List.map_map]
  refine congrArg List.sum (List.map_congr_left fun x _ => ?_)
  exact size_ack hsizes cap _ rfl

end

/-- An end that takes its peer's whole push phase, file by file. -/
theorem fits_iff_roomy {cfg peer : Config} (hsizes : EncodedSizes cfg.serialize)
    (hpeer : EncodedSizes peer.serialize) {p pushed q : Party} {sent received : List SentFile}
    (hpush : Does (Party.next cfg) p [] (pushMessages cfg.folderIdStr sent) pushed)
    (hsettle : Does (Party.next cfg) pushed [] [] (pushed.settle cfg))
    (hconv : Conversation (Party.next cfg) (pushed.settle cfg) (pushBlocks peer.folderIdStr received) q)
    (capOut capIn : ℕ) :
    Fits (cfg.endpoint capOut) (peer.endpoint capIn) p (pushMessages peer.folderIdStr received) ↔
      Roomy cfg.folderIdStr peer.folderIdStr sent received capOut capIn := by
  have hfirst : Does (cfg.endpoint capOut).next p [] (pushMessages cfg.folderIdStr sent)
      (pushed.settle cfg) := by
    have hall := hpush.trans_nil hsettle
    rwa [List.append_nil] at hall
  have hlen : (fileBlocks peer.folderIdStr received).length = received.length := by
    rw [fileBlocks, List.length_map]
  have hreplies : ∀ j, replies ((pushBlocks peer.folderIdStr received).take j) =
      (received.take j).map ackOf := by
    intro j
    have hlast : ∀ n, replies (([([sentinel], [])] : List (List SyncMessage × List SyncMessage)).take n) = [] := by
      intro n
      cases n with
      | zero => rfl
      | succ n =>
        rw [List.take_succ_cons, List.take_nil]
        rfl
    rw [pushBlocks, List.take_append, replies_append, hlast, List.append_nil, fileBlocks, ← List.map_take]
    exact replies_fileBlocks peer.folderIdStr (received.take j)
  have hasked : ∀ j ≤ received.length, asked ((pushBlocks peer.folderIdStr received).drop j) =
      pushMessages peer.folderIdStr (received.drop j) := by
    intro j hj
    rw [← asked_pushBlocks, pushBlocks, pushBlocks, List.drop_append_of_le_length (by omega), fileBlocks,
      fileBlocks, List.map_drop]
  rw [← asked_pushBlocks, fits_iff hfirst hconv]
  simp only [hreplies]
  constructor
  · intro h j
    by_cases hj : j ≤ received.length
    · have hfit := h j
      rw [hasked j hj, size_push hsizes, size_acks hsizes, size_push hpeer] at hfit
      exact hfit
    · have hfit := h received.length
      rw [hasked _ (Nat.le_refl _), size_push hsizes, size_acks hsizes, size_push hpeer] at hfit
      rw [List.take_of_length_le (by omega), List.drop_of_length_le (by omega)]
      rwa [List.take_length, List.drop_length] at hfit
  · intro h j
    by_cases hj : j ≤ received.length
    · rw [hasked j hj, size_push hsizes, size_acks hsizes, size_push hpeer]
      exact h j
    · have hnone : (pushBlocks peer.folderIdStr received).drop j = [] := by
        refine List.drop_of_length_le ?_
        rw [pushBlocks, List.length_append, hlen, List.length_singleton]
        omega
      rw [hnone]
      exact Or.inr (Nat.zero_le _)

section

variable {e : Ends} {xs ys : List SentFile}

theorem pushStream_eq (cfg : Config) {f : Folder}
    (hreads : ∀ x ∈ xs, x.1 ≠ [] ∧ f.read ⟨x.1, false⟩ = .ok x.2) :
    pushStream cfg f (xs.map SentFile.name) = pushMessages cfg.folderIdStr xs := by
  have hfile : ∀ x ∈ xs, plannedMessages cfg f x.name = fileMessages cfg.folderIdStr x := by
    intro x hx
    obtain ⟨hne, hread⟩ := hreads x hx
    have hj : safeJoin x.name = .ok ⟨x.1, false⟩ := safeJoin_render x.1 hne
    simp only [plannedMessages, hj, hread]
    rfl
  rw [pushStream, pushMessages, List.flatMap_map]
  exact congrArg (· ++ [sentinel]) (List.flatMap_congr hfile)

theorem clientStream_eq (h : Undisturbed e) (hs : Sends e xs ys) :
    e.clientStream = pushMessages e.client.folderIdStr xs := by
  rw [Ends.clientStream, hs.clientNames]
  exact pushStream_eq e.client (client_reads h hs)

theorem serverStream_eq (h : Undisturbed e) (hs : Sends e xs ys) :
    e.serverStream = pushMessages e.server.folderIdStr ys := by
  rw [Ends.serverStream, hs.serverNames]
  exact pushStream_eq e.server (server_reads h hs)

/-- Two ends that accept each other's files fit their channels if the sizes do. -/
theorem fitsChannels_iff (h : Regular e) (hs : Sends e xs ys) (toServer toClient : ℕ) :
    e.FitsChannels toServer toClient ↔
      Roomy e.client.folderIdStr e.server.folderIdStr xs ys toServer toClient ∧
        Roomy e.server.folderIdStr e.client.folderIdStr ys xs toClient toServer := by
  have hu := h.toUndisturbed
  have hpc := e.client_pushed xs
  have hps := e.server_pushed ys
  obtain ⟨qc, -, hclient⟩ := client_hears h hs
  obtain ⟨qs, -, hserver⟩ := server_hears h hs
  rw [Ends.FitsChannels, clientStream_eq hu hs, serverStream_eq hu hs,
    fits_iff_roomy h.sizes hu.serverSizes (client_pushes hu hs)
      (does_settle e.client hpc.top.todo hpc.top.phase).1 hclient,
    fits_iff_roomy hu.serverSizes h.sizes (server_pushes hu hs)
      (does_settle e.server hps.top.todo hps.top.phase).1 hserver]

end

/-- **Two ends are never both blocked in their push phases exactly when what each
writes fits**; for two ends that accept each other's files that is a matter of
their sizes. -/
theorem no_deadlock_iff (e : Ends) (toServer toClient : ℕ) (hs : 0 < toServer) (hc : 0 < toClient) :
    (e.NoDeadlock toServer toClient ↔ e.FitsChannels toServer toClient) ∧
      ∀ xs ys, Regular e → Sends e xs ys → (e.NoDeadlock toServer toClient ↔
        Roomy e.client.folderIdStr e.server.folderIdStr xs ys toServer toClient ∧
          Roomy e.server.folderIdStr e.client.folderIdStr ys xs toClient toServer) :=
  ⟨e.no_deadlock_iff_fits hs hc, fun _ _ h hsends =>
    (e.no_deadlock_iff_fits hs hc).trans (fitsChannels_iff h hsends toServer toClient)⟩

/-- A file of one byte at each end, each of its own name. -/
def crossingEnds : Ends :=
  sampleEnds [(sampleName, [97])] [(⟨['h'], by decide, by decide, by decide, by decide, by decide⟩, [98])]

theorem no_deadlock_iff_crossing : ∃ xs ys, crossingEnds.NoDeadlock 51 51 ↔
    Roomy crossingEnds.client.folderIdStr crossingEnds.server.folderIdStr xs ys 51 51 ∧
      Roomy crossingEnds.server.folderIdStr crossingEnds.client.folderIdStr ys xs 51 51 := by
  have h : Regular crossingEnds := regular_sampleEnds _ _ (by decide +kernel) (by decide +kernel)
    (by decide +kernel) (by decide +kernel)
  obtain ⟨xs, ys, hs⟩ := exists_sends h.toUndisturbed
  exact ⟨xs, ys, (no_deadlock_iff crossingEnds 51 51 (by decide) (by decide)).2 xs ys h hs⟩

/-- Two channels that hold any of the session's frames, and not both: each end
has its file on the way, and can neither write its sentinel nor read. -/
theorem crossing_deadlock :
    (∀ m ∈ crossingEnds.clientStream ++ crossingEnds.serverStream,
        (frameMessage Bincode.serialize m).length ≤ 51) ∧
      ¬ crossingEnds.NoDeadlock 51 51 := by
  have hclient : ((crossingEnds.client.endpoint 51).wire crossingEnds.clientStream).length = 69 := by
    decide +kernel
  have hserver : ((crossingEnds.server.endpoint 51).wire crossingEnds.serverStream).length = 69 := by
    decide +kernel
  refine ⟨by decide +kernel, fun hsafe => ?_⟩
  obtain ⟨hfits, -⟩ := (crossingEnds.no_deadlock_iff_fits (by decide) (by decide)).mp hsafe
  obtain ⟨p, hp⟩ := crossingEnds.client_stream_does
  rcases hfits [] crossingEnds.clientStream p List.nil_prefix hp with hle | hle
  · rw [hclient] at hle
    exact absurd hle (by decide)
  · rw [hserver] at hle
    exact absurd hle (by decide)

end FerriSync
