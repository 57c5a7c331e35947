/-
# Two ends come to the same files

An undisturbed session of two folders whose files do not get in each other's
way and are within the limits (`Regular`): both ends return `Ok`, and at every
path of the two folders both hold the bytes of the chosen copy
(`exchange_converges`), in whatever order their steps come.

The proof runs the session in one order: the client announces its index; the
server announces its own and pushes; the client pushes, then receives; the
server receives; each leaves its loop. The order does not matter, since the
steps of two such machines commute.

The limits are needed: the server refuses the chunk of a file whose path is
longer than 1024 bytes, and the session fails (`exchange_fails`).

Key definitions: `Regular`, `Ends.clientReady`, `Ends.serverReady`, `Sends`.
Key theorems: `client_hears`, `server_hears`, `Regular.outcome`, `exchange_converges`.
-/
import FerriSync.Exchange
import FerriSync.Outcome

namespace FerriSync

open Machine

/-- Two ends, wired to each other, and two folders whose files do not get in
each other's way. -/
structure Undisturbed (e : Ends) : Prop where
  clientRole : e.client.role = .client
  serverRole : e.server.role = .server
  wet : e.client.dryRun = false
  registered : e.client.remotePath = none
  hash : e.server.blake3 = e.client.blake3
  encoding : e.server.serialize = e.client.serialize
  sizes : EncodedSizes e.client.serialize
  /-- No file has a name that the scan leaves out. -/
  listed : ∀ u, e.files u → Folder.skipped u = false
  apart : Apart e.files e.moved
  /-- The directories are those that hold files. -/
  clientDirs : ∀ d ∈ e.clientFolder.dirs, ∃ u, e.files u ∧ d <+: u ∧ d ≠ u
  serverDirs : ∀ d ∈ e.serverFolder.dirs, ∃ u, e.files u ∧ d <+: u ∧ d ≠ u
  /-- Different contents of a file have different hashes. -/
  faithful : ∀ u a b, e.clientFolder.content u = some a → e.serverFolder.content u = some b →
    e.client.blake3 a = e.client.blake3 b → a = b

/-- And their indexes are within the limits. -/
structure Announced (e : Ends) : Prop extends Undisturbed e where
  clientEntries : e.clientIndex.entries.length ≤ maxIndexEntries
  serverEntries : e.serverIndex.entries.length ≤ maxIndexEntries
  clientFrame : frameTooLarge e.client.serialize (.index e.clientIndex) = false
  serverFrame : frameTooLarge e.client.serialize (.index e.serverIndex) = false

/-- And so are the files that are sent. -/
structure Regular (e : Ends) : Prop extends Announced e where
  names : ∀ u, e.moved u → (render u).utf8ByteSize ≤ maxPathLen
  data : ∀ u b, e.moved u → e.chosen u = some b → b.length ≤ 256 * 1024 * 1024

namespace Ends

variable (e : Ends)

/-- The client once it has read the server's index. -/
def clientReady : Party where
  folder := e.clientFolder
  phase := .receiving
  todo := .progress "starting" ::
    (e.clientPlan.toPush.map (fun y => .pushFile y.path) ++ [.write sentinel])
  own := e.clientIndex.entries
  remote := e.serverIndex.entries
  toPush := e.clientPlan.toPush
  toPull := e.clientPlan.toPull
  totalFiles := e.clientPlan.toPush.length + e.clientPlan.toPull.length
  totalBytes := sumSizes (e.clientPlan.toPush ++ e.clientPlan.toPull)

/-- The server once it has read the client's index and written its own. -/
def serverReady : Party where
  folder := e.serverFolder
  phase := .receiving
  todo := .progress "starting" ::
    (e.serverPlan.toPushToClient.map (fun y => .pushFile y.path) ++ [.write sentinel])
  own := e.serverIndex.entries
  remote := e.clientIndex.entries
  toPush := e.serverPlan.toPushToClient
  toPull := e.serverPlan.clientToPush
  totalFiles := e.serverPlan.toPushToClient.length + e.serverPlan.clientToPush.length
  totalBytes := sumSizes (e.serverPlan.toPushToClient ++ e.serverPlan.clientToPush)

/-- The ends after their push phases. -/
def clientPushed (xs : List SentFile) : Party :=
  Party.pushedAll { e.clientReady with todo := [] } xs

def serverPushed (ys : List SentFile) : Party :=
  Party.pushedAll { e.serverReady with todo := [] } ys

/-- The two ends at their start, and nothing on the way. -/
def start : Duplex Party Party SyncMessage :=
  ⟨FerriSync.start e.client e.clientFolder, FerriSync.start e.server e.serverFolder, [], []⟩

theorem client_pushed (xs : List SentFile) : Pushed e.clientReady xs (e.clientPushed xs) :=
  pushed_pushedAll rfl rfl rfl xs

theorem server_pushed (ys : List SentFile) : Pushed e.serverReady ys (e.serverPushed ys) :=
  pushed_pushedAll rfl rfl rfl ys

end Ends

section

variable {e : Ends}

/-- A file that is not sent is in both folders, with one hash. -/
theorem Ends.contents_of_same {u : RelPath} (hu : e.files u) (hv : e.verdict u = .same) :
    ∃ a b, e.clientFolder.content u = some a ∧ e.serverFolder.content u = some b ∧
      e.client.blake3 a = e.client.blake3 b := by
  unfold Ends.verdict at hv
  cases hx : e.clientFolder.entry u with
  | none =>
    cases hy : e.serverFolder.entry u with
    | none =>
      rcases hu with hu | hu
      · rw [hx] at hu
        cases hu
      · rw [hy] at hu
        cases hu
    | some b =>
      rw [hx, hy] at hv
      cases hv
  | some a =>
    cases hy : e.serverFolder.entry u with
    | none =>
      rw [hx, hy] at hv
      cases hv
    | some b =>
      rw [hx, hy] at hv
      dsimp only at hv
      split_ifs at hv with hh
      exact ⟨a.data, b.data, Folder.content_eq_some.mpr ⟨a, hx, rfl⟩,
        Folder.content_eq_some.mpr ⟨b, hy, rfl⟩, hh⟩

namespace Undisturbed

variable (h : Undisturbed e)
include h

theorem clientListed : Listed e.clientFolder where
  ne_nil u x hx := h.apart.ne_nil u (Or.inl (by rw [hx]; rfl))
  notSkipped u x hx := h.listed u (Or.inl (by rw [hx]; rfl))

theorem serverListed : Listed e.serverFolder where
  ne_nil u x hx := h.apart.ne_nil u (Or.inr (by rw [hx]; rfl))
  notSkipped u x hx := h.listed u (Or.inr (by rw [hx]; rfl))

theorem clientClean : Clean e.files e.moved e.clientFolder where
  entries q x hx := Or.inl (Or.inl (by rw [hx]; rfl))
  dirs := h.clientDirs

theorem serverClean : Clean e.files e.moved e.serverFolder where
  entries q x hx := Or.inl (Or.inr (by rw [hx]; rfl))
  dirs := h.serverDirs

theorem serverSizes : EncodedSizes e.server.serialize := h.encoding ▸ h.sizes

/-- A file with no name to leave out is not sent under the name that is skipped. -/
theorem name_ne_metadata {u : RelPath} (hu : e.files u) : render u ≠ "metadata.db" := by
  intro hname
  have hj := safeJoin_render u (h.apart.ne_nil u hu)
  rw [hname] at hj
  have hmeta : safeJoin "metadata.db" = .ok ⟨[⟨Folder.metadataName, by decide, by decide, by decide,
    by decide, by decide⟩], false⟩ := rfl
  rw [hmeta] at hj
  cases hj
  cases h.listed _ hu

end Undisturbed

/-! ### The exchange of the indexes -/

theorem client_announces (h : Announced e) : ∃ p, Does (Party.next e.client)
    (start e.client e.clientFolder) [] [.index e.clientIndex] p ∧
    Does (Party.next e.client) p [.index e.serverIndex] [] e.clientReady := by
  have hstart : start e.client e.clientFolder = clientStart e.client e.clientFolder := by
    simp only [start, h.clientRole]
  rw [hstart]
  refine ⟨{ clientStart e.client e.clientFolder with todo := [] }, .write rfl (.nothing _),
    .read rfl ?_⟩
  rw [if_neg (by simp [h.serverFrame])]
  have hlen : ¬ maxIndexEntries < e.serverIndex.entries.length := Nat.not_lt.mpr h.serverEntries
  have hread : onIndex e.client { clientStart e.client e.clientFolder with todo := [] }
      (.index e.serverIndex) = e.clientReady := by
    simp only [onIndex, h.clientRole, clientIndex, if_neg hlen, h.wet, Bool.false_eq_true, if_false]
    rfl
  rw [hread]
  exact .nothing _

theorem server_announces (h : Announced e) : Does (Party.next e.server)
    (start e.server e.serverFolder) [.index e.clientIndex] [.index e.serverIndex] e.serverReady := by
  have hstart : start e.server e.serverFolder = serverStart e.serverFolder := by
    simp only [start, h.serverRole]
  rw [hstart]
  refine .read rfl ?_
  rw [if_neg (by simp [h.encoding, h.clientFrame])]
  have hlen : ¬ maxIndexEntries < e.clientIndex.entries.length := Nat.not_lt.mpr h.clientEntries
  have hroot : servedRoot e.server e.serverFolder e.clientIndex.remotePath = .ok e.serverFolder := by
    simp only [servedRoot, Ends.clientIndex, h.registered]
  have hread : onIndex e.server (serverStart e.serverFolder) (.index e.clientIndex) =
      { e.serverReady with todo := .write (.index e.serverIndex) :: e.serverReady.todo } := by
    simp only [onIndex, h.serverRole, serverIndex, if_neg hlen]
    have hfolder : (serverStart e.serverFolder).folder = e.serverFolder := rfl
    rw [hfolder, hroot]
    rfl
  rw [hread]
  exact .write rfl (.nothing _)

/-! ### What each end sends -/

/-- The files the two ends send, as the plans list them. -/
structure Sends (e : Ends) (fromClient fromServer : List SentFile) : Prop where
  clientNames : e.clientPlan.toPush.map (·.path) = fromClient.map SentFile.name
  serverNames : e.serverPlan.toPushToClient.map (·.path) = fromServer.map SentFile.name
  client : ∀ x ∈ fromClient, e.verdict x.1 = .client ∧ e.clientFolder.content x.1 = some x.2
  server : ∀ x ∈ fromServer, e.verdict x.1 = .server ∧ e.serverFolder.content x.1 = some x.2

/-- The files of a folder that a list of index entries names. -/
theorem exists_files {blake3 : Bytes → FileHash} {f : Folder} {P : RelPath → Prop}
    (es : List IndexEntry)
    (hes : ∀ y ∈ es, ∃ u x, P u ∧ f.entry u = some x ∧ y = fileIndexEntry blake3 u x) :
    ∃ xs : List SentFile, es.map (·.path) = xs.map SentFile.name ∧
      ∀ x ∈ xs, P x.1 ∧ f.content x.1 = some x.2 := by
  induction es with
  | nil => exact ⟨[], rfl, by simp⟩
  | cons y es ih =>
    obtain ⟨u, x, hu, hx, rfl⟩ := hes y (List.mem_cons_self ..)
    obtain ⟨xs, hnames, hxs⟩ := ih fun z hz => hes z (List.mem_cons_of_mem _ hz)
    refine ⟨(u, x.data) :: xs, ?_, fun z hz => ?_⟩
    · rw [List.map_cons, List.map_cons, hnames]
      rfl
    · rcases List.mem_cons.mp hz with rfl | hz
      · exact ⟨hu, Folder.content_eq_some.mpr ⟨x, hx, rfl⟩⟩
      · exact hxs z hz

theorem exists_sends (h : Undisturbed e) : ∃ fromClient fromServer, Sends e fromClient fromServer := by
  obtain ⟨xs, hxn, hxs⟩ := exists_files e.clientPlan.toPush fun y hy =>
    (Ends.mem_toPush_iff h.clientListed h.serverListed h.hash y).mp hy
  obtain ⟨ys, hyn, hys⟩ := exists_files e.serverPlan.toPushToClient fun y hy =>
    (Ends.mem_toPushToClient_iff h.clientListed h.serverListed h.hash y).mp hy
  exact ⟨xs, ys, hxn, hyn, hxs, hys⟩

theorem nodup_of_names {xs : List SentFile} {es : List IndexEntry}
    (hnames : es.map (·.path) = xs.map SentFile.name) (h : (es.map (·.path)).Nodup) :
    (xs.map (·.1)).Nodup := by
  rw [hnames] at h
  have hname : xs.map SentFile.name = (xs.map (·.1)).map render := by
    rw [List.map_map]
    rfl
  rw [hname] at h
  exact h.of_map

namespace Sends

variable {xs ys : List SentFile} (hs : Sends e xs ys)
include hs

theorem nodup_client : (xs.map (·.1)).Nodup := nodup_of_names hs.clientNames (toPush_nodup _)

theorem nodup_server : (ys.map (·.1)).Nodup := by
  refine nodup_of_names hs.serverNames ?_
  have hperm := toPull_perm e.clientIndex e.serverIndex e.client.folderId e.server.folderId
    (e.client.order _ _) (e.server.order _ _)
  exact (hperm.map _).nodup (toPull_nodup _)

theorem length_toPull : e.clientPlan.toPull.length = ys.length := by
  have hperm := toPull_perm e.clientIndex e.serverIndex e.client.folderId e.server.folderId
    (e.client.order _ _) (e.server.order _ _)
  have hlen := congrArg List.length hs.serverNames
  rw [List.length_map, List.length_map] at hlen
  exact hperm.length_eq.trans hlen

theorem verdict_client {u : RelPath} (hu : u ∈ xs.map (·.1)) : e.verdict u = .client := by
  obtain ⟨x, hx, rfl⟩ := List.mem_map.mp hu
  exact (hs.client x hx).1

theorem verdict_server {u : RelPath} (hu : u ∈ ys.map (·.1)) : e.verdict u = .server := by
  obtain ⟨y, hy, rfl⟩ := List.mem_map.mp hu
  exact (hs.server y hy).1

/-- A file of which the client's copy is kept is sent. -/
theorem mem_client (h : Undisturbed e) {u : RelPath} (hv : e.verdict u = .client) : u ∈ xs.map (·.1) := by
  have hsome : ∃ x, e.clientFolder.entry u = some x := by
    unfold Ends.verdict at hv
    cases hx : e.clientFolder.entry u with
    | some x => exact ⟨x, rfl⟩
    | none =>
      rw [hx] at hv
      cases hy : e.serverFolder.entry u <;> (rw [hy] at hv; cases hv)
  obtain ⟨x, hx⟩ := hsome
  have hmem := (Ends.mem_toPush_iff h.clientListed h.serverListed h.hash _).mpr ⟨u, x, hv, hx, rfl⟩
  have hname : render u ∈ xs.map SentFile.name := hs.clientNames ▸ List.mem_map_of_mem hmem
  obtain ⟨z, hz, hzn⟩ := List.mem_map.mp hname
  have hzv := (hs.client z hz).1
  have hzf : e.files z.1 := h.apart.sub z.1 (by rw [Ends.moved, hzv]; simp)
  have hzu : z.1 = u := render_injective (h.apart.ne_nil _ hzf) (h.clientListed.ne_nil u x hx) hzn
  exact List.mem_map.mpr ⟨z, hz, hzu⟩

theorem mem_server (h : Undisturbed e) {u : RelPath} (hv : e.verdict u = .server) : u ∈ ys.map (·.1) := by
  have hsome : ∃ x, e.serverFolder.entry u = some x := by
    unfold Ends.verdict at hv
    cases hy : e.serverFolder.entry u with
    | some y => exact ⟨y, rfl⟩
    | none =>
      rw [hy] at hv
      cases hx : e.clientFolder.entry u <;> (rw [hx] at hv; cases hv)
  obtain ⟨x, hx⟩ := hsome
  have hmem := (Ends.mem_toPushToClient_iff h.clientListed h.serverListed h.hash _).mpr
    ⟨u, x, hv, hx, rfl⟩
  have hname : render u ∈ ys.map SentFile.name := hs.serverNames ▸ List.mem_map_of_mem hmem
  obtain ⟨z, hz, hzn⟩ := List.mem_map.mp hname
  have hzv := (hs.server z hz).1
  have hzf : e.files z.1 := h.apart.sub z.1 (by rw [Ends.moved, hzv]; simp)
  have hzu : z.1 = u := render_injective (h.apart.ne_nil _ hzf) (h.serverListed.ne_nil u x hx) hzn
  exact List.mem_map.mpr ⟨z, hz, hzu⟩

end Sends

/-! ### What each end does -/

/-- An index gives a file's hash. -/
theorem hash_of_index {blake3 : Bytes → FileHash} {f : Folder} {device : String} (hf : Listed f)
    {x : SentFile} (hne : x.1 ≠ []) (hx : f.content x.1 = some x.2) :
    hashMatches blake3 (buildProtocolIndex blake3 f device) x.name x.2 = true := by
  obtain ⟨y, hy, hdata⟩ := Folder.content_eq_some.mp hx
  have hfind := find_index hf hne (buildProtocolIndex blake3 f device).reverse fun _ =>
    List.mem_reverse
  have hexpected : expectedHash (buildProtocolIndex blake3 f device) x.name =
      some (blake3 x.2).bytes := by
    unfold expectedHash
    show Option.map _ ((buildProtocolIndex blake3 f device).reverse.find?
      fun e => e.path = render x.1) = _
    rw [hfind, hy, ← hdata]
    rfl
  simp [hashMatches, hexpected]

/-- The client's Acks reach a server that has left its loop. -/
theorem discards (cfg : Config) {p : Party} (ht : p.todo = []) (hph : p.phase = .draining)
    (ms : List SyncMessage) : Does (Party.next cfg) p ms [] p := by
  have hnext : Party.next cfg p = .drain { p with phase := .ended (.ok ()), stamped := true } := by
    simp only [Party.next, ht, hph]
  induction ms with
  | nil => exact .nothing p
  | cons m ms ih => exact .discard hnext ih

theorem read_of_content {f : Folder} {u : RelPath} {b : Bytes} (hdir : f.isDir u = false)
    (hb : f.content u = some b) : f.read ⟨u, false⟩ = .ok b := by
  obtain ⟨x, hx, rfl⟩ := Folder.content_eq_some.mp hb
  simp [Folder.read, hdir, hx]

section

variable (h : Undisturbed e) {xs ys : List SentFile} (hs : Sends e xs ys)
include h hs

theorem client_reads : ∀ x ∈ xs, x.1 ≠ [] ∧ e.clientFolder.read ⟨x.1, false⟩ = .ok x.2 := by
  intro x hx
  obtain ⟨hv, hcontent⟩ := hs.client x hx
  have hfile := h.apart.sub x.1 (by rw [Ends.moved, hv]; simp)
  exact ⟨h.apart.ne_nil x.1 hfile, read_of_content (h.clientClean.not_dir_file h.apart hfile) hcontent⟩

theorem server_reads : ∀ y ∈ ys, y.1 ≠ [] ∧ e.serverFolder.read ⟨y.1, false⟩ = .ok y.2 := by
  intro y hy
  obtain ⟨hv, hcontent⟩ := hs.server y hy
  have hfile := h.apart.sub y.1 (by rw [Ends.moved, hv]; simp)
  exact ⟨h.apart.ne_nil y.1 hfile, read_of_content (h.serverClean.not_dir_file h.apart hfile) hcontent⟩

/-- What the client has after its push phase. -/
theorem client_pushes : Does (Party.next e.client) e.clientReady []
    (pushMessages e.client.folderIdStr xs) (e.clientPushed xs) := by
  refine push_does e.client ?_ (client_reads h hs)
  have hmap : e.clientPlan.toPush.map (fun y => Action.pushFile y.path) =
      (e.clientPlan.toPush.map (·.path)).map Action.pushFile := by
    rw [List.map_map]
    rfl
  show Action.progress "starting" :: (e.clientPlan.toPush.map (fun y => .pushFile y.path) ++ _) = _
  rw [hmap, hs.clientNames, List.map_map]
  rfl

theorem server_pushes : Does (Party.next e.server) e.serverReady []
    (pushMessages e.server.folderIdStr ys) (e.serverPushed ys) := by
  refine push_does e.server ?_ (server_reads h hs)
  have hmap : e.serverPlan.toPushToClient.map (fun y => Action.pushFile y.path) =
      (e.serverPlan.toPushToClient.map (·.path)).map Action.pushFile := by
    rw [List.map_map]
    rfl
  show Action.progress "starting" ::
    (e.serverPlan.toPushToClient.map (fun y => .pushFile y.path) ++ _) = _
  rw [hmap, hs.serverNames, List.map_map]
  rfl

end

section

variable (h : Regular e) {xs ys : List SentFile} (hs : Sends e xs ys)
include h hs

theorem client_expects :
    Expects e.client e.server.folderIdStr e.moved e.serverIndex.entries ys where
  acceptable x hx := by
    obtain ⟨hv, hcontent⟩ := hs.server x hx
    have hmoved : e.moved x.1 := by rw [Ends.moved, hv]; simp
    have hfile := h.apart.sub x.1 hmoved
    have hne := h.apart.ne_nil x.1 hfile
    have hchosen : e.chosen x.1 = some x.2 := by rw [Ends.chosen, hv]; exact hcontent
    refine ⟨hne, h.name_ne_metadata hfile, h.names x.1 hmoved, h.data x.1 x.2 hmoved hchosen,
      file_frames h.sizes e.server (h.names x.1 hmoved), ?_⟩
    rw [← h.hash]
    exact hash_of_index h.serverListed hne hcontent
  moved x hx := by rw [Ends.moved, (hs.server x hx).1]; simp
  nodup := hs.nodup_server

theorem server_expects :
    Expects e.server e.client.folderIdStr e.moved e.clientIndex.entries xs where
  acceptable x hx := by
    obtain ⟨hv, hcontent⟩ := hs.client x hx
    have hmoved : e.moved x.1 := by rw [Ends.moved, hv]; simp
    have hfile := h.apart.sub x.1 hmoved
    have hne := h.apart.ne_nil x.1 hfile
    have hchosen : e.chosen x.1 = some x.2 := by rw [Ends.chosen, hv]; exact hcontent
    refine ⟨hne, h.name_ne_metadata hfile, h.names x.1 hmoved, h.data x.1 x.2 hmoved hchosen,
      file_frames h.serverSizes e.client (h.names x.1 hmoved), ?_⟩
    rw [h.hash]
    exact hash_of_index h.clientListed hne hcontent
  moved x hx := by rw [Ends.moved, (hs.client x hx).1]; simp
  nodup := hs.nodup_client

/-- What the client does with the server's push phase. -/
theorem client_hears : ∃ q, TookAll e.client e.files e.moved (e.clientPushed xs) ys q ∧
    Conversation (Party.next e.client) ((e.clientPushed xs).settle e.client)
      (pushBlocks e.server.folderIdStr ys) (q.closed e.client) := by
  have hp := e.client_pushed xs
  refine conversation_push h.apart h.sizes ys hp.top ?_ ?_ fun _ => ?_
  · rw [hp.folder]
    exact h.clientClean
  · rw [hp.remote]
    exact client_expects h hs
  · rw [hp.toPull, hp.receivedPulls]
    exact hs.length_toPull.trans (Nat.zero_add _).symm

/-- What the server does with the client's push phase. -/
theorem server_hears : ∃ q, TookAll e.server e.files e.moved (e.serverPushed ys) xs q ∧
    Conversation (Party.next e.server) ((e.serverPushed ys).settle e.server)
      (pushBlocks e.client.folderIdStr xs) (q.closed e.server) := by
  have hp := e.server_pushed ys
  refine conversation_push h.apart h.serverSizes xs hp.top ?_ ?_ fun hrole => ?_
  · rw [hp.folder]
    exact h.serverClean
  · rw [hp.remote]
    exact server_expects h hs
  · cases hrole.symm.trans h.serverRole

/-- The client's course after the exchange of the indexes: it pushes and takes
the server's files, then the Acks for its own. -/
theorem client_course : ∃ q acked, TookAll e.client e.files e.moved (e.clientPushed xs) ys q ∧
    Does (Party.next e.client) e.clientReady (pushMessages e.server.folderIdStr ys)
      (pushMessages e.client.folderIdStr xs ++ ys.map ackOf) (q.settle e.client) ∧
    Does (Party.next e.client) (q.settle e.client) (xs.map ackOf) []
      { q with acked := acked, phase := .draining } := by
  have hp := e.client_pushed xs
  obtain ⟨q, hq, hconv⟩ := client_hears h hs
  have hpushed : q.result.pushed = xs.map SentFile.name := by
    rw [hq.pushed, hp.pushed]
    exact List.nil_append _
  have hacked : q.acked = ∅ := hq.acked.trans hp.acked
  have hpulls : q.toPull.length ≤ q.receivedPulls := by
    rw [hq.toPull, hq.receivedPulls, hp.toPull, hp.receivedPulls]
    have hlen := hs.length_toPull
    show e.clientPlan.toPull.length ≤ 0 + ys.length
    omega
  have hnodup : (xs.map SentFile.name).Nodup := hs.clientNames ▸ toPush_nodup _
  -- its own files are acknowledged last
  obtain ⟨acked, hacks⟩ := acks_does h.clientRole (xs.map SentFile.name) hq.top hpulls hnodup
    (fun y hy => by
      obtain ⟨x, hx, rfl⟩ := List.mem_map.mp hy
      have hx' := (server_expects h hs).acceptable x hx
      exact ⟨name_ne_empty hx'.ne_nil, hpushed ▸ hy, by simp [hacked], ack_frame h.sizes hx'.name⟩)
    (by rw [hacked, hpushed, Finset.card_empty, Nat.zero_add])
  have hclosed : q.closed e.client = q.settle e.client := by
    simp only [Party.closed, h.clientRole]
  have hhears := hconv.does
  rw [asked_pushBlocks, replies_pushBlocks, hclosed] at hhears
  have hsettle := (does_settle e.client hp.top.todo hp.top.phase).1
  have hall := (client_pushes h.toUndisturbed hs).trans_nil (hsettle.trans_nil hhears)
  rw [List.map_map] at hacks
  exact ⟨q, acked, hq, hall, hacks⟩

/-- The server's course after its push phase: it takes the client's files, and
leaves its loop. -/
theorem server_course : ∃ q, TookAll e.server e.files e.moved (e.serverPushed ys) xs q ∧
    Does (Party.next e.server) (e.serverPushed ys)
      (pushMessages e.client.folderIdStr xs ++ ys.map ackOf) (xs.map ackOf)
      { q with gotEof := true, phase := .draining } := by
  have hp := e.server_pushed ys
  obtain ⟨q, hq, hconv⟩ := server_hears h hs
  have hclosed : q.closed e.server = { q with gotEof := true, phase := .draining } := by
    simp only [Party.closed, h.serverRole]
  have hhears := hconv.does
  rw [asked_pushBlocks, replies_pushBlocks, hclosed] at hhears
  have hsettle := (does_settle e.server hp.top.todo hp.top.phase).1
  have hdiscard := discards e.server (p := { q with gotEof := true, phase := .draining }) hq.top.todo rfl
    (ys.map ackOf)
  have hall := hsettle.trans_nil (hhears.trans hdiscard)
  rw [List.append_nil] at hall
  exact ⟨q, hq, hall⟩

/-- What both ends have at the end is what was chosen. -/
theorem chosen_content {qc qs : Party} (hc : TookAll e.client e.files e.moved (e.clientPushed xs) ys qc)
    (hq : TookAll e.server e.files e.moved (e.serverPushed ys) xs qs) {u : RelPath} (hu : e.files u) :
    ∃ b, e.chosen u = some b ∧ qc.folder.content u = some b ∧ qs.folder.content u = some b := by
  -- an end keeps what its peer does not send
  have hkeptC : u ∉ ys.map (·.1) → qc.folder.content u = e.clientFolder.content u := fun hn => by
    rw [Folder.content, hc.others u hu hn, (e.client_pushed xs).folder]
    rfl
  have hkeptS : u ∉ xs.map (·.1) → qs.folder.content u = e.serverFolder.content u := fun hn => by
    rw [Folder.content, hq.others u hu hn, (e.server_pushed ys).folder]
    rfl
  cases hv : e.verdict u with
  | client =>
    have hchosen : e.chosen u = e.clientFolder.content u := by simp only [Ends.chosen, hv]
    obtain ⟨x, hx, rfl⟩ := List.mem_map.mp (hs.mem_client h.toUndisturbed hv)
    have hcontent := (hs.client x hx).2
    have hn : x.1 ∉ ys.map (·.1) := fun hin => by
      rw [hs.verdict_server hin] at hv
      cases hv
    exact ⟨x.2, hchosen.trans hcontent, (hkeptC hn).trans hcontent, hq.content x hx⟩
  | server =>
    have hchosen : e.chosen u = e.serverFolder.content u := by simp only [Ends.chosen, hv]
    obtain ⟨y, hy, rfl⟩ := List.mem_map.mp (hs.mem_server h.toUndisturbed hv)
    have hcontent := (hs.server y hy).2
    have hn : y.1 ∉ xs.map (·.1) := fun hin => by
      rw [hs.verdict_client hin] at hv
      cases hv
    exact ⟨y.2, hchosen.trans hcontent, hc.content y hy, (hkeptS hn).trans hcontent⟩
  | same =>
    have hchosen : e.chosen u = e.serverFolder.content u := by simp only [Ends.chosen, hv]
    obtain ⟨a, b, ha, hb, hhash⟩ := Ends.contents_of_same hu hv
    have hab : a = b := h.faithful u a b ha hb hhash
    have hnc : u ∉ xs.map (·.1) := fun hin => by
      rw [hs.verdict_client hin] at hv
      cases hv
    have hns : u ∉ ys.map (·.1) := fun hin => by
      rw [hs.verdict_server hin] at hv
      cases hv
    exact ⟨b, hchosen.trans hb, (hkeptC hns).trans (hab ▸ ha), (hkeptS hnc).trans hb⟩

end

end

/-- An end that is told to stop halts. -/
theorem halt_of_drain (cfg : Config) (s stop : Party) (h : Party.next cfg s = .drain stop) :
    Party.next cfg stop = .halt := by
  unfold Party.next at h
  cases ht : s.todo with
  | cons a rest =>
    rw [ht] at h
    cases a with
    | pushFile path | serve path =>
      simp only [act] at h
      split at h
      · cases h
      · split at h <;> cases h
    | install path t data =>
      simp only [act] at h
      split at h <;> cases h
    | _ => cases h
  | nil =>
    rw [ht] at h
    cases hph : s.phase with
    | draining =>
      rw [hph] at h
      cases h
      simp only [Party.next]
    | receiving =>
      rw [hph] at h
      dsimp only at h
      split_ifs at h
      cases h
    | _ =>
      rw [hph] at h
      cases h

theorem quiet_of_drain (cfg : Config) (s stop : Party) (h : Party.next cfg s = .drain stop) :
    (Party.next cfg stop).quiet = true := by
  rw [halt_of_drain cfg s stop h]
  rfl

/-- Whatever the order of the steps, the session comes to an end; then both
ends have returned `Ok`, both hold the chosen copy of every file, and neither
has touched a file whose two hashes agreed. -/
def Ends.Converges (e : Ends) : Prop :=
  (∀ f : ℕ → Duplex Party Party SyncMessage, f 0 = e.start →
    ¬ ∀ i, Step (Party.next e.client) (Party.next e.server) (f i) (f (i + 1))) ∧
  ∀ x, Reach (Party.next e.client) (Party.next e.server) e.start x →
    RandomDescent.Final (Step (Party.next e.client) (Party.next e.server)) x →
    x.left.phase = .ended (.ok ()) ∧ x.right.phase = .ended (.ok ()) ∧
    (∀ u, e.files u → ∃ b, e.chosen u = some b ∧ x.left.folder.content u = some b ∧
      x.right.folder.content u = some b) ∧
    ∀ u, e.files u → e.verdict u = .same →
      x.left.folder.entry u = e.clientFolder.entry u ∧
      x.right.folder.entry u = e.serverFolder.entry u ∧
      render u ∉ x.left.committed.map (·.1) ∧ render u ∉ x.right.committed.map (·.1)

/-- **Every complete session ends as one does**: each end has pushed its files
and taken its peer's. -/
theorem Regular.outcome {e : Ends} (h : Regular e) {xs ys : List SentFile} (hs : Sends e xs ys) :
    ∃ qc qs, TookAll e.client e.files e.moved (e.clientPushed xs) ys qc ∧
      TookAll e.server e.files e.moved (e.serverPushed ys) xs qs ∧
      (∀ f : ℕ → Duplex Party Party SyncMessage, f 0 = e.start →
        ¬ ∀ i, Step (Party.next e.client) (Party.next e.server) (f i) (f (i + 1))) ∧
      ∀ x, Reach (Party.next e.client) (Party.next e.server) e.start x →
        RandomDescent.Final (Step (Party.next e.client) (Party.next e.server)) x →
        x.left.phase = .ended (.ok ()) ∧ x.right.phase = .ended (.ok ()) ∧
        x.left.folder = qc.folder ∧ x.right.folder = qs.folder ∧
        x.left.committed = qc.committed ∧ x.right.committed = qs.committed := by
  obtain ⟨p, hannounce, hready⟩ := client_announces h.toAnnounced
  obtain ⟨qc, acked, hqc, hclient, hacks⟩ := client_course h hs
  obtain ⟨qs, hqs, hserver⟩ := server_course h hs
  -- the session in one order
  have hserverFirst := (server_announces h.toAnnounced).trans (server_pushes h.toUndisturbed hs)
  have hclientFirst := hready.trans hclient
  have hturns : Reach (Party.next e.client) (Party.next e.server) e.start _ :=
    Reach.turns hannounce hserverFirst hclientFirst hserver hacks
  have hdrainC : Party.next e.client { qc with acked := acked, phase := .draining } =
      .drain { qc with acked := acked, phase := .ended (.ok ()), stamped := true } := by
    simp only [Party.next, hqc.top.todo]
  have hdrainS : Party.next e.server { qs with gotEof := true, phase := .draining } =
      .drain { qs with gotEof := true, phase := .ended (.ok ()), stamped := true } := by
    simp only [Party.next, hqs.top.todo]
  have hhaltC : Party.next e.client
      { qc with acked := acked, phase := .ended (.ok ()), stamped := true } = .halt := by
    simp only [Party.next, hqc.top.todo]
  have hhaltS : Party.next e.server
      { qs with gotEof := true, phase := .ended (.ok ()), stamped := true } = .halt := by
    simp only [Party.next, hqs.top.todo]
  have hend := hturns.trans (Reach.stop hdrainC hdrainS hhaltC)
  -- and in every order
  obtain ⟨hfinite, hunique⟩ := ends_only_at (quiet_of_drain e.client) (quiet_of_drain e.server) hend
    (final_of_halt hhaltC hhaltS)
  refine ⟨qc, qs, hqc, hqs, hfinite, fun x hx hfinal => ?_⟩
  obtain rfl := hunique x hx hfinal
  exact ⟨rfl, rfl, rfl, rfl, rfl, rfl⟩

theorem Regular.converges {e : Ends} (h : Regular e) : e.Converges := by
  obtain ⟨xs, ys, hs⟩ := exists_sends h.toUndisturbed
  obtain ⟨qc, qs, hqc, hqs, hfinite, hends⟩ := h.outcome hs
  refine ⟨hfinite, fun x hx hfinal => ?_⟩
  obtain ⟨hleft, hright, hfolderC, hfolderS, hcommittedC, hcommittedS⟩ := hends x hx hfinal
  rw [hfolderC, hfolderS, hcommittedC, hcommittedS]
  refine ⟨hleft, hright, fun u hu => chosen_content h hs hqc hqs hu, fun u hu hv => ?_⟩
  have hnc : u ∉ xs.map (·.1) := fun hin => by
    rw [hs.verdict_client hin] at hv
    cases hv
  have hns : u ∉ ys.map (·.1) := fun hin => by
    rw [hs.verdict_server hin] at hv
    cases hv
  have hnames : ∀ zs : List SentFile, u ∉ zs.map (·.1) → (∀ z ∈ zs, z.1 ≠ []) →
      render u ∉ (zs.map fun z => (z.name, z.2)).map (·.1) := by
    intro zs hn hne hin
    rw [List.map_map] at hin
    obtain ⟨z, hz, hzu⟩ := List.mem_map.mp hin
    exact hn (List.mem_map.mpr
      ⟨z, hz, render_injective (hne z hz) (h.apart.ne_nil u hu) hzu⟩)
  refine ⟨?_, ?_, ?_, ?_⟩
  · exact (hqc.others u hu hns).trans (by rw [(e.client_pushed xs).folder]; rfl)
  · exact (hqs.others u hu hnc).trans (by rw [(e.server_pushed ys).folder]; rfl)
  · rw [hqc.committed, (e.client_pushed xs).committed]
    exact hnames ys hns fun z hz => ((client_expects h hs).acceptable z hz).ne_nil
  · rw [hqs.committed, (e.server_pushed ys).committed]
    exact hnames xs hnc fun z hz => ((server_expects h hs).acceptable z hz).ne_nil

/-- **Undisturbed and within the limits, two ends come to the same files.** -/
theorem exchange_converges (e : Ends) (h : Regular e) : e.Converges := h.converges

/-- A session that comes to an end comes to one. -/
theorem Ends.Converges.exists_end {e : Ends} (h : e.Converges) :
    ∃ x, Reach (Party.next e.client) (Party.next e.server) e.start x ∧
      RandomDescent.Final (Step (Party.next e.client) (Party.next e.server)) x :=
  RandomDescent.exists_final h.1

/-! ### A file out of limits -/

/-- **The server refuses a file with a long path**, and returns an error. -/
theorem server_refuses (h : Announced e) {x : SentFile} {xs ys : List SentFile}
    (hs : Sends e (x :: xs) ys) (hlong : maxPathLen < x.name.utf8ByteSize)
    (hframes : ∀ m ∈ fileMessages e.client.folderIdStr x, frameTooLarge e.client.serialize m = false) :
    ¬ e.Converges := by
  obtain ⟨p, hannounce, hready⟩ := client_announces h
  have hclient := hready.trans (client_pushes h.toUndisturbed hs)
  have hserver := (server_announces h).trans (server_pushes h.toUndisturbed hs)
  -- the server reads the first chunk
  obtain ⟨c, rest, hmsgs, hpath⟩ : ∃ c rest,
      pushMessages e.client.folderIdStr (x :: xs) = .fileChunk c :: rest ∧ c.path = x.name := ⟨_, _, rfl, rfl⟩
  have hp := e.server_pushed ys
  have hincomplete : e.server.role = .client → (e.serverPushed ys).complete = false := fun hrole => by
    cases hrole.symm.trans h.serverRole
  have hframe : frameTooLarge e.server.serialize (.fileChunk c) = false := by
    rw [h.encoding]
    refine hframes _ ?_
    have hhead : (fileMessages e.client.folderIdStr x).head? = some (.fileChunk c) := by
      have hcons := congrArg List.head? hmsgs
      exact hcons
    exact List.mem_of_head? hhead
  have hfile : e.files x.1 := Ends.moved_files (by
    rw [Ends.moved, (hs.client x (List.mem_cons_self ..)).1]
    simp)
  obtain ⟨why, hrefused⟩ := receiveChunk_refused (e.serverPushed ys).inbox c
    (by rw [hpath]; exact hlong)
  have hfail : Does (Party.next e.server) (e.serverPushed ys) [.fileChunk c] []
      ((e.serverPushed ys).fail why) := by
    refine does_message e.server hp.top.todo hp.top.phase hincomplete hframe ?_
    have hread : onMessage e.server (e.serverPushed ys) (.fileChunk c) = (e.serverPushed ys).fail why := by
      have hname : c.path ≠ "metadata.db" := hpath ▸ h.name_ne_metadata hfile
      rw [onMessage_chunk, onChunk, if_neg hname, hrefused]
    rw [hread]
    exact .nothing _
  rintro ⟨hfinite, hends⟩
  rw [hmsgs] at hclient
  have hreach : Reach (Party.next e.client) (Party.next e.server) e.start _ :=
    ((((Reach.left hannounce _ [] []).trans (Reach.right hserver _ _ _)).trans
      (Reach.left hclient _ _ _)).trans (Reach.right hfail _ _ _))
  obtain ⟨y, hy, hfinal⟩ := RandomDescent.exists_final
    (RandomDescent.no_infinite_run_after hfinite hreach)
  have hright := Reach.right_halted (d := ⟨_, (e.serverPushed ys).fail why, _, _⟩) rfl hy
  obtain ⟨-, hok, -⟩ := hends y (hreach.trans hy) hfinal
  rw [hright] at hok
  cases hok

/-! ### Ends for examples -/

/-- The files of a folder are among these, all at its top. -/
structure AtRoot (f : Folder) (files : List (FileName × FileEntry)) : Prop where
  entry : ∀ u x, f.entry u = some x → ∃ y ∈ files, u = [y.1] ∧ x = y.2
  dirs : ∀ d ∈ f.dirs, d = [] ∧ ∃ u, (f.entry u).isSome

/-- Two ends, each under its label, and the times their commits get. -/
def labelledEnds (clientLabel serverLabel : String) (mtime : ℕ → ℤ) (clientFolder serverFolder : Folder) :
    Ends where
  client := { sampleConfig .client with deviceId := clientLabel, mtime := mtime }
  server := { sampleConfig .server with deviceId := serverLabel, mtime := mtime }
  clientFolder := clientFolder
  serverFolder := serverFolder

/-- With short names nothing is in the way. -/
theorem regular_labelledEnds (c s : String) (mtime : ℕ → ℤ) {f g : Folder}
    {cs ss : List (FileName × FileEntry)} (hf : AtRoot f cs) (hg : AtRoot g ss)
    (hsmall : ∀ x ∈ cs ++ ss, x.1.chars.length < 11 ∧ (render [x.1]).utf8ByteSize ≤ maxPathLen ∧
      x.2.data.length ≤ 256 * 1024 * 1024)
    (hfaithful : ∀ x ∈ cs, ∀ y ∈ ss, sampleBlake3 x.2.data = sampleBlake3 y.2.data →
      x.2.data = y.2.data)
    (hentries : (labelledEnds c s mtime f g).clientIndex.entries.length ≤ maxIndexEntries ∧
      (labelledEnds c s mtime f g).serverIndex.entries.length ≤ maxIndexEntries)
    (hframes : frameTooLarge Bincode.serialize (.index (labelledEnds c s mtime f g).clientIndex) = false ∧
      frameTooLarge Bincode.serialize (.index (labelledEnds c s mtime f g).serverIndex) = false) :
    Regular (labelledEnds c s mtime f g) := by
  have hfiles : ∀ u, (labelledEnds c s mtime f g).files u → ∃ x ∈ cs ++ ss, u = [x.1] := by
    intro u hu
    rcases hu with hu | hu
    · obtain ⟨x, hx⟩ := Option.isSome_iff_exists.mp hu
      obtain ⟨y, hy, huy, -⟩ := hf.entry u x hx
      exact ⟨y, List.mem_append_left _ hy, huy⟩
    · obtain ⟨x, hx⟩ := Option.isSome_iff_exists.mp hu
      obtain ⟨y, hy, huy, -⟩ := hg.entry u x hx
      exact ⟨y, List.mem_append_right _ hy, huy⟩
  have hcontent : ∀ {f : Folder} {xs : List (FileName × FileEntry)}, AtRoot f xs →
      ∀ {u b}, f.content u = some b → ∃ y ∈ xs, u = [y.1] ∧ y.2.data = b := by
    intro f xs h u b hb
    obtain ⟨x, hx, hdata⟩ := Folder.content_eq_some.mp hb
    obtain ⟨y, hy, huy, hxy⟩ := h.entry u x hx
    exact ⟨y, hy, huy, hxy ▸ hdata⟩
  have hroot : ∀ {d u : RelPath}, d = [] → (labelledEnds c s mtime f g).files u →
      ∃ u, (labelledEnds c s mtime f g).files u ∧ d <+: u ∧ d ≠ u := by
    rintro d u rfl hu
    obtain ⟨x, -, rfl⟩ := hfiles u hu
    exact ⟨[x.1], hu, List.nil_prefix, by simp⟩
  refine ⟨⟨⟨rfl, rfl, rfl, rfl, rfl, rfl, Bincode.sizes, fun u hu => ?_, ?_, ?_, ?_, ?_⟩,
    hentries.1, hentries.2, hframes.1, hframes.2⟩, fun u hu => ?_, fun u b hu hb => ?_⟩
  · obtain ⟨x, hx, rfl⟩ := hfiles u hu
    have hlen := (hsmall x hx).1
    refine decide_eq_false fun hm => ?_
    have hmeta : x.1.chars = Folder.metadataName := by simpa using hm
    rw [hmeta] at hlen
    exact absurd hlen (by decide)
  · refine Apart.of_depth Nat.one_pos (fun t => Ends.moved_files) (fun u hu => ?_)
      (fun t v ht hv heq => ?_) fun t v ts l hash ht hv heq => ?_
    · obtain ⟨x, -, rfl⟩ := hfiles u hu
      rfl
    · obtain ⟨x, -, rfl⟩ := hfiles t ht
      obtain ⟨y, hy, rfl⟩ := hfiles v hv
      have hname : x.1.temp = y.1 := List.singleton_inj.mp heq
      have hlong := x.1.temp_length
      rw [hname] at hlong
      exact absurd (hsmall y hy).1 (by omega)
    · obtain ⟨x, -, rfl⟩ := hfiles t ht
      obtain ⟨y, hy, rfl⟩ := hfiles v hv
      have hname : x.1.backup ts l hash = y.1 := List.singleton_inj.mp heq
      have hlong := x.1.backup_length ts l hash
      rw [hname] at hlong
      exact absurd (hsmall y hy).1 (by omega)
  · intro d hd
    obtain ⟨hnil, u, hu⟩ := hf.dirs d hd
    exact hroot hnil (Or.inl hu)
  · intro d hd
    obtain ⟨hnil, u, hu⟩ := hg.dirs d hd
    exact hroot hnil (Or.inr hu)
  · intro u a b ha hb hash
    obtain ⟨x, hx, -, rfl⟩ := hcontent hf ha
    obtain ⟨y, hy, -, rfl⟩ := hcontent hg hb
    exact hfaithful x hx y hy hash
  · obtain ⟨x, hx, rfl⟩ := hfiles u (Ends.moved_files hu)
    exact (hsmall x hx).2.1
  · have hown : ∃ y ∈ cs ++ ss, y.2.data = b := by
      unfold Ends.chosen at hb
      cases hv : (labelledEnds c s mtime f g).verdict u with
      | client =>
        rw [hv] at hb
        obtain ⟨y, hy, -, hyb⟩ := hcontent hf hb
        exact ⟨y, List.mem_append_left _ hy, hyb⟩
      | same | server =>
        rw [hv] at hb
        obtain ⟨y, hy, -, hyb⟩ := hcontent hg hb
        exact ⟨y, List.mem_append_right _ hy, hyb⟩
    obtain ⟨y, hy, rfl⟩ := hown
    exact (hsmall y hy).2.2

/-- A folder of files at its top. -/
def topFolder (files : List (FileName × FileEntry)) : Folder where
  files := (files.map fun x => (⟨[x.1], x.2⟩ : Sigma fun _ : RelPath => FileEntry)).toAList
  dirs := ∅

theorem atRoot_topFolder (fs : List (FileName × FileEntry)) : AtRoot (topFolder fs) fs where
  entry u x h := by
    have hl : List.dlookup u (fs.map fun y => (⟨[y.1], y.2⟩ : Sigma fun _ : RelPath => FileEntry)) =
        some x := (List.dlookup_dedupKeys u _).symm.trans h
    obtain ⟨y, hy, hyx⟩ := List.mem_map.mp (List.of_mem_dlookup hl)
    cases hyx
    exact ⟨y, hy, rfl, rfl⟩
  dirs d hd := absurd hd (Finset.notMem_empty d)

theorem sampleFolder_eq (fs : List (FileName × Bytes)) :
    sampleFolder fs = topFolder (fs.map fun x => (x.1, ⟨x.2, 0⟩)) := by
  rw [sampleFolder, topFolder, List.map_map]
  rfl

/-- Two ends with files at the top of their folders, of one age. -/
def sampleEnds (clientFiles serverFiles : List (FileName × Bytes)) : Ends where
  client := sampleConfig .client
  server := sampleConfig .server
  clientFolder := sampleFolder clientFiles
  serverFolder := sampleFolder serverFiles

theorem sampleEnds_eq (cs ss : List (FileName × Bytes)) : sampleEnds cs ss =
    labelledEnds "laptop" "laptop" (sampleConfig .client).mtime
      (topFolder (cs.map fun x => (x.1, ⟨x.2, 0⟩))) (topFolder (ss.map fun x => (x.1, ⟨x.2, 0⟩))) := by
  rw [sampleEnds, sampleFolder_eq, sampleFolder_eq]
  rfl

theorem regular_sampleEnds (cs ss : List (FileName × Bytes))
    (hsmall : ∀ x ∈ cs ++ ss, x.1.chars.length < 11 ∧ (render [x.1]).utf8ByteSize ≤ maxPathLen ∧
      x.2.length ≤ 256 * 1024 * 1024)
    (hfaithful : ∀ x ∈ cs, ∀ y ∈ ss, sampleBlake3 x.2 = sampleBlake3 y.2 → x.2 = y.2)
    (hentries : (sampleEnds cs ss).clientIndex.entries.length ≤ maxIndexEntries ∧
      (sampleEnds cs ss).serverIndex.entries.length ≤ maxIndexEntries)
    (hframes : frameTooLarge Bincode.serialize (.index (sampleEnds cs ss).clientIndex) = false ∧
      frameTooLarge Bincode.serialize (.index (sampleEnds cs ss).serverIndex) = false) :
    Regular (sampleEnds cs ss) := by
  rw [sampleEnds_eq] at hentries hframes ⊢
  refine regular_labelledEnds _ _ _ (atRoot_topFolder _) (atRoot_topFolder _) (fun x hx => ?_)
    (fun x hx y hy => ?_) hentries hframes
  · rw [← List.map_append] at hx
    obtain ⟨z, hz, rfl⟩ := List.mem_map.mp hx
    exact hsmall z hz
  · obtain ⟨z, hz, rfl⟩ := List.mem_map.mp hx
    obtain ⟨w, hw, rfl⟩ := List.mem_map.mp hy
    exact hfaithful z hz w hw

/-- Two copies of `f`. -/
theorem exchange_converges_two :
    (sampleEnds [(sampleName, [97])] [(sampleName, [98])]).Converges :=
  exchange_converges _ (regular_sampleEnds _ _ (by decide +kernel) (by decide +kernel)
    (by decide +kernel) (by decide +kernel))

/-- A path of 1044 bytes, in five names of 52 characters. -/
def longPath : RelPath :=
  List.replicate 5 ⟨List.replicate 52 (Char.ofNat 0x1D11E), by decide, by decide +kernel, by decide +kernel,
    by decide +kernel, by decide +kernel⟩

/-- The client has one file, at that path. -/
def longEnds : Ends where
  client := sampleConfig .client
  server := sampleConfig .server
  clientFolder := ⟨[(⟨longPath, ⟨[97], 0⟩⟩ : Sigma fun _ : RelPath => FileEntry)].toAList,
    longPath.dropLast.inits.toFinset⟩
  serverFolder := sampleFolder []

theorem longEnds_files {u : RelPath} (h : longEnds.files u) : u = longPath := by
  rcases h with h | h
  · obtain ⟨x, hx⟩ := Option.isSome_iff_exists.mp h
    have hl : List.dlookup u [(⟨longPath, ⟨[97], 0⟩⟩ : Sigma fun _ : RelPath => FileEntry)] =
        some x := (List.dlookup_dedupKeys u _).symm.trans hx
    have hmem := List.mem_singleton.mp (List.of_mem_dlookup hl)
    cases hmem
    rfl
  · cases h

theorem longEnds_undisturbed : Undisturbed longEnds := by
  have hne : longPath ≠ [] := by decide
  refine ⟨rfl, rfl, rfl, rfl, rfl, rfl, Bincode.sizes, fun u hu => ?_, ?_, fun d hd => ?_,
    fun d hd => ?_, fun u a b _ hb => ?_⟩
  · rw [longEnds_files hu]
    decide +kernel
  · refine Apart.of_depth (show 0 < 5 by decide) (fun t => Ends.moved_files) (fun u hu => ?_)
      (fun t v ht hv heq => ?_) fun t v ts l hash ht hv heq => ?_
    · rw [longEnds_files hu]
      rfl
    · rw [longEnds_files ht, longEnds_files hv] at heq
      exact RelPath.temp_ne hne heq
    · rw [longEnds_files ht, longEnds_files hv] at heq
      exact RelPath.backup_ne hne ts l hash heq
  · have hpre : d <+: longPath.dropLast := (List.mem_inits _ _).mp (List.mem_toFinset.mp hd)
    have habove := prefix_of_dropLast hne hpre
    exact ⟨longPath, Or.inl (by decide +kernel), habove.1, habove.2⟩
  · exact absurd hd (Finset.notMem_empty d)
  · cases hb

theorem longPath_size : (render longPath).utf8ByteSize = 1044 := by
  rw [render, utf8ByteSize_ofList]
  decide +kernel

theorem longEnds_announced : Announced longEnds where
  toUndisturbed := longEnds_undisturbed
  clientEntries := by decide +kernel
  serverEntries := by decide +kernel
  clientFrame := by
    have hentries : longEnds.clientIndex.entries =
        [fileIndexEntry sampleBlake3 longPath ⟨[97], 0⟩] := buildProtocolIndex_eq ..
    have hlen : (Bincode.serialize (.index longEnds.clientIndex)).length = 29 + 1 + 6 + 0 +
        (48 + 1044 + 32) := by
      have hpath : (fileIndexEntry sampleBlake3 longPath ⟨[97], 0⟩).path.utf8ByteSize = 1044 :=
        longPath_size
      rw [Bincode.index_length, hentries, List.map_singleton, List.sum_singleton, hpath]
      decide +kernel
    show decide (maxControlFrame < (Bincode.serialize (.index longEnds.clientIndex)).length) = false
    rw [hlen]
    decide
  serverFrame := by decide +kernel

theorem exchange_fails : ¬ ∀ e : Ends, Undisturbed e → e.Converges := by
  intro h
  obtain ⟨xs, ys, hs⟩ := exists_sends longEnds_undisturbed
  have hsent : longPath ∈ xs.map (·.1) := hs.mem_client longEnds_undisturbed (by decide +kernel)
  obtain ⟨x, xs, rfl⟩ := List.exists_cons_of_ne_nil (List.ne_nil_of_mem (List.mem_map.mp hsent).choose_spec.1)
  obtain ⟨hv, hcontent⟩ := hs.client x (List.mem_cons_self ..)
  have hpath : x.1 = longPath := longEnds_files (Ends.moved_files (by rw [Ends.moved, hv]; simp))
  have hdata : x.2 = [97] := by
    rw [hpath] at hcontent
    exact (Option.some_inj.mp hcontent).symm
  have hname : x.name.utf8ByteSize = 1044 := by rw [SentFile.name, hpath, longPath_size]
  refine server_refuses longEnds_announced hs (by rw [hname]; decide) (fun m hm => ?_)
    (h longEnds longEnds_undisturbed)
  obtain ⟨c, hc, rfl⟩ := List.mem_map.mp hm
  obtain ⟨hid, hcp, hcd⟩ := mem_chunksFrom _ _ hc
  have hlen := Bincode.sizes.chunk c
  rw [hid, hcp, hname] at hlen
  have hfolder := folderIdStr_size longEnds.client
  have hframe : ¬ maxControlFrame < (Bincode.serialize (.fileChunk c)).length := by
    simp only [chunkSize] at hcd
    simp only [maxControlFrame]
    omega
  exact decide_eq_false hframe

end FerriSync
