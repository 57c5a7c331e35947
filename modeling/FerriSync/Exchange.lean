/-
# What an end does with an honest peer

The course of one end when nothing fails: it pushes its files and the sentinel
(`push_does`), takes the files of its peer one by one (`takes_file`), and, if
it is the client, the Acks for its own.

Here a file is a path and its bytes. What a session sends for it are its
chunks (`fileMessages`), and what comes back is one Ack (`ackOf`).

Key definitions: `fileMessages`, `Party.took`.
Key theorems: `push_does`, `takes_file`, `acks_does`.
-/
import FerriSync.Steps
import FerriSync.Layout
import FerriSync.Lib.Conversation
import Mathlib.Data.Nat.Digits.Defs

namespace FerriSync

open Machine

/-- A file as it is sent. -/
abbrev SentFile := RelPath × Bytes

/-- The string a file's path is sent as. -/
def SentFile.name (x : SentFile) : String := render x.1

section

variable (folderId : String)

def fileMessages (x : SentFile) : List SyncMessage :=
  (sendFileChunks folderId x.name x.2).map .fileChunk

/-- What a push phase writes. -/
def pushMessages (files : List SentFile) : List SyncMessage :=
  files.flatMap (fileMessages folderId) ++ [sentinel]

end

def ackOf (x : SentFile) : SyncMessage := .ack ⟨x.name, true, none⟩

/-- The files sent are counted. -/
def Party.pushedAll (p : Party) (files : List SentFile) : Party :=
  files.foldl (fun p x => p.uploaded x.name x.2.length) p

variable (cfg : Config)

/-! ### Pushing -/

theorem does_writes (p : Party) (ms : List SyncMessage) (rest : List Action) :
    Does (Party.next cfg) { p with todo := ms.map Action.write ++ rest } [] ms
      { p with todo := rest } := by
  induction ms with
  | nil => exact .nothing _
  | cons m ms ih => exact .write rfl ih

theorem chunkActions_eq (path : String) (data : Bytes) : chunkActions cfg path data =
    ((sendFileChunks cfg.folderIdStr path data).map SyncMessage.fileChunk).map Action.write := by
  rw [chunkActions, List.map_map]
  rfl

/-- The file at a path is pushed. -/
theorem push_path_does {p : Party} {path : String} {t : Target} {data : Bytes} (rest : List Action)
    (hj : safeJoin path = .ok t) (hread : p.folder.read t = .ok data) :
    Does (Party.next cfg) { p with todo := .pushFile path :: rest } []
      ((sendFileChunks cfg.folderIdStr path data).map .fileChunk)
      ({ p with todo := rest }.uploaded path data.length) := by
  have hstep : (Party.next cfg { p with todo := .pushFile path :: rest }).silent =
      some { p with todo :=
        ((sendFileChunks cfg.folderIdStr path data).map SyncMessage.fileChunk).map Action.write ++
          (.uploaded path data.length :: .filePushed path :: rest) } := by
    rw [← chunkActions_eq]
    simp only [Party.next, act, hj, hread]
    rfl
  have hwrites := does_writes cfg p ((sendFileChunks cfg.folderIdStr path data).map .fileChunk)
    (.uploaded path data.length :: .filePushed path :: rest)
  have hcount : Does (Party.next cfg)
      { p with todo := .uploaded path data.length :: .filePushed path :: rest } [] []
      ({ p with todo := rest }.uploaded path data.length) :=
    .silent rfl (.silent rfl (.nothing _))
  have hall := Does.silent hstep (hwrites.trans_nil hcount)
  rwa [List.append_nil] at hall

/-- One file is pushed. -/
theorem push_file_does {p : Party} {x : SentFile} (rest : List Action) (hne : x.1 ≠ [])
    (hread : p.folder.read ⟨x.1, false⟩ = .ok x.2) :
    Does (Party.next cfg) { p with todo := .pushFile x.name :: rest } [] (fileMessages cfg.folderIdStr x)
      ({ p with todo := rest }.uploaded x.name x.2.length) :=
  push_path_does cfg rest (safeJoin_render x.1 hne) hread

/-- Counting the files sent touches the counters only. -/
theorem pushedAll_eq (p : Party) (files : List SentFile) :
    p.pushedAll files = { p with
      result := { p.result with
        pushed := p.result.pushed ++ files.map SentFile.name
        pushedBytes := (p.pushedAll files).result.pushedBytes }
      doneFiles := (p.pushedAll files).doneFiles
      doneBytes := (p.pushedAll files).doneBytes } := by
  induction files generalizing p with
  | nil => simp [Party.pushedAll]
  | cons x files ih =>
    have hx := ih (p.uploaded x.name x.2.length)
    have hcons : p.pushedAll (x :: files) = (p.uploaded x.name x.2.length).pushedAll files := rfl
    rw [hcons, hx]
    simp [Party.uploaded]

theorem pushedAll_todo (p : Party) (files : List SentFile) (todo : List Action) :
    { p with todo := todo }.pushedAll files = { p.pushedAll files with todo := todo } := by
  induction files generalizing p with
  | nil => rfl
  | cons x files ih => exact ih (p.uploaded x.name x.2.length)

theorem push_files_does {p : Party} {files : List SentFile} (rest : List Action)
    (hfiles : ∀ x ∈ files, x.1 ≠ [] ∧ p.folder.read ⟨x.1, false⟩ = .ok x.2) :
    Does (Party.next cfg)
      { p with todo := files.map (fun x => Action.pushFile x.name) ++ rest } []
      (files.flatMap (fileMessages cfg.folderIdStr)) ({ p with todo := rest }.pushedAll files) := by
  induction files generalizing p with
  | nil => exact .nothing _
  | cons x files ih =>
    obtain ⟨hne, hread⟩ := hfiles x (List.mem_cons_self ..)
    have hfirst := push_file_does cfg (files.map (fun x => Action.pushFile x.name) ++ rest) hne hread
    have hrest := ih (p := p.uploaded x.name x.2.length)
      fun y hy => hfiles y (List.mem_cons_of_mem x hy)
    exact hfirst.trans_nil hrest

/-- **The push phase.** -/
theorem push_does {p : Party} {files : List SentFile}
    (htodo : p.todo = .progress "starting" ::
      (files.map (fun x => Action.pushFile x.name) ++ [.write sentinel]))
    (hfiles : ∀ x ∈ files, x.1 ≠ [] ∧ p.folder.read ⟨x.1, false⟩ = .ok x.2) :
    Does (Party.next cfg) p [] (pushMessages cfg.folderIdStr files) ({ p with todo := [] }.pushedAll files) := by
  have hstart : (Party.next cfg p).silent =
      some { p with todo := files.map (fun x => Action.pushFile x.name) ++ [.write sentinel] } := by
    simp only [Party.next, htodo]
    rfl
  have hpush := push_files_does cfg [.write sentinel] hfiles
  have hlast : Does (Party.next cfg) ({ p with todo := [.write sentinel] }.pushedAll files) []
      [sentinel] ({ p with todo := [] }.pushedAll files) := by
    rw [pushedAll_todo p files [.write sentinel], pushedAll_todo p files []]
    exact .write rfl (.nothing _)
  exact .silent hstart (hpush.trans_nil hlast)

/-! ### Receiving a file -/

/-- At the top of the loop, with no file begun and no sentinel seen. -/
structure AtTop (p : Party) : Prop where
  todo : p.todo = []
  phase : p.phase = .receiving
  noEof : p.gotEof = false
  inbox : p.inbox = .empty

/-- The client leaves its loop once it has all it waits for. -/
def Party.settle (cfg : Config) (p : Party) : Party :=
  if cfg.role = .client ∧ p.complete = true then { p with phase := .draining } else p

/-- The file has been received and committed. -/
def Party.took (p : Party) (x : SentFile) (conflicted : Bool) (g : Folder) : Party := { p with
  folder := g
  phase := .receiving
  todo := []
  inbox := .empty
  result := { p.result with
    conflicts := if conflicted then p.result.conflicts ++ [x.name] else p.result.conflicts
    pulled := p.result.pulled ++ [x.name]
    pulledBytes := p.result.pulledBytes + x.2.length }
  doneFiles := p.doneFiles + 1
  doneBytes := p.doneBytes + x.2.length
  receivedPulls := p.receivedPulls + 1
  tick := p.tick + 1
  committed := p.committed ++ [(x.name, x.2)] }

theorem does_settle {p : Party} (ht : p.todo = []) (hph : p.phase = .receiving) :
    Does (Party.next cfg) p [] [] (p.settle cfg) ∧ waits (Party.next cfg) (p.settle cfg) := by
  unfold Party.settle
  split_ifs with hc
  · refine ⟨.silent ?_ (.nothing _), Or.inr ⟨{ p with phase := .ended (.ok ()), stamped := true }, ?_⟩⟩
    · simp only [Party.next, ht, hph, if_pos hc]
      rfl
    · simp only [Party.next, ht]
  · refine ⟨.nothing _, Or.inl ?_⟩
    simp only [Party.next, ht, hph, if_neg hc]
    exact ⟨_, _, rfl⟩

variable {cfg} in
theorem settle_of_incomplete {p : Party} (h : cfg.role = .client → p.complete = false) :
    p.settle cfg = p :=
  if_neg fun hc => by
    rw [h hc.1] at hc
    cases hc.2

/-- A message read in the loop. -/
theorem does_message {p t : Party} {m : SyncMessage} {outs : List SyncMessage} (ht : p.todo = [])
    (hph : p.phase = .receiving) (hc : cfg.role = .client → p.complete = false)
    (hframe : frameTooLarge cfg.serialize m = false)
    (hd : Does (Party.next cfg) (onMessage cfg p m) [] outs t) :
    Does (Party.next cfg) p [m] outs t := by
  have hnot : ¬ (cfg.role = .client ∧ p.complete = true) := fun h => by
    rw [hc h.1] at h
    cases h.2
  have hnext : Party.next cfg p = readMessage cfg (onMessage cfg p) { p with phase := .draining } := by
    simp only [Party.next, ht, hph, if_neg hnot]
  refine .read hnext ?_
  rw [if_neg (by simp [hframe])]
  exact hd

/-- The bottom of the loop leads to its top. -/
theorem does_bottom {p : Party} (ht : p.todo = []) (heof : p.gotEof = false) :
    Does (Party.next cfg) { p with phase := bottom cfg } [] [] { p with phase := .receiving } := by
  unfold bottom
  cases cfg.role with
  | client => exact .nothing _
  | server =>
    refine .silent ?_ (.nothing _)
    simp only [Party.next, ht, heof, Bool.false_and, Bool.false_eq_true, if_false]
    rfl

theorem onMessage_chunk (p : Party) (c : FileChunk) :
    onMessage cfg p (.fileChunk c) = onChunk cfg p c := by
  unfold onMessage
  cases cfg.role <;> rfl

/-- The rename of a commit. -/
theorem silent_install {p : Party} {x : SentFile} {rest : List Action} {h : Folder}
    (hinstall : install ⟨x.1, false⟩ x.2 (cfg.mtime p.tick) p.folder = (.ok (), h)) :
    (Party.next cfg { p with todo := .install x.name ⟨x.1, false⟩ x.2 :: rest }).silent =
      some { p with
        todo := rest, folder := h, tick := p.tick + 1
        committed := p.committed ++ [(x.name, x.2)] } := by
  simp only [Party.next, act, hinstall]
  rfl

/-- The commit of a complete file, once its target has been prepared. -/
theorem does_commit {p : Party} {x : SentFile} (conflicted : Bool) {h : Folder}
    (heof : p.gotEof = false) (hinbox : p.inbox = .empty)
    (hinstall : install ⟨x.1, false⟩ x.2 (cfg.mtime p.tick) p.folder = (.ok (), h)) :
    Does (Party.next cfg) { p with
        todo := (if conflicted then [.conflict x.name] else []) ++
          commitActions cfg x.name ⟨x.1, false⟩ x.2
        phase := bottom cfg } [] [ackOf x] (p.took x conflicted h) := by
  obtain ⟨tail, htail, hdone⟩ : ∃ tail, commitActions cfg x.name ⟨x.1, false⟩ x.2 =
      .install x.name ⟨x.1, false⟩ x.2 :: tail ∧ ∀ q : Party, q.gotEof = false →
      Does (Party.next cfg) { q with todo := tail, phase := bottom cfg } [] [ackOf x]
        { q.downloaded x.name x.2.length with
          todo := [], phase := .receiving, receivedPulls := q.receivedPulls + 1 } := by
    have hbottom : ∀ q : Party, q.gotEof = false → Does (Party.next cfg)
        { q.downloaded x.name x.2.length with
          todo := [], phase := bottom cfg, receivedPulls := q.receivedPulls + 1 } [] []
        { q.downloaded x.name x.2.length with
          todo := [], phase := .receiving, receivedPulls := q.receivedPulls + 1 } := fun q hq =>
      does_bottom cfg (p := { q.downloaded x.name x.2.length with
        todo := [], receivedPulls := q.receivedPulls + 1 }) rfl hq
    -- the Ack comes before the count or after it
    unfold commitActions
    cases cfg.role with
    | client => exact ⟨_, rfl, fun q hq => .write rfl (.silent rfl (.silent rfl (hbottom q hq)))⟩
    | server => exact ⟨_, rfl, fun q hq => .silent rfl (.write rfl (.silent rfl (hbottom q hq)))⟩
  rw [htail]
  cases conflicted with
  | false =>
    have hd := hdone { p with
      folder := h, tick := p.tick + 1, committed := p.committed ++ [(x.name, x.2)] } heof
    have hend : p.took x false h = { ({ p with
        folder := h, tick := p.tick + 1, committed := p.committed ++ [(x.name, x.2)] } :
          Party).downloaded x.name x.2.length with
        todo := [], phase := .receiving, receivedPulls := p.receivedPulls + 1 } := by
      simp [Party.took, Party.downloaded, hinbox]
    rw [hend]
    exact .silent (silent_install cfg (p := { p with phase := bottom cfg }) hinstall) hd
  | true =>
    have hd := hdone { p with
      folder := h, tick := p.tick + 1, committed := p.committed ++ [(x.name, x.2)]
      result := { p.result with conflicts := p.result.conflicts ++ [x.name] } } heof
    have hend : p.took x true h = { ({ p with
        folder := h, tick := p.tick + 1, committed := p.committed ++ [(x.name, x.2)]
        result := { p.result with conflicts := p.result.conflicts ++ [x.name] } } :
          Party).downloaded x.name x.2.length with
        todo := [], phase := .receiving, receivedPulls := p.receivedPulls + 1 } := by
      simp [Party.took, Party.downloaded, hinbox]
    rw [hend]
    exact .silent rfl (.silent (silent_install cfg (p := { p with
      phase := bottom cfg
      result := { p.result with conflicts := p.result.conflicts ++ [x.name] } }) hinstall) hd)

/-- A file that an end may get from a peer with this index: within the limits,
and with the hash of the index. -/
structure Acceptable (cfg : Config) (folderId : String) (remote : List IndexEntry) (x : SentFile) :
    Prop where
  ne_nil : x.1 ≠ []
  notMetadata : x.name ≠ "metadata.db"
  name : x.name.utf8ByteSize ≤ maxPathLen
  data : x.2.length ≤ 256 * 1024 * 1024
  frames : ∀ m ∈ fileMessages folderId x, frameTooLarge cfg.serialize m = false
  hash : hashMatches cfg.blake3 remote x.name x.2 = true

variable {cfg}

/-- `q` is `p` with its files pushed. -/
structure Pushed (p : Party) (files : List SentFile) (q : Party) : Prop where
  top : AtTop q
  folder : q.folder = p.folder
  remote : q.remote = p.remote
  toPull : q.toPull = p.toPull
  acked : q.acked = p.acked
  receivedPulls : q.receivedPulls = p.receivedPulls
  committed : q.committed = p.committed
  pushed : q.result.pushed = p.result.pushed ++ files.map SentFile.name

theorem pushed_pushedAll {p : Party} (hph : p.phase = .receiving) (heof : p.gotEof = false)
    (hinbox : p.inbox = .empty) (files : List SentFile) :
    Pushed p files ({ p with todo := [] }.pushedAll files) := by
  rw [pushedAll_eq]
  exact ⟨⟨rfl, hph, heof, hinbox⟩, rfl, rfl, rfl, rfl, rfl, rfl, rfl⟩

theorem onChunk_more {p : Party} {c : FileChunk} {inbox : Inbox} (hm : c.path ≠ "metadata.db")
    (hr : receiveChunk p.inbox c = .more inbox) :
    onChunk cfg p c = { p with inbox := inbox, phase := bottom cfg } := by
  simp only [onChunk, if_neg hm, hr]

theorem onChunk_complete {p : Party} {c : FileChunk} {inbox : Inbox} {data : Bytes} {t : Target}
    {conflicted : Bool} {g : Folder} (hm : c.path ≠ "metadata.db")
    (hr : receiveChunk p.inbox c = .complete inbox data)
    (hh : hashMatches cfg.blake3 p.remote c.path data = true) (hj : safeJoin c.path = .ok t)
    (hp : prepare cfg.blake3 (cfg.secs p.tick) cfg.label t data p.folder = (.ok conflicted, g)) :
    onChunk cfg p c = { p with
      inbox := inbox
      folder := g
      todo := (if conflicted then [.conflict c.path] else []) ++ commitActions cfg c.path t data
      phase := bottom cfg } := by
  simp only [onChunk, if_neg hm, hr, hh, Bool.true_eq_false, if_false, hj, hp]

theorem Inbox.upTo_isEmpty {path : String} {data : Bytes} {offset : ℕ} (h : offset ≠ 0) :
    (Inbox.upTo path data offset).isEmpty = false := by
  rw [Inbox.upTo_of_pos h]
  rfl

/-- A client in the middle of a file is not done. -/
theorem incomplete_upTo {p : Party} {x : SentFile}
    (hinc : cfg.role = .client → ({ p with inbox := .empty } : Party).complete = false) (offset : ℕ) :
    cfg.role = .client →
      ({ p with inbox := Inbox.upTo x.name x.2 offset } : Party).complete = false := by
  intro hrole
  by_cases h0 : offset = 0
  · subst h0
    exact hinc hrole
  · simp [Party.complete, Inbox.upTo_isEmpty h0]

section

variable {folderId : String} {p t : Party} {x : SentFile} {conflicted : Bool} {g h : Folder}
  (ha : Acceptable cfg folderId p.remote x)
  (hprepare : prepare cfg.blake3 (cfg.secs p.tick) cfg.label ⟨x.1, false⟩ x.2 p.folder =
    (.ok conflicted, g))
  (hinstall : install ⟨x.1, false⟩ x.2 (cfg.mtime p.tick) g = (.ok (), h))
  (hsettle : Does (Party.next cfg) (p.took x conflicted h) [] [] t)
include ha hprepare hinstall hsettle

/-- The last chunk of a file makes the end commit it and send its Ack. -/
theorem does_last_chunk (ht : p.todo = []) (hph : p.phase = .receiving) (heof : p.gotEof = false)
    (hinc : cfg.role = .client → ({ p with inbox := .empty } : Party).complete = false) {offset : ℕ}
    (ho : offset ≤ x.2.length) (hend : x.2.length ≤ offset + chunkSize)
    (hframe : frameTooLarge cfg.serialize (.fileChunk (chunkAt folderId x.name x.2 offset)) = false) :
    Does (Party.next cfg) { p with inbox := Inbox.upTo x.name x.2 offset }
      [.fileChunk (chunkAt folderId x.name x.2 offset)] [ackOf x] t := by
  refine does_message cfg ht hph (incomplete_upTo hinc offset) hframe ?_
  have hreceive := receiveChunk_sent folderId ha.name ha.data ho
  rw [if_pos hend] at hreceive
  have hjoin : safeJoin x.name = .ok ⟨x.1, false⟩ := safeJoin_render x.1 ha.ne_nil
  have hchunk : onChunk cfg { p with inbox := Inbox.upTo x.name x.2 offset }
      (chunkAt folderId x.name x.2 offset) = { p with
        inbox := .empty
        folder := g
        todo := (if conflicted then [.conflict x.name] else []) ++
          commitActions cfg x.name ⟨x.1, false⟩ x.2
        phase := bottom cfg } :=
    onChunk_complete ha.notMetadata hreceive ha.hash hjoin hprepare
  rw [onMessage_chunk, hchunk]
  have hcommit := does_commit cfg (p := { p with inbox := .empty, folder := g }) conflicted heof rfl
    hinstall
  exact hcommit.trans_nil hsettle

/-- The chunks of a file from an offset on. -/
theorem takes_chunks (ht : p.todo = []) (hph : p.phase = .receiving) (heof : p.gotEof = false)
    (hinc : cfg.role = .client → ({ p with inbox := .empty } : Party).complete = false) :
    ∀ fuel offset, offset ≤ x.2.length → x.2.length < offset + fuel →
      (∀ c ∈ chunksFrom folderId x.name x.2 fuel offset,
        frameTooLarge cfg.serialize (.fileChunk c) = false) →
      Takes (Party.next cfg) { p with inbox := Inbox.upTo x.name x.2 offset }
        ((chunksFrom folderId x.name x.2 fuel offset).map .fileChunk) [ackOf x] t := by
  intro fuel
  induction fuel with
  | zero => intro offset ho hfuel; omega
  | succ fuel ih =>
    intro offset ho hfuel hframes
    have hwaits : waits (Party.next cfg) { p with inbox := Inbox.upTo x.name x.2 offset } := by
      have hw := (does_settle cfg (p := { p with inbox := Inbox.upTo x.name x.2 offset })
        ht hph).2
      rwa [settle_of_incomplete (incomplete_upTo hinc offset)] at hw
    have hframe := hframes _ (List.mem_cons_self ..)
    by_cases hend : x.2.length ≤ offset + chunkSize
    · have hlast : chunksFrom folderId x.name x.2 (fuel + 1) offset =
          [chunkAt folderId x.name x.2 offset] := by
        rw [chunksFrom, if_pos ((stop_iff x.2 offset).mpr hend)]
      rw [hlast]
      exact .last hwaits
        (does_last_chunk ha hprepare hinstall hsettle ht hph heof hinc ho hend hframe)
    · have hmore : chunksFrom folderId x.name x.2 (fuel + 1) offset =
          chunkAt folderId x.name x.2 offset ::
            chunksFrom folderId x.name x.2 fuel (min (offset + chunkSize) x.2.length) := by
        rw [chunksFrom, if_neg fun hle => hend ((stop_iff x.2 offset).mp hle)]
      rw [hmore] at hframes ⊢
      have hreceive := receiveChunk_sent folderId ha.name ha.data ho
      rw [if_neg hend] at hreceive
      have hcs : chunkSize = 64 * 1024 := rfl
      refine .more hwaits (does_message cfg ht hph (incomplete_upTo hinc offset) hframe ?_)
        (ih (min (offset + chunkSize) x.2.length) (by omega) (by omega)
          fun c hc => hframes c (List.mem_cons_of_mem _ hc))
      have hchunk : onChunk cfg { p with inbox := Inbox.upTo x.name x.2 offset }
          (chunkAt folderId x.name x.2 offset) = { p with
            inbox := Inbox.upTo x.name x.2 (min (offset + chunkSize) x.2.length)
            phase := bottom cfg } :=
        onChunk_more ha.notMetadata hreceive
      rw [onMessage_chunk, hchunk]
      have hbottom := does_bottom cfg
        (p := { p with inbox := Inbox.upTo x.name x.2 (min (offset + chunkSize) x.2.length) }) ht heof
      rw [← hph] at hbottom
      exact hbottom

/-- **A file sent is taken**: nothing is said before its last chunk, then it is
committed and acknowledged. -/
theorem takes_file (htop : AtTop p) (hinc : cfg.role = .client → p.complete = false) :
    Takes (Party.next cfg) p (fileMessages folderId x) [ackOf x] t := by
  have hinc' : cfg.role = .client → ({ p with inbox := .empty } : Party).complete = false := by
    rw [← htop.inbox]
    exact hinc
  have hchunks := takes_chunks ha hprepare hinstall hsettle htop.todo htop.phase htop.noEof hinc'
    (x.2.length + 1) 0 (Nat.zero_le _) (by omega)
    fun c hc => ha.frames _ (List.mem_map_of_mem hc)
  rw [Inbox.upTo_zero, ← htop.inbox] at hchunks
  exact hchunks

end

/-! ### Receiving files -/

/-- The blocks of a push phase, each file with its Ack. -/
def fileBlocks (folderId : String) (files : List SentFile) :
    List (List SyncMessage × List SyncMessage) :=
  files.map fun x => (fileMessages folderId x, [ackOf x])

/-- Files that an end may get from its peer, each once. -/
structure Expects (cfg : Config) (folderId : String) (moved : RelPath → Prop)
    (remote : List IndexEntry) (xs : List SentFile) : Prop where
  acceptable : ∀ x ∈ xs, Acceptable cfg folderId remote x
  moved : ∀ x ∈ xs, moved x.1
  nodup : (xs.map (·.1)).Nodup

/-- The name of the backup that the n-th commit makes, if it is of this file. -/
def backupName (cfg : Config) (n : ℕ) (x : SentFile) : RelPath :=
  x.1.backup (cfg.secs n) (loserLabel cfg.label) (cfg.blake3 x.2)

/-- From `p` to `q` an end has received the files `xs`, and nothing else. -/
structure TookAll (cfg : Config) (files moved : RelPath → Prop) (p : Party) (xs : List SentFile)
    (q : Party) : Prop where
  top : AtTop q
  remote : q.remote = p.remote
  toPull : q.toPull = p.toPull
  pushed : q.result.pushed = p.result.pushed
  acked : q.acked = p.acked
  receivedPulls : q.receivedPulls = p.receivedPulls + xs.length
  committed : q.committed = p.committed ++ xs.map fun x => (x.name, x.2)
  clean : Clean files moved q.folder
  content : ∀ x ∈ xs, q.folder.content x.1 = some x.2
  others : ∀ u, files u → u ∉ xs.map (·.1) → q.folder.entry u = p.folder.entry u
  /-- A received file has the time of its commit. -/
  dated : ∀ x ∈ xs, ∃ n, q.folder.entry x.1 = some ⟨x.2, cfg.mtime n⟩
  /-- A file of other content that stood there is kept as a backup. -/
  kept : ∀ x ∈ xs, ∀ old, p.folder.entry x.1 = some old → old.data ≠ x.2 →
    ∃ n, q.folder.entry (backupName cfg n x) = some old
  untouched : ∀ v, (∀ x ∈ xs, v ≠ x.1 ∧ v ≠ x.1.temp ∧ ∀ ts l hash, v ≠ x.1.backup ts l hash) →
    q.folder.entry v = p.folder.entry v
  /-- There are no other new files. -/
  made : ∀ v y, ¬ files v → q.folder.entry v = some y → p.folder.entry v = some y ∨
    ∃ x ∈ xs, p.folder.entry x.1 = some y ∧ y.data ≠ x.2 ∧ ∃ n, v = backupName cfg n x

/-- A client that still waits for a file is not done. -/
theorem incomplete_of_pulls {p : Party} (h : p.receivedPulls < p.toPull.length) :
    p.complete = false := by
  have hle : ¬ p.toPull.length ≤ p.receivedPulls := by omega
  simp [Party.complete, hle]

section

variable {files moved : RelPath → Prop} {folderId : String}

/-- **Files sent one after the other are received**, each committed and
acknowledged before the next. -/
theorem conversation_files (hapart : Apart files moved) (xs : List SentFile) {p : Party}
    (htop : AtTop p) (hclean : Clean files moved p.folder)
    (hexpects : Expects cfg folderId moved p.remote xs)
    (hpulls : cfg.role = .client → p.receivedPulls + xs.length ≤ p.toPull.length) :
    ∃ q, TookAll cfg files moved p xs q ∧
      Conversation (Party.next cfg) (p.settle cfg) (fileBlocks folderId xs) (q.settle cfg) := by
  induction xs generalizing p with
  | nil =>
    have hnone : TookAll cfg files moved p [] p :=
      { top := htop, remote := rfl, toPull := rfl, pushed := rfl, acked := rfl, receivedPulls := rfl
        committed := by simp, clean := hclean, content := by simp, others := fun _ _ _ => rfl
        dated := by simp, kept := by simp, untouched := fun _ _ => rfl
        made := fun _ _ _ hy => Or.inl hy }
    exact ⟨p, hnone, .finished (does_settle cfg htop.todo htop.phase).2⟩
  | cons x xs ih =>
    have hinc : cfg.role = .client → p.complete = false := fun hrole =>
      incomplete_of_pulls (by
        have hlen := hpulls hrole
        rw [List.length_cons] at hlen
        omega)
    obtain ⟨hnot, hnodup⟩ := List.nodup_cons.mp hexpects.nodup
    have hmoved := hexpects.moved x (List.mem_cons_self ..)
    have hfile := hapart.sub x.1 hmoved
    -- the commit of the first file
    obtain ⟨conflicted, g, hprepare, hg, hgothers, -⟩ := prepare_clean cfg.blake3 hapart hclean hmoved
      (cfg.secs p.tick) cfg.label x.2
    obtain ⟨h, hinstall, hh, hentry, hhothers⟩ := install_clean hapart hg hmoved x.2 (cfg.mtime p.tick)
    have htook : AtTop (p.took x conflicted h) := ⟨rfl, rfl, htop.noEof, rfl⟩
    -- and then the others
    obtain ⟨q, hq, hconv⟩ := ih (p := p.took x conflicted h) htook hh
      ⟨fun y hy => hexpects.acceptable y (List.mem_cons_of_mem x hy),
        fun y hy => hexpects.moved y (List.mem_cons_of_mem x hy), hnodup⟩
      (fun hrole => by
        have hlen := hpulls hrole
        rw [List.length_cons] at hlen
        show p.receivedPulls + 1 + xs.length ≤ p.toPull.length
        omega)
    have htakes := takes_file (hexpects.acceptable x (List.mem_cons_self ..)) hprepare hinstall
      (does_settle cfg htook.todo htook.phase).1 htop hinc
    have hkept := hq.others x.1 hfile hnot
    obtain ⟨hbackup, hleft, htemp⟩ := commit_leaves cfg.blake3 (hapart.ne_nil x.1 hfile) hprepare
      hinstall
    have hdistinct : ∀ y ∈ xs, x.1 ≠ y.1 := fun y hy heq => hnot (List.mem_map.mpr ⟨y, hy, heq.symm⟩)
    have hfiles : ∀ y ∈ xs, files y.1 := fun y hy =>
      hapart.sub y.1 (hexpects.moved y (List.mem_cons_of_mem x hy))
    have hlater : ∀ y ∈ xs, h.entry y.1 = p.folder.entry y.1 := fun y hy =>
      have hne : y.1 ≠ x.1 := fun heq => hdistinct y hy heq.symm
      (hhothers y.1 (hfiles y hy) hne).trans (hgothers y.1 (hfiles y hy) hne)
    refine ⟨q, ⟨hq.top, hq.remote, hq.toPull, hq.pushed, hq.acked, ?_, ?_, hq.clean, ?_, ?_, ?_, ?_,
      ?_, ?_⟩, ?_⟩
    · have hlen := hq.receivedPulls
      rw [List.length_cons, hlen]
      show p.receivedPulls + 1 + xs.length = _
      omega
    · rw [hq.committed]
      show (p.committed ++ [(x.name, x.2)]) ++ _ = _
      rw [List.append_assoc]
      rfl
    · intro y hy
      rcases List.mem_cons.mp hy with rfl | hy
      · have hsame : q.folder.entry y.1 = some ⟨y.2, cfg.mtime p.tick⟩ :=
          (hq.others y.1 hfile hnot).trans hentry
        exact Folder.content_eq_some.mpr ⟨_, hsame, rfl⟩
      · exact hq.content y hy
    · intro u hu hnu
      rw [List.map_cons, List.mem_cons, not_or] at hnu
      calc q.folder.entry u = h.entry u := hq.others u hu hnu.2
        _ = g.entry u := hhothers u hu hnu.1
        _ = p.folder.entry u := hgothers u hu hnu.1
    · intro y hy
      rcases List.mem_cons.mp hy with rfl | hy
      · exact ⟨p.tick, hkept.trans hentry⟩
      · exact hq.dated y hy
    · intro y hy old hold hdiffer
      rcases List.mem_cons.mp hy with rfl | hy
      · -- a later commit has other names
        refine ⟨p.tick, (hq.untouched _ fun z hz => ⟨?_, ?_, fun ts' l' hash' heq => ?_⟩).trans
          (hbackup old hold hdiffer)⟩
        · exact (hapart.ne_backup hmoved (hfiles z hz) _ _ _).symm
        · exact (RelPath.temp_ne_backup (hapart.ne_nil z.1 (hfiles z hz)) _ _ _).symm
        · exact hdistinct z hz (RelPath.backup_inj (hapart.ne_nil y.1 hfile)
            (hapart.ne_nil z.1 (hfiles z hz)) heq)
      · exact hq.kept y hy old ((hlater y hy).trans hold) hdiffer
    · intro v hv
      obtain ⟨hvx, hvtemp, hvbackup⟩ := hv x (List.mem_cons_self ..)
      exact (hq.untouched v fun y hy => hv y (List.mem_cons_of_mem x hy)).trans
        (hleft v hvx hvtemp (Or.inl (hvbackup _ _ _)))
    · intro v y hv hy
      rcases hq.made v y hv hy with hy | ⟨z, hz, hold, hdiffer, hname⟩
      · have hvx : v ≠ x.1 := fun heq => hv (heq ▸ hfile)
        have hvtemp : v ≠ x.1.temp := fun heq => by
          have hnone : h.entry v = none := heq ▸ htemp
          cases hnone.symm.trans hy
        by_cases hset : v = backupName cfg p.tick x ∧
            ∃ old, p.folder.entry x.1 = some old ∧ old.data ≠ x.2
        · obtain ⟨rfl, old, hold, hdiffer⟩ := hset
          obtain rfl : old = y := Option.some.inj ((hbackup old hold hdiffer).symm.trans hy)
          exact Or.inr ⟨x, List.mem_cons_self .., hold, hdiffer, p.tick, rfl⟩
        · refine Or.inl ((hleft v hvx hvtemp ?_).symm.trans hy)
          by_cases hname : v = backupName cfg p.tick x
          · refine Or.inr fun old hold => ?_
            by_contra hdiffer
            exact hset ⟨hname, old, hold, hdiffer⟩
          · exact Or.inl hname
      · exact Or.inr ⟨z, List.mem_cons_of_mem x hz, (hlater z hz).symm.trans hold, hdiffer, hname⟩
    · rw [settle_of_incomplete hinc]
      exact .block htakes hconv

end

/-! ### The end of a push phase, and the Acks -/

/-- A push phase as its blocks: the files and the sentinel. -/
def pushBlocks (folderId : String) (files : List SentFile) :
    List (List SyncMessage × List SyncMessage) :=
  fileBlocks folderId files ++ [([sentinel], [])]

theorem asked_pushBlocks (folderId : String) (files : List SentFile) :
    asked (pushBlocks folderId files) = pushMessages folderId files := by
  rw [pushBlocks, asked_append, asked, fileBlocks, List.flatMap_map, pushMessages]
  rfl

theorem replies_fileBlocks (folderId : String) (files : List SentFile) :
    replies (fileBlocks folderId files) = files.map ackOf := by
  rw [replies, fileBlocks]
  induction files with
  | nil => rfl
  | cons x files ih => rw [List.map_cons, List.flatMap_cons, ih, List.map_cons, List.singleton_append]

theorem replies_pushBlocks (folderId : String) (files : List SentFile) :
    replies (pushBlocks folderId files) = files.map ackOf := by
  rw [pushBlocks, replies_append, replies_fileBlocks]
  exact List.append_nil _

/-- An end that has heard its peer's sentinel: the server leaves its loop. -/
def Party.closed (cfg : Config) (p : Party) : Party :=
  match cfg.role with
  | .client => p.settle cfg
  | .server => { p with gotEof := true, phase := .draining }

theorem utf8ByteSize_ofList (cs : List Char) :
    (String.ofList cs).utf8ByteSize = (cs.map Char.utf8Size).sum := by
  induction cs with
  | nil => simp
  | cons c cs ih =>
    rw [String.ofList_cons, String.utf8ByteSize_append, String.utf8ByteSize_singleton, ih,
      List.map_cons, List.sum_cons]

theorem utf8ByteSize_ofList_le (cs : List Char) : (String.ofList cs).utf8ByteSize ≤ 4 * cs.length := by
  rw [utf8ByteSize_ofList]
  induction cs with
  | nil => simp
  | cons c cs ih =>
    have hsize := c.utf8Size_le_four
    rw [List.map_cons, List.sum_cons, List.length_cons]
    omega

theorem utf8ByteSize_repr_le (n : ℕ) (h : n < 18446744073709551616) :
    (Nat.repr n).utf8ByteSize ≤ 80 := by
  have hdigits := Nat.toDigits_length 10 n 20 (by omega) (by omega)
  have hsize := utf8ByteSize_ofList_le (Nat.toDigits 10 n)
  rw [Nat.repr]
  omega

/-- A folder's id is a short string. -/
theorem folderIdStr_size (cfg : Config) : cfg.folderIdStr.utf8ByteSize ≤ 100 := by
  have hlt := cfg.folderId.val.toInt_lt
  have hle := cfg.folderId.val.le_toInt
  unfold Config.folderIdStr
  cases hi : cfg.folderId.val.toInt with
  | ofNat m =>
    rw [hi] at hlt
    have hsize := utf8ByteSize_repr_le m (by simp at hlt; omega)
    show (Nat.repr m).utf8ByteSize ≤ 100
    omega
  | negSucc m =>
    rw [hi] at hle
    have hsize := utf8ByteSize_repr_le (m + 1) (by simp at hle; omega)
    have hsign : ("-" : String).utf8ByteSize = 1 := by decide
    show ("-" ++ Nat.repr (m + 1)).utf8ByteSize ≤ 100
    rw [String.utf8ByteSize_append]
    omega

/-- The chunks of a file are no longer than they should be. -/
theorem mem_chunksFrom {folderId path : String} {data : Bytes} {c : FileChunk} (fuel offset : ℕ)
    (h : c ∈ chunksFrom folderId path data fuel offset) :
    c.folderId = folderId ∧ c.path = path ∧ c.data.length ≤ chunkSize := by
  induction fuel generalizing offset with
  | zero => cases h
  | succ fuel ih =>
    rw [chunksFrom] at h
    rcases List.mem_cons.mp h with rfl | h
    · refine ⟨rfl, rfl, ?_⟩
      rw [chunkAt_length]
      omega
    · split_ifs at h
      · cases h
      · exact ih _ h

/-- The frames of a file are within the limit. -/
theorem file_frames (hsizes : EncodedSizes cfg.serialize) (sender : Config) {x : SentFile}
    (hname : x.name.utf8ByteSize ≤ maxPathLen) :
    ∀ m ∈ fileMessages sender.folderIdStr x, frameTooLarge cfg.serialize m = false := by
  intro m hm
  obtain ⟨c, hc, rfl⟩ := List.mem_map.mp hm
  obtain ⟨hid, hpath, hdata⟩ := mem_chunksFrom _ _ hc
  have hlen := hsizes.chunk c
  have hfolder := folderIdStr_size sender
  rw [hid, hpath] at hlen
  simp only [maxPathLen] at hname
  simp only [chunkSize] at hdata
  simp only [frameTooLarge, maxControlFrame, decide_eq_false_iff_not, hlen]
  omega

theorem ack_frame (hsizes : EncodedSizes cfg.serialize) {path : String}
    (h : path.utf8ByteSize ≤ maxPathLen) :
    frameTooLarge cfg.serialize (.ack ⟨path, true, none⟩) = false := by
  have hlen := hsizes.ack ⟨path, true, none⟩ rfl
  simp only [maxPathLen] at h
  simp only [frameTooLarge, maxControlFrame, decide_eq_false_iff_not, hlen]
  omega

theorem takes_sentinel (hsizes : EncodedSizes cfg.serialize) {p : Party} (htop : AtTop p) :
    Takes (Party.next cfg) (p.settle cfg) [sentinel] [] (p.closed cfg) := by
  have hwaits := (does_settle cfg htop.todo htop.phase).2
  have hframe : frameTooLarge cfg.serialize sentinel = false :=
    ack_frame hsizes (by decide)
  refine .last hwaits ?_
  unfold Party.closed
  cases hrole : cfg.role with
  | client =>
    dsimp only
    cases hc : p.complete with
    | true =>
      have hs : p.settle cfg = { p with phase := .draining } := if_pos ⟨hrole, hc⟩
      rw [hs]
      have hnext : Party.next cfg { p with phase := .draining } =
          .drain { p with phase := .ended (.ok ()), stamped := true } := by
        simp only [Party.next, htop.todo]
      exact .discard hnext (.nothing _)
    | false =>
      have hs : p.settle cfg = p := settle_of_incomplete fun _ => hc
      rw [hs]
      refine does_message cfg htop.todo htop.phase (fun _ => hc) hframe ?_
      have hsame : onMessage cfg p sentinel = p := by
        simp only [onMessage, hrole, clientMessage, sentinel, ne_eq, not_true_eq_false, false_and,
          if_false]
      rw [hsame]
      exact .nothing p
  | server =>
    have hs : p.settle cfg = p := settle_of_incomplete fun h => by cases hrole.symm.trans h
    rw [hs]
    refine does_message cfg htop.todo htop.phase (fun h => by cases hrole.symm.trans h) hframe ?_
    have hread : onMessage cfg p sentinel = { p with gotEof := true, phase := .checking } := by
      simp only [onMessage, hrole, serverMessage, sentinel, decide_true, Bool.or_true]
    rw [hread]
    refine .silent ?_ (.nothing _)
    have hempty : p.inbox.isEmpty = true := by rw [htop.inbox]; rfl
    simp only [Party.next, htop.todo, hempty, Bool.and_true, if_true]
    rfl

/-- **A whole push phase is received.** -/
theorem conversation_push {files moved : RelPath → Prop} {folderId : String}
    (hapart : Apart files moved) (hsizes : EncodedSizes cfg.serialize) (xs : List SentFile) {p : Party}
    (htop : AtTop p) (hclean : Clean files moved p.folder)
    (hexpects : Expects cfg folderId moved p.remote xs)
    (hpulls : cfg.role = .client → p.toPull.length = p.receivedPulls + xs.length) :
    ∃ q, TookAll cfg files moved p xs q ∧
      Conversation (Party.next cfg) (p.settle cfg) (pushBlocks folderId xs) (q.closed cfg) := by
  obtain ⟨q, hq, hconv⟩ := conversation_files hapart xs htop hclean hexpects
    fun hrole => (hpulls hrole).ge
  have hsentinel := takes_sentinel hsizes hq.top
  have hwaits : waits (Party.next cfg) (q.closed cfg) := by
    unfold Party.closed
    cases cfg.role with
    | client => exact (does_settle cfg hq.top.todo hq.top.phase).2
    | server =>
      refine Or.inr ⟨{ q with gotEof := true, phase := .ended (.ok ()), stamped := true }, ?_⟩
      simp only [Party.next, hq.top.todo]
  exact ⟨q, hq, hconv.trans (.block hsentinel (.finished hwaits))⟩

theorem name_ne_empty {p : RelPath} (hp : p ≠ []) : render p ≠ "" := by
  intro h
  have hj := safeJoin_render p hp
  rw [h] at hj
  have hempty : safeJoin "" = .ok ⟨[], true⟩ := rfl
  rw [hempty] at hj
  cases hj

/-- The client takes the Acks for its files, and leaves its loop. -/
theorem acks_does (hrole : cfg.role = .client) (names : List String) {p : Party} (htop : AtTop p)
    (hpulls : p.toPull.length ≤ p.receivedPulls) (hnodup : names.Nodup)
    (hnames : ∀ y ∈ names, y ≠ "" ∧ y ∈ p.result.pushed ∧ y ∉ p.acked ∧
      frameTooLarge cfg.serialize (.ack ⟨y, true, none⟩) = false)
    (hcard : p.acked.card + names.length = p.result.pushed.length) :
    ∃ acked, Does (Party.next cfg) (p.settle cfg) (names.map fun y => .ack ⟨y, true, none⟩) []
      { p with acked := acked, phase := .draining } := by
  induction names generalizing p with
  | nil =>
    rw [List.length_nil, Nat.add_zero] at hcard
    have hc : p.complete = true := by
      simp only [Party.complete, htop.inbox, hcard, hpulls, decide_true, Bool.and_true,
        Nat.le_refl]
      rfl
    have hs : p.settle cfg = { p with phase := .draining } := if_pos ⟨hrole, hc⟩
    rw [hs]
    exact ⟨p.acked, .nothing _⟩
  | cons y names ih =>
    obtain ⟨hne, hpushed, hnew, hframe⟩ := hnames y (List.mem_cons_self ..)
    rw [List.length_cons] at hcard
    have hc : p.complete = false := by
      have hlt : ¬ p.result.pushed.length ≤ p.acked.card := by omega
      simp [Party.complete, hlt]
    have hs : p.settle cfg = p := settle_of_incomplete fun _ => hc
    have hread : onMessage cfg p (.ack ⟨y, true, none⟩) = { p with acked := insert y p.acked } := by
      simp only [onMessage, hrole, clientMessage, if_pos (And.intro hne hpushed)]
    obtain ⟨hy, hrest⟩ := List.nodup_cons.mp hnodup
    have htop' : AtTop { p with acked := insert y p.acked } :=
      ⟨htop.todo, htop.phase, htop.noEof, htop.inbox⟩
    obtain ⟨acked, hd⟩ := ih htop' hpulls hrest
      (fun z hz => by
        obtain ⟨h1, h2, h3, h4⟩ := hnames z (List.mem_cons_of_mem y hz)
        refine ⟨h1, h2, fun hin => ?_, h4⟩
        rcases Finset.mem_insert.mp hin with rfl | hin
        · exact hy hz
        · exact h3 hin)
      (by
        show (insert y p.acked).card + names.length = p.result.pushed.length
        rw [Finset.card_insert_of_notMem hnew]
        omega)
    have hfirst : Does (Party.next cfg) p [.ack ⟨y, true, none⟩] []
        (({ p with acked := insert y p.acked } : Party).settle cfg) := by
      refine does_message cfg htop.todo htop.phase (fun _ => hc) hframe ?_
      rw [hread]
      exact (does_settle cfg htop'.todo htop'.phase).1
    rw [hs]
    exact ⟨acked, hfirst.trans hd⟩

end FerriSync
