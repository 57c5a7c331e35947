/-
# The limits of the sender and of the receiver

The push phase sends any file of up to `MAX_FILE_SIZE`, 10 GiB, under any path
the scan has listed. The receiver refuses a chunk with a path of more than
`MAX_PATH_LEN` bytes, and one with which the buffered bytes exceed 256 MiB;
and it buffers a whole file before it commits it.

So a push phase is received, each file committed and no error returned, if and
only if each of its files is within the receiver's limits
(`push_received_iff`). The files are such that nothing else stands in the way:
their commits succeed, and their hashes are those of the index (`Offered`).

Key definitions: `Offered`, `Party.Receives`.
Key theorems: `stops_at`, `push_received_iff`.
-/
import FerriSync.Converge

namespace FerriSync

open Machine

/-- The end reads a push phase to its end, commits its files and returns no
error. -/
def Party.Receives (cfg : Config) (p : Party) (folderId : String) (xs : List SentFile) : Prop :=
  ∃ q outs, Does (Party.next cfg) p (pushMessages folderId xs) outs q ∧
    (∀ e, q.phase ≠ .ended (.error e)) ∧ q.committed = p.committed ++ xs.map fun x => (x.name, x.2)

/-- What a peer's scan lists and its push phase sends, with the hashes of its
index; `moved` are the files that may be committed. -/
structure Offered (cfg : Config) (moved : RelPath → Prop) (remote : List IndexEntry)
    (xs : List SentFile) : Prop where
  moved : ∀ x ∈ xs, moved x.1
  notMetadata : ∀ x ∈ xs, x.name ≠ "metadata.db"
  size : ∀ x ∈ xs, x.2.length ≤ maxFileSize
  hash : ∀ x ∈ xs, hashMatches cfg.blake3 remote x.name x.2 = true
  nodup : (xs.map (·.1)).Nodup

/-- The file is within the receiver's limits. -/
def SentFile.fits (x : SentFile) : Bool :=
  decide (x.name.utf8ByteSize ≤ maxPathLen) && decide (x.2.length ≤ 256 * 1024 * 1024)

/-- Out of its loop, an end commits nothing any more. -/
def Party.Stopped (p : Party) : Prop :=
  p.todo = [] ∧ (p.phase = .draining ∨ ∃ result, p.phase = .ended result)

variable {cfg : Config}

theorem Party.Stopped.committed {p q : Party} {ins outs : List SyncMessage} (hp : p.Stopped)
    (h : Does (Party.next cfg) p ins outs q) : q.committed = p.committed := by
  obtain ⟨ht, hph⟩ := hp
  have hnext : Party.next cfg p = .halt ∨ ∃ stop, Party.next cfg p = .drain stop := by
    rcases hph with hph | ⟨result, hph⟩
    · exact Or.inr ⟨_, by simp only [Party.next, ht, hph]; rfl⟩
    · exact Or.inl (by simp only [Party.next, ht, hph])
  induction h with
  | nothing => rfl
  | silent hs => rcases hnext with hn | ⟨stop, hn⟩ <;> (rw [hn] at hs; cases hs)
  | write hw => rcases hnext with hn | ⟨stop, hn⟩ <;> (rw [hn] at hw; cases hw)
  | read hr => rcases hnext with hn | ⟨stop, hn⟩ <;> (rw [hn] at hr; cases hr)
  | discard _ _ ih => exact ih ht hph hnext

section

variable {p : Party} {x : SentFile}

/-- A chunk that is refused, or whose frame is too large, is the end of the
loop. -/
theorem does_refused {c : FileChunk} (ht : p.todo = []) (hph : p.phase = .receiving)
    (hinc : cfg.role = .client → p.complete = false) (hm : c.path ≠ "metadata.db")
    (hr : ∃ why, receiveChunk p.inbox c = .refused why) :
    ∃ t, Does (Party.next cfg) p [.fileChunk c] [] t ∧ t.Stopped ∧ t.committed = p.committed := by
  obtain ⟨why, hwhy⟩ := hr
  cases hframe : frameTooLarge cfg.serialize (.fileChunk c) with
  | false =>
    refine ⟨p.fail why, does_message cfg ht hph hinc hframe ?_, ⟨rfl, Or.inr ⟨_, rfl⟩⟩, rfl⟩
    have hread : onMessage cfg p (.fileChunk c) = p.fail why := by
      rw [onMessage_chunk, onChunk, if_neg hm, hwhy]
    rw [hread]
    exact .nothing _
  | true =>
    have hnot : ¬ (cfg.role = .client ∧ p.complete = true) := fun h => by
      rw [hinc h.1] at h
      cases h.2
    have hnext : Party.next cfg p =
        readMessage cfg (onMessage cfg p) { p with phase := .draining } := by
      simp only [Party.next, ht, hph, if_neg hnot]
    refine ⟨{ p with phase := .draining }, .read hnext ?_, ⟨ht, Or.inl rfl⟩, rfl⟩
    rw [if_pos hframe]
    exact .nothing _

/-- The chunks of a large file are buffered until one is refused. -/
theorem does_too_large (folderId : String) (ht : p.todo = []) (hph : p.phase = .receiving)
    (heof : p.gotEof = false) (hinc : cfg.role = .client → ({ p with inbox := .empty } : Party).complete = false)
    (hm : x.name ≠ "metadata.db") (hname : x.name.utf8ByteSize ≤ maxPathLen)
    (hsize : x.2.length ≤ maxFileSize) (hlarge : 256 * 1024 * 1024 < x.2.length) :
    ∀ fuel offset, offset ≤ 256 * 1024 * 1024 → x.2.length < offset + fuel →
      (∀ c ∈ chunksFrom folderId x.name x.2 fuel offset,
        frameTooLarge cfg.serialize (.fileChunk c) = false) →
      ∃ ms rest t, (chunksFrom folderId x.name x.2 fuel offset).map SyncMessage.fileChunk = ms ++ rest ∧
        Does (Party.next cfg) { p with inbox := Inbox.upTo x.name x.2 offset } ms [] t ∧
        t.Stopped ∧ t.committed = p.committed := by
  intro fuel
  induction fuel with
  | zero => intro offset ho hfuel; omega
  | succ fuel ih =>
    intro offset ho hfuel hframes
    have hcs : chunkSize = 64 * 1024 := rfl
    by_cases hbeyond : 256 * 1024 * 1024 < min (offset + chunkSize) x.2.length
    · -- this chunk does not fit any more
      obtain ⟨t, hd, hstop, hcommitted⟩ := does_refused
        (p := { p with inbox := Inbox.upTo x.name x.2 offset })
        (c := chunkAt folderId x.name x.2 offset) ht hph (incomplete_upTo hinc offset) hm
        (receiveChunk_beyond folderId hsize (by omega) hbeyond)
      exact ⟨_, _, t, List.map_cons, hd, hstop, hcommitted⟩
    · have hend : ¬ x.2.length ≤ offset + chunkSize := by omega
      have hmore : chunksFrom folderId x.name x.2 (fuel + 1) offset =
          chunkAt folderId x.name x.2 offset ::
            chunksFrom folderId x.name x.2 fuel (min (offset + chunkSize) x.2.length) := by
        rw [chunksFrom, if_neg fun hle => hend ((stop_iff x.2 offset).mp hle)]
      rw [hmore] at hframes ⊢
      obtain ⟨ms, rest, t, hms, hd, hstop, hcommitted⟩ := ih (min (offset + chunkSize) x.2.length)
        (by omega) (by omega) fun c hc => hframes c (List.mem_cons_of_mem _ hc)
      refine ⟨.fileChunk (chunkAt folderId x.name x.2 offset) :: ms, rest, t, ?_, ?_, hstop, hcommitted⟩
      · rw [List.map_cons, hms, List.cons_append]
      · have hreceive := receiveChunk_within folderId hname hsize (by omega) (show offset ≤ x.2.length by omega)
        rw [if_neg hend] at hreceive
        have hchunk : onChunk cfg { p with inbox := Inbox.upTo x.name x.2 offset }
            (chunkAt folderId x.name x.2 offset) = { p with
              inbox := Inbox.upTo x.name x.2 (min (offset + chunkSize) x.2.length)
              phase := bottom cfg } := onChunk_more hm hreceive
        have hbottom := does_bottom cfg
          (p := { p with inbox := Inbox.upTo x.name x.2 (min (offset + chunkSize) x.2.length) }) ht heof
        rw [← hph] at hbottom
        have hfirst : Does (Party.next cfg) { p with inbox := Inbox.upTo x.name x.2 offset }
            [.fileChunk (chunkAt folderId x.name x.2 offset)] []
            { p with inbox := Inbox.upTo x.name x.2 (min (offset + chunkSize) x.2.length) } := by
          refine does_message cfg ht hph (incomplete_upTo hinc offset)
            (hframes _ (List.mem_cons_self ..)) ?_
          rw [onMessage_chunk, hchunk]
          exact hbottom
        exact hfirst.trans hd

/-- **A file out of limits is the end of the loop.** -/
theorem stops_at (hsizes : EncodedSizes cfg.serialize) (sender : Config) (htop : AtTop p)
    (hinc : cfg.role = .client → p.complete = false) (hm : x.name ≠ "metadata.db")
    (hsize : x.2.length ≤ maxFileSize) (hfits : x.fits = false) :
    ∃ ms rest t, fileMessages sender.folderIdStr x = ms ++ rest ∧
      Does (Party.next cfg) p ms [] t ∧ t.Stopped ∧ t.committed = p.committed := by
  by_cases hname : x.name.utf8ByteSize ≤ maxPathLen
  · have hlarge : 256 * 1024 * 1024 < x.2.length := by
      simp only [SentFile.fits, Bool.and_eq_false_iff, decide_eq_false_iff_not] at hfits
      rcases hfits with hfits | hfits
      · exact absurd hname hfits
      · omega
    have hframes := file_frames hsizes sender hname
    have hinc' : cfg.role = .client → ({ p with inbox := .empty } : Party).complete = false := by
      rw [← htop.inbox]
      exact hinc
    have hstops := does_too_large sender.folderIdStr htop.todo htop.phase htop.noEof
      hinc' hm hname hsize hlarge (x.2.length + 1) 0 (Nat.zero_le _) (by omega)
      fun c hc => hframes _ (List.mem_map_of_mem hc)
    rw [Inbox.upTo_zero, ← htop.inbox] at hstops
    exact hstops
  · obtain ⟨t, hd, hstop, hcommitted⟩ := does_refused (p := p)
      (c := chunkAt sender.folderIdStr x.name x.2 0) htop.todo htop.phase hinc hm
      (receiveChunk_refused _ _ (Nat.lt_of_not_le hname))
    exact ⟨[.fileChunk (chunkAt sender.folderIdStr x.name x.2 0)], _, t, rfl, hd, hstop, hcommitted⟩

end

section

variable {files moved : RelPath → Prop} {p : Party} {xs : List SentFile}
  (hapart : Apart files moved) (hsizes : EncodedSizes cfg.serialize) (sender : Config)
  (hoffered : Offered cfg moved p.remote xs)
include hapart hsizes hoffered

/-- Files that fit are files the end may get. -/
theorem Offered.expects {ys : List SentFile} (hsub : ys.Sublist xs) (hfits : ∀ y ∈ ys, y.fits = true) :
    Expects cfg sender.folderIdStr moved p.remote ys := by
  refine ⟨fun y hy => ?_, fun y hy => hoffered.moved y (hsub.subset hy),
    hoffered.nodup.sublist (hsub.map _)⟩
  obtain ⟨hname, hdata⟩ : y.name.utf8ByteSize ≤ maxPathLen ∧ y.2.length ≤ 256 * 1024 * 1024 := by
    simpa [SentFile.fits] using hfits y hy
  have hy' := hsub.subset hy
  exact ⟨hapart.ne_nil y.1 (hapart.sub y.1 (hoffered.moved y hy')), hoffered.notMetadata y hy', hname,
    hdata, file_frames hsizes sender hname, hoffered.hash y hy'⟩

variable (htop : AtTop p) (hclean : Clean files moved p.folder)
  (hpulls : cfg.role = .client → p.toPull.length = p.receivedPulls + xs.length)
include htop hclean hpulls

/-- **What is received fits.** -/
theorem fits_of_receives (h : p.Receives cfg sender.folderIdStr xs) : ∀ x ∈ xs, x.fits = true := by
  obtain ⟨q, outs, hq, -, hcommitted⟩ := h
  have hsettle := (does_settle cfg htop.todo htop.phase).1
  by_contra hnot
  -- the first file that does not fit
  obtain ⟨ys, x, zs, rfl, hys, hx⟩ : ∃ ys x zs, xs = ys ++ x :: zs ∧ (∀ y ∈ ys, y.fits = true) ∧
      x.fits = false := by
    cases hfind : xs.find? fun x => !x.fits with
    | none =>
      refine absurd (fun x hx => ?_) hnot
      simpa using List.find?_eq_none.mp hfind x hx
    | some x =>
      obtain ⟨hx, ys, zs, hxs, hys⟩ := List.find?_eq_some_iff_append.mp hfind
      exact ⟨ys, x, zs, hxs, fun y hy => by simpa using hys y hy, by simpa using hx⟩
  -- the end takes those before it and stops there
  have hlen : cfg.role = .client → p.receivedPulls + ys.length < p.toPull.length := fun hrole => by
    have hlen := hpulls hrole
    rw [List.length_append, List.length_cons] at hlen
    omega
  obtain ⟨r, hr, hconv⟩ := conversation_files hapart ys htop hclean
    (hoffered.expects hapart hsizes sender (List.sublist_append_left ..) hys) fun hrole => (hlen hrole).le
  have hinc : cfg.role = .client → r.complete = false := fun hrole =>
    incomplete_of_pulls (by rw [hr.receivedPulls, hr.toPull]; exact hlen hrole)
  have hmem : x ∈ ys ++ x :: zs := List.mem_append_right _ (List.mem_cons_self ..)
  obtain ⟨ms, rest, t, hms, hd, hstopped, hnone⟩ := stops_at hsizes sender hr.top hinc
    (hoffered.notMetadata x hmem) (hoffered.size x hmem) hx
  have hbefore := hsettle.trans_nil hconv.does
  rw [settle_of_incomplete hinc] at hbefore
  have hstops := hbefore.trans hd
  -- so it commits no more than those
  have hall : pushMessages sender.folderIdStr (ys ++ x :: zs) =
      (asked (fileBlocks sender.folderIdStr ys) ++ ms) ++
        (rest ++ zs.flatMap (fileMessages sender.folderIdStr) ++ [sentinel]) := by
    have hasked : asked (fileBlocks sender.folderIdStr ys) =
        ys.flatMap (fileMessages sender.folderIdStr) := by
      rw [asked, fileBlocks, List.flatMap_map]
    rw [pushMessages, List.flatMap_append, List.flatMap_cons, hms, hasked]
    simp only [List.append_assoc]
  have hprefix : asked (fileBlocks sender.folderIdStr ys) ++ ms <+:
      pushMessages sender.folderIdStr (ys ++ x :: zs) := hall ▸ List.prefix_append ..
  have hcount : q.committed.length ≤ p.committed.length + ys.length := by
    rcases Does.compare hstops hq hprefix (List.prefix_refl _) with
      ⟨is, os, -, -, hafter⟩ | ⟨is, os, hlong, -, -⟩
    · rw [hstopped.committed hafter, hnone, hr.committed, List.length_append, List.length_map]
    · rw [hall] at hlong
      have hlength := congrArg List.length hlong
      simp only [List.length_append, List.length_cons, List.length_nil] at hlength
      omega
  rw [hcommitted, List.length_append, List.length_map, List.length_append, List.length_cons] at hcount
  omega

/-- **What fits is received.** -/
theorem receives_of_fits (hfits : ∀ x ∈ xs, x.fits = true) : p.Receives cfg sender.folderIdStr xs := by
  have hsettle := (does_settle cfg htop.todo htop.phase).1
  obtain ⟨q, hq, hconv⟩ := conversation_push hapart hsizes xs htop hclean
    (hoffered.expects hapart hsizes sender (List.Sublist.refl xs) hfits) hpulls
  have hd := hconv.does
  rw [asked_pushBlocks] at hd
  have hclosed : (q.closed cfg).committed = q.committed ∧ ∀ e, (q.closed cfg).phase ≠ .ended (.error e) := by
    unfold Party.closed Party.settle
    cases cfg.role with
    | client =>
      dsimp only
      split_ifs
      · exact ⟨rfl, by simp⟩
      · exact ⟨rfl, by simp [hq.top.phase]⟩
    | server => exact ⟨rfl, by simp⟩
  exact ⟨_, _, hsettle.trans_nil hd, hclosed.2, hclosed.1.trans hq.committed⟩

end

/-- **A push phase is received exactly when all its files fit.** -/
theorem push_received_iff (cfg sender : Config) {files moved : RelPath → Prop}
    (hapart : Apart files moved) (hsizes : EncodedSizes cfg.serialize) (xs : List SentFile) (p : Party)
    (htop : AtTop p) (hclean : Clean files moved p.folder) (hoffered : Offered cfg moved p.remote xs)
    (hpulls : cfg.role = .client → p.toPull.length = p.receivedPulls + xs.length) :
    p.Receives cfg sender.folderIdStr xs ↔ ∀ x ∈ xs, x.fits = true :=
  ⟨fits_of_receives hapart hsizes sender hoffered htop hclean hpulls,
    receives_of_fits hapart hsizes sender hoffered htop hclean hpulls⟩

/-- A server at the top of its loop, with an empty folder. -/
def sampleReceiver : Party where
  folder := sampleFolder []
  phase := .receiving

/-- One file may come. -/
theorem sampleReceiver_apart {u : RelPath} (hne : u ≠ []) : Apart (· = u) (· = u) := by
  refine Apart.of_depth (List.length_pos_iff.mpr hne) (fun _ => id) (fun v hv => by rw [hv])
    (fun t v ht hv heq => ?_) fun t v ts l hash ht hv heq => ?_
  · rw [ht, hv] at heq
    exact RelPath.temp_ne hne heq
  · rw [ht, hv] at heq
    exact RelPath.backup_ne hne ts l hash heq

theorem sampleReceiver_clean (u : RelPath) : Clean (· = u) (· = u) sampleReceiver.folder where
  entries q x hx := by cases hx
  dirs d hd := absurd hd (Finset.notMem_empty d)

theorem sampleReceiver_top : AtTop sampleReceiver := ⟨rfl, rfl, rfl, rfl⟩

theorem sampleReceiver_offered {x : SentFile} (hm : x.name ≠ "metadata.db")
    (hsize : x.2.length ≤ maxFileSize) :
    Offered (sampleConfig .server) (· = x.1) sampleReceiver.remote [x] := by
  refine ⟨fun y hy => ?_, fun y hy => ?_, fun y hy => ?_, fun y hy => rfl, List.nodup_singleton _⟩
  · rw [List.mem_singleton.mp hy]
  · rw [List.mem_singleton.mp hy]
    exact hm
  · rw [List.mem_singleton.mp hy]
    exact hsize

theorem push_received_one :
    sampleReceiver.Receives (sampleConfig .server) (sampleConfig .client).folderIdStr
        [([sampleName], [97])] ↔ ∀ x ∈ [([sampleName], [97])], SentFile.fits x = true :=
  push_received_iff (sampleConfig .server) (sampleConfig .client)
    (sampleReceiver_apart (by decide)) Bincode.sizes [([sampleName], [97])] sampleReceiver
    sampleReceiver_top (sampleReceiver_clean _)
    (sampleReceiver_offered (by decide +kernel) (by decide)) (fun h => by cases h)

/-- A file with a path of 1044 bytes. -/
theorem push_refused : ¬ ∀ x : SentFile, x.1 ≠ [] → x.name ≠ "metadata.db" →
    x.2.length ≤ maxFileSize →
    sampleReceiver.Receives (sampleConfig .server) (sampleConfig .client).folderIdStr [x] := by
  intro h
  have hlong : longPath ≠ [] := by decide
  have hm : SentFile.name (longPath, [97]) ≠ "metadata.db" := by
    intro heq
    have hsize := longPath_size
    have hname : render longPath = "metadata.db" := heq
    rw [hname] at hsize
    exact absurd hsize (by decide)
  have hfits : SentFile.fits (longPath, [97]) = false := by
    have hsize : (SentFile.name (longPath, [97])).utf8ByteSize = 1044 := longPath_size
    rw [SentFile.fits, hsize]
    decide
  have hreceives := fits_of_receives (sampleReceiver_apart hlong) Bincode.sizes (sampleConfig .client)
    (sampleReceiver_offered hm (by decide)) sampleReceiver_top (sampleReceiver_clean _)
    (fun hrole => by cases hrole) (h (longPath, [97]) hlong hm (by decide)) (longPath, [97])
    (List.mem_singleton_self _)
  rw [hfits] at hreceives
  cases hreceives

end FerriSync
