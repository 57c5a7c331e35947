/-
# What a session commits has been verified

A complete file is checked against the hash of the peer's index before it is
committed, if the index lists its path. So in every run in which each chunk
that completes a file names a path of the index, whatever else the peer sends
and however the connection fails, each file committed is one of the index,
with the hash it gives, and nothing but such a commit changes the folder
(`commits_verified`). A file of any other path is committed unchecked
(`commits_unverified`).

Key definitions: `Verified`, `chunkKnown`, `FolderChange`.
Key theorems: `checked_step`, `folder_change`, `commits_verified`.
-/
import FerriSync.Steps

namespace FerriSync

open Machine

/-- The index lists the path, with the content's hash. -/
def Verified (blake3 : Bytes → FileHash) (entries : List IndexEntry) (path : String) (data : Bytes) :
    Prop := ∃ e ∈ entries, e.path = path ∧ (blake3 data).bytes = e.hash

/-- The chunk is the last of a file. -/
def completes (inbox : Inbox) (c : FileChunk) : Bool :=
  match receiveChunk inbox c with
  | .complete _ _ => true
  | _ => false

/-- A chunk that is read and completes a file names a path of the peer's index,
or the one name that is skipped. -/
def chunkKnown (p : Party) (i : Input SyncMessage) : Bool :=
  match p.todo, p.phase, i with
  | [], .receiving, .message (.fileChunk c) =>
    decide (c.path = "metadata.db") || !completes p.inbox c || p.remote.any fun e => e.path = c.path
  | _, _, _ => true

theorem verified_of_hashMatches {blake3 : Bytes → FileHash} {entries : List IndexEntry}
    {path : String} {data : Bytes} (hm : hashMatches blake3 entries path data = true)
    (hk : ∃ e ∈ entries, e.path = path) : Verified blake3 entries path data := by
  unfold hashMatches expectedHash at hm
  cases hf : entries.reverse.find? fun e => decide (e.path = path) with
  | none =>
    obtain ⟨e, he, hp⟩ := hk
    simpa [hp] using List.find?_eq_none.mp hf e (List.mem_reverse.mpr he)
  | some e =>
    rw [hf] at hm
    exact ⟨e, List.mem_reverse.mp (List.mem_of_find?_eq_some hf),
      by simpa using List.find?_some hf, by simpa using hm⟩

theorem mem_chunkActions {cfg : Config} {path : String} {data : Bytes} {a : Action}
    (h : a ∈ chunkActions cfg path data) : ∃ c, a = .write (.fileChunk c) := by
  obtain ⟨c, -, rfl⟩ := List.mem_map.mp h
  exact ⟨c, rfl⟩

theorem completes_of_complete {inbox inbox' : Inbox} {c : FileChunk} {data : Bytes}
    (h : receiveChunk inbox c = .complete inbox' data) : completes inbox c = true := by
  simp only [completes, h]

theorem exists_entry_of_known {p : Party} {c : FileChunk} {inbox : Inbox} {data : Bytes}
    (ht : p.todo = []) (hph : p.phase = .receiving)
    (hk : chunkKnown p (.message (.fileChunk c)) = true) (hm : c.path ≠ "metadata.db")
    (hr : receiveChunk p.inbox c = .complete inbox data) : ∃ e ∈ p.remote, e.path = c.path := by
  simp only [chunkKnown, ht, hph, completes_of_complete hr, Bool.or_eq_true, decide_eq_true_eq,
    Bool.not_true, Bool.false_eq_true, or_false, List.any_eq_true] at hk
  exact hk.resolve_left hm

section

variable {cfg : Config}

/-- What has been committed, and what is about to be, has been verified. -/
structure Checked (cfg : Config) (p : Party) : Prop where
  committed : ∀ x ∈ p.committed, Verified cfg.blake3 p.remote x.1 x.2
  pending : ∀ path t data, Action.install path t data ∈ p.todo →
    Verified cfg.blake3 p.remote path data ∧ safeJoin path = .ok t
  fresh : p.phase = .awaitIndex → p.committed = [] ∧
    ∀ path t data, Action.install path t data ∉ p.todo

theorem checked_start (f : Folder) : Checked cfg (start cfg f) := by
  unfold start
  cases cfg.role with
  | client => exact ⟨nofun, by simp [clientStart], by simp [clientStart]⟩
  | server => exact ⟨nofun, nofun, by simp [serverStart]⟩

/-- A step that commits nothing and has nothing new to commit. -/
theorem Checked.of_sub {p p' : Party} (h : Checked cfg p) (hr : p'.remote = p.remote)
    (hc : p'.committed = p.committed)
    (ht : ∀ path t data, Action.install path t data ∈ p'.todo → Action.install path t data ∈ p.todo)
    (hp : p'.phase = .awaitIndex → p.phase = .awaitIndex) : Checked cfg p' where
  committed := by rw [hc, hr]; exact h.committed
  pending path t data hm := by rw [hr]; exact h.pending path t data (ht path t data hm)
  fresh hph := by
    obtain ⟨h1, h2⟩ := h.fresh (hp hph)
    exact ⟨hc.trans h1, fun path t data hm => h2 path t data (ht path t data hm)⟩

theorem Checked.fail {p : Party} (h : Checked cfg p) (e : String) : Checked cfg (p.fail e) :=
  ⟨h.committed, nofun, nofun⟩

theorem checked_act {p p' : Party} {a : Action} {rest : List Action} (h : Checked cfg p)
    (ht : p.todo = a :: rest) (ha : ActEffect cfg { p with todo := rest } a p') :
    Checked cfg p' := by
  have hrest : ∀ path t data, Action.install path t data ∈ rest →
      Action.install path t data ∈ p.todo := fun path t data hm => by
    rw [ht]; exact List.mem_cons_of_mem a hm
  have hq : Checked cfg { p with todo := rest } := h.of_sub rfl rfl hrest id
  cases ha with
  | failed _ e => exact hq.fail e
  | write m => exact hq
  | progress s => exact hq
  | finishDry => exact hq.of_sub rfl rfl (fun _ _ _ => id) nofun
  | unreadable => exact hq
  | pushFile | serve =>
    refine hq.of_sub rfl rfl (fun path t data hm => ?_) id
    rcases List.mem_append.mp hm with hm | hm
    · obtain ⟨c, hc⟩ := mem_chunkActions hm
      cases hc
    · simpa using hm
  | uploaded path len => exact hq.of_sub rfl rfl (fun _ _ _ => id) id
  | filePushed path => exact hq
  | conflict path => exact hq.of_sub rfl rfl (fun _ _ _ => id) id
  | installFailed hn => exact ⟨hq.committed, nofun, nofun⟩
  | @install path t data g hn =>
    obtain ⟨hv, -⟩ := h.pending path t data (by rw [ht]; exact List.mem_cons_self ..)
    refine ⟨fun x hx => ?_, hq.pending, fun hph => ?_⟩
    · rcases List.mem_append.mp hx with hx | hx
      · exact h.committed x hx
      · rw [List.mem_singleton] at hx
        subst hx
        exact hv
    · exact absurd (by rw [ht]; exact List.mem_cons_self ..) ((h.fresh hph).2 path t data)
  | downloaded path len => exact hq.of_sub rfl rfl (fun _ _ _ => id) id
  | filePulled path => exact hq.of_sub rfl rfl (fun _ _ _ => id) id
  | unserved path => exact hq
  | served path len => exact hq.of_sub rfl rfl (fun _ _ _ => id) id

theorem mem_commitActions {path path' : String} {t t' : Target} {data data' : Bytes}
    (h : Action.install path t data ∈ commitActions cfg path' t' data') :
    path = path' ∧ t = t' ∧ data = data' := by
  unfold commitActions at h
  cases hr : cfg.role <;> simpa [hr] using h

theorem checked_index {p : Party} (h : Checked cfg p) (hph : p.phase = .awaitIndex)
    (m : SyncMessage) : Checked cfg (onIndex cfg p m) := by
  obtain ⟨hc, -⟩ := h.fresh hph
  unfold onIndex
  cases cfg.role with
  | client =>
    cases m with
    | index remote =>
      simp only [clientIndex]
      split_ifs with h1 h2
      · exact h.fail _
      · exact ⟨by simp [hc], by simp, by simp [hc]⟩
      · refine ⟨by simp [hc], ?_, nofun⟩
        intro path t data hm
        simp at hm
    | _ => exact h.fail _
  | server =>
    cases m with
    | index remote =>
      simp only [serverIndex]
      split_ifs with h1
      · exact h.fail _
      · split
        · exact h.fail _
        · refine ⟨by simp [hc], ?_, nofun⟩
          intro path t data hm
          simp at hm
    | _ => exact h.fail _

theorem checked_chunk {p p' : Party} {c : FileChunk} (h : Checked cfg p)
    (ht : p.todo = []) (hph : p.phase = .receiving) (hk : chunkKnown p (.message (.fileChunk c)) = true)
    (hc : ChunkEffect cfg p c p') : Checked cfg p' := by
  have hb : bottom cfg ≠ .awaitIndex := by
    unfold bottom
    cases cfg.role <;> nofun
  cases hc with
  | metadata hm => exact h.of_sub rfl rfl (fun _ _ _ => id) nofun
  | refused e => exact h.fail e
  | more hr => exact h.of_sub rfl rfl (fun _ _ _ => id) fun hp => absurd hp hb
  | mismatch hr hh => exact ⟨h.committed, by simp, nofun⟩
  | unsafePath e => exact ⟨h.committed, nofun, nofun⟩
  | prepareFailed hm hr hh hj hp => exact ⟨h.committed, nofun, nofun⟩
  | prepared hm hr hh hj hp =>
    rename_i inbox data t conflicted g
    have hknown := exists_entry_of_known ht hph hk hm hr
    refine ⟨h.committed, fun path t' data' hin => ?_, fun hp => absurd hp hb⟩
    have hin' : Action.install path t' data' ∈ commitActions cfg c.path t data := by
      rcases List.mem_append.mp hin with hin | hin
      · cases conflicted <;> simp at hin
      · exact hin
    obtain ⟨rfl, rfl, rfl⟩ := mem_commitActions hin'
    exact ⟨verified_of_hashMatches hh hknown, hj⟩

/-- **Each step keeps what has been verified.** -/
theorem checked_step {p : Party} {i : Input SyncMessage} (h : Checked cfg p)
    (hk : chunkKnown p i = true) : Checked cfg (step (Party.next cfg) p i) := by
  have he := step_effect cfg p i
  generalize step (Party.next cfg) p i = p' at he
  cases he with
  | idle => exact h
  | act ht ha => exact checked_act h ht ha
  | noIndex e hph => exact h.fail e
  | index m ht hph => exact checked_index h hph m
  | complete _ ht hph => exact h.of_sub rfl rfl (fun _ _ _ => id) nofun
  | broken _ ht hph => exact h.of_sub rfl rfl (fun _ _ _ => id) nofun
  | message ht hph hc hm =>
    cases hm with
    | chunk hc => exact checked_chunk h ht hph hk hc
    | ack => exact h.of_sub rfl rfl (fun _ _ _ => id) id
    | eof a => exact h.of_sub rfl rfl (fun _ _ _ => id) nofun
    | request r paths =>
      refine ⟨h.committed, by simp, fun hp => ?_⟩
      unfold bottom at hp
      revert hp
      cases cfg.role <;> nofun
    | tooMany r => exact h.of_sub rfl rfl (fun _ _ _ => id) nofun
    | ignored m => exact h
    | unused m => exact h.of_sub rfl rfl (fun _ _ _ => id) nofun
  | check _ ht hph =>
    refine h.of_sub rfl rfl (fun _ _ _ => id) fun hp => ?_
    dsimp only at hp
    split_ifs at hp
  | stopped _ ht hph => exact h.of_sub rfl rfl (fun _ _ _ => id) nofun

/-! ### What changes the folder -/

/-- How a step may change the folder: the server turns to the folder it is to
serve, or a verified file is prepared for or put in place. -/
inductive FolderChange (cfg : Config) (p p' : Party) : Prop
  | same : p'.folder = p.folder → FolderChange cfg p p'
  | served : p.phase = .awaitIndex → FolderChange cfg p p'
  | prepare (path : String) (t : Target) (data : Bytes) :
      Verified cfg.blake3 p.remote path data → safeJoin path = .ok t →
      p'.folder = (prepare cfg.blake3 (cfg.secs p.tick) cfg.label t data p.folder).2 →
      FolderChange cfg p p'
  | install (path : String) (t : Target) (data : Bytes) :
      Verified cfg.blake3 p.remote path data → safeJoin path = .ok t →
      p'.folder = (install t data (cfg.mtime p.tick) p.folder).2 → FolderChange cfg p p'

theorem folder_change {p : Party} {i : Input SyncMessage} (h : Checked cfg p)
    (hk : chunkKnown p i = true) : FolderChange cfg p (step (Party.next cfg) p i) := by
  have he := step_effect cfg p i
  generalize step (Party.next cfg) p i = p' at he
  cases he with
  | act ht ha =>
    cases ha with
    | installFailed hn =>
      obtain ⟨hv, hj⟩ := h.pending _ _ _ (by rw [ht]; exact List.mem_cons_self ..)
      exact .install _ _ _ hv hj (by rw [hn]; rfl)
    | install hn =>
      obtain ⟨hv, hj⟩ := h.pending _ _ _ (by rw [ht]; exact List.mem_cons_self ..)
      exact .install _ _ _ hv hj (by rw [hn])
    | _ => exact .same rfl
  | index m ht hph => exact .served hph
  | message ht hph hc hm =>
    cases hm with
    | chunk hc =>
      rename_i c
      cases hc with
      | prepareFailed hne hr hh hj hp =>
        exact .prepare _ _ _ (verified_of_hashMatches hh (exists_entry_of_known ht hph hk hne hr)) hj
          (by rw [hp]; rfl)
      | prepared hne hr hh hj hp =>
        exact .prepare _ _ _ (verified_of_hashMatches hh (exists_entry_of_known ht hph hk hne hr)) hj
          (by rw [hp])
      | _ => exact .same rfl
    | _ => exact .same rfl
  | _ => exact .same rfl

/-- What an end takes for its peer's index changes only when it reads one. -/
theorem remote_step (cfg : Config) (p : Party) (i : Input SyncMessage) :
    (step (Party.next cfg) p i).remote = p.remote ∨
      ∃ idx, i = .message (.index idx) ∧ (step (Party.next cfg) p i).remote = idx.entries := by
  have he := step_effect cfg p i
  generalize step (Party.next cfg) p i = p' at he
  cases he with
  | act ht ha => cases ha <;> exact Or.inl rfl
  | index m ht hph =>
    cases m with
    | index idx =>
      unfold onIndex clientIndex serverIndex
      cases cfg.role with
      | client =>
        dsimp only
        split_ifs
        · exact Or.inl rfl
        · exact Or.inr ⟨idx, rfl, rfl⟩
        · exact Or.inr ⟨idx, rfl, rfl⟩
      | server =>
        dsimp only
        split_ifs
        · exact Or.inl rfl
        · split
          · exact Or.inl rfl
          · exact Or.inr ⟨idx, rfl, rfl⟩
    | _ =>
      unfold onIndex
      cases cfg.role <;> exact Or.inl rfl
  | message ht hph hc hm =>
    cases hm with
    | chunk hc => cases hc <;> exact Or.inl rfl
    | _ => exact Or.inl rfl
  | _ => exact Or.inl rfl

theorem remote_eq (cfg : Config) (f : Folder) (is : List (Input SyncMessage)) :
    (run (Party.next cfg) (start cfg f) is).remote = [] ∨
      ∃ idx, .message (.index idx) ∈ is ∧
        (run (Party.next cfg) (start cfg f) is).remote = idx.entries := by
  have hstep : ∀ p i, (p.remote = [] ∨ ∃ idx, .message (.index idx) ∈ is ∧ p.remote = idx.entries) →
      i ∈ is → ((step (Party.next cfg) p i).remote = [] ∨
        ∃ idx, .message (.index idx) ∈ is ∧ (step (Party.next cfg) p i).remote = idx.entries) := by
    intro p i h hi
    rcases remote_step cfg p i with hr | ⟨idx, rfl, hr⟩
    · rwa [hr]
    · exact Or.inr ⟨idx, hi, hr⟩
  refine run_inv hstep (Or.inl ?_) fun _ h => h
  unfold start
  cases cfg.role <;> rfl

end

/-- **Only verified files are committed.** In every run of either end in which
each chunk that completes a file names a path of the peer's index, each file
committed is at a path of that index and has the hash it gives, and no step changes the
folder but one of such a commit. -/
theorem commits_verified (cfg : Config) (f : Folder) (is : List (Input SyncMessage))
    (h : along (Party.next cfg) chunkKnown (start cfg f) is = true) :
    (∀ x ∈ (run (Party.next cfg) (start cfg f) is).committed, ∃ idx,
      .message (.index idx) ∈ is ∧ (run (Party.next cfg) (start cfg f) is).remote = idx.entries ∧
      Verified cfg.blake3 idx.entries x.1 x.2) ∧
    ∀ pre i post, is = pre ++ i :: post →
      FolderChange cfg (run (Party.next cfg) (start cfg f) pre)
        (run (Party.next cfg) (start cfg f) (pre ++ [i])) := by
  refine ⟨fun x hx => ?_, ?_⟩
  · have hv := (along_inv (fun p i _ => checked_step) (checked_start f) h).committed x hx
    rcases remote_eq cfg f is with h0 | ⟨idx, hidx, hr⟩
    · rw [h0] at hv
      obtain ⟨e, he, -⟩ := hv
      cases he
    · exact ⟨idx, hidx, hr, hr ▸ hv⟩
  · rintro pre i post rfl
    obtain ⟨hpre, hpost⟩ := along_append.mp h
    rw [along, Bool.and_eq_true] at hpost
    rw [run_append]
    exact folder_change (along_inv (fun p i _ => checked_step) (checked_start f) hpre) hpost.1

/-- The index entry of a file `f` with content `a`. -/
def sampleEntry : IndexEntry := fileIndexEntry sampleBlake3 [sampleName] ⟨[97], 1700000000000000000⟩

/-- What a peer sends that lists `f` and sends it. -/
def sampleInputs : List (Input SyncMessage) :=
  [.message (.index ⟨"1", "phone", none, [sampleEntry]⟩), .go, .go, .go,
    .message (.fileChunk ⟨"1", "f", 0, [97], 1⟩), .go]

theorem commits_verified_one :
    ∃ idx, .message (.index idx) ∈ sampleInputs ∧
      (run (Party.next (sampleConfig .server)) (start (sampleConfig .server) (sampleFolder []))
        sampleInputs).remote = idx.entries ∧
      Verified sampleBlake3 idx.entries "f" [97] :=
  (commits_verified (sampleConfig .server) (sampleFolder []) sampleInputs (by decide +kernel)).1
    ("f", [97]) (by decide +kernel)

/-- A peer whose index is empty sends the server a file `f`, which commits it. -/
theorem commits_unverified :
    ¬ ∀ x ∈ (run (Party.next (sampleConfig .server))
        (start (sampleConfig .server) (sampleFolder []))
        [.message (.index ⟨"1", "phone", none, []⟩), .go, .go, .go,
          .message (.fileChunk ⟨"1", "f", 0, [97], 1⟩), .go]).committed,
      Verified sampleBlake3 [] x.1 x.2 := by
  intro h
  obtain ⟨e, he, -⟩ := h ("f", [97]) (by decide +kernel)
  cases he

end FerriSync
