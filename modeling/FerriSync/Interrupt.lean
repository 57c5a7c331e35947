/-
# Interrupted commits

A crash or an I/O error can end a commit at any point (`Interruption`):
before the backup, between the backup and the temporary file, with part of
the temporary file written, at the final rename, or not at all. `interrupted`
is the folder the commit leaves there.

What is promised of it (`Intact`): the target holds its old content or the
new one in full, and the next scan finds nothing that was not there before but
the new file and the backup. `commit_intact_iff` says exactly when that is so.
A commit that replaces content leaves no target from the backup to the final
rename; one that does not still leaves the temporary file, which the scan
lists as a user's file, from its creation to the rename.

Key definitions: `Interruption`, `interrupted`, `Intact`, `Interruption.harmless`.
Key theorems: `interrupted_completed`, `prepare_eq`, `commit_intact_iff`.
-/
import FerriSync.Commit

namespace FerriSync

/-- Where a commit ends. -/
inductive Interruption
  /-- Before the target is renamed to its backup. -/
  | beforeBackup
  /-- After that, before the temporary file is created. -/
  | beforeWrite
  /-- When the temporary file has its first `n` bytes, or all. -/
  | duringWrite (n : ℕ)
  /-- The final rename fails and the temporary file is removed. -/
  | renameFailed
  /-- The commit ends by itself. -/
  | completed
deriving DecidableEq

section

variable (blake3 : Bytes → FileHash) (ts : ℕ) (winner : String) (t : Target) (data : Bytes)
  (mtime : ℤ)

/-- The folder a commit leaves that ends at the given point. A commit that
cannot make its backup ends there by itself. -/
def interrupted (i : Interruption) (f : Folder) : Folder :=
  match prepare blake3 ts winner t data f with
  | (.error _, g) => g
  | (.ok _, g) =>
    match i with
    | .beforeBackup => f
    | .beforeWrite => g
    | .duringWrite n =>
      match g.write t.path.temp (data.take n) mtime with
      | .error _ => g
      | .ok h => h
    | .renameFailed =>
      match g.write t.path.temp data mtime with
      | .error _ => g
      | .ok h => h.remove t.path.temp
    | .completed => (install t data mtime g).2

theorem interrupted_completed (f : Folder) :
    interrupted blake3 ts winner t data mtime .completed f =
      (commitFile blake3 ts winner t data mtime f).2 := by
  unfold interrupted commitFile
  rcases prepare blake3 ts winner t data f with ⟨_ | c, g⟩
  · rfl
  · dsimp only
    rcases install t data mtime g with ⟨_ | u, h⟩ <;> rfl

/-- What an interrupted commit must keep: the target is the old one or the new
one, and every file the scan lists held its content before, or is the new
target, or the old target at its backup. -/
structure Intact (f g : Folder) : Prop where
  target : g.content t.path = f.content t.path ∨ g.content t.path = some data
  scan : ∀ q b, Folder.skipped q = false → g.content q = some b →
    f.content q = some b ∨ (q = t.path ∧ b = data) ∨
      (q = backupPath blake3 ts winner t data ∧ f.content t.path = some b)

/-- A file stands where the target's directory should be. -/
def blocked (f : Folder) : Bool := t.path.dropLast.inits.any fun q => (f.entry q).isSome

/-- The target is a file of other content, and its backup can be made. -/
def replaces (f : Folder) : Bool :=
  !blocked t f &&
  match f.read t with
  | .error _ => false
  | .ok old => decide (old ≠ data) && !f.isDir (backupPath blake3 ts winner t data)

/-- The commit does not get to the temporary file: its directory or its backup
cannot be made, or the target is a directory. -/
def refused (f : Folder) : Bool :=
  blocked t f || f.targetExists t &&
  match f.read t with
  | .error _ => true
  | .ok old => decide (old ≠ data) && f.isDir (backupPath blake3 ts winner t data)

/-- The points at which an interruption does no harm. -/
def Interruption.harmless (i : Interruption) (f : Folder) : Bool :=
  refused blake3 ts winner t data f ||
  match i with
  | .beforeBackup => true
  | .beforeWrite => !replaces blake3 ts winner t data f
  | .duringWrite n => !replaces blake3 ts winner t data f &&
      (f.isDir t.path.temp || decide (f.content t.path.temp = some (data.take n)))
  | .renameFailed => !replaces blake3 ts winner t data f
  | .completed => !replaces blake3 ts winner t data f || !f.isDir t.path.temp

end

/-! ### What a commit prepares, from the folder it finds -/

theorem mem_inits_length {p q : RelPath} (h : q ∈ p.dropLast.inits) (hp : p ≠ []) :
    q.length < p.length := by
  have h1 := (List.mem_inits q _).mp h |>.length_le
  have h2 := List.length_pos_of_ne_nil hp
  rw [List.length_dropLast] at h1
  omega

theorem mapLast_length (g : FileName → FileName) (p : RelPath) :
    (RelPath.mapLast g p).length = p.length := by
  rcases eq_or_ne p [] with rfl | hp
  · rfl
  · obtain ⟨d, n, rfl⟩ := RelPath.eq_append_of_ne_nil hp
    simp [RelPath.mapLast_append]

/-- Making the target's directory makes no directory as deep as the target. -/
theorem isDir_createDirAll {f g : Folder} {p q : RelPath} (h : f.createDirAll p.dropLast = .ok g)
    (hlen : q.length = p.length) : g.isDir q = f.isDir q := by
  obtain ⟨-, hdirs, -⟩ := Folder.createDirAll_ok h
  rcases eq_or_ne p [] with rfl | hp
  · have : q = [] := List.length_eq_zero_iff.mp (by simpa using hlen)
    simp [Folder.isDir, this]
  · have hq : q ∉ p.dropLast.inits := fun hm => by
      have := mem_inits_length hm hp
      omega
    simp [Folder.isDir, hdirs, List.mem_toFinset, hq]

section

variable (blake3 : Bytes → FileHash) (ts : ℕ) (winner : String) (t : Target) (data : Bytes)
  (f : Folder)

/-- The three things a preparation can come to. -/
inductive Prepared : Except String Bool × Folder → Prop
  | refused {e : String} {g : Folder} : refused blake3 ts winner t data f = true →
      g.files = f.files → Prepared (.error e, g)
  | kept {g : Folder} : refused blake3 ts winner t data f = false →
      replaces blake3 ts winner t data f = false → g.files = f.files →
      (∀ q, q.length = t.path.length → g.isDir q = f.isDir q) →
      (t.asDir = true ∨ ∀ e, f.entry t.path = some e → e.data = data) → Prepared (.ok false, g)
  | backedUp {g : Folder} {old : FileEntry} : refused blake3 ts winner t data f = false →
      replaces blake3 ts winner t data f = true → t.asDir = false → f.isDir t.path = false →
      f.entry t.path = some old → old.data ≠ data →
      (∀ q, g.entry q = if q = backupPath blake3 ts winner t data then some old
        else if q = t.path then none else f.entry q) →
      (∀ q, q.length = t.path.length → g.isDir q = f.isDir q) → Prepared (.ok true, g)

theorem prepare_eq :
    Prepared blake3 ts winner t data f (prepare blake3 ts winner t data f) := by
  unfold prepare
  by_cases hblk : blocked t f = true
  · have hc : f.createDirAll t.path.dropLast = .error "Not a directory" := if_pos hblk
    rw [hc]
    exact .refused (by simp [refused, hblk]) rfl
  obtain ⟨f1, hc⟩ : ∃ f1, f.createDirAll t.path.dropLast = .ok f1 := ⟨_, if_neg hblk⟩
  obtain ⟨hfiles, -, -⟩ := Folder.createDirAll_ok hc
  have hentry : ∀ q, f1.entry q = f.entry q := fun q => by simp only [Folder.entry, hfiles]
  have hdir : ∀ q, q.length = t.path.length → f1.isDir q = f.isDir q :=
    fun q hq => isDir_createDirAll hc hq
  have hexists : f1.targetExists t = f.targetExists t := by
    simp only [Folder.targetExists, hdir _ rfl, hentry]
  have hread : f1.read t = f.read t := by simp only [Folder.read, hdir _ rfl, hentry]
  have hbdir : f1.isDir (backupPath blake3 ts winner t data) =
      f.isDir (backupPath blake3 ts winner t data) := hdir _ (mapLast_length _ _)
  have hblk' : blocked t f = false := by simpa using hblk
  rw [hc]
  dsimp only
  unfold backupOnConflict
  by_cases hx : f.targetExists t = false
  · rw [if_pos (hexists.trans hx)]
    simp only [Folder.targetExists, Bool.or_eq_false_iff, Bool.and_eq_false_iff,
      Bool.not_eq_false'] at hx
    have hr : ∃ e, f.read t = .error e := by
      unfold Folder.read
      rcases hx.2 with h | h
      · exact ⟨_, if_pos (by simp [h])⟩
      · rw [Option.isSome_eq_false_iff, Option.isNone_iff_eq_none] at h
        rw [h]
        split_ifs <;> exact ⟨_, rfl⟩
    obtain ⟨e, hr⟩ := hr
    refine .kept ?_ ?_ hfiles hdir ?_
    · simp only [refused, hblk', Bool.false_or, Bool.and_eq_false_iff]
      left
      simp only [Folder.targetExists, Bool.or_eq_false_iff, Bool.and_eq_false_iff,
        Bool.not_eq_false']
      exact hx
    · simp [replaces, hr]
    · rcases hx.2 with h | h
      · exact Or.inl h
      · refine Or.inr fun e he => ?_
        rw [he] at h
        cases h
  · have hx' : f.targetExists t = true := by simpa using hx
    rw [if_neg (by rw [hexists, hx']; decide), hread]
    cases hr : f.read t with
    | error e => exact .refused (by simp [refused, hx', hr]) hfiles
    | ok old =>
      obtain ⟨has, hd, e, he, hdata⟩ := Folder.read_ok hr
      dsimp only
      by_cases heq : old = data
      · rw [if_pos heq]
        refine .kept (by simp [refused, hblk', hr, heq]) (by simp [replaces, hr, heq]) hfiles hdir
          (Or.inr fun e' he' => ?_)
        rw [he] at he'
        cases he'
        exact hdata.trans heq
      · rw [if_neg heq]
        by_cases hb : f.isDir (backupPath blake3 ts winner t data) = true
        · have hn : f1.rename t.path ⟨backupPath blake3 ts winner t data, false⟩ =
              .error "Is a directory" := by
            simp [Folder.rename, hentry, he, hbdir, hb]
          rw [hn]
          exact .refused (by simp [refused, hx', hr, heq, hb]) hfiles
        · have hb' : f.isDir (backupPath blake3 ts winner t data) = false := by simpa using hb
          obtain ⟨g, hn⟩ := Folder.rename_of_entry (f := f1) (p := t.path)
            (t := ⟨backupPath blake3 ts winner t data, false⟩) (by rw [hentry]; exact he) rfl
            (hbdir.trans hb')
          obtain ⟨old', hold, hent⟩ := Folder.entry_rename hn
          rw [hentry, he] at hold
          cases hold
          rw [hn]
          refine .backedUp (by simp [refused, hblk', hr, hb']) (by simp [replaces, hblk', hr, heq, hb'])
            has hd he (by rwa [hdata]) (fun q => ?_) fun q hq => ?_
          · rw [hent, hentry]
          · rw [← hdir q hq]
            simp only [Folder.isDir, Folder.rename_dirs hn]

end

/-! ### When an interruption does no harm -/

section

variable {blake3 : Bytes → FileHash} {ts : ℕ} {winner : String} {t : Target} {data : Bytes}
  {mtime : ℤ} {f : Folder}

theorem not_intact_of_gone {g : Folder} {old : FileEntry} (he : f.entry t.path = some old)
    (hg : g.content t.path = none) : ¬ Intact blake3 ts winner t data f g := by
  intro h
  rcases h.target with ht | ht
  · rw [hg, Folder.content, he] at ht
    cases ht
  · rw [hg] at ht
    cases ht

/-- Every file is the old one: nothing is lost. -/
theorem intact_of_entry {g : Folder} (h : ∀ q, g.entry q = f.entry q) :
    Intact blake3 ts winner t data f g :=
  ⟨Or.inl (Folder.content_of_entry_eq (h _)),
    fun q _ _ hb => Or.inl (by rwa [Folder.content_of_entry_eq (h q)] at hb)⟩

/-- A file less at the temporary name is no harm. -/
theorem intact_of_removed {g : Folder} (hne : t.path ≠ [])
    (h : ∀ q, g.entry q = if q = t.path.temp then none else f.entry q) :
    Intact blake3 ts winner t data f g := by
  refine ⟨Or.inl (Folder.content_of_entry_eq ?_), fun q b _ hb => Or.inl ?_⟩
  · rw [h, if_neg (RelPath.temp_ne hne).symm]
  · by_cases hq : q = t.path.temp
    · rw [Folder.content, h, if_pos hq] at hb
      cases hb
    · rwa [Folder.content_of_entry_eq (g := g) (f := f) (by rw [h, if_neg hq])] at hb

/-- The new file in place, and nothing else new but a backup of the old. -/
theorem intact_of_installed {g h : Folder} {m : ℤ}
    (hg : ∀ q, q ≠ t.path → g.entry q = f.entry q ∨
      q = backupPath blake3 ts winner t data ∧ g.entry q = f.entry t.path)
    (hh : ∀ q, h.entry q = if q = t.path then some ⟨data, m⟩
      else if q = t.path.temp then none else g.entry q) :
    Intact blake3 ts winner t data f h := by
  refine ⟨Or.inr (Folder.content_eq_some.mpr ⟨⟨data, m⟩, by rw [hh, if_pos rfl], rfl⟩),
    fun q b _ hb => ?_⟩
  obtain ⟨e, he, rfl⟩ := Folder.content_eq_some.mp hb
  rw [hh] at he
  split_ifs at he with h1 h2
  · cases he
    exact Or.inr (Or.inl ⟨h1, rfl⟩)
  · rcases hg q h1 with hq | ⟨hq, hb⟩
    · exact Or.inl (Folder.content_eq_some.mpr ⟨e, hq.symm.trans he, rfl⟩)
    · exact Or.inr (Or.inr ⟨hq, Folder.content_eq_some.mpr ⟨e, hb.symm.trans he, rfl⟩⟩)

/-- A temporary file is no `metadata.db`: the scan lists it. -/
theorem skipped_temp {p : RelPath} (hp : p ≠ []) : Folder.skipped p.temp = false := by
  obtain ⟨d, n, rfl⟩ := RelPath.eq_append_of_ne_nil hp
  simp only [Folder.skipped, RelPath.temp, RelPath.mapLast_append, List.getLast?_append_cons,
    List.getLast?_singleton, Option.map_some, Option.some.injEq, decide_eq_false_iff_not]
  intro h
  have hl := n.temp_getLast
  rw [h] at hl
  revert hl
  decide

/-- The temporary file with part of the data is harmless only where a file of
just that content stood before. -/
theorem intact_temp_iff {g : Folder} {d : Bytes} {m : ℤ} (hne : t.path ≠ [])
    (h : ∀ q, g.entry q = if q = t.path.temp then some ⟨d, m⟩ else f.entry q) :
    Intact blake3 ts winner t data f g ↔ f.content t.path.temp = some d := by
  constructor
  · intro hi
    have hc : g.content t.path.temp = some d :=
      Folder.content_eq_some.mpr ⟨⟨d, m⟩, by rw [h, if_pos rfl], rfl⟩
    rcases hi.scan _ _ (skipped_temp hne) hc with ht | ⟨ht, -⟩ | ⟨ht, -⟩
    · exact ht
    · exact absurd ht (RelPath.temp_ne hne)
    · exact absurd ht (RelPath.temp_ne_backup hne _ _ _)
  · intro hd
    refine ⟨Or.inl (Folder.content_of_entry_eq ?_), fun q b _ hb => Or.inl ?_⟩
    · rw [h, if_neg (RelPath.temp_ne hne).symm]
    · by_cases hq : q = t.path.temp
      · subst hq
        rw [Folder.content, h, if_pos rfl] at hb
        rwa [← hb]
      · rwa [Folder.content_of_entry_eq (g := g) (f := f) (by rw [h, if_neg hq])] at hb

theorem temp_ne_nil_of_not_dir (h : f.isDir t.path.temp = false) : t.path ≠ [] := fun h0 =>
  Folder.ne_nil_of_not_dir h (by rw [h0]; rfl)

/-- A commit that makes no backup is in danger only while the temporary file
stands. -/
theorem intact_kept {g : Folder} (i : Interruption) (hfiles : g.files = f.files)
    (hdir : ∀ q, q.length = t.path.length → g.isDir q = f.isDir q)
    (hp : prepare blake3 ts winner t data f = (.ok false, g)) :
    Intact blake3 ts winner t data f (interrupted blake3 ts winner t data mtime i f) ↔
      ∀ n, i = .duringWrite n →
        f.isDir t.path.temp = true ∨ f.content t.path.temp = some (data.take n) := by
  have hentry : ∀ q, g.entry q = f.entry q := fun q => by simp only [Folder.entry, hfiles]
  have htdir : g.isDir t.path.temp = f.isDir t.path.temp := hdir _ (mapLast_length _ _)
  unfold interrupted
  rw [hp]
  cases i with
  | beforeBackup => simp [intact_of_entry]
  | beforeWrite => simp [intact_of_entry hentry]
  | duringWrite n =>
    dsimp only
    simp only [Interruption.duringWrite.injEq, forall_eq']
    cases hw : g.write t.path.temp (data.take n) mtime with
    | error e =>
      have hd : g.isDir t.path.temp = true := by
        by_contra hd
        simp [Folder.write, hd] at hw
      simp [intact_of_entry hentry, ← htdir, hd]
    | ok h =>
      have hd : f.isDir t.path.temp = false := htdir ▸ Folder.not_dir_of_write hw
      have hent : ∀ q, h.entry q = if q = t.path.temp then some ⟨data.take n, mtime⟩
          else f.entry q := fun q => by rw [Folder.entry_write hw, hentry]
      rw [intact_temp_iff (temp_ne_nil_of_not_dir hd) hent, hd]
      simp
  | renameFailed =>
    dsimp only
    simp only [reduceCtorEq, false_implies, implies_true, iff_true]
    cases hw : g.write t.path.temp data mtime with
    | error e => exact intact_of_entry hentry
    | ok h =>
      have hd : f.isDir t.path.temp = false := htdir ▸ Folder.not_dir_of_write hw
      refine intact_of_removed (temp_ne_nil_of_not_dir hd) fun q => ?_
      rw [Folder.entry_remove, Folder.entry_write hw, hentry]
      split_ifs <;> rfl
  | completed =>
    dsimp only
    simp only [reduceCtorEq, false_implies, implies_true, iff_true]
    rcases install_cases t data mtime g with
      (⟨e, hi⟩ | ⟨e, h, hi, hne, -, he⟩) | ⟨h, hi, -, -, -, he⟩
    · rw [hi]; exact intact_of_entry hentry
    · rw [hi]; exact intact_of_removed hne fun q => by rw [he, hentry]
    · rw [hi]; exact intact_of_installed (fun q _ => Or.inl (hentry q)) he

/-- A commit that makes a backup is in danger from the backup to the final
rename. -/
theorem intact_backedUp {g : Folder} {old : FileEntry} (i : Interruption) (has : t.asDir = false)
    (hd : f.isDir t.path = false) (he : f.entry t.path = some old)
    (hent : ∀ q, g.entry q = if q = backupPath blake3 ts winner t data then some old
      else if q = t.path then none else f.entry q)
    (hdir : ∀ q, q.length = t.path.length → g.isDir q = f.isDir q)
    (hp : prepare blake3 ts winner t data f = (.ok true, g)) :
    Intact blake3 ts winner t data f (interrupted blake3 ts winner t data mtime i f) ↔
      i = .beforeBackup ∨ i = .completed ∧ f.isDir t.path.temp = false := by
  have hne : t.path ≠ [] := Folder.ne_nil_of_not_dir hd
  have htb : t.path ≠ backupPath blake3 ts winner t data := (RelPath.backup_ne hne _ _ _).symm
  have htt : t.path ≠ t.path.temp := (RelPath.temp_ne hne).symm
  have hgone : g.entry t.path = none := by rw [hent, if_neg htb, if_pos rfl]
  have htdir : g.isDir t.path.temp = f.isDir t.path.temp := hdir _ (mapLast_length _ _)
  have lost : ∀ h : Folder, h.entry t.path = none → ¬ Intact blake3 ts winner t data f h :=
    fun h hh => not_intact_of_gone he (by rw [Folder.content, hh]; rfl)
  have written : ∀ (d : Bytes) (h : Folder), g.write t.path.temp d mtime = .ok h →
      h.entry t.path = none := fun d h hw => by rw [Folder.entry_write hw, if_neg htt, hgone]
  unfold interrupted
  rw [hp]
  cases i with
  | beforeBackup => simp [intact_of_entry]
  | beforeWrite => simpa using lost g hgone
  | duringWrite n =>
    dsimp only
    simp only [reduceCtorEq, false_and, or_self, iff_false]
    cases hw : g.write t.path.temp (data.take n) mtime with
    | error e => exact lost g hgone
    | ok h => exact lost h (written _ h hw)
  | renameFailed =>
    dsimp only
    simp only [reduceCtorEq, false_and, or_self, iff_false]
    cases hw : g.write t.path.temp data mtime with
    | error e => exact lost g hgone
    | ok h =>
      refine lost _ ?_
      rw [Folder.entry_remove, if_neg htt]
      exact written _ h hw
  | completed =>
    dsimp only
    simp only [reduceCtorEq, true_and, false_or]
    unfold install
    by_cases htmp : f.isDir t.path.temp = true
    · have hw : g.write t.path.temp data mtime = .error "Is a directory" := by
        simp [Folder.write, htdir, htmp]
      rw [hw]
      simpa [htmp] using lost g hgone
    · have htmp' : f.isDir t.path.temp = false := by simpa using htmp
      obtain ⟨h, hw⟩ := Folder.write_of_not_dir (htdir.trans htmp') data mtime
      have hwe := Folder.entry_write hw
      have hhd : h.isDir t.path = false := by
        rw [← hd, ← hdir _ rfl]
        simp only [Folder.isDir, Folder.write_dirs hw]
      obtain ⟨k, hk⟩ := Folder.rename_of_entry (f := h) (p := t.path.temp) (t := t)
        (by rw [hwe, if_pos rfl]) has hhd
      obtain ⟨e, hte, hke⟩ := Folder.entry_rename hk
      rw [hwe, if_pos rfl] at hte
      cases hte
      rw [hw]
      dsimp only
      rw [hk]
      simp only [htmp', iff_true]
      refine intact_of_installed (g := g) (m := mtime) (fun q hq => ?_) fun q => ?_
      · rw [hent]
        split_ifs with hb
        · exact Or.inr ⟨hb, he.symm⟩
        · exact Or.inl rfl
      · rw [hke, hwe]
        split_ifs <;> rfl

/-- **When an interrupted commit keeps its promise.** The target holds its old
content or the new one, and the scan lists nothing temporary, exactly when the
commit ends before it has moved the old target away or after the final rename;
a commit that replaces nothing may also end anywhere else but with the
temporary file written, unless a file of that content was there already. -/
theorem commit_intact_iff (blake3 : Bytes → FileHash) (ts : ℕ) (winner : String) (t : Target)
    (data : Bytes) (mtime : ℤ) (i : Interruption) (f : Folder) :
    Intact blake3 ts winner t data f (interrupted blake3 ts winner t data mtime i f) ↔
      i.harmless blake3 ts winner t data f = true := by
  have hprep := prepare_eq blake3 ts winner t data f
  generalize hp : prepare blake3 ts winner t data f = r at hprep
  cases hprep with
  | refused hr hfiles =>
    unfold interrupted
    rw [hp]
    simp only [Interruption.harmless, hr, Bool.true_or, iff_true]
    exact intact_of_entry fun q => by simp only [Folder.entry, hfiles]
  | kept hr hrep hfiles hdir hk =>
    rw [intact_kept i hfiles hdir hp]
    cases i <;> simp [Interruption.harmless, hr, hrep]
  | backedUp hr hrep has hd he hne hent hdir =>
    rw [intact_backedUp i has hd he hent hdir hp]
    cases i <;> simp [Interruption.harmless, hr, hrep]

/-- A crash after the backup of `f`, before its new content is in place: there
is no file `f`. And a crash while a new file `f` is written: the scan lists
the temporary file. -/
theorem commit_torn :
    (¬ Intact sampleBlake3 1700000000 "remote" ⟨[sampleName], false⟩ [98]
      (sampleFolder [(sampleName, [97])])
      (interrupted sampleBlake3 1700000000 "remote" ⟨[sampleName], false⟩ [98] 1 .beforeWrite
        (sampleFolder [(sampleName, [97])]))) ∧
    ¬ Intact sampleBlake3 1700000000 "remote" ⟨[sampleName], false⟩ [98, 99] (sampleFolder [])
      (interrupted sampleBlake3 1700000000 "remote" ⟨[sampleName], false⟩ [98, 99] 1 (.duringWrite 1)
        (sampleFolder [])) := by
  constructor
  · intro h
    have ht := h.target
    revert ht
    decide +kernel
  · intro h
    have hs := h.scan [sampleName.temp] [98] (by decide +kernel) (by decide +kernel)
    revert hs
    decide +kernel

end

end FerriSync
