/-
# Committing a received file

What a session does with a file it has received and verified (`session.rs`):
make the target's directory, move an existing file of other content aside
(`backupOnConflict`), write the temporary file and rename it to the target
(`install`). `commitFile` is the whole, without interruption.

A commit changes the files at three paths at most: the target, its temporary
name and, if it makes a backup, the backup's (`commitFile_frame`). So while no
file stands at the temporary name and none where a backup goes (`clearRun`),
no content is lost in any sequence of commits: it stays where it was or moves
to a backup (`commits_keep_contents`). The code does not check either name,
and the time in a backup's name has a resolution of a second, so two commits
to one path in one second can share a backup (`commits_lose_contents`).

Key definitions: `backupOnConflict`, `install`, `commitFile`, `clearRun`.
Key theorems: `backupOnConflict_cases`, `install_cases`, `commitFile_frame`,
`commits_keep_contents`.
-/
import FerriSync.Folder

namespace FerriSync

section

variable (blake3 : Bytes → FileHash)

/-- Where `backup_on_conflict` moves the target. -/
def backupPath (ts : ℕ) (winner : String) (t : Target) (data : Bytes) : RelPath :=
  t.path.backup ts (loserLabel winner) (blake3 data)

/-- If the target exists with different content, rename it to its backup. -/
def backupOnConflict (ts : ℕ) (winner : String) (t : Target) (data : Bytes) (f : Folder) :
    Except String Bool × Folder :=
  if f.targetExists t = false then (.ok false, f)
  else match f.read t with
    | .error e => (.error e, f)
    | .ok existing =>
      if existing = data then (.ok false, f)
      else match f.rename t.path ⟨backupPath blake3 ts winner t data, false⟩ with
        | .error e => (.error e, f)
        | .ok g => (.ok true, g)

/-- Make the target's directory and back the target up. -/
def prepare (ts : ℕ) (winner : String) (t : Target) (data : Bytes) (f : Folder) :
    Except String Bool × Folder :=
  match f.createDirAll t.path.dropLast with
  | .error e => (.error e, f)
  | .ok g => backupOnConflict blake3 ts winner t data g

/-- Write the temporary file and rename it to the target; if that fails, remove
it. -/
def install (t : Target) (data : Bytes) (mtime : ℤ) (f : Folder) : Except String Unit × Folder :=
  match f.write t.path.temp data mtime with
  | .error e => (.error e, f)
  | .ok g =>
    match g.rename t.path.temp t with
    | .error e => (.error s!"atomic rename failed: {e}", g.remove t.path.temp)
    | .ok h => (.ok (), h)

/-- The commit of a received file; says whether it made a backup. -/
def commitFile (ts : ℕ) (winner : String) (t : Target) (data : Bytes) (mtime : ℤ) (f : Folder) :
    Except String Bool × Folder :=
  match prepare blake3 ts winner t data f with
  | (.error e, g) => (.error e, g)
  | (.ok conflicted, g) =>
    match install t data mtime g with
    | (.error e, h) => (.error e, h)
    | (.ok (), h) => (.ok conflicted, h)

end

/-! ### What the parts of a commit can do -/

/-- The file at `p` has moved to `bak`. -/
structure Moved (f g : Folder) (p bak : RelPath) (old : FileEntry) : Prop where
  source : f.entry p = some old
  entry : ∀ q, g.entry q = if q = bak then some old else if q = p then none else f.entry q
  dirs : g.dirs = f.dirs

section

variable (blake3 : Bytes → FileHash) (ts : ℕ) (winner : String) (t : Target) (data : Bytes)
  (mtime : ℤ) (f : Folder)

/-- **A backup moves a file of other content aside, or changes nothing.** -/
theorem backupOnConflict_cases :
    ((∃ e, backupOnConflict blake3 ts winner t data f = (.error e, f)) ∨
      (backupOnConflict blake3 ts winner t data f = (.ok false, f) ∧
        (t.asDir = true ∨ ∀ e, f.entry t.path = some e → e.data = data))) ∨
    ∃ g old, backupOnConflict blake3 ts winner t data f = (.ok true, g) ∧ t.asDir = false ∧
      t.path ≠ [] ∧ old.data ≠ data ∧ Moved f g t.path (backupPath blake3 ts winner t data) old := by
  unfold backupOnConflict
  by_cases hx : f.targetExists t = false
  · left; right
    rw [if_pos hx]
    refine ⟨rfl, ?_⟩
    simp only [Folder.targetExists, Bool.or_eq_false_iff, Bool.and_eq_false_iff] at hx
    rcases hx.2 with h | h
    · exact Or.inl (by simpa using h)
    · refine Or.inr fun e he => ?_
      rw [he] at h
      cases h
  · rw [if_neg hx]
    cases hr : f.read t with
    | error e => exact Or.inl (Or.inl ⟨e, rfl⟩)
    | ok existing =>
      obtain ⟨has, hdir, e, he, hdata⟩ := Folder.read_ok hr
      dsimp only
      by_cases heq : existing = data
      · left; right
        rw [if_pos heq]
        refine ⟨rfl, Or.inr fun e' he' => ?_⟩
        rw [he] at he'
        cases he'
        exact hdata.trans heq
      · rw [if_neg heq]
        cases hn : f.rename t.path ⟨backupPath blake3 ts winner t data, false⟩ with
        | error e => exact Or.inl (Or.inl ⟨e, rfl⟩)
        | ok g =>
          obtain ⟨old, hold, hent⟩ := Folder.entry_rename hn
          rw [he] at hold
          cases hold
          exact Or.inr ⟨g, e, rfl, has, Folder.ne_nil_of_not_dir hdir, by rwa [hdata],
            he, hent, Folder.rename_dirs hn⟩

/-- **The installation fails without a trace but for the temporary file, or
puts the file in place.** -/
theorem install_cases :
    ((∃ e, install t data mtime f = (.error e, f)) ∨
      ∃ e g, install t data mtime f = (.error e, g) ∧ t.path ≠ [] ∧ g.dirs = f.dirs ∧
        ∀ q, g.entry q = if q = t.path.temp then none else f.entry q) ∨
    ∃ g, install t data mtime f = (.ok (), g) ∧ t.asDir = false ∧ t.path ≠ [] ∧ g.dirs = f.dirs ∧
      ∀ q, g.entry q = if q = t.path then some ⟨data, mtime⟩
        else if q = t.path.temp then none else f.entry q := by
  unfold install
  cases hw : f.write t.path.temp data mtime with
  | error e => exact Or.inl (Or.inl ⟨e, rfl⟩)
  | ok g =>
    have hent := Folder.entry_write hw
    have hdirs := Folder.write_dirs hw
    have hne : t.path ≠ [] := fun h0 =>
      Folder.ne_nil_of_not_dir (Folder.not_dir_of_write hw) (by rw [h0]; rfl)
    dsimp only
    cases hn : g.rename t.path.temp t with
    | error e =>
      refine Or.inl (Or.inr ⟨_, _, rfl, hne, hdirs, fun q => ?_⟩)
      rw [Folder.entry_remove]
      split_ifs with h
      · rfl
      · rw [hent, if_neg h]
    | ok h =>
      obtain ⟨e, he, hentry⟩ := Folder.entry_rename hn
      refine Or.inr ⟨h, rfl, Folder.not_asDir_of_rename hn, hne,
        (Folder.rename_dirs hn).trans hdirs, fun q => ?_⟩
      rw [hent, if_pos rfl] at he
      cases he
      rw [hentry, hent]
      split_ifs <;> rfl

/-- Preparing a commit changes files only by a backup. -/
theorem prepare_cases :
    (∃ r, prepare blake3 ts winner t data f = r ∧ r.2.files = f.files ∧
      ∀ c, r.1 = .ok c → c = false ∧
        (t.asDir = true ∨ ∀ e, f.entry t.path = some e → e.data = data)) ∨
    ∃ g old, prepare blake3 ts winner t data f = (.ok true, g) ∧ t.asDir = false ∧ t.path ≠ [] ∧
      old.data ≠ data ∧ f.entry t.path = some old ∧
      ∀ q, g.entry q = if q = backupPath blake3 ts winner t data then some old
        else if q = t.path then none else f.entry q := by
  unfold prepare
  cases hd : f.createDirAll t.path.dropLast with
  | error e => exact Or.inl ⟨_, rfl, rfl, fun c h => by cases h⟩
  | ok f1 =>
    obtain ⟨hfiles, -, -⟩ := Folder.createDirAll_ok hd
    have hentry : ∀ q, f1.entry q = f.entry q := fun q => by simp only [Folder.entry, hfiles]
    dsimp only
    rcases backupOnConflict_cases blake3 ts winner t data f1 with
      (⟨e, h⟩ | ⟨h, hk⟩) | ⟨g, old, h, has, hne, hold, hm⟩
    · exact Or.inl ⟨_, h, hfiles, fun c hc => by cases hc⟩
    · refine Or.inl ⟨_, h, hfiles, fun c hc => ?_⟩
      cases hc
      exact ⟨rfl, by simpa only [hentry] using hk⟩
    · refine Or.inr ⟨g, old, h, has, hne, hold, ?_, fun q => ?_⟩
      · rw [← hentry]; exact hm.source
      · rw [hm.entry, hentry]

end

/-! ### Sequences of commits -/

/-- One received file: its path string, its bytes, and what the clock, the
role's label and the file system add. -/
structure Commit where
  path : String
  data : Bytes
  ts : ℕ
  winner : String
  mtime : ℤ

/-- The paths a content of `p` can be found at: `p`, a backup of `p`, a backup
of that, and so on. -/
inductive BackupOf (p : RelPath) : RelPath → Prop
  | self : BackupOf p p
  | backup {q : RelPath} (ts : ℕ) (loser : LoserLabel) (hash : FileHash) :
      BackupOf p q → BackupOf p (q.backup ts loser hash)

variable (blake3 : Bytes → FileHash)

/-- The folder after a commit, whether it succeeds or not. -/
def Commit.apply (c : Commit) (f : Folder) : Folder :=
  match safeJoin c.path with
  | .error _ => f
  | .ok t => (commitFile blake3 c.ts c.winner t c.data c.mtime f).2

def runCommits (f : Folder) (cs : List Commit) : Folder :=
  cs.foldl (fun f c => c.apply blake3 f) f

/-- No file stands at the commit's temporary name, and none at the backup's
name if a backup is to be made. -/
def Commit.clear (c : Commit) (f : Folder) : Bool :=
  match safeJoin c.path with
  | .error _ => true
  | .ok t => (f.entry t.path.temp).isNone &&
    match f.entry t.path with
    | none => true
    | some old => old.data = c.data ∨ f.entry (backupPath blake3 c.ts c.winner t c.data) = none

/-- Every commit of the run finds its two names free. -/
def clearRun : Folder → List Commit → Bool
  | _, [] => true
  | f, c :: cs => c.clear blake3 f && clearRun (c.apply blake3 f) cs

section

variable {blake3} {c : Commit} {f : Folder}

/-- **A commit touches its target and its backup.** Every other file stays as
it is, if none stands at the temporary name; so does a file at the backup's
name if no backup is made. -/
theorem commitFile_frame {t : Target} {q : RelPath} (htmp : f.entry t.path.temp = none)
    (hq : q ≠ t.path) (hb : q = backupPath blake3 c.ts c.winner t c.data →
      ∀ old, f.entry t.path = some old → old.data = c.data) :
    (commitFile blake3 c.ts c.winner t c.data c.mtime f).2.entry q = f.entry q := by
  have hinstall : ∀ g : Folder, g.entry q = f.entry q →
      (install t c.data c.mtime g).2.entry q = f.entry q := by
    intro g hg
    rcases install_cases t c.data c.mtime g with
      (⟨e, h⟩ | ⟨e, h, hi, -, -, he⟩) | ⟨h, hi, -, -, -, he⟩
    · rw [h]; exact hg
    · rw [hi, he]
      split_ifs with hqt
      · rw [hqt, htmp]
      · exact hg
    · rw [hi, he, if_neg hq]
      split_ifs with hqt
      · rw [hqt, htmp]
      · exact hg
  have hprep : (prepare blake3 c.ts c.winner t c.data f).2.entry q = f.entry q := by
    rcases prepare_cases blake3 c.ts c.winner t c.data f with
      ⟨r, hr, hfiles, -⟩ | ⟨g, old, hg, -, -, hne, ho, he⟩
    · rw [hr, Folder.entry, hfiles, Folder.entry]
    · rw [hg, he, if_neg fun h => hne (hb h old ho), if_neg hq]
  unfold commitFile
  rcases hp : prepare blake3 c.ts c.winner t c.data f with ⟨_ | b, g⟩
  · rw [hp] at hprep; exact hprep
  · have := hinstall g (by rw [hp] at hprep; exact hprep)
    dsimp only
    rcases hi : install t c.data c.mtime g with ⟨_ | u, h⟩ <;> (rw [hi] at this; exact this)

/-- The target's content stays, or moves to the backup. -/
theorem commitFile_target {t : Target} {b : Bytes} (hcontent : f.content t.path = some b) :
    (commitFile blake3 c.ts c.winner t c.data c.mtime f).2.content t.path = some b ∨
      (commitFile blake3 c.ts c.winner t c.data c.mtime f).2.content
        (backupPath blake3 c.ts c.winner t c.data) = some b := by
  obtain ⟨e, he, hdata⟩ := Folder.content_eq_some.mp hcontent
  unfold commitFile
  rcases prepare_cases blake3 c.ts c.winner t c.data f with
    ⟨⟨r, g⟩, hr, hfiles, hok⟩ | ⟨g, old, hg, has, hne, hold, ho, hent⟩
  · -- no backup: the file is the same, or the target's path names a directory
    left
    rw [hr]
    have hg : g.entry t.path = some e := by rw [Folder.entry, hfiles]; exact he
    rcases r with _ | conflicted
    · exact Folder.content_eq_some.mpr ⟨e, hg, hdata⟩
    · obtain ⟨-, hk⟩ := hok conflicted rfl
      dsimp only
      rcases install_cases t c.data c.mtime g with
        (⟨e', hi⟩ | ⟨e', h, hi, hne, -, hent⟩) | ⟨h, hi, has, -, -, hent⟩
      · rw [hi]; exact Folder.content_eq_some.mpr ⟨e, hg, hdata⟩
      · rw [hi]
        exact Folder.content_eq_some.mpr
          ⟨e, by rw [hent, if_neg (RelPath.temp_ne hne).symm]; exact hg, hdata⟩
      · rw [hi]
        refine Folder.content_eq_some.mpr ⟨⟨c.data, c.mtime⟩, by rw [hent, if_pos rfl], ?_⟩
        rcases hk with h | h
        · rw [has] at h; cases h
        · exact (h e he).symm.trans hdata
  · -- the backup holds it, and neither name of the installation is the backup's
    right
    rw [he] at ho
    cases ho
    have hb1 : backupPath blake3 c.ts c.winner t c.data ≠ t.path := RelPath.backup_ne hne _ _ _
    have hb2 : backupPath blake3 c.ts c.winner t c.data ≠ t.path.temp :=
      (RelPath.temp_ne_backup hne _ _ _).symm
    have hgb : g.entry (backupPath blake3 c.ts c.winner t c.data) = some e := by
      rw [hent, if_pos rfl]
    rw [hg]
    dsimp only
    rcases install_cases t c.data c.mtime g with
      (⟨e', hi⟩ | ⟨e', h, hi, -, -, hent'⟩) | ⟨h, hi, -, -, -, hent'⟩
    · rw [hi]; exact Folder.content_eq_some.mpr ⟨e, hgb, hdata⟩
    · rw [hi]; exact Folder.content_eq_some.mpr ⟨e, by rw [hent', if_neg hb2]; exact hgb, hdata⟩
    · rw [hi]
      exact Folder.content_eq_some.mpr ⟨e, by rw [hent', if_neg hb1, if_neg hb2]; exact hgb, hdata⟩

theorem Commit.clear_ok (hc : c.clear blake3 f = true) {t : Target} (ht : safeJoin c.path = .ok t) :
    f.entry t.path.temp = none ∧ ∀ old, f.entry t.path = some old →
      old.data = c.data ∨ f.entry (backupPath blake3 c.ts c.winner t c.data) = none := by
  unfold Commit.clear at hc
  rw [ht] at hc
  simp only [Bool.and_eq_true, Option.isNone_iff_eq_none] at hc
  refine ⟨hc.1, fun old ho => ?_⟩
  have h2 := hc.2
  rw [ho] at h2
  simpa using h2

theorem Commit.apply_of_ok {t : Target} (ht : safeJoin c.path = .ok t) :
    c.apply blake3 f = (commitFile blake3 c.ts c.winner t c.data c.mtime f).2 := by
  rw [Commit.apply, ht]

theorem Commit.apply_of_error {e : String} (ht : safeJoin c.path = .error e) :
    c.apply blake3 f = f := by
  rw [Commit.apply, ht]

/-- A commit whose names are free leaves the files elsewhere alone. -/
theorem Commit.apply_frame (hc : c.clear blake3 f = true) {q : RelPath}
    (hq : ∀ t, safeJoin c.path = .ok t →
      q ≠ t.path ∧ q ≠ backupPath blake3 c.ts c.winner t c.data) :
    (c.apply blake3 f).entry q = f.entry q := by
  cases ht : safeJoin c.path with
  | error e => rw [Commit.apply_of_error ht]
  | ok t =>
    obtain ⟨h1, h2⟩ := hq t ht
    rw [Commit.apply_of_ok ht]
    exact commitFile_frame (Commit.clear_ok hc ht).1 h1 fun h => absurd h h2

/-- A commit whose names are free keeps every content. -/
theorem Commit.apply_keeps (hc : c.clear blake3 f = true) {p : RelPath} {b : Bytes}
    (h : f.content p = some b) : ∃ q, BackupOf p q ∧ (c.apply blake3 f).content q = some b := by
  cases ht : safeJoin c.path with
  | error e => exact ⟨p, .self, by rw [Commit.apply_of_error ht]; exact h⟩
  | ok t =>
    rw [Commit.apply_of_ok ht]
    obtain ⟨htmp, hbak⟩ := Commit.clear_ok hc ht
    by_cases hp : p = t.path
    · subst hp
      rcases commitFile_target (c := c) h with h | h
      · exact ⟨_, .self, h⟩
      · exact ⟨_, .backup _ _ _ .self, h⟩
    · refine ⟨p, .self, ?_⟩
      rw [Folder.content_of_entry_eq (commitFile_frame htmp hp fun hpb old ho => ?_)]
      · exact h
      · refine (hbak old ho).resolve_right fun hn => ?_
        obtain ⟨e, he, -⟩ := Folder.content_eq_some.mp h
        rw [hpb, hn] at he
        cases he

theorem BackupOf.trans {p q r : RelPath} (hq : BackupOf p q) (hr : BackupOf q r) :
    BackupOf p r := by
  induction hr with
  | self => exact hq
  | backup ts loser hash _ ih => exact .backup ts loser hash ih

theorem clearRun_append {cs ds : List Commit} :
    clearRun blake3 f (cs ++ ds) = true ↔
      clearRun blake3 f cs = true ∧ clearRun blake3 (runCommits blake3 f cs) ds = true := by
  induction cs generalizing f with
  | nil => simp [clearRun, runCommits]
  | cons c cs ih =>
    simp only [List.cons_append, clearRun, Bool.and_eq_true, ih, and_assoc]
    rfl

theorem clearRun_keeps {cs : List Commit} (h : clearRun blake3 f cs = true) {p : RelPath} {b : Bytes}
    (hp : f.content p = some b) :
    ∃ q, BackupOf p q ∧ (runCommits blake3 f cs).content q = some b := by
  induction cs generalizing f p with
  | nil => exact ⟨p, .self, hp⟩
  | cons c cs ih =>
    rw [clearRun, Bool.and_eq_true] at h
    obtain ⟨q, hq, hcontent⟩ := Commit.apply_keeps h.1 hp
    obtain ⟨r, hr, hfinal⟩ := ih h.2 hcontent
    exact ⟨r, hq.trans hr, hfinal⟩

end

/-- **No content is lost while the derived names are free.** In a run of
commits each of which finds no file at its temporary name and none where its
backup goes, every content of the folder stays at its path or is at a backup
of it, and each commit leaves every file but its target and its backup as it
was. -/
theorem commits_keep_contents (f : Folder) (cs : List Commit) (h : clearRun blake3 f cs = true) :
    (∀ p b, f.content p = some b →
      ∃ q, BackupOf p q ∧ (runCommits blake3 f cs).content q = some b) ∧
    ∀ pre c post, cs = pre ++ c :: post → ∀ q,
      (∀ t, safeJoin c.path = .ok t →
        q ≠ t.path ∧ q ≠ backupPath blake3 c.ts c.winner t c.data) →
      (c.apply blake3 (runCommits blake3 f pre)).entry q = (runCommits blake3 f pre).entry q := by
  refine ⟨fun p b hp => clearRun_keeps h hp, ?_⟩
  rintro pre c post rfl q hq
  have hc := (clearRun_append.mp h).2
  rw [clearRun, Bool.and_eq_true] at hc
  exact Commit.apply_frame hc.1 hq

/-- BLAKE3 on the contents the examples use: the empty one and those of one
letter `a`, `b` or `c`. -/
def sampleBlake3 (data : Bytes) : FileHash :=
  match data with
  | [] => FileHash.ofVec [175, 19, 73, 185, 245, 249, 161, 166, 160, 64, 77, 234, 54, 220, 201, 73,
      155, 203, 37, 201, 173, 193, 18, 183, 204, 154, 147, 202, 228, 31, 50, 98]
  | [97] => FileHash.ofVec [23, 118, 47, 221, 217, 105, 164, 83, 146, 93, 101, 113, 122, 195, 238,
      162, 19, 32, 182, 107, 84, 52, 47, 222, 21, 18, 141, 108, 175, 33, 33, 95]
  | [98] => FileHash.ofVec [16, 229, 207, 61, 60, 138, 79, 159, 52, 104, 200, 204, 88, 238, 168, 72,
      146, 162, 47, 218, 219, 193, 172, 178, 36, 16, 25, 0, 68, 193, 213, 83]
  | [99] => FileHash.ofVec [234, 122, 161, 252, 158, 253, 190, 16, 109, 187, 112, 54, 154, 117, 233,
      103, 31, 162, 157, 82, 189, 85, 83, 103, 17, 191, 25, 116, 119, 184, 240, 33]
  | d => FileHash.ofVec d

/-- A folder of files at the top, with the given names and bytes. -/
def sampleFolder (files : List (FileName × Bytes)) : Folder where
  files := (files.map fun x => (⟨[x.1], ⟨x.2, 0⟩⟩ : Sigma fun _ : RelPath => FileEntry)).toAList
  dirs := ∅

/-- The file name `f`. -/
def sampleName : FileName := ⟨['f'], by decide, by decide, by decide, by decide, by decide⟩

theorem commits_keep_contents_two :
    clearRun sampleBlake3 (sampleFolder [(sampleName, [97])])
      [⟨"f", [98], 1700000000, "remote", 1⟩, ⟨"f", [99], 1700000000, "remote", 2⟩] = true ∧
    ∃ q, BackupOf [sampleName] q ∧ (runCommits sampleBlake3 (sampleFolder [(sampleName, [97])])
      [⟨"f", [98], 1700000000, "remote", 1⟩, ⟨"f", [99], 1700000000, "remote", 2⟩]).content q =
        some [97] :=
  ⟨by decide +kernel, (commits_keep_contents sampleBlake3 _ _ (by decide +kernel)).1 _ _
    (by decide +kernel)⟩

/-- Three commits to one path in one second, the third with the content of the
first: its backup replaces the first one's, and the content the folder held
before them is gone. So is a file that has the temporary name of another. -/
theorem commits_lose_contents :
    (¬ ∀ p b, (sampleFolder [(sampleName, [97])]).content p = some b →
      ∃ q, BackupOf p q ∧ (runCommits sampleBlake3 (sampleFolder [(sampleName, [97])])
        [⟨"f", [98], 1700000000, "remote", 1⟩, ⟨"f", [99], 1700000000, "remote", 2⟩,
          ⟨"f", [98], 1700000000, "remote", 3⟩]).content q = some b) ∧
    ¬ ∀ p b, (sampleFolder [(sampleName.temp, [97])]).content p = some b →
      ∃ q, BackupOf p q ∧ (runCommits sampleBlake3 (sampleFolder [(sampleName.temp, [97])])
        [⟨"f", [98], 1700000000, "remote", 1⟩]).content q = some b := by
  constructor
  · intro h
    obtain ⟨q, -, hq⟩ := h [sampleName] [97] (by decide +kernel)
    exact Folder.content_ne_of_all (by decide +kernel) q hq
  · intro h
    obtain ⟨q, -, hq⟩ := h [sampleName.temp] [97] (by decide +kernel)
    exact Folder.content_ne_of_all (by decide +kernel) q hq

end FerriSync
