/-
# Sessions side by side

The listener runs many sessions at once, and each commits the files it has
received and verified one after another into the same folder (`sessionStep`).
Their file system steps, those of `Race.commitStep`, come in any order.

A commit derives two names from its target's, the temporary file's and the
backup's. Where no name a session writes is one that another writes or needs
as a directory (`Separate`), every session goes as it would go alone, and what it
has committed stands as it verified it (`sessions_isolated`). But the
temporary name replaces what follows the last dot, so `f.a` and `f.b` have the
same: one session then commits the bytes of another, and the other fails
(`sessions_collide`).

Key definitions: `SessionTask`, `sessionStep`, `Commit.names`, `Separate`.
Key theorems: `Commit.step_entry`, `Commit.step_agree`, `sessions_isolated`.
-/
import FerriSync.Lib.Tasks
import FerriSync.Race

namespace FerriSync

/-- A session as it commits: the files it has committed, those it will, the
first of which is under way, and how far that has come. -/
structure SessionTask where
  committed : List Commit
  todo : List Commit
  pc : CommitPc
  failed : Option String

/-- A session that has received and verified these files. -/
def SessionTask.start (files : List Commit) : SessionTask := ⟨[], files, .makeDir, none⟩

/-- What a step of the commit under way comes to. -/
def SessionTask.advance (s : SessionTask) (c : Commit) (rest : List Commit) :
    CommitPc → SessionTask
  | .done (.ok _) => ⟨s.committed ++ [c], rest, .makeDir, none⟩
  | .done (.error e) => { s with failed := some e }
  | pc => { s with pc := pc }

section

variable (blake3 : Bytes → FileHash)

/-- One file system step of a commit. -/
def Commit.step (c : Commit) (t : Target) (pc : CommitPc) (f : Folder) : CommitPc × Folder :=
  let s := Race.commitStep blake3 c.ts c.winner t c.data c.mtime ⟨pc, f, fun _ => none⟩
  (s.pc, s.folder)

/-- One file system step of a session; an error ends it. -/
def sessionStep (s : SessionTask) (f : Folder) : SessionTask × Folder :=
  match s.failed, s.todo with
  | some _, _ => (s, f)
  | none, [] => (s, f)
  | none, c :: rest =>
    match safeJoin c.path with
    | .error e => ({ s with failed := some e }, f)
    | .ok t => (s.advance c rest (c.step blake3 t s.pc f).1, (c.step blake3 t s.pc f).2)

/-- Where a commit is to put its file. -/
def Commit.target (c : Commit) : Option RelPath :=
  match safeJoin c.path with
  | .error _ => none
  | .ok t => some t.path

/-- The directories a commit needs. -/
def Commit.above (c : Commit) : List RelPath :=
  match safeJoin c.path with
  | .error _ => []
  | .ok t => t.path.dropLast.inits

/-- The commit may find other bytes at its target: those in the folder, or
those of another file the session commits there. -/
def Commit.replacing (f : Folder) (files : List Commit) (c : Commit) (p : RelPath) : Bool :=
  (match f.content p with
    | some old => decide (old ≠ c.data)
    | none => false) ||
  files.any fun a => decide (a.target = some p) && decide (a.data ≠ c.data)

/-- The files a commit writes or renames: the target, the temporary file and,
if it may find other bytes, the backup. The root is no file. -/
def Commit.names (f : Folder) (files : List Commit) (c : Commit) : List RelPath :=
  match safeJoin c.path with
  | .error _ => []
  | .ok t =>
    if t.path = [] then []
    else t.path :: t.path.temp ::
      if c.replacing f files t.path then [backupPath blake3 c.ts c.winner t c.data] else []

/-- No session writes a file that another writes or has a directory at, and
none commits a file to a name that one of its own commits derives. -/
structure Separate {ι : Type} (f : Folder) (files : ι → List Commit) : Prop where
  own : ∀ i, ∀ a ∈ files i, ∀ b ∈ files i, ∀ q ∈ (a.names blake3 f (files i)).tail,
    b.target ≠ some q
  names : ∀ i j, i ≠ j → ∀ a ∈ files i, ∀ b ∈ files j,
    ∀ q ∈ a.names blake3 f (files i), q ∉ b.names blake3 f (files j)
  above : ∀ i j, i ≠ j → ∀ a ∈ files i, ∀ b ∈ files j,
    ∀ q ∈ a.names blake3 f (files i), q ∉ b.above

end

/-! ### One step of a commit -/

section

variable {blake3 : Bytes → FileHash} {c : Commit} {t : Target} {f g : Folder} {pc : CommitPc}

/-- What the steps before have left for the next one. -/
def CommitPc.Ready (c : Commit) (t : Target) (replacing : Bool) (f : Folder) : CommitPc → Prop
  | .makeDir | .check | .compare => True
  | .moveAside => t.path ≠ [] ∧ replacing = true
  | .writeTemp _ => t.path ≠ []
  | .rename _ => t.path ≠ [] ∧ f.content t.path.temp = some c.data
  | .done (.ok _) => t.path ≠ [] ∧ f.content t.path = some c.data
  | .done (.error _) => True

theorem Folder.isDir_createDirAll {p q : RelPath} (h : f.createDirAll p = .ok g)
    (hq : q ∉ p.inits) : g.isDir q = f.isDir q := by
  obtain ⟨-, hdirs, -⟩ := Folder.createDirAll_ok h
  simp [Folder.isDir, hdirs, List.mem_toFinset, hq]

/-- A step makes directories above the target only. -/
theorem Commit.step_isDir {q : RelPath} (hq : q ∉ t.path.dropLast.inits) :
    (c.step blake3 t pc f).2.isDir q = f.isDir q := by
  have hdirs : ∀ g : Folder, g.dirs = f.dirs → g.isDir q = f.isDir q := fun g hg => by
    rw [Folder.isDir, hg, Folder.isDir]
  unfold Commit.step Race.commitStep
  cases pc with
  | makeDir =>
    cases hd : f.createDirAll t.path.dropLast with
    | error e => rfl
    | ok g => exact Folder.isDir_createDirAll hd hq
  | check =>
    dsimp only
    split_ifs <;> rfl
  | compare =>
    cases hr : f.read t with
    | error e => rfl
    | ok existing =>
      dsimp only
      split_ifs <;> rfl
  | moveAside =>
    cases hn : f.rename t.path ⟨backupPath blake3 c.ts c.winner t c.data, false⟩ with
    | error e => rfl
    | ok g => exact hdirs g (Folder.rename_dirs hn)
  | writeTemp k =>
    cases hw : f.write t.path.temp c.data c.mtime with
    | error e => rfl
    | ok g => exact hdirs g (Folder.write_dirs hw)
  | rename k =>
    cases hn : f.rename t.path.temp t with
    | error e => rfl
    | ok g => exact hdirs g (Folder.rename_dirs hn)
  | done r => rfl

/-- A step changes no file but the target, the temporary file and, where one
is made, the backup. -/
theorem Commit.step_entry {replacing : Bool} (hready : pc.Ready c t replacing f) {q : RelPath}
    (hq : t.path ≠ [] → q ≠ t.path ∧ q ≠ t.path.temp ∧
      (replacing = true → q ≠ backupPath blake3 c.ts c.winner t c.data)) :
    (c.step blake3 t pc f).2.entry q = f.entry q := by
  unfold Commit.step Race.commitStep
  cases pc with
  | makeDir =>
    cases hd : f.createDirAll t.path.dropLast with
    | error e => rfl
    | ok g =>
      have hfiles := (Folder.createDirAll_ok hd).1
      simp only [Folder.entry, hfiles]
  | check =>
    dsimp only
    split_ifs <;> rfl
  | compare =>
    cases hr : f.read t with
    | error e => rfl
    | ok existing =>
      dsimp only
      split_ifs <;> rfl
  | moveAside =>
    cases hn : f.rename t.path ⟨backupPath blake3 c.ts c.winner t c.data, false⟩ with
    | error e => rfl
    | ok g =>
      obtain ⟨e, -, hent⟩ := Folder.entry_rename hn
      obtain ⟨htarget, -, hbak⟩ := hq hready.1
      show g.entry q = f.entry q
      rw [hent, if_neg (hbak hready.2), if_neg htarget]
  | writeTemp k =>
    cases hw : f.write t.path.temp c.data c.mtime with
    | error e => rfl
    | ok g =>
      obtain ⟨-, htemp, -⟩ := hq hready
      show g.entry q = f.entry q
      rw [Folder.entry_write hw, if_neg htemp]
  | rename k =>
    obtain ⟨htarget, htemp, -⟩ := hq hready.1
    cases hn : f.rename t.path.temp t with
    | error e =>
      show (f.remove t.path.temp).entry q = f.entry q
      rw [Folder.entry_remove, if_neg htemp]
    | ok g =>
      obtain ⟨e, -, hent⟩ := Folder.entry_rename hn
      show g.entry q = f.entry q
      rw [hent, if_neg htarget, if_neg htemp]
  | done r => rfl

/-- The step finds what it needs, and leaves what the next one needs. -/
theorem Commit.step_ready {replacing : Bool} (hready : pc.Ready c t replacing f)
    (hold : t.path ≠ [] → ∀ b, f.content t.path = some b → b ≠ c.data → replacing = true) :
    (c.step blake3 t pc f).1.Ready c t replacing (c.step blake3 t pc f).2 := by
  unfold Commit.step Race.commitStep
  cases pc with
  | makeDir =>
    cases hd : f.createDirAll t.path.dropLast with
    | error e => trivial
    | ok g => trivial
  | check =>
    dsimp only
    by_cases hx : f.targetExists t = false
    · rw [if_pos hx]
      simp only [Folder.targetExists, Bool.or_eq_false_iff] at hx
      exact Folder.ne_nil_of_not_dir hx.1
    · rw [if_neg hx]
      trivial
  | compare =>
    cases hr : f.read t with
    | error e => trivial
    | ok existing =>
      obtain ⟨-, hdir, e, he, hdata⟩ := Folder.read_ok hr
      have hne := Folder.ne_nil_of_not_dir hdir
      dsimp only
      by_cases heq : existing = c.data
      · rw [if_pos heq]
        exact hne
      · rw [if_neg heq]
        have hcontent : f.content t.path = some existing := Folder.content_eq_some.mpr ⟨e, he, hdata⟩
        exact ⟨hne, hold hne existing hcontent heq⟩
  | moveAside =>
    cases hn : f.rename t.path ⟨backupPath blake3 c.ts c.winner t c.data, false⟩ with
    | error e => trivial
    | ok g => exact hready.1
  | writeTemp k =>
    cases hw : f.write t.path.temp c.data c.mtime with
    | error e => trivial
    | ok g =>
      refine ⟨hready, ?_⟩
      show g.content t.path.temp = some c.data
      rw [Folder.content, Folder.entry_write hw, if_pos rfl, Option.map_some]
  | rename k =>
    cases hn : f.rename t.path.temp t with
    | error e => trivial
    | ok g =>
      obtain ⟨e, he, hent⟩ := Folder.entry_rename hn
      refine ⟨hready.1, ?_⟩
      have htemp := hready.2
      show g.content t.path = some c.data
      rw [Folder.content, he] at htemp
      rw [Folder.content, hent, if_pos rfl]
      exact htemp
  | done r => exact hready

/-- The target holds what it held, nothing, or what has just been committed. -/
theorem Commit.step_target {replacing : Bool} (hready : pc.Ready c t replacing f) {b : Bytes}
    (hb : (c.step blake3 t pc f).2.content t.path = some b) :
    f.content t.path = some b ∨ b = c.data := by
  unfold Commit.step Race.commitStep at hb
  cases pc with
  | makeDir =>
    cases hd : f.createDirAll t.path.dropLast with
    | error e =>
      rw [hd] at hb
      exact Or.inl hb
    | ok g =>
      have hfiles := (Folder.createDirAll_ok hd).1
      rw [hd] at hb
      simp only [Folder.content, Folder.entry, hfiles] at hb ⊢
      exact Or.inl hb
  | check =>
    dsimp only at hb
    split_ifs at hb <;> exact Or.inl hb
  | compare =>
    left
    cases hr : f.read t with
    | error e =>
      rw [hr] at hb
      exact hb
    | ok existing =>
      rw [hr] at hb
      dsimp only at hb
      split_ifs at hb <;> exact hb
  | moveAside =>
    left
    cases hn : f.rename t.path ⟨backupPath blake3 c.ts c.winner t c.data, false⟩ with
    | error e =>
      rw [hn] at hb
      exact hb
    | ok g =>
      obtain ⟨e, -, hent⟩ := Folder.entry_rename hn
      have hbak : t.path ≠ backupPath blake3 c.ts c.winner t c.data :=
        (RelPath.backup_ne hready.1 _ _ _).symm
      rw [hn] at hb
      dsimp only at hb
      rw [Folder.content, hent, if_neg hbak, if_pos rfl] at hb
      cases hb
  | writeTemp k =>
    left
    cases hw : f.write t.path.temp c.data c.mtime with
    | error e =>
      rw [hw] at hb
      exact hb
    | ok g =>
      rw [hw] at hb
      have hne : t.path ≠ t.path.temp := (RelPath.temp_ne hready).symm
      have hsame : g.content t.path = f.content t.path :=
        Folder.content_of_entry_eq (by rw [Folder.entry_write hw, if_neg hne])
      exact hsame.symm.trans hb
  | rename k =>
    have hne : t.path ≠ t.path.temp := (RelPath.temp_ne hready.1).symm
    cases hn : f.rename t.path.temp t with
    | error e =>
      have hsame : (f.remove t.path.temp).content t.path = f.content t.path :=
        Folder.content_of_entry_eq (by rw [Folder.entry_remove, if_neg hne])
      rw [hn] at hb
      exact Or.inl (hsame.symm.trans hb)
    | ok g =>
      obtain ⟨e, he, hent⟩ := Folder.entry_rename hn
      have htemp := hready.2
      rw [hn] at hb
      dsimp only at hb
      rw [Folder.content, hent, if_pos rfl] at hb
      rw [Folder.content, he] at htemp
      exact Or.inr (Option.some.inj (hb.symm.trans htemp))
  | done r => exact Or.inl hb

end

/-! ### What a commit sees of the folder -/

/-- The folders have the same files at the names of `W` and `A`, and the same
directories at those of `W`. -/
structure Agree (W A : RelPath → Prop) (f g : Folder) : Prop where
  entry : ∀ q, W q ∨ A q → f.entry q = g.entry q
  dir : ∀ q, W q → f.isDir q = g.isDir q

/-- An operation fails alike on both, or leaves folders that agree. -/
inductive Agreed (W A : RelPath → Prop) : Except String Folder → Except String Folder → Prop
  | error (e : String) : Agreed W A (.error e) (.error e)
  | ok {f g : Folder} : Agree W A f g → Agreed W A (.ok f) (.ok g)

namespace Agree

variable {W A : RelPath → Prop} {f g : Folder}

theorem refl (W A : RelPath → Prop) (f : Folder) : Agree W A f f :=
  ⟨fun _ _ => rfl, fun _ _ => rfl⟩

theorem isDir (h : Agree W A f g) {q : RelPath} (hq : q ≠ [] → W q) : f.isDir q = g.isDir q := by
  by_cases h0 : q = []
  · rw [h0, f.isDir_nil, g.isDir_nil]
  · exact h.dir q (hq h0)

theorem createDirAll (h : Agree W A f g) {p : RelPath} (hp : ∀ q ∈ p.inits, A q) :
    Agreed W A (f.createDirAll p) (g.createDirAll p) := by
  have hany : (p.inits.any fun q => (f.entry q).isSome) =
      p.inits.any fun q => (g.entry q).isSome := by
    rw [Bool.eq_iff_iff, List.any_eq_true, List.any_eq_true]
    exact exists_congr fun q => and_congr_right fun hq => by rw [h.entry q (Or.inr (hp q hq))]
  unfold Folder.createDirAll
  rw [hany]
  split_ifs
  · exact .error _
  · refine .ok ⟨fun q hq => h.entry q hq, fun q hq => ?_⟩
    have hd := h.dir q hq
    have hunion : ∀ k : Folder, Folder.isDir { k with dirs := k.dirs ∪ p.inits.toFinset } q =
        (k.isDir q || decide (q ∈ p.inits)) := fun k => by
      simp only [Folder.isDir, Finset.mem_union, List.mem_toFinset, Bool.decide_or, Bool.or_assoc]
    rw [hunion, hunion, hd]

theorem write (h : Agree W A f g) {p : RelPath} (hp : W p) (d : Bytes) (m : ℤ) :
    Agreed W A (f.write p d m) (g.write p d m) := by
  cases hf : f.write p d m with
  | error e =>
    unfold Folder.write at hf ⊢
    rw [h.dir p hp] at hf
    split_ifs at hf ⊢ with hdir
    cases hf
    exact .error _
  | ok f' =>
    have hdir : g.isDir p = false := by rw [← h.dir p hp]; exact Folder.not_dir_of_write hf
    obtain ⟨g', hg⟩ := Folder.write_of_not_dir hdir d m
    rw [hg]
    refine .ok ⟨fun q hq => ?_, fun q hq => ?_⟩
    · rw [Folder.entry_write hf, Folder.entry_write hg, h.entry q hq]
    · rw [Folder.isDir, Folder.isDir, Folder.write_dirs hf, Folder.write_dirs hg]
      exact h.dir q hq

theorem remove (h : Agree W A f g) (p : RelPath) : Agree W A (f.remove p) (g.remove p) where
  entry q hq := by rw [Folder.entry_remove, Folder.entry_remove, h.entry q hq]
  dir := h.dir

theorem rename (h : Agree W A f g) {p : RelPath} {t : Target} (hp : W p)
    (ht : t.path ≠ [] → W t.path) : Agreed W A (f.rename p t) (g.rename p t) := by
  have hentry := h.entry p (Or.inl hp)
  have hdir := h.isDir ht
  cases hf : f.rename p t with
  | error e =>
    have hg : g.rename p t = .error e := by
      unfold Folder.rename at hf ⊢
      rw [← hentry, ← hdir]
      cases he : f.entry p with
      | none =>
        rw [he] at hf
        exact hf
      | some x =>
        rw [he] at hf
        dsimp only at hf ⊢
        split_ifs at hf ⊢
        cases hf
        rfl
    rw [hg]
    exact .error _
  | ok f' =>
    obtain ⟨e, he, hent⟩ := Folder.entry_rename hf
    have hnot : g.isDir t.path = false := by
      rw [← hdir]
      unfold Folder.rename at hf
      rw [he] at hf
      dsimp only at hf
      split_ifs at hf with hc
      simp only [Bool.or_eq_true, not_or, Bool.not_eq_true] at hc
      exact hc.2
    obtain ⟨g', hg⟩ := Folder.rename_of_entry (hentry.symm.trans he) (Folder.not_asDir_of_rename hf) hnot
    obtain ⟨e', he', hent'⟩ := Folder.entry_rename hg
    have heq : e' = e := Option.some.inj (he'.symm.trans (hentry.symm.trans he))
    rw [hg]
    refine .ok ⟨fun q hq => ?_, fun q hq => ?_⟩
    · rw [hent, hent', heq, h.entry q hq]
    · rw [Folder.isDir, Folder.isDir, Folder.rename_dirs hf, Folder.rename_dirs hg]
      exact h.dir q hq

theorem read (h : Agree W A f g) {t : Target} (ht : t.path ≠ [] → W t.path) :
    f.read t = g.read t := by
  unfold Folder.read
  rw [h.isDir ht]
  split_ifs with hd
  · rfl
  · have hne : t.path ≠ [] := by
      rintro h0
      rw [h0, g.isDir_nil, Bool.or_true] at hd
      exact hd rfl
    rw [h.entry _ (Or.inl (ht hne))]

theorem targetExists (h : Agree W A f g) {t : Target} (ht : t.path ≠ [] → W t.path) :
    f.targetExists t = g.targetExists t := by
  unfold Folder.targetExists
  by_cases h0 : t.path = []
  · rw [h0, f.isDir_nil, g.isDir_nil, Bool.true_or, Bool.true_or]
  · rw [h.isDir ht, h.entry _ (Or.inl (ht h0))]

end Agree

/-- **A step of a commit goes by the files at its names, those where its
directories go, and the directories at its names.** -/
theorem Commit.step_agree {blake3 : Bytes → FileHash} {c : Commit} {t : Target} {f g : Folder}
    {pc : CommitPc} {W A : RelPath → Prop} {replacing : Bool} (hready : pc.Ready c t replacing f)
    (ht : t.path ≠ [] → W t.path) (htemp : t.path ≠ [] → W t.path.temp)
    (hbak : t.path ≠ [] → replacing = true → W (backupPath blake3 c.ts c.winner t c.data))
    (habove : ∀ q ∈ t.path.dropLast.inits, A q) (h : Agree W A f g) :
    (c.step blake3 t pc f).1 = (c.step blake3 t pc g).1 ∧
      Agree W A (c.step blake3 t pc f).2 (c.step blake3 t pc g).2 := by
  unfold Commit.step Race.commitStep
  cases pc with
  | makeDir =>
    have hd := h.createDirAll habove
    dsimp only
    revert hd
    generalize f.createDirAll t.path.dropLast = x
    generalize g.createDirAll t.path.dropLast = y
    rintro (e | h')
    · exact ⟨rfl, h⟩
    · exact ⟨rfl, h'⟩
  | check =>
    dsimp only
    rw [h.targetExists ht]
    split_ifs
    · exact ⟨rfl, h⟩
    · exact ⟨rfl, h⟩
  | compare =>
    dsimp only
    rw [h.read ht]
    cases hr : g.read t with
    | error e => exact ⟨rfl, h⟩
    | ok existing =>
      dsimp only
      split_ifs
      · exact ⟨rfl, h⟩
      · exact ⟨rfl, h⟩
  | moveAside =>
    obtain ⟨hne, hrep⟩ := hready
    have hn := h.rename (t := ⟨backupPath blake3 c.ts c.winner t c.data, false⟩) (ht hne)
      fun _ => hbak hne hrep
    dsimp only
    revert hn
    generalize f.rename t.path ⟨backupPath blake3 c.ts c.winner t c.data, false⟩ = x
    generalize g.rename t.path ⟨backupPath blake3 c.ts c.winner t c.data, false⟩ = y
    rintro (e | h')
    · exact ⟨rfl, h⟩
    · exact ⟨rfl, h'⟩
  | writeTemp k =>
    have hw := h.write (htemp hready) c.data c.mtime
    dsimp only
    revert hw
    generalize f.write t.path.temp c.data c.mtime = x
    generalize g.write t.path.temp c.data c.mtime = y
    rintro (e | h')
    · exact ⟨rfl, h⟩
    · exact ⟨rfl, h'⟩
  | rename k =>
    have hn := h.rename (htemp hready.1) ht
    dsimp only
    revert hn
    generalize f.rename t.path.temp t = x
    generalize g.rename t.path.temp t = y
    rintro (e | h')
    · exact ⟨rfl, h.remove _⟩
    · exact ⟨rfl, h'⟩
  | done r => exact ⟨rfl, h⟩

/-! ### Sessions that keep apart -/

section

variable {blake3 : Bytes → FileHash} {f s s' : Folder} {files : List Commit} {l : SessionTask}
  {c : Commit} {t : Target} {rest : List Commit}

theorem sessionStep_of_failed {e : String} (h : l.failed = some e) :
    sessionStep blake3 l s = (l, s) := by
  simp only [sessionStep, h]

theorem sessionStep_of_nil (h : l.todo = []) : sessionStep blake3 l s = (l, s) := by
  unfold sessionStep
  cases hf : l.failed with
  | some e => rfl
  | none => simp only [h]

theorem sessionStep_of_error {e : String} (hf : l.failed = none) (h : l.todo = c :: rest)
    (he : safeJoin c.path = .error e) :
    sessionStep blake3 l s = ({ l with failed := some e }, s) := by
  simp only [sessionStep, hf, h, he]

theorem sessionStep_of_ok (hf : l.failed = none) (h : l.todo = c :: rest)
    (ht : safeJoin c.path = .ok t) : sessionStep blake3 l s =
      (l.advance c rest (c.step blake3 t l.pc s).1, (c.step blake3 t l.pc s).2) := by
  simp only [sessionStep, hf, h, ht]

/-- The commit under way succeeds, fails, or goes on. -/
theorem SessionTask.advance_cases (l : SessionTask) (c : Commit) (rest : List Commit)
    (pc : CommitPc) :
    (∃ k, pc = .done (.ok k) ∧ l.advance c rest pc = ⟨l.committed ++ [c], rest, .makeDir, none⟩) ∨
    (∃ e, pc = .done (.error e) ∧ l.advance c rest pc = { l with failed := some e }) ∨
    pc.isDone = false ∧ l.advance c rest pc = { l with pc := pc } := by
  cases pc with
  | done r =>
    cases r with
    | ok k => exact Or.inl ⟨k, rfl, rfl⟩
    | error e => exact Or.inr (Or.inl ⟨e, rfl, rfl⟩)
  | makeDir | check | compare | moveAside | writeTemp k | rename k =>
    exact Or.inr (Or.inr ⟨rfl, rfl⟩)

/-- Some commit of the session writes the file. -/
def Writes (blake3 : Bytes → FileHash) (f : Folder) (files : List Commit) (q : RelPath) : Prop :=
  ∃ c ∈ files, q ∈ c.names blake3 f files

/-- Some commit of the session needs the directory. -/
def Needs (files : List Commit) (q : RelPath) : Prop := ∃ c ∈ files, q ∈ c.above

theorem Commit.mem_names (ht : safeJoin c.path = .ok t) (hne : t.path ≠ []) {q : RelPath} :
    q ∈ c.names blake3 f files ↔ q = t.path ∨ q = t.path.temp ∨
      c.replacing f files t.path = true ∧ q = backupPath blake3 c.ts c.winner t c.data := by
  unfold Commit.names
  rw [ht]
  dsimp only
  rw [if_neg hne]
  cases c.replacing f files t.path <;> simp

theorem Commit.mem_tail_names (ht : safeJoin c.path = .ok t) (hne : t.path ≠ []) {q : RelPath} :
    q ∈ (c.names blake3 f files).tail ↔ q = t.path.temp ∨
      c.replacing f files t.path = true ∧ q = backupPath blake3 c.ts c.winner t c.data := by
  unfold Commit.names
  rw [ht]
  dsimp only
  rw [if_neg hne]
  cases c.replacing f files t.path <;> simp

/-- Bytes at the target that are there from the start or from the session itself
are among those it may replace. -/
theorem Commit.replacing_of_found {p : RelPath} {b : Bytes}
    (h : f.content p = some b ∨ ∃ a ∈ files, a.target = some p ∧ a.data = b) (hb : b ≠ c.data) :
    c.replacing f files p = true := by
  unfold Commit.replacing
  rw [Bool.or_eq_true]
  rcases h with h | ⟨a, ha, hp, hd⟩
  · left
    simp [h, hb]
  · right
    rw [List.any_eq_true]
    exact ⟨a, ha, by simp [hp, hd, hb]⟩

/-- What stands in one place of a list comes after what stands before it. -/
theorem mem_of_append_cons_eq {α : Type} {as bs pre post : List α} {a b : α}
    (h : as ++ a :: bs = pre ++ b :: post) (hlt : pre.length < as.length) : a ∈ post := by
  rcases List.append_eq_append_iff.mp h with ⟨xs, hpre, -⟩ | ⟨xs, has, hcons⟩
  · have hlen := congrArg List.length hpre
    rw [List.length_append] at hlen
    omega
  · cases xs with
    | nil =>
      have hlen := congrArg List.length has
      rw [List.append_nil] at hlen
      omega
    | cons x xs =>
      rw [List.cons_append] at hcons
      rw [(List.cons.inj hcons).2]
      exact List.mem_append_right xs List.mem_cons_self

theorem Commit.target_of_ok (ht : safeJoin c.path = .ok t) : c.target = some t.path := by
  rw [Commit.target, ht]

theorem Commit.above_of_ok (ht : safeJoin c.path = .ok t) : c.above = t.path.dropLast.inits := by
  rw [Commit.above, ht]

theorem CommitPc.Ready.congr {pc : CommitPc} {replacing : Bool} (h : pc.Ready c t replacing s)
    (hc : t.path ≠ [] → ∀ q, q = t.path ∨ q = t.path.temp → s'.content q = s.content q) :
    pc.Ready c t replacing s' := by
  cases pc with
  | makeDir | check | compare | moveAside | writeTemp k => exact h
  | rename k =>
    obtain ⟨hne, htemp⟩ := h
    exact ⟨hne, (hc hne _ (Or.inr rfl)).trans htemp⟩
  | done r =>
    cases r with
    | ok k =>
      obtain ⟨hne, htarget⟩ := h
      exact ⟨hne, (hc hne _ (Or.inl rfl)).trans htarget⟩
    | error e => trivial

/-- A session among others: the folder is for it as it would be alone, there is
nothing at its targets but what was there and what it has put there, and what
it has committed for good stands. -/
structure AsAlone (blake3 : Bytes → FileHash) (f : Folder) (files : List Commit) (l : SessionTask)
    (s s' : Folder) : Prop where
  split : l.committed ++ l.todo = files
  agree : Agree (Writes blake3 f files) (Needs files) s s'
  found : ∀ c ∈ files, ∀ t, safeJoin c.path = .ok t → t.path ≠ [] → ∀ b,
    s.content t.path = some b →
      f.content t.path = some b ∨ ∃ a ∈ files, a.target = some t.path ∧ a.data = b
  kept : ∀ pre c post t, files = pre ++ c :: post → (∀ a ∈ post, a.target ≠ c.target) →
    pre.length < l.committed.length → safeJoin c.path = .ok t →
      t.path ≠ [] ∧ s.content t.path = some c.data
  head : l.failed = none → ∀ c rest t, l.todo = c :: rest → safeJoin c.path = .ok t →
    l.pc.isDone = false ∧ l.pc.Ready c t (c.replacing f files t.path) s

theorem asAlone_start (blake3 : Bytes → FileHash) (f : Folder) (files : List Commit) :
    AsAlone blake3 f files (.start files) f f where
  split := rfl
  agree := .refl _ _ f
  found _ _ _ _ _ _ hb := Or.inl hb
  kept _ _ _ _ _ _ h := absurd h (Nat.not_lt_zero _)
  head _ _ _ _ _ _ := ⟨rfl, trivial⟩

namespace AsAlone

/-- What happens elsewhere in the folder does not concern the session. -/
theorem frame (h : AsAlone blake3 f files l s s') {s₂ : Folder}
    (hent : ∀ q, Writes blake3 f files q ∨ Needs files q → s₂.entry q = s.entry q)
    (hdir : ∀ q, Writes blake3 f files q → s₂.isDir q = s.isDir q) :
    AsAlone blake3 f files l s₂ s' := by
  have hcontent : ∀ c ∈ files, ∀ t, safeJoin c.path = .ok t → t.path ≠ [] →
      ∀ q, q = t.path ∨ q = t.path.temp → s₂.content q = s.content q := by
    intro c hc t ht hne q hq
    refine Folder.content_of_entry_eq (hent q (Or.inl ⟨c, hc, (Commit.mem_names ht hne).mpr ?_⟩))
    exact hq.imp_right Or.inl
  refine ⟨h.split, ⟨fun q hq => ?_, fun q hq => ?_⟩, fun c hc t ht hne b hb => ?_,
    fun pre c post t hfiles hpost hlt ht => ?_, fun hf c rest t htodo ht => ?_⟩
  · rw [hent q hq, h.agree.entry q hq]
  · rw [hdir q hq, h.agree.dir q hq]
  · rw [hcontent c hc t ht hne _ (Or.inl rfl)] at hb
    exact h.found c hc t ht hne b hb
  · obtain ⟨hne, hk⟩ := h.kept pre c post t hfiles hpost hlt ht
    have hc : c ∈ files := by simp [hfiles]
    exact ⟨hne, (hcontent c hc t ht hne _ (Or.inl rfl)).trans hk⟩
  · obtain ⟨hdone, hready⟩ := h.head hf c rest t htodo ht
    have hc : c ∈ files := by simp [← h.split, htodo]
    exact ⟨hdone, hready.congr (hcontent c hc t ht)⟩

/-- A step of the session changes the files it writes only. -/
theorem step_entry (h : AsAlone blake3 f files l s s') {q : RelPath}
    (hq : ¬ Writes blake3 f files q) : (sessionStep blake3 l s).2.entry q = s.entry q := by
  cases hf : l.failed with
  | some e => rw [sessionStep_of_failed hf]
  | none =>
    cases htodo : l.todo with
    | nil => rw [sessionStep_of_nil htodo]
    | cons c rest =>
      cases ht : safeJoin c.path with
      | error e => rw [sessionStep_of_error hf htodo ht]
      | ok t =>
        obtain ⟨-, hready⟩ := h.head hf c rest t htodo ht
        have hc : c ∈ files := by simp [← h.split, htodo]
        rw [sessionStep_of_ok hf htodo ht]
        refine Commit.step_entry hready fun hne => ?_
        have hnames : q ∉ c.names blake3 f files := fun hm => hq ⟨c, hc, hm⟩
        rw [Commit.mem_names ht hne, not_or, not_or] at hnames
        exact ⟨hnames.1, hnames.2.1, fun hr hb => hnames.2.2 ⟨hr, hb⟩⟩

/-- A step of the session makes the directories it needs only. -/
theorem step_isDir (h : AsAlone blake3 f files l s s') {q : RelPath} (hq : ¬ Needs files q) :
    (sessionStep blake3 l s).2.isDir q = s.isDir q := by
  cases hf : l.failed with
  | some e => rw [sessionStep_of_failed hf]
  | none =>
    cases htodo : l.todo with
    | nil => rw [sessionStep_of_nil htodo]
    | cons c rest =>
      cases ht : safeJoin c.path with
      | error e => rw [sessionStep_of_error hf htodo ht]
      | ok t =>
        have hc : c ∈ files := by simp [← h.split, htodo]
        rw [sessionStep_of_ok hf htodo ht]
        exact Commit.step_isDir fun hm => hq ⟨c, hc, by rw [Commit.above_of_ok ht]; exact hm⟩

/-- A commit leaves the other targets of its session alone. -/
theorem step_elsewhere (h : AsAlone blake3 f files l s s')
    (hown : ∀ a ∈ files, ∀ b ∈ files, ∀ q ∈ (a.names blake3 f files).tail, b.target ≠ some q)
    (hf : l.failed = none) (htodo : l.todo = c :: rest) (ht : safeJoin c.path = .ok t)
    {a : Commit} (ha : a ∈ files) {u : Target} (hu : safeJoin a.path = .ok u)
    (hut : u.path ≠ t.path) : (c.step blake3 t l.pc s).2.content u.path = s.content u.path := by
  obtain ⟨-, hready⟩ := h.head hf c rest t htodo ht
  have hc : c ∈ files := by simp [← h.split, htodo]
  refine Folder.content_of_entry_eq (Commit.step_entry hready fun htne => ⟨hut, ?_, fun hr hb => ?_⟩)
  · intro hq
    have hm : u.path ∈ (c.names blake3 f files).tail :=
      (Commit.mem_tail_names ht htne).mpr (Or.inl hq)
    exact hown c hc a ha _ hm (Commit.target_of_ok hu)
  · have hm : u.path ∈ (c.names blake3 f files).tail :=
      (Commit.mem_tail_names ht htne).mpr (Or.inr ⟨hr, hb⟩)
    exact hown c hc a ha _ hm (Commit.target_of_ok hu)

/-- A step of the session does what it would do alone. -/
theorem step (h : AsAlone blake3 f files l s s')
    (hown : ∀ a ∈ files, ∀ b ∈ files, ∀ q ∈ (a.names blake3 f files).tail, b.target ≠ some q) :
    (sessionStep blake3 l s).1 = (sessionStep blake3 l s').1 ∧
      AsAlone blake3 f files (sessionStep blake3 l s).1 (sessionStep blake3 l s).2
        (sessionStep blake3 l s').2 := by
  cases hf : l.failed with
  | some e =>
    rw [sessionStep_of_failed hf, sessionStep_of_failed hf]
    exact ⟨rfl, h⟩
  | none =>
  cases htodo : l.todo with
  | nil =>
    rw [sessionStep_of_nil htodo, sessionStep_of_nil htodo]
    exact ⟨rfl, h⟩
  | cons c rest =>
  cases ht : safeJoin c.path with
  | error e =>
    rw [sessionStep_of_error hf htodo ht, sessionStep_of_error hf htodo ht]
    exact ⟨rfl, h.split, h.agree, h.found, h.kept, fun hfail => by cases hfail⟩
  | ok t =>
    rw [sessionStep_of_ok hf htodo ht, sessionStep_of_ok hf htodo ht]
    obtain ⟨-, hready⟩ := h.head hf c rest t htodo ht
    have hsplit : l.committed ++ c :: rest = files := by rw [← htodo, h.split]
    have hc : c ∈ files := by simp [← hsplit]
    have hname : ∀ q, t.path ≠ [] → (q = t.path ∨ q = t.path.temp ∨
        c.replacing f files t.path = true ∧ q = backupPath blake3 c.ts c.winner t c.data) →
        Writes blake3 f files q := fun q hne hq => ⟨c, hc, (Commit.mem_names ht hne).mpr hq⟩
    obtain ⟨hpc, hagree⟩ : (c.step blake3 t l.pc s).1 = (c.step blake3 t l.pc s').1 ∧
        Agree (Writes blake3 f files) (Needs files) (c.step blake3 t l.pc s).2
          (c.step blake3 t l.pc s').2 := Commit.step_agree hready
      (fun hne => hname _ hne (Or.inl rfl)) (fun hne => hname _ hne (Or.inr (Or.inl rfl)))
      (fun hne hr => hname _ hne (Or.inr (Or.inr ⟨hr, rfl⟩)))
      (fun q hq => ⟨c, hc, by rw [Commit.above_of_ok ht]; exact hq⟩) h.agree
    have hold : t.path ≠ [] → ∀ b, s.content t.path = some b → b ≠ c.data →
        c.replacing f files t.path = true := fun hne b hb =>
      Commit.replacing_of_found (h.found c hc t ht hne b hb)
    have hready' : (c.step blake3 t l.pc s).1.Ready c t (c.replacing f files t.path)
        (c.step blake3 t l.pc s).2 := Commit.step_ready hready hold
    have hfound : ∀ a ∈ files, ∀ u, safeJoin a.path = .ok u → u.path ≠ [] → ∀ b,
        (c.step blake3 t l.pc s).2.content u.path = some b →
          f.content u.path = some b ∨ ∃ x ∈ files, x.target = some u.path ∧ x.data = b := by
      intro a ha u hu hne b hb
      by_cases hut : u.path = t.path
      · rw [hut] at hb
        rcases Commit.step_target hready hb with hb | hb
        · rw [← hut] at hb
          exact h.found a ha u hu hne b hb
        · exact Or.inr ⟨c, hc, by rw [hut, Commit.target_of_ok ht], hb.symm⟩
      · rw [step_elsewhere h hown hf htodo ht ha hu hut] at hb
        exact h.found a ha u hu hne b hb
    have hkept : ∀ pre a post u, files = pre ++ a :: post → (∀ x ∈ post, x.target ≠ a.target) →
        pre.length < l.committed.length → safeJoin a.path = .ok u →
          u.path ≠ [] ∧ (c.step blake3 t l.pc s).2.content u.path = some a.data := by
      intro pre a post u hfiles hpost hlt hu
      obtain ⟨hne, hk⟩ := h.kept pre a post u hfiles hpost hlt hu
      have ha : a ∈ files := by simp [hfiles]
      have hlater : c ∈ post := mem_of_append_cons_eq (hsplit.trans hfiles) hlt
      have hut : u.path ≠ t.path := fun heq =>
        hpost c hlater (by rw [Commit.target_of_ok ht, Commit.target_of_ok hu, heq])
      exact ⟨hne, (step_elsewhere h hown hf htodo ht ha hu hut).trans hk⟩
    refine ⟨by rw [hpc], ?_⟩
    rcases l.advance_cases c rest (c.step blake3 t l.pc s).1 with
      ⟨k, hk, hadv⟩ | ⟨e, he, hadv⟩ | ⟨hgo, hadv⟩
    · rw [hadv]
      rw [hk] at hready'
      refine ⟨by rw [List.append_assoc]; exact hsplit, hagree, hfound,
        fun pre a post u hfiles hpost hlt hu => ?_, fun _ _ _ _ _ _ => ⟨rfl, trivial⟩⟩
      rw [List.length_append, List.length_singleton] at hlt
      by_cases hearlier : pre.length < l.committed.length
      · exact hkept pre a post u hfiles hpost hearlier hu
      · have hlen : l.committed.length = pre.length := by omega
        obtain ⟨-, hcons⟩ := List.append_inj (hsplit.trans hfiles) hlen
        cases (List.cons.inj hcons).1
        cases ht.symm.trans hu
        exact hready'
    · rw [hadv]
      exact ⟨h.split, hagree, hfound, hkept, fun hfail => by cases hfail⟩
    · rw [hadv]
      refine ⟨h.split, hagree, hfound, hkept, fun _ a rest' u htodo' hu => ?_⟩
      have heq : c = a := by
        rw [htodo] at htodo'
        exact (List.cons.inj htodo').1
      subst heq
      cases ht.symm.trans hu
      exact ⟨hgo, hready'⟩

end AsAlone

theorem isolation {ι : Type} {files : ι → List Commit} (h : Separate blake3 f files) :
    Tasks.Isolation (sessionStep blake3) fun i => AsAlone blake3 f (files i) where
  own := fun hl => hl.step (h.own _)
  frame := fun {i j _ _ _ _ _} hij hl hr => by
    refine hl.frame (fun q hq => hr.step_entry ?_) fun q hq => hr.step_isDir ?_
    · rintro ⟨b, hb, hqb⟩
      rcases hq with ⟨a, ha, hqa⟩ | ⟨a, ha, hqa⟩
      · exact h.names i j hij a ha b hb q hqa hqb
      · exact h.above j i (Ne.symm hij) b hb a ha q hqb hqa
    · rintro ⟨b, hb, hqb⟩
      obtain ⟨a, ha, hqa⟩ := hq
      exact h.above i j hij a ha b hb q hqa hqb

end

/-- The sessions of one folder, each with the files it has received and verified. -/
def startSessions {ι : Type} (f : Folder) (files : ι → List Commit) :
    Tasks.Shared ι SessionTask Folder := ⟨fun i => .start (files i), f⟩

/-- **Sessions that keep apart do not notice each other.** In any order of
their steps, each stands where its own steps alone would have brought it, in
particular fails only if it fails alone, and a path it has committed, if it
does not commit it again, holds the bytes it verified. -/
theorem sessions_isolated {ι : Type} [DecidableEq ι] (blake3 : Bytes → FileHash) (f : Folder)
    (files : ι → List Commit) (h : Separate blake3 f files) (schedule : List ι) (i : ι) :
    (Tasks.run (sessionStep blake3) (startSessions f files) schedule).task i =
      (Tasks.alone (sessionStep blake3) (schedule.count i) (.start (files i), f)).1 ∧
    ∀ pre c post t, files i = pre ++ c :: post → (∀ a ∈ post, a.target ≠ c.target) →
      safeJoin c.path = .ok t → pre.length <
        ((Tasks.run (sessionStep blake3) (startSessions f files) schedule).task i).committed.length →
      (Tasks.run (sessionStep blake3) (startSessions f files) schedule).state.content t.path =
        some c.data := by
  obtain ⟨htask, hrel⟩ := Tasks.run_isolated (isolation h) (w := startSessions f files)
    (fun j => asAlone_start blake3 f (files j)) schedule i
  refine ⟨htask, fun pre c post t hfiles hpost ht hlt => ?_⟩
  exact (hrel.kept pre c post t hfiles hpost hlt ht).2

/-- A file of one byte, as a session has received it. -/
def sampleCommit (path : String) (byte : UInt8) : Commit := ⟨path, [byte], 1700000000, "remote", 1⟩

/-- Two sessions, each with one file. -/
def twoSessions (a b : Commit) : Bool → List Commit
  | false => [a]
  | true => [b]

theorem sessions_isolated_two :
    ((Tasks.run (sessionStep sampleBlake3) (startSessions (sampleFolder [(sampleName, [97])])
      (twoSessions (sampleCommit "f" 98) (sampleCommit "g.b" 99)))
      [false, false, true, true, false, false, true, false, true, false]).state.content
        [sampleName] = some [98]) := by
  have hseparate : Separate sampleBlake3 (sampleFolder [(sampleName, [97])])
      (twoSessions (sampleCommit "f" 98) (sampleCommit "g.b" 99)) :=
    ⟨by decide +kernel, by decide +kernel, by decide +kernel⟩
  exact (sessions_isolated sampleBlake3 _ _ hseparate
    [false, false, true, true, false, false, true, false, true, false] false).2 []
      (sampleCommit "f" 98) [] ⟨[sampleName], false⟩ rfl (fun a ha => by cases ha)
      (by decide +kernel) (by decide +kernel)

/-- Two sessions, with `f.a` and with `f.b`, over an empty folder. -/
def collision (schedule : List Bool) : Tasks.Shared Bool SessionTask Folder :=
  Tasks.run (sessionStep sampleBlake3)
    (startSessions (sampleFolder []) (twoSessions (sampleCommit "f.a" 97) (sampleCommit "f.b" 98)))
    schedule

/-- Between the temporary file of the first session and its rename comes the
temporary file of the second, which is the same file. The first then commits
what the second has received, and the second, which alone would succeed, finds
nothing to rename. -/
theorem sessions_collide :
    (sampleCommit "f.a" 97).target ≠ (sampleCommit "f.b" 98).target ∧
    (¬ ∀ schedule, ∀ c ∈ ((collision schedule).task false).committed,
      c.target.bind (collision schedule).state.content = some c.data) ∧
    ¬ ∀ schedule, ((collision schedule).task true).failed =
      (Tasks.alone (sessionStep sampleBlake3) (schedule.count true)
        (.start [sampleCommit "f.b" 98], sampleFolder [])).1.failed := by
  refine ⟨by decide +kernel, fun h => ?_, fun h => ?_⟩
  · have hbytes := h [false, false, false, true, true, true, false]
    revert hbytes
    decide +kernel
  · have hfail := h [false, false, false, true, true, true, false, true]
    revert hfail
    decide +kernel

end FerriSync
