/-
# Edits during a commit

Another program writes whole files in the folder while a session commits a
received one, and its writes fall between the file system's steps of the
commit: the directory, the existence check, the read and compare, the backup's
rename, the temporary write, the final rename (`Race.commitStep`). Undisturbed
these are the commit of `commitFile` (`commitSteps_eq`).

An edit survives if it comes before the target is compared, and then stands at
its path or in the backup (`edit_survives`): what the check has seen is not
checked again, so an edit of the target between the check and the final rename
is overwritten (`edit_lost`), as is one of the temporary file or of the backup.

Key definitions: `Race`, `Race.commitStep`, `Race.spares`, `undisturbed`.
Key theorems: `commitSteps_eq`, `commitStep_inv`, `edit_survives`.
-/
import FerriSync.Commit

namespace FerriSync

/-- The next file system step of a commit. -/
inductive CommitPc
  | makeDir
  | check
  | compare
  | moveAside
  | writeTemp (conflicted : Bool)
  | rename (conflicted : Bool)
  | done (result : Except String Bool)

/-- A write of a whole file by another program. -/
structure Edit where
  path : RelPath
  data : Bytes
  mtime : ℤ

/-- A commit under way, and for each path what the other program last stored
there. -/
structure Race where
  pc : CommitPc
  folder : Folder
  stored : RelPath → Option Bytes

inductive RaceEvent
  | commit
  | edit (e : Edit)

section

variable (blake3 : Bytes → FileHash) (ts : ℕ) (winner : String) (t : Target) (data : Bytes)
  (mtime : ℤ)

/-- One file system step of the commit. -/
def Race.commitStep (s : Race) : Race :=
  match s.pc with
  | .makeDir =>
    match s.folder.createDirAll t.path.dropLast with
    | .error e => { s with pc := .done (.error e) }
    | .ok g => { s with pc := .check, folder := g }
  | .check =>
    if s.folder.targetExists t = false then { s with pc := .writeTemp false }
    else { s with pc := .compare }
  | .compare =>
    match s.folder.read t with
    | .error e => { s with pc := .done (.error e) }
    | .ok existing =>
      if existing = data then { s with pc := .writeTemp false } else { s with pc := .moveAside }
  | .moveAside =>
    match s.folder.rename t.path ⟨backupPath blake3 ts winner t data, false⟩ with
    | .error e => { s with pc := .done (.error e) }
    | .ok g => { s with pc := .writeTemp true, folder := g }
  | .writeTemp conflicted =>
    match s.folder.write t.path.temp data mtime with
    | .error e => { s with pc := .done (.error e) }
    | .ok g => { s with pc := .rename conflicted, folder := g }
  | .rename conflicted =>
    match s.folder.rename t.path.temp t with
    | .error e => { s with
        pc := .done (.error s!"atomic rename failed: {e}"), folder := s.folder.remove t.path.temp }
    | .ok g => { s with pc := .done (.ok conflicted), folder := g }
  | .done _ => s

/-- The other program writes a file; it does not where a directory stands. -/
def Race.edit (s : Race) (e : Edit) : Race :=
  match s.folder.write e.path e.data e.mtime with
  | .error _ => s
  | .ok g => { s with folder := g, stored := Function.update s.stored e.path (some e.data) }

def Race.step (s : Race) : RaceEvent → Race
  | .commit => s.commitStep blake3 ts winner t data mtime
  | .edit e => s.edit e

def Race.run (s : Race) (es : List RaceEvent) : Race :=
  es.foldl (Race.step blake3 ts winner t data mtime) s

/-- The commit begins. -/
def Race.start (f : Folder) : Race := ⟨.makeDir, f, fun _ => none⟩

/-- The commit has not moved anything to the backup and will not. -/
def CommitPc.withoutBackup : CommitPc → Bool
  | writeTemp conflicted => !conflicted
  | rename conflicted => !conflicted
  | _ => false

/-- The commit has made up its mind about the target. -/
def CommitPc.decided : CommitPc → Bool
  | writeTemp _ => true
  | rename _ => true
  | _ => false

/-- An edit that leaves the temporary file alone, the backup too unless none is
made, and the target once it has been checked, unless it stores the very
content received. -/
def Race.spares (s : Race) (e : Edit) : Bool :=
  decide (e.path ≠ t.path.temp) &&
  (decide (e.path ≠ backupPath blake3 ts winner t data) || s.pc.withoutBackup) &&
  (decide (e.path ≠ t.path) || !s.pc.decided || decide (e.data = data))

/-- Every edit of the schedule spares the commit. -/
def undisturbed : Race → List RaceEvent → Bool
  | _, [] => true
  | s, .commit :: es => undisturbed (s.commitStep blake3 ts winner t data mtime) es
  | s, .edit e :: es => s.spares blake3 ts winner t data e && undisturbed (s.edit e) es

/-- The commit is over. -/
def CommitPc.isDone : CommitPc → Bool
  | done _ => true
  | _ => false

end

/-! ### The commit alone -/

section

variable {blake3 : Bytes → FileHash} {ts : ℕ} {winner : String} {t : Target} {data : Bytes}
  {mtime : ℤ}

theorem commitStep_done {s : Race} {r : Except String Bool} (h : s.pc = .done r) :
    s.commitStep blake3 ts winner t data mtime = s := by
  simp only [Race.commitStep, h]

/-- A finished commit stays as it is. -/
theorem run_done {s : Race} {r : Except String Bool} (h : s.pc = .done r) :
    ∀ n, s.run blake3 ts winner t data mtime (List.replicate n .commit) = s
  | 0 => rfl
  | n + 1 => by
    rw [List.replicate_succ, Race.run, List.foldl_cons, Race.step, commitStep_done h]
    exact run_done h n

theorem run_install {g : Folder} {c : Bool} {st : RelPath → Option Bytes} (n : ℕ) :
    Race.run blake3 ts winner t data mtime ⟨.writeTemp c, g, st⟩ (List.replicate (n + 2) .commit) =
      match install t data mtime g with
      | (.error e, h) => ⟨.done (.error e), h, st⟩
      | (.ok (), h) => ⟨.done (.ok c), h, st⟩ := by
  rw [List.replicate_succ, Race.run, List.foldl_cons, ← Race.run]
  simp only [Race.step, Race.commitStep]
  unfold install
  cases hw : g.write t.path.temp data mtime with
  | error e => exact run_done rfl _
  | ok h =>
    dsimp only
    rw [List.replicate_succ, Race.run, List.foldl_cons, ← Race.run]
    simp only [Race.step, Race.commitStep]
    cases hn : h.rename t.path.temp t with
    | error e => exact run_done rfl _
    | ok k => exact run_done rfl _

/-- **Undisturbed, the steps are the commit.** -/
theorem commitSteps_eq (f : Folder) :
    Race.run blake3 ts winner t data mtime (Race.start f) (List.replicate 6 .commit) =
      ⟨.done (commitFile blake3 ts winner t data mtime f).1,
        (commitFile blake3 ts winner t data mtime f).2, fun _ => none⟩ := by
  have hi : ∀ (g : Folder) (c : Bool) (n : ℕ),
      Race.run blake3 ts winner t data mtime ⟨.writeTemp c, g, fun _ => none⟩
        (List.replicate (n + 2) .commit) =
      match install t data mtime g with
      | (.error e, h) => ⟨.done (.error e), h, fun _ => none⟩
      | (.ok (), h) => ⟨.done (.ok c), h, fun _ => none⟩ := fun g c n => run_install n
  have hcons : ∀ (s : Race) (n : ℕ), s.run blake3 ts winner t data mtime
      (List.replicate (n + 1) .commit) = (s.commitStep blake3 ts winner t data mtime).run
        blake3 ts winner t data mtime (List.replicate n .commit) := fun s n => rfl
  rw [hcons]
  simp only [Race.commitStep, Race.start, commitFile, prepare]
  cases hd : f.createDirAll t.path.dropLast with
  | error e => exact run_done rfl _
  | ok g =>
    dsimp only
    rw [hcons]
    simp only [Race.commitStep, backupOnConflict]
    by_cases hx : g.targetExists t = false
    · simp only [if_pos hx]
      rw [hi]
      rcases install t data mtime g with ⟨_ | _, h⟩ <;> rfl
    · simp only [if_neg hx]
      rw [hcons]
      simp only [Race.commitStep]
      cases hr : g.read t with
      | error e => exact run_done rfl _
      | ok existing =>
        dsimp only
        by_cases heq : existing = data
        · simp only [if_pos heq]
          rw [hi]
          rcases install t data mtime g with ⟨_ | _, h⟩ <;> rfl
        · simp only [if_neg heq]
          rw [hcons]
          simp only [Race.commitStep]
          cases hn : g.rename t.path ⟨backupPath blake3 ts winner t data, false⟩ with
          | error e => exact run_done rfl _
          | ok h =>
            dsimp only
            rw [hi]
            rcases install t data mtime h with ⟨_ | _, k⟩ <;> rfl

/-! ### What the edits can count on -/

/-- Where the content last stored at the target is. -/
def KeepsTarget (blake3 : Bytes → FileHash) (ts : ℕ) (winner : String) (t : Target) (data : Bytes)
    (f : Folder) (b : Bytes) : CommitPc → Prop
  | .makeDir | .check | .compare | .moveAside => f.content t.path = some b
  | .writeTemp c | .rename c =>
    (c = true ∧ f.content (backupPath blake3 ts winner t data) = some b) ∨
      (f.content t.path = some b ∧ (b = data ∨ t.asDir = true))
  | .done _ => f.content t.path = some b ∨ f.content (backupPath blake3 ts winner t data) = some b

/-- The commit is done, or will make no backup. -/
def CommitPc.pastBackup : CommitPc → Bool
  | done _ => true
  | pc => pc.withoutBackup

theorem CommitPc.pastBackup_of_withoutBackup {pc : CommitPc} (h : pc.withoutBackup = true) :
    pc.pastBackup = true := by
  cases pc with
  | done r => rfl
  | makeDir | check | compare | moveAside | writeTemp c | rename c => exact h

/-- The next step is the final rename. -/
def CommitPc.isRename : CommitPc → Bool
  | rename _ => true
  | _ => false

/-- What holds of a race in which every edit spares the commit. -/
structure RaceInv (blake3 : Bytes → FileHash) (ts : ℕ) (winner : String) (t : Target)
    (data : Bytes) (s : Race) : Prop where
  ne_nil : ∀ q b, s.stored q = some b → q ≠ []
  temp : s.stored t.path.temp = none
  elsewhere : ∀ q b, q ≠ t.path → s.stored q = some b → s.folder.content q = some b ∧
    (q = backupPath blake3 ts winner t data → s.pc.pastBackup = true)
  target : ∀ b, s.stored t.path = some b → KeepsTarget blake3 ts winner t data s.folder b s.pc
  written : ∀ c, s.pc = .rename c → ∃ e, s.folder.entry t.path.temp = some e ∧ e.data = data

theorem raceInv_start (f : Folder) : RaceInv blake3 ts winner t data (Race.start f) where
  ne_nil := nofun
  temp := rfl
  elsewhere := nofun
  target := nofun
  written := nofun

/-- The target's content stays where it is if both its places do. -/
theorem KeepsTarget.congr {f g : Folder} {b : Bytes} {pc : CommitPc}
    (h : KeepsTarget blake3 ts winner t data f b pc) (ht : g.content t.path = f.content t.path)
    (hb : pc.withoutBackup = true ∨ g.content (backupPath blake3 ts winner t data) =
      f.content (backupPath blake3 ts winner t data)) :
    KeepsTarget blake3 ts winner t data g b pc := by
  cases pc with
  | makeDir | check | compare | moveAside => exact ht.trans h
  | writeTemp c | rename c =>
    rcases h with ⟨hc, hk⟩ | ⟨hk, hd⟩
    · have hb := hb.resolve_left (by simp [CommitPc.withoutBackup, hc])
      exact Or.inl ⟨hc, hb.trans hk⟩
    · exact Or.inr ⟨ht.trans hk, hd⟩
  | done r =>
    have hb := hb.resolve_left (by simp [CommitPc.withoutBackup])
    exact h.imp ht.trans hb.trans

/-- An edit of the target is kept before the comparison, and after it if it
stores what is received. -/
theorem KeepsTarget.of_edit {g : Folder} {b : Bytes} {pc : CommitPc}
    (h : g.content t.path = some b) (hb : pc.decided = false ∨ b = data) :
    KeepsTarget blake3 ts winner t data g b pc := by
  cases pc with
  | makeDir | check | compare | moveAside => exact h
  | writeTemp c | rename c => exact Or.inr ⟨h, Or.inl (hb.resolve_left (by simp [CommitPc.decided]))⟩
  | done r => exact Or.inl h

/-- What an edit stores, and where. -/
theorem edit_cases (s : Race) (e : Edit) : s.edit e = s ∨ e.path ≠ [] ∧ (s.edit e).pc = s.pc ∧
    (∀ q, (s.edit e).stored q = if q = e.path then some e.data else s.stored q) ∧
    ∀ q, (s.edit e).folder.entry q =
      if q = e.path then some ⟨e.data, e.mtime⟩ else s.folder.entry q := by
  unfold Race.edit
  cases hw : s.folder.write e.path e.data e.mtime with
  | error _ => exact Or.inl rfl
  | ok g =>
    exact Or.inr ⟨Folder.ne_nil_of_not_dir (Folder.not_dir_of_write hw), rfl,
      fun q => Function.update_apply _ _ _ _, Folder.entry_write hw⟩

/-- An edit that spares the commit is kept. -/
theorem edit_inv {s : Race} {e : Edit} (hs : RaceInv blake3 ts winner t data s)
    (h : s.spares blake3 ts winner t data e = true) :
    RaceInv blake3 ts winner t data (s.edit e) := by
  rcases edit_cases s e with hsame | ⟨hne, hpc, hst, hent⟩
  · rwa [hsame]
  simp only [Race.spares, Bool.and_eq_true, Bool.or_eq_true, decide_eq_true_eq,
    Bool.not_eq_true'] at h
  obtain ⟨⟨htemp, hbak⟩, htarget⟩ := h
  have hself : (s.edit e).folder.content e.path = some e.data := by
    rw [Folder.content, hent, if_pos rfl]; rfl
  have hother : ∀ q, q ≠ e.path → (s.edit e).folder.content q = s.folder.content q := fun q hq =>
    Folder.content_of_entry_eq (by rw [hent, if_neg hq])
  refine ⟨fun q b hq => ?_, ?_, fun q b hqt hq => ?_, fun b hb => ?_, fun c hc => ?_⟩
  · rw [hst] at hq
    split_ifs at hq with hqe
    · rwa [hqe]
    · exact hs.ne_nil q b hq
  · rw [hst, if_neg (Ne.symm htemp)]
    exact hs.temp
  · rw [hst] at hq
    rw [hpc]
    split_ifs at hq with hqe
    · subst hqe
      cases hq
      refine ⟨hself, fun hb => ?_⟩
      have hw := hbak.resolve_left (not_not_intro hb)
      exact CommitPc.pastBackup_of_withoutBackup hw
    · rw [hother q hqe]
      exact hs.elsewhere q b hqt hq
  · rw [hst] at hb
    rw [hpc]
    split_ifs at hb with hte
    · cases hb
      exact .of_edit (hte ▸ hself) (htarget.imp_left fun h => h.resolve_left (not_not_intro hte.symm))
    · exact (hs.target b hb).congr (hother _ hte) (hbak.symm.imp_right fun h => hother _ (Ne.symm h))
  · rw [hpc] at hc
    obtain ⟨x, hx, hd⟩ := hs.written c hc
    exact ⟨x, by rw [hent, if_neg (Ne.symm htemp)]; exact hx, hd⟩

/-- A step that leaves the files as they are. -/
theorem RaceInv.advance {s : Race} {g : Folder} {pc : CommitPc}
    (hs : RaceInv blake3 ts winner t data s) (hg : ∀ q, g.entry q = s.folder.entry q)
    (hpast : s.pc.pastBackup = false ∨ pc.pastBackup = true)
    (htarget : ∀ b, s.stored t.path = some b → KeepsTarget blake3 ts winner t data g b pc)
    (hpc : pc.isRename = false) : RaceInv blake3 ts winner t data ⟨pc, g, s.stored⟩ where
  ne_nil := hs.ne_nil
  temp := hs.temp
  elsewhere q b hqt hq := by
    obtain ⟨h1, h2⟩ := hs.elsewhere q b hqt hq
    refine ⟨by rwa [Folder.content_of_entry_eq (hg q)], fun h => hpast.resolve_left ?_⟩
    rw [h2 h]
    simp
  target := htarget
  written c hc := by rw [show pc = .rename c from hc] at hpc; cases hpc

/-- Each step of the commit keeps what the edits have stored. -/
theorem commitStep_inv (mtime : ℤ) {s : Race} (hs : RaceInv blake3 ts winner t data s) :
    RaceInv blake3 ts winner t data (s.commitStep blake3 ts winner t data mtime) := by
  obtain ⟨pc, f, stored⟩ := s
  have hstay : ∀ g : Folder, (∀ q, g.entry q = f.entry q) → ∀ b, f.content t.path = some b →
      g.content t.path = some b := fun g hg b hb => by rwa [Folder.content_of_entry_eq (hg _)]
  cases pc with
  | makeDir =>
    simp only [Race.commitStep]
    cases hd : f.createDirAll t.path.dropLast with
    | error e => exact hs.advance (fun _ => rfl) (Or.inl rfl) (fun b hb => Or.inl (hs.target b hb)) rfl
    | ok g =>
      have hg : ∀ q, g.entry q = f.entry q := fun q => by
        simp only [Folder.entry, (Folder.createDirAll_ok hd).1]
      exact hs.advance hg (Or.inl rfl) (fun b hb => hstay g hg b (hs.target b hb)) rfl
  | check =>
    simp only [Race.commitStep]
    by_cases hx : f.targetExists t = false
    · rw [if_pos hx]
      refine hs.advance (fun _ => rfl) (Or.inl rfl)
        (fun b hb => Or.inr ⟨hs.target b hb, Or.inr ?_⟩) rfl
      -- the other program has stored the target, so only its string can be the directory's
      obtain ⟨e, he, -⟩ := Folder.content_eq_some.mp (hs.target b hb)
      simp only [Folder.targetExists, he, Option.isSome_some, Bool.and_true, Bool.or_eq_false_iff,
        Bool.not_eq_false'] at hx
      exact hx.2
    · rw [if_neg hx]
      exact hs.advance (fun _ => rfl) (Or.inl rfl) hs.target rfl
  | compare =>
    simp only [Race.commitStep]
    cases hr : f.read t with
    | error e => exact hs.advance (fun _ => rfl) (Or.inl rfl) (fun b hb => Or.inl (hs.target b hb)) rfl
    | ok existing =>
      obtain ⟨-, -, e, he, hdata⟩ := Folder.read_ok hr
      dsimp only
      by_cases heq : existing = data
      · rw [if_pos heq]
        refine hs.advance (fun _ => rfl) (Or.inl rfl) (fun b hb => ?_) rfl
        have hb' : f.content t.path = some b := hs.target b hb
        refine Or.inr ⟨hb', Or.inl ?_⟩
        rw [Folder.content, he, Option.map_some, Option.some.injEq] at hb'
        exact hb'.symm.trans (hdata.trans heq)
      · rw [if_neg heq]
        exact hs.advance (fun _ => rfl) (Or.inl rfl) hs.target rfl
  | moveAside =>
    simp only [Race.commitStep]
    cases hn : f.rename t.path ⟨backupPath blake3 ts winner t data, false⟩ with
    | error e => exact hs.advance (fun _ => rfl) (Or.inl rfl) (fun b hb => Or.inl (hs.target b hb)) rfl
    | ok g =>
      obtain ⟨e, he, hent⟩ := Folder.entry_rename hn
      refine ⟨hs.ne_nil, hs.temp, fun q b hqt hq => ?_, fun b hb => Or.inl ⟨rfl, ?_⟩,
        fun c hc => by cases hc⟩
      · obtain ⟨h1, h2⟩ := hs.elsewhere q b hqt hq
        have hqb : q ≠ backupPath blake3 ts winner t data := fun h => by cases h2 h
        exact ⟨by rw [Folder.content_of_entry_eq (g := g) (f := f)
          (by rw [hent, if_neg hqb, if_neg hqt])]; exact h1, fun h => absurd h hqb⟩
      · have hb' : f.content t.path = some b := hs.target b hb
        rw [Folder.content, he] at hb'
        rw [Folder.content, hent, if_pos rfl]
        exact hb'
  | writeTemp c =>
    simp only [Race.commitStep]
    cases hw : f.write t.path.temp data mtime with
    | error e =>
      exact hs.advance (fun _ => rfl) (Or.inr rfl)
        (fun b hb => (hs.target b hb).elim (fun h => Or.inr h.2) fun h => Or.inl h.1) rfl
    | ok g =>
      have hent := Folder.entry_write hw
      have hother : ∀ q, q ≠ t.path.temp → g.content q = f.content q := fun q hq =>
        Folder.content_of_entry_eq (by rw [hent, if_neg hq])
      refine ⟨hs.ne_nil, hs.temp, fun q b hqt hq => ?_, fun b hb => ?_, fun c' hc => ?_⟩
      · obtain ⟨h1, h2⟩ := hs.elsewhere q b hqt hq
        refine ⟨?_, h2⟩
        dsimp only
        rw [hother q fun h => by rw [h, hs.temp] at hq; cases hq]
        exact h1
      · have hne := hs.ne_nil _ _ hb
        have hk : KeepsTarget blake3 ts winner t data f b (.writeTemp c) := hs.target b hb
        exact hk.congr (hother _ (RelPath.temp_ne hne).symm)
          (Or.inr (hother _ (RelPath.temp_ne_backup hne _ _ _).symm))
      · exact ⟨_, by rw [hent, if_pos rfl], rfl⟩
  | rename c =>
    obtain ⟨x, hx, hxd⟩ := hs.written c rfl
    simp only [Race.commitStep]
    cases hn : f.rename t.path.temp t with
    | error e =>
      have hother : ∀ q, q ≠ t.path.temp → (f.remove t.path.temp).content q = f.content q :=
        fun q hq => Folder.content_of_entry_eq (by rw [Folder.entry_remove, if_neg hq])
      refine ⟨hs.ne_nil, hs.temp, fun q b hqt hq => ?_, fun b hb => ?_, fun c hc => by cases hc⟩
      · obtain ⟨h1, h2⟩ := hs.elsewhere q b hqt hq
        refine ⟨?_, fun _ => rfl⟩
        dsimp only
        rw [hother q fun h => by rw [h, hs.temp] at hq; cases hq]
        exact h1
      · have hne := hs.ne_nil _ _ hb
        exact (hs.target b hb).symm.imp (fun h => (hother _ (RelPath.temp_ne hne).symm).trans h.1)
          fun h => (hother _ (RelPath.temp_ne_backup hne _ _ _).symm).trans h.2
    | ok g =>
      obtain ⟨x', hx', hent⟩ := Folder.entry_rename hn
      rw [hx] at hx'
      cases hx'
      have has : t.asDir = false := Folder.not_asDir_of_rename hn
      have hother : ∀ q, q ≠ t.path → q ≠ t.path.temp → g.content q = f.content q :=
        fun q hq hqt => Folder.content_of_entry_eq (by rw [hent, if_neg hq, if_neg hqt])
      refine ⟨hs.ne_nil, hs.temp, fun q b hqt hq => ?_, fun b hb => ?_, fun c hc => by cases hc⟩
      · obtain ⟨h1, h2⟩ := hs.elsewhere q b hqt hq
        refine ⟨?_, fun _ => rfl⟩
        dsimp only
        rw [hother q hqt fun h => by rw [h, hs.temp] at hq; cases hq]
        exact h1
      · have hne := hs.ne_nil _ _ hb
        rcases hs.target b hb with ⟨-, h⟩ | ⟨-, h⟩
        · refine Or.inr ((hother _ (RelPath.backup_ne hne _ _ _) ?_).trans h)
          exact (RelPath.temp_ne_backup hne _ _ _).symm
        · have hbd : b = data := h.resolve_right (by simp [has])
          exact Or.inl (by rw [Folder.content, hent, if_pos rfl, Option.map_some, hxd, hbd])
  | done r => exact hs

theorem commitStep_stored (blake3 : Bytes → FileHash) (ts : ℕ) (winner : String) (t : Target)
    (data : Bytes) (mtime : ℤ) (s : Race) :
    (s.commitStep blake3 ts winner t data mtime).stored = s.stored := by
  unfold Race.commitStep
  repeat' split
  all_goals rfl

theorem raceInv_run {es : List RaceEvent} {s : Race} (hs : RaceInv blake3 ts winner t data s)
    (h : undisturbed blake3 ts winner t data mtime s es = true) :
    RaceInv blake3 ts winner t data (s.run blake3 ts winner t data mtime es) := by
  induction es generalizing s with
  | nil => exact hs
  | cons e es ih =>
    cases e with
    | commit => exact ih (commitStep_inv mtime hs) h
    | edit e =>
      rw [undisturbed, Bool.and_eq_true] at h
      exact ih (edit_inv hs h.1) h.2

end

/-- **An edit that spares the commit survives it.** While no edit touches the
temporary file, the backup or, after the comparison, the target, what was last
stored at each path when the commit ends is then at that path or in its
backup. -/
theorem edit_survives (blake3 : Bytes → FileHash) (ts : ℕ) (winner : String) (t : Target)
    (data : Bytes) (mtime : ℤ) (f : Folder) (es : List RaceEvent)
    (hes : undisturbed blake3 ts winner t data mtime (Race.start f) es = true)
    (hend : ((Race.start f).run blake3 ts winner t data mtime (es ++ [.commit])).pc.isDone = true)
    (p : RelPath) (b : Bytes)
    (hp : ((Race.start f).run blake3 ts winner t data mtime es).stored p = some b) :
    ((Race.start f).run blake3 ts winner t data mtime (es ++ [.commit])).folder.content p = some b ∨
      ((Race.start f).run blake3 ts winner t data mtime (es ++ [.commit])).folder.content
        (p.backup ts (loserLabel winner) (blake3 data)) = some b := by
  have hrun : (Race.start f).run blake3 ts winner t data mtime (es ++ [.commit]) =
      ((Race.start f).run blake3 ts winner t data mtime es).commitStep
        blake3 ts winner t data mtime := by
    simp only [Race.run, List.foldl_append, List.foldl_cons, List.foldl_nil, Race.step]
  have hinv := commitStep_inv mtime (raceInv_run (raceInv_start f) hes)
  rw [← commitStep_stored blake3 ts winner t data mtime] at hp
  rw [hrun] at hend ⊢
  by_cases hpt : p = t.path
  · subst hpt
    have hk := hinv.target b hp
    generalize hpc : (((Race.start f).run blake3 ts winner t data mtime es).commitStep
      blake3 ts winner t data mtime).pc = pc at hk hend
    cases pc with
    | done r => exact hk
    | makeDir | check | compare | moveAside | writeTemp c | rename c => cases hend
  · exact Or.inl (hinv.elsewhere p b hpt hp).1

theorem edit_survives_early :
    ((Race.start (sampleFolder [(sampleName, [97])])).run sampleBlake3 1700000000 "remote"
      ⟨[sampleName], false⟩ [98] 1 ([.commit, .commit, .edit ⟨[sampleName], [99], 5⟩, .commit,
        .commit, .commit] ++ [.commit])).folder.content [sampleName] = some [99] ∨
    ((Race.start (sampleFolder [(sampleName, [97])])).run sampleBlake3 1700000000 "remote"
      ⟨[sampleName], false⟩ [98] 1 ([.commit, .commit, .edit ⟨[sampleName], [99], 5⟩, .commit,
        .commit, .commit] ++ [.commit])).folder.content
          (RelPath.backup [sampleName] 1700000000 (loserLabel "remote") (sampleBlake3 [98])) =
        some [99] :=
  edit_survives sampleBlake3 1700000000 "remote" ⟨[sampleName], false⟩ [98] 1
    (sampleFolder [(sampleName, [97])]) [.commit, .commit, .edit ⟨[sampleName], [99], 5⟩, .commit,
      .commit, .commit] (by decide +kernel) (by decide +kernel) [sampleName] [99] (by decide +kernel)

/-- A program creates `f` after the commit has found that there is no such
file: the commit replaces it without a backup. -/
theorem edit_lost :
    ¬ ∀ p b, ((Race.start (sampleFolder [])).run sampleBlake3 1700000000 "remote"
        ⟨[sampleName], false⟩ [98] 1
        [.commit, .commit, .edit ⟨[sampleName], [99], 5⟩, .commit]).stored p = some b →
      ∃ q, BackupOf p q ∧ ((Race.start (sampleFolder [])).run sampleBlake3 1700000000 "remote"
        ⟨[sampleName], false⟩ [98] 1
        ([.commit, .commit, .edit ⟨[sampleName], [99], 5⟩, .commit] ++ [.commit])).folder.content q =
          some b := by
  intro h
  obtain ⟨q, -, hq⟩ := h [sampleName] [99] (by decide +kernel)
  exact Folder.content_ne_of_all (by decide +kernel) q hq

end FerriSync
