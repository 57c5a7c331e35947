/-
# Folders whose files do not get in each other's way

When do the commits of a session succeed, and leave the other files alone? It
depends on the names (`Apart`): no file's path is above another's, and none is
at or below the temporary name or a backup name of a file that is committed.
A folder with such files, with its backups and with no other directories than
those that hold files (`Clean`), takes any file that is to be committed
(`prepare_clean`, `install_clean`) and is `Clean` afterwards; the file that was
there is kept as a backup (`commit_leaves`).

Key definitions: `Apart`, `Clean`.
Key theorems: `prepare_clean`, `install_clean`, `commit_leaves`.
-/
import FerriSync.Commit

namespace FerriSync

/-- The paths of two folders (`files`), and of those the ones that a session
commits (`moved`). -/
structure Apart (files moved : RelPath → Prop) : Prop where
  sub : ∀ t, moved t → files t
  ne_nil : ∀ u, files u → u ≠ []
  prefix_free : ∀ u v, files u → files v → u <+: v → u = v
  temp : ∀ t v, moved t → files v → ¬ t.temp <+: v
  backup : ∀ t v ts l h, moved t → files v → ¬ t.backup ts l h <+: v

/-- Paths of one depth are not below each other. -/
theorem Apart.of_depth {files moved : RelPath → Prop} {k : ℕ} (hk : 0 < k)
    (hsub : ∀ t, moved t → files t) (hdepth : ∀ u, files u → u.length = k)
    (htemp : ∀ t v, files t → files v → t.temp ≠ v)
    (hbackup : ∀ t v ts l h, files t → files v → t.backup ts l h ≠ v) : Apart files moved where
  sub := hsub
  ne_nil u hu := List.ne_nil_of_length_pos (by rw [hdepth u hu]; exact hk)
  prefix_free u v hu hv hpre := hpre.eq_of_length ((hdepth u hu).trans (hdepth v hv).symm)
  temp t v ht hv hpre := by
    refine htemp t v (hsub t ht) hv (hpre.eq_of_length ?_)
    rw [RelPath.temp, RelPath.length_mapLast, hdepth t (hsub t ht), hdepth v hv]
  backup t v ts l h ht hv hpre := by
    refine hbackup t v ts l h (hsub t ht) hv (hpre.eq_of_length ?_)
    rw [RelPath.backup, RelPath.length_mapLast, hdepth t (hsub t ht), hdepth v hv]

/-- A folder of such files and backups of them, and the directories they need. -/
structure Clean (files moved : RelPath → Prop) (f : Folder) : Prop where
  entries : ∀ q e, f.entry q = some e → files q ∨ ∃ t ts l h, moved t ∧ q = t.backup ts l h
  dirs : ∀ d ∈ f.dirs, ∃ u, files u ∧ d <+: u ∧ d ≠ u

theorem prefix_of_dropLast {q t : RelPath} (hne : t ≠ []) (h : q <+: t.dropLast) :
    q <+: t ∧ q ≠ t := by
  have hlt : t.dropLast.length < t.length := by
    rw [List.length_dropLast]
    have hpos := List.length_pos_iff.mpr hne
    omega
  have hle := h.length_le
  exact ⟨h.trans (List.dropLast_prefix t), fun heq => by
    rw [heq] at hle
    omega⟩

section

variable {files moved : RelPath → Prop} {f : Folder}

namespace Clean

/-- What is not above a file is no directory. -/
theorem not_dir {q : RelPath} (h : Clean files moved f) (hne : q ≠ [])
    (hq : ∀ u, files u → q <+: u → q = u) : f.isDir q = false := by
  have hd : q ∉ f.dirs := fun hd => by
    obtain ⟨u, hu, hpre, hneq⟩ := h.dirs q hd
    exact hneq (hq u hu hpre)
  simp [Folder.isDir, hne, hd]

variable (ha : Apart files moved)
include ha

theorem not_dir_file {u : RelPath} (h : Clean files moved f) (hu : files u) : f.isDir u = false :=
  h.not_dir (ha.ne_nil u hu) fun v hv hp => ha.prefix_free u v hu hv hp

theorem not_dir_temp {t : RelPath} (h : Clean files moved f) (ht : moved t) :
    f.isDir t.temp = false :=
  h.not_dir (RelPath.mapLast_ne_nil (ha.ne_nil t (ha.sub t ht)))
    fun v hv hp => absurd hp (ha.temp t v ht hv)

theorem not_dir_backup {t : RelPath} (h : Clean files moved f) (ht : moved t) (ts : ℕ)
    (l : LoserLabel) (hash : FileHash) : f.isDir (t.backup ts l hash) = false :=
  h.not_dir (RelPath.mapLast_ne_nil (ha.ne_nil t (ha.sub t ht)))
    fun v hv hp => absurd hp (ha.backup t v ts l hash ht hv)

/-- No file stands where a directory above a committed file must be. -/
theorem no_file_above {t : RelPath} (h : Clean files moved f) (ht : moved t) :
    ∀ q ∈ t.dropLast.inits, f.entry q = none := by
  intro q hq
  have htf := ha.sub t ht
  obtain ⟨hpre, hneq⟩ := prefix_of_dropLast (ha.ne_nil t htf) ((List.mem_inits _ _).mp hq)
  by_contra hsome
  obtain ⟨e, he⟩ := Option.ne_none_iff_exists'.mp hsome
  rcases h.entries q e he with hu | ⟨t', ts, l, hash, ht', rfl⟩
  · exact hneq (ha.prefix_free q t hu htf hpre)
  · exact ha.backup t' t ts l hash ht' htf hpre

end Clean

theorem Apart.ne_temp (ha : Apart files moved) {t u : RelPath} (ht : moved t) (hu : files u) :
    u ≠ t.temp := fun h => ha.temp t u ht hu (h ▸ List.prefix_rfl)

theorem Apart.ne_backup (ha : Apart files moved) {t u : RelPath} (ht : moved t) (hu : files u)
    (ts : ℕ) (l : LoserLabel) (hash : FileHash) : u ≠ t.backup ts l hash := fun h =>
  ha.backup t u ts l hash ht hu (h ▸ List.prefix_rfl)

/-- Making the directories of a file keeps the folder clean. -/
theorem clean_createDirAll (ha : Apart files moved) (hf : Clean files moved f) {t : RelPath}
    (ht : moved t) :
    Clean files moved { f with dirs := f.dirs ∪ t.dropLast.inits.toFinset } where
  entries := hf.entries
  dirs d hd := by
    rcases Finset.mem_union.mp hd with hd | hd
    · exact hf.dirs d hd
    · obtain ⟨hpre, hneq⟩ := prefix_of_dropLast (ha.ne_nil t (ha.sub t ht))
        ((List.mem_inits _ _).mp (List.mem_toFinset.mp hd))
      exact ⟨t, ha.sub t ht, hpre, hneq⟩

variable (blake3 : Bytes → FileHash)

/-- **A commit can be prepared.** It makes a backup exactly of a file of other
content, and no file but that one changes. -/
theorem prepare_clean (ha : Apart files moved) (hf : Clean files moved f) {t : RelPath}
    (ht : moved t) (ts : ℕ) (winner : String) (data : Bytes) :
    ∃ conflicted g, prepare blake3 ts winner ⟨t, false⟩ data f = (.ok conflicted, g) ∧
      Clean files moved g ∧ (∀ u, files u → u ≠ t → g.entry u = f.entry u) ∧
      (conflicted = true ↔ ∃ old, f.entry t = some old ∧ old.data ≠ data) := by
  have htf := ha.sub t ht
  have hcd := Folder.createDirAll_of_none (hf.no_file_above ha ht)
  have hf1 := clean_createDirAll ha hf ht
  unfold prepare
  rw [hcd]
  generalize hg1 : ({ f with dirs := f.dirs ∪ t.dropLast.inits.toFinset } : Folder) = f1 at hf1 ⊢
  have hent : ∀ q, f1.entry q = f.entry q := fun q => by rw [← hg1]; rfl
  have hdir := hf1.not_dir_file ha htf
  simp only [backupOnConflict, Folder.targetExists, hdir, Bool.not_false, Bool.true_and,
    Bool.false_or]
  cases he : f1.entry t with
  | none =>
    refine ⟨false, f1, by simp, hf1, fun u _ _ => hent u, ?_⟩
    rw [← hent, he]
    simp
  | some old =>
    have hread : f1.read ⟨t, false⟩ = .ok old.data := by simp [Folder.read, hdir, he]
    rw [if_neg (by simp), hread]
    by_cases hsame : old.data = data
    · refine ⟨false, f1, by simp [hsame], hf1, fun u _ _ => hent u, ?_⟩
      rw [← hent, he]
      simp [hsame]
    · have hbdir : f1.isDir (backupPath blake3 ts winner ⟨t, false⟩ data) = false :=
        hf1.not_dir_backup ha ht _ _ _
      obtain ⟨g, hg⟩ := Folder.rename_of_entry (t := ⟨backupPath blake3 ts winner ⟨t, false⟩ data, false⟩)
        he rfl hbdir
      obtain ⟨e, hsrc, hgent⟩ := Folder.entry_rename hg
      refine ⟨true, g, by simp [hsame, hg], ⟨fun q e' hq => ?_, ?_⟩, fun u hu hne => ?_, ?_⟩
      · rw [hgent] at hq
        split_ifs at hq with hb
        · exact Or.inr ⟨t, ts, _, _, ht, hb⟩
        · exact hf1.entries q e' hq
      · rw [Folder.rename_dirs hg]
        exact hf1.dirs
      · have hnb : u ≠ backupPath blake3 ts winner ⟨t, false⟩ data := ha.ne_backup ht hu _ _ _
        rw [hgent, if_neg hnb, if_neg hne, hent]
      · rw [← hent, he]
        simp [hsame]

/-- **A prepared commit can be finished**: the file is in place, no other file
changes. -/
theorem install_clean (ha : Apart files moved) (hf : Clean files moved f) {t : RelPath}
    (ht : moved t) (data : Bytes) (mtime : ℤ) :
    ∃ g, install ⟨t, false⟩ data mtime f = (.ok (), g) ∧ Clean files moved g ∧
      g.entry t = some ⟨data, mtime⟩ ∧ ∀ u, files u → u ≠ t → g.entry u = f.entry u := by
  have htf := ha.sub t ht
  obtain ⟨w, hw⟩ := Folder.write_of_not_dir (hf.not_dir_temp ha ht) data mtime
  have hwent := Folder.entry_write hw
  have hwdirs := Folder.write_dirs hw
  have hdir : w.isDir t = false := by
    have hd := hf.not_dir_file ha htf
    rwa [Folder.isDir, hwdirs]
  obtain ⟨g, hg⟩ := Folder.rename_of_entry (t := ⟨t, false⟩) (by rw [hwent, if_pos rfl]) rfl hdir
  obtain ⟨e, hsrc, hgent⟩ := Folder.entry_rename hg
  rw [hwent, if_pos rfl] at hsrc
  cases hsrc
  have hin : install ⟨t, false⟩ data mtime f = (.ok (), g) := by
    simp only [install, hw, hg]
  refine ⟨g, hin, ⟨fun q e hq => ?_, ?_⟩, ?_, fun u hu hne => ?_⟩
  · rw [hgent] at hq
    split_ifs at hq with h1 h2
    · exact Or.inl (h1 ▸ htf)
    · rw [hwent, if_neg h2] at hq
      exact hf.entries q e hq
  · rw [Folder.rename_dirs hg, hwdirs]
    exact hf.dirs
  · rw [hgent, if_pos rfl]
  · rw [hgent, if_neg hne, if_neg (ha.ne_temp ht hu), hwent, if_neg (ha.ne_temp ht hu)]

/-- **What a commit leaves beside its target**: the old file under a backup's
name, if its content is another; nothing at the temporary name; every other file. -/
theorem commit_leaves {ts : ℕ} {winner : String} {t : RelPath} {data : Bytes} {mtime : ℤ}
    {conflicted : Bool} {g h : Folder} (hne : t ≠ [])
    (hprepare : prepare blake3 ts winner ⟨t, false⟩ data f = (.ok conflicted, g))
    (hinstall : install ⟨t, false⟩ data mtime g = (.ok (), h)) :
    (∀ old, f.entry t = some old → old.data ≠ data →
      h.entry (backupPath blake3 ts winner ⟨t, false⟩ data) = some old) ∧
    (∀ v, v ≠ t → v ≠ t.temp → v ≠ backupPath blake3 ts winner ⟨t, false⟩ data ∨
      (∀ old, f.entry t = some old → old.data = data) → h.entry v = f.entry v) ∧
    h.entry t.temp = none := by
  have hplaced : ∀ v, v ≠ t → h.entry v = if v = t.temp then none else g.entry v := by
    rcases install_cases ⟨t, false⟩ data mtime g with
      (⟨e, hi⟩ | ⟨e, h', hi, -⟩) | ⟨h', hi, -, -, -, hent⟩
    · rw [hi] at hinstall
      cases hinstall
    · rw [hi] at hinstall
      cases hinstall
    · rw [hi] at hinstall
      cases hinstall
      intro v hv
      rw [hent, if_neg hv]
  have htemp : h.entry t.temp = none := by rw [hplaced _ (RelPath.temp_ne hne), if_pos rfl]
  rcases prepare_cases blake3 ts winner ⟨t, false⟩ data f with
    ⟨r, hr, hfiles, hsame⟩ | ⟨g', old, hp, -, -, hdiffer, hold, hent⟩
  · rw [hprepare] at hr
    subst hr
    have hg : ∀ v, g.entry v = f.entry v := fun v => by
      show g.files.lookup v = f.files.lookup v
      rw [hfiles]
    obtain ⟨-, hnone⟩ := hsame conflicted rfl
    refine ⟨fun old hold hdiffer => ?_, fun v hv hvt _ => ?_, htemp⟩
    · rcases hnone with hdir | hdata
      · cases hdir
      · exact absurd (hdata old hold) hdiffer
    · rw [hplaced v hv, if_neg hvt, hg]
  · rw [hprepare] at hp
    cases hp
    have hmoved : ∀ v, g.entry v = if v = backupPath blake3 ts winner ⟨t, false⟩ data then some old
        else if v = t then none else f.entry v := hent
    refine ⟨fun old' hold' _ => ?_, fun v hv hvt hvb => ?_, htemp⟩
    · rw [hold] at hold'
      cases hold'
      have hbt : backupPath blake3 ts winner ⟨t, false⟩ data ≠ t := RelPath.backup_ne hne _ _ _
      have hbtemp : backupPath blake3 ts winner ⟨t, false⟩ data ≠ t.temp := fun heq =>
        RelPath.temp_ne_backup hne ts (loserLabel winner) (blake3 data) heq.symm
      rw [hplaced _ hbt, if_neg hbtemp, hmoved, if_pos rfl]
    · have hvb' := hvb.resolve_right fun hall => hdiffer (hall old hold)
      rw [hplaced v hv, if_neg hvt, hmoved, if_neg hvb', if_neg hv]

end

end FerriSync
