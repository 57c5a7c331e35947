/-
# What a commit touches

All that a session does to the file system for a path string from its peer, in
terms of what the file system was before (`CommitAccess`): it makes directories
on the way, reads the file that is there and moves it away, writes the temporary
file, which a link may lead elsewhere, and renames it. `commit_accesses` and
`serve_accesses` say that there is nothing else.

Key definitions: `BackedUpTo`, `WrittenAt`, `Creatable`, `CommitAccess`.
Key theorems: `commit_accesses`, `serve_accesses`.
-/
import FerriSync.Access

namespace FerriSync

open FileTree

section

variable (blake3 : Bytes → FileHash) (t : Disk) (root : List OsStr) (c : Commit) (p : OsPath)

/-- The existing file has other content, and the path of its backup leads to this
place. -/
def BackedUpTo (place : List OsStr) : Prop :=
  ∃ data, t.read maxLinks [] p.steps = .ok (p.names, data) ∧ data ≠ c.data ∧
    t.walk false maxLinks []
      (p.backup (conflictSuffix c.ts (loserLabel c.winner) (blake3 c.data))).steps = .ok place ∧
    t.isDir place = false

/-- The temporary file is written at this place. -/
def WrittenAt (place : List OsStr) : Prop :=
  t.walk true maxLinks [] (p.withExtension tmpExtension).steps = .ok place ∧ t.isDir place = false

/-- There is nothing at the path, its directory is there or can be made, and the
temporary file can be written. -/
structure Creatable : Prop where
  file : p.asDir = false
  missing : t.node p.names = none
  above : ∀ r, root <+: r → r <+: p.names.dropLast → t.node r = none ∨ t.isDir r = true
  temp : t.isDir p.names.dropLast = true → ∃ place, WrittenAt t p place

/-- What a commit to the path can do. -/
inductive CommitAccess : Access → Prop
  | made (q : List OsStr) : CommitAccess (.made (root ++ q))
  | read {data : Bytes} : t.read maxLinks [] p.steps = .ok (p.names, data) →
      CommitAccess (.read p.names)
  | backedUp {place : List OsStr} : BackedUpTo blake3 t c p place →
      CommitAccess (.renamed p.names place)
  | wrote {place : List OsStr} : (∀ d, SyncRoot.canonicalize t p = .ok d → t.isDir d = false) →
      WrittenAt t p place → CommitAccess (.wrote place)
  | wroteFresh : p.names ≠ root → CommitAccess (.wrote (p.withExtension tmpExtension).names)
  /-- The temporary name is a link to the file or to its backup. -/
  | wroteMoved {place place' : List OsStr} : BackedUpTo blake3 t c p place' →
      place = p.names ∨ place = place' → CommitAccess (.wrote place)
  | installed : p.names ≠ root →
      (∃ data, t.read maxLinks [] p.steps = .ok (p.names, data)) ∨ Creatable t root p →
      CommitAccess (.renamed (p.withExtension tmpExtension).names p.names)
  | removed : p.names ≠ root → CommitAccess (.removed (p.withExtension tmpExtension).names)

/-- The file stands in a directory that is there, and installing it does no more
than it may. -/
structure Ready (may : Access → Prop) (fs : Fs) : Prop where
  below : ∃ q n, p.names = root ++ q ++ [n] ∧ fs.disk.isDir (root ++ q) = true
  wrote : ∀ place, WrittenAt fs.disk p place → may (.wrote place)
  installed : p.asDir = false → fs.disk.isDir p.names = false →
    (∃ place, WrittenAt fs.disk p place) →
    may (.renamed (p.withExtension tmpExtension).names p.names)
  removed : may (.removed (p.withExtension tmpExtension).names)

end

/-! ### The parts of a commit -/

section

variable {root q q' : List OsStr} {n x : OsStr} {asDir : Bool} {fs fs' : Fs} {p : OsPath}
variable {may : Access → Prop}

/-- What a peer's path is read at, if it can be read. -/
theorem read_place {t : Disk} (hroot : t.isDir root = true) (hlinks : NoLinks t root q asDir)
    {file : List OsStr × Bytes}
    (h : t.read maxLinks [] (OsPath.mk (root ++ q) asDir).steps = .ok file) :
    asDir = false ∧ q ≠ [] ∧ file.1 = root ++ q ∧ t.node (root ++ q) = some (.file file.2) := by
  unfold Tree.read at h
  split at h
  · cases h
  · rename_i place hplace
    split at h
    · rename_i data hnode
      cases h
      have hfile : t.isDir place = false := by rw [Tree.isDir, hnode]
      have has : asDir = false := by
        by_contra has
        rw [Bool.not_eq_false] at has
        subst has
        rw [steps_asDir] at hplace
        rw [Tree.walk_here t.isDir_top hplace] at hfile
        cases hfile
      subst has
      obtain rfl : place = root ++ q := place_of_noLinks hroot hlinks hplace
      refine ⟨rfl, ?_, rfl, hnode⟩
      rintro rfl
      rw [List.append_nil, hroot] at hfile
      cases hfile
    all_goals cases h

/-- The root is still opened when directories have been made. -/
theorem openRoot_grown {localPath : LocalPath} (h : Grown root fs fs')
    (hopen : openRoot fs.disk localPath = .ok root) : openRoot fs'.disk localPath = .ok root := by
  have hends : Tree.EndsAt fs.disk fs'.disk fun p => fs.disk.node p = none := by
    intro p
    rcases h.node p with hsame | ⟨hnone, -⟩
    · exact Or.inl hsame
    · exact Or.inr ⟨hnone, by rw [Tree.isDir, hnone], by rw [Tree.isLink, hnone]⟩
  unfold openRoot Tree.canonicalize at hopen ⊢
  cases hwalk : fs.disk.walk true maxLinks localPath.start localPath.steps with
  | error e =>
    rw [hwalk] at hopen
    cases hopen
  | ok place =>
    rw [hwalk] at hopen
    dsimp only at hopen
    split at hopen
    · cases hopen
    · rename_i d hd
      split_ifs at hd with hsome
      cases hd
      split_ifs at hopen with hdir
      cases hopen
      have hsome' : ¬fs.disk.node root = none := by simpa [Option.isSome_iff_ne_none] using hsome
      rw [Tree.walk_congr hends hsome' hwalk]
      have hdir' : fs'.disk.isDir root = true := h.isDir hdir
      simp [Tree.isDir_iff.mp hdir', hdir']

theorem withExtension_concat (extension : List Char) :
    (OsPath.mk (q ++ [n]) asDir).withExtension extension =
      ⟨q ++ [OsStr.withExtension n extension], false⟩ := by
  unfold OsPath.withExtension
  dsimp only
  rw [List.getLast?_concat, List.dropLast_concat]

/-- A file in a directory is where its path says. -/
theorem place_of_entry (hdir : fs.disk.isDir q = true) {place : List OsStr}
    (h : fs.disk.walk false maxLinks [] (OsPath.mk (q ++ [n]) asDir).steps = .ok place)
    (hleaf : fs.disk.isDir place = false) : place = q ++ [n] ∧ asDir = false := by
  cases asDir with
  | true =>
    rw [steps_asDir] at h
    rw [Tree.walk_here fs.disk.isDir_top h] at hleaf
    cases hleaf
  | false =>
    have hwalk : fs.disk.walk false maxLinks [] (OsPath.mk (q ++ [n]) false).steps = .ok (q ++ [n]) := by
      rw [steps_plain]
      exact Tree.walk_entry hdir fun h => (by cases h)
    rw [hwalk] at h
    cases h
    exact ⟨rfl, rfl⟩

theorem rename_ok {p' : OsPath} (h : fs.rename p p' = .ok fs') : ∃ source target,
    fs.disk.walk false maxLinks [] p.steps = .ok source ∧ fs.disk.isDir source = false ∧
      fs.disk.walk false maxLinks [] p'.steps = .ok target ∧ fs.disk.isDir target = false ∧
      fs' = ⟨(fs.disk.set source none).set target (fs.disk.node source),
        fs.accesses ++ [.renamed source target]⟩ := by
  unfold Fs.rename Tree.rename at h
  cases hsource : fs.disk.walk false maxLinks [] p.steps with
  | error e =>
    rw [hsource] at h
    cases h
  | ok source =>
    rw [hsource] at h
    dsimp only at h
    by_cases hdir : fs.disk.isDir source = true
    · rw [if_pos hdir] at h
      cases h
    · rw [if_neg hdir] at h
      by_cases hnone : (fs.disk.node source).isNone = true
      · rw [if_pos hnone] at h
        cases h
      · rw [if_neg hnone] at h
        cases htarget : fs.disk.walk false maxLinks [] p'.steps with
        | error e =>
          rw [htarget] at h
          cases h
        | ok target =>
          rw [htarget] at h
          dsimp only at h
          by_cases hdir' : fs.disk.isDir target = true
          · rw [if_pos hdir'] at h
            cases h
          · rw [if_neg hdir'] at h
            cases h
            exact ⟨source, target, rfl, by simpa using hdir, rfl, by simpa using hdir', rfl⟩

theorem rename_of_walks {p' : OsPath} {source target : List OsStr}
    (hsource : fs.disk.walk false maxLinks [] p.steps = .ok source)
    (hnode : fs.disk.node source ≠ none) (hleaf : fs.disk.isDir source = false)
    (htarget : fs.disk.walk false maxLinks [] p'.steps = .ok target)
    (hleaf' : fs.disk.isDir target = false) : fs.rename p p' =
      .ok ⟨(fs.disk.set source none).set target (fs.disk.node source),
        fs.accesses ++ [.renamed source target]⟩ := by
  unfold Fs.rename Tree.rename
  rw [hsource]
  dsimp only
  rw [hleaf, htarget]
  dsimp only
  rw [hleaf', if_neg (by decide), if_neg (by simpa using hnode), if_neg (by decide)]

theorem remove_since (hdir : fs.disk.isDir q = true) (hmay : may (.removed (q ++ [n]))) :
    fs.Since may (fs.remove ⟨q ++ [n], false⟩) := by
  have hwalk : fs.disk.walk false maxLinks [] (OsPath.mk (q ++ [n]) false).steps = .ok (q ++ [n]) := by
    rw [steps_plain]
    exact Tree.walk_entry hdir fun h => (by cases h)
  unfold Fs.remove Tree.remove
  rw [hwalk]
  dsimp only
  split
  · exact .refl fs may
  · rename_i place disk h
    split_ifs at h
    cases h
    exact (Fs.Since.refl fs may).concat hmay _

/-- **Installing a file does what it may.** -/
theorem install_since (h : Ready root p may fs) (data : Bytes) :
    fs.Since may (installReceived p data fs).2 := by
  obtain ⟨⟨q, n, hnames, hdir⟩, hwrote, hinstalled, hremoved⟩ := h
  obtain ⟨names, asDir⟩ := p
  obtain rfl : names = root ++ q ++ [n] := hnames
  unfold WrittenAt at hwrote hinstalled
  rw [withExtension_concat] at hwrote hinstalled hremoved
  unfold installReceived
  rw [withExtension_concat]
  unfold Fs.write Tree.write
  dsimp only
  cases hwalk : fs.disk.walk true maxLinks []
      (OsPath.mk (root ++ q ++ [OsStr.withExtension n tmpExtension]) false).steps with
  | error e => exact .refl fs may
  | ok place =>
    dsimp only
    by_cases hleaf : fs.disk.isDir place = true
    · rw [if_pos hleaf]
      exact .refl fs may
    · rw [if_neg hleaf]
      rw [Bool.not_eq_true] at hleaf
      dsimp only
      have hwritten : fs.Since may (Fs.mk (fs.disk.set place (some (.file data)))
          (fs.accesses ++ [.wrote place])) :=
        (Fs.Since.refl fs may).concat (hwrote place ⟨hwalk, hleaf⟩) _
      have hset := Tree.node_set (x := some (.file data))
        (Tree.walk_parent fs.disk.isDir_top hwalk) hleaf
      have hdir' : (fs.disk.set place (some (.file data))).isDir (root ++ q) = true := by
        have hne : root ++ q ≠ place := by
          rintro rfl
          rw [hdir] at hleaf
          cases hleaf
        rw [Tree.isDir, hset, if_neg hne]
        exact hdir
      have hleaf' : (fs.disk.set place (some (.file data))).isDir (root ++ q ++ [n]) = false →
          fs.disk.isDir (root ++ q ++ [n]) = false := by
        rw [Tree.isDir, hset]
        by_cases hn : root ++ q ++ [n] = place
        · rw [hn]
          exact fun _ => hleaf
        · rw [if_neg hn]
          exact id
      generalize hfs' : Fs.mk (fs.disk.set place (some (.file data)))
        (fs.accesses ++ [.wrote place]) = fs' at hwritten
      have hdisk : fs.disk.set place (some (.file data)) = fs'.disk := by rw [← hfs']
      rw [hdisk] at hdir' hleaf'
      split
      · exact hwritten.trans (remove_since hdir' hremoved)
      · rename_i fs'' hrename
        obtain ⟨source, target, hsource, hsourceLeaf, htarget, htargetLeaf, rfl⟩ := rename_ok hrename
        obtain ⟨hplace, has⟩ := place_of_entry hdir' htarget htargetLeaf
        subst hplace
        rw [(place_of_entry hdir' hsource hsourceLeaf).1]
        exact hwritten.concat (hinstalled has (hleaf' htargetLeaf) ⟨place, hwalk, hleaf⟩) _

theorem join_eq (root : List OsStr) (target : Target) :
    OsPath.join root target = ⟨root ++ target.path.map osName, target.asDir⟩ := rfl

theorem node_rename {t : Disk} {source target : List OsStr} {y : Option (Node OsStr Bytes)}
    (hsource : t.isDir source.dropLast = true) (hsourceLeaf : t.isDir source = false)
    (htarget : t.isDir target.dropLast = true) (htargetLeaf : t.isDir target = false)
    (r : List OsStr) : ((t.set source none).set target y).node r =
      if r = target then y else if r = source then none else t.node r := by
  have hset := Tree.node_set (x := none) hsource hsourceLeaf
  have hne : target.dropLast ≠ source := by
    rintro h
    rw [← h, htarget] at hsourceLeaf
    cases hsourceLeaf
  have hparent : (t.set source none).isDir target.dropLast = true := by
    rw [Tree.isDir, hset, if_neg hne]
    exact htarget
  have hleaf : (t.set source none).isDir target = false := by
    rw [Tree.isDir, hset]
    by_cases htarget' : target = source
    · rw [if_pos htarget']
    · rw [if_neg htarget']
      exact htargetLeaf
  rw [Tree.node_set hparent hleaf, hset]

end

/-! ### A whole commit -/

section

variable {root q : List OsStr} {n : OsStr} {fs fs' : Fs} {p : OsPath}
variable {blake3 : Bytes → FileHash} {localPath : LocalPath} {c : Commit}

/-- A backup's name is the file's, as it is displayed, with its tag. -/
theorem backedUp_last {t : Disk} {place : List OsStr} (h : BackedUpTo blake3 t c p place) :
    ∃ q m, place =
      q ++ [OsStr.display m ++ osStr (conflictSuffix c.ts (loserLabel c.winner) (blake3 c.data))] := by
  obtain ⟨data, -, -, hwalk, -⟩ := h
  generalize conflictSuffix c.ts (loserLabel c.winner) (blake3 c.data) = tag at hwalk ⊢
  have hlast : ∃ m, place.getLast? = some (OsStr.display m ++ osStr tag) := by
    unfold OsPath.backup at hwalk
    split at hwalk
    · rw [steps_plain, List.map_singleton] at hwalk
      exact ⟨[], Tree.walk_last (show t.walk false maxLinks [] ([] ++ [_]) = _ from hwalk)⟩
    · rename_i m _
      rw [steps_plain, List.map_append] at hwalk
      exact ⟨m, Tree.walk_last hwalk⟩
  obtain ⟨m, hm⟩ := hlast
  obtain ⟨q, hq⟩ := List.getLast?_eq_some_iff.mp hm
  exact ⟨q, m, hq⟩

theorem concat_ne_root (h : p.names = root ++ q ++ [n]) : p.names ≠ root := by
  rw [h, List.append_assoc]
  simp

/-- A file that has been moved changes nothing about the temporary name, unless
that is a link to it: no path leads on through the places of the move. -/
theorem ready_of_rename {disk : Disk} {data : Bytes} (hdisk : fs.disk = disk)
    (hnames : p.names = root ++ q ++ [n]) (hdir : disk.isDir (root ++ q) = true)
    (hread : disk.read maxLinks [] p.steps = .ok (p.names, data)) (hother : data ≠ c.data)
    (hnode : disk.node p.names = some (.file data))
    (hfile : ∀ d, SyncRoot.canonicalize disk p = .ok d → disk.isDir d = false)
    (h : fs.rename p (p.backup (conflictSuffix c.ts (loserLabel c.winner) (blake3 c.data))) = .ok fs') :
    fs.Since (CommitAccess blake3 disk root c p) fs' ∧
      Ready root p (CommitAccess blake3 disk root c p) fs' := by
  obtain ⟨source, place, hsource, hsourceLeaf, hplace, hplaceLeaf, rfl⟩ := rename_ok h
  obtain ⟨names, asDir⟩ := p
  obtain rfl : names = root ++ q ++ [n] := hnames
  obtain rfl : source = root ++ q ++ [n] :=
    (place_of_entry (by rw [hdisk]; exact hdir) hsource hsourceLeaf).1
  rw [hdisk] at hsource hsourceLeaf hplace hplaceLeaf ⊢
  have hbackedUp : BackedUpTo blake3 disk c ⟨root ++ q ++ [n], asDir⟩ place :=
    ⟨data, hread, hother, hplace, hplaceLeaf⟩
  have hnodes := node_rename (y := disk.node (root ++ q ++ [n]))
    (Tree.walk_parent disk.isDir_top hsource) hsourceLeaf
    (Tree.walk_parent disk.isDir_top hplace) hplaceLeaf
  refine ⟨(Fs.Since.refl fs _).concat (.backedUp hbackedUp) _, ⟨q, n, rfl, ?_⟩,
    fun written hwritten => ?_, fun _ _ _ => .installed (concat_ne_root rfl) (Or.inl ⟨data, hread⟩),
    .removed (concat_ne_root rfl)⟩
  · have hne : root ++ q ≠ place := by
      rintro h
      rw [← h, hdir] at hplaceLeaf
      cases hplaceLeaf
    rw [Tree.isDir]
    dsimp only
    rw [hnodes, if_neg hne, if_neg (by simp)]
    exact hdir
  · obtain ⟨hwalk, hleaf⟩ := hwritten
    dsimp only at hwalk hleaf
    have hends : Tree.EndsAt ((disk.set (root ++ q ++ [n]) none).set place
        (disk.node (root ++ q ++ [n]))) disk fun r => r = place ∨ r = root ++ q ++ [n] := by
      intro r
      rw [Tree.isDir, Tree.isLink, hnodes]
      by_cases hr : r = place
      · rw [if_pos hr, hnode]
        exact Or.inr ⟨Or.inl hr, rfl, rfl⟩
      · rw [if_neg hr]
        by_cases hr' : r = root ++ q ++ [n]
        · rw [if_pos hr']
          exact Or.inr ⟨Or.inr hr', rfl, rfl⟩
        · rw [if_neg hr']
          exact Or.inl rfl
    by_cases hmoved : written = root ++ q ++ [n] ∨ written = place
    · exact .wroteMoved hbackedUp hmoved
    · have hsource' : written ≠ root ++ q ++ [n] := fun h => hmoved (Or.inl h)
      have hplace' : written ≠ place := fun h => hmoved (Or.inr h)
      refine .wrote hfile ⟨Tree.walk_congr hends (not_or.mpr ⟨hplace', hsource'⟩) hwalk, ?_⟩
      rw [Tree.isDir, hnodes, if_neg hplace', if_neg hsource'] at hleaf
      exact hleaf

/-- **What backing up does**, in a directory that was there. -/
theorem backup_since (hopen : openRoot fs.disk localPath = .ok root)
    (hroot : fs.disk.isDir root = true) (hjoin : SyncRoot.safeJoin fs.disk root c.path = .ok p)
    (hparent : ∀ q n, p.names = root ++ (q ++ [n]) → fs.disk.isDir (root ++ q) = true) :
    fs.Since (CommitAccess blake3 fs.disk root c p) (backupReceived blake3 localPath c fs).2 ∧
      ∀ b, (backupReceived blake3 localPath c fs).1 = .ok b →
        Ready root p (CommitAccess blake3 fs.disk root c p) (backupReceived blake3 localPath c fs).2 := by
  obtain ⟨target, -, rfl, hlinks, -⟩ := (SyncRoot.safeJoin_ok_iff hroot).mp hjoin
  generalize htarget : target.path.map osName = q at *
  have hp : OsPath.join root target = ⟨root ++ q, target.asDir⟩ := by rw [join_eq, htarget]
  rw [hp] at hjoin hparent ⊢
  have hrefl : ∀ may, fs.Since may fs := Fs.Since.refl fs
  unfold backupReceived
  rw [hopen]
  dsimp only
  rw [hjoin]
  dsimp only
  by_cases hexists : fs.exists_ ⟨root ++ q, target.asDir⟩ = true
  · rw [hexists, Bool.not_true, if_neg (by decide)]
    unfold Fs.read
    cases hread : fs.disk.read maxLinks [] (OsPath.mk (root ++ q) target.asDir).steps with
    | error e => exact ⟨hrefl _, fun b h => by cases h⟩
    | ok file =>
      obtain ⟨place, old⟩ := file
      obtain ⟨has, hq, hplace, hnode⟩ := read_place hroot hlinks hread
      obtain rfl : place = root ++ q := hplace
      obtain ⟨q, n, rfl⟩ := (List.eq_nil_or_concat q).resolve_left hq
      rw [List.concat_eq_append] at *
      have hdir := hparent q n rfl
      have hleaf : fs.disk.isDir (root ++ (q ++ [n])) = false := by rw [Tree.isDir, hnode]
      have hfile : ∀ d, SyncRoot.canonicalize fs.disk ⟨root ++ (q ++ [n]), target.asDir⟩ = .ok d →
          fs.disk.isDir d = false := by
        intro d hd
        rw [has] at hlinks hd
        rw [canonicalize_lexical hroot hlinks hd]
        exact hleaf
      have hnames : (OsPath.mk (root ++ (q ++ [n])) target.asDir).names = root ++ q ++ [n] :=
        (List.append_assoc _ _ _).symm
      have hread' : fs.Since (CommitAccess blake3 fs.disk root c ⟨root ++ (q ++ [n]), target.asDir⟩)
          (Fs.mk fs.disk (fs.accesses ++ [.read (root ++ (q ++ [n]))])) :=
        (hrefl _).concat (.read hread) _
      dsimp only
      by_cases hsame : old = c.data
      · rw [if_pos hsame]
        exact ⟨hread', fun b _ => ⟨⟨q, n, hnames, hdir⟩, fun place hwritten => .wrote hfile hwritten,
          fun _ _ _ => .installed (concat_ne_root hnames) (Or.inl ⟨old, hread⟩),
          .removed (concat_ne_root hnames)⟩⟩
      · rw [if_neg hsame]
        generalize hfs' : Fs.mk fs.disk (fs.accesses ++ [.read (root ++ (q ++ [n]))]) = fs' at hread'
        have hdisk : fs'.disk = fs.disk := by rw [← hfs']
        cases hrename : fs'.rename ⟨root ++ (q ++ [n]), target.asDir⟩
            (OsPath.backup ⟨root ++ (q ++ [n]), target.asDir⟩
              (conflictSuffix c.ts (loserLabel c.winner) (blake3 c.data))) with
        | error e => exact ⟨hread', fun b h => by cases h⟩
        | ok fs'' =>
          obtain ⟨hmoved, hready⟩ := ready_of_rename hdisk hnames hdir hread hsame hnode hfile hrename
          exact ⟨hread'.trans hmoved, fun b _ => hready⟩
  · rw [Bool.not_eq_true] at hexists
    rw [hexists, Bool.not_false, if_pos rfl]
    refine ⟨hrefl _, fun b _ => ?_⟩
    have hq : q ≠ [] := by
      rintro rfl
      rw [List.append_nil, Fs.exists_, canonicalize_root hroot] at hexists
      cases hexists
    obtain ⟨q, n, rfl⟩ := (List.eq_nil_or_concat q).resolve_left hq
    rw [List.concat_eq_append] at *
    have hdir := hparent q n rfl
    have hfile : ∀ d, SyncRoot.canonicalize fs.disk ⟨root ++ (q ++ [n]), target.asDir⟩ = .ok d →
        fs.disk.isDir d = false := by
      intro d hd
      rw [Fs.exists_, hd] at hexists
      cases hexists
    have hnames : (OsPath.mk (root ++ (q ++ [n])) target.asDir).names = root ++ q ++ [n] :=
      (List.append_assoc _ _ _).symm
    refine ⟨⟨q, n, hnames, hdir⟩, fun place hwritten => .wrote hfile hwritten,
      fun has _ hwritten => .installed (concat_ne_root hnames) (Or.inr ⟨has, ?_,
        fun r hr hrq => Or.inr ?_, fun _ => hwritten⟩), .removed (concat_ne_root hnames)⟩
    · by_contra hsome
      have hlink : fs.disk.isLink (root ++ q ++ [n]) = false := by
        rw [List.append_assoc]
        exact hlinks _ (by simp) List.prefix_rfl fun _ => has
      have hsome' : (fs.disk.node (root ++ q ++ [n])).isSome = true := by
        rw [List.append_assoc]
        exact Option.isSome_iff_ne_none.mpr hsome
      have hcanon : SyncRoot.canonicalize fs.disk ⟨root ++ (q ++ [n]), target.asDir⟩ =
          .ok (root ++ (q ++ [n])) := by
        have hsteps : (OsPath.mk (root ++ (q ++ [n])) target.asDir).steps =
            (root ++ q ++ [n]).map .name := by
          rw [← List.append_assoc, show target.asDir = false from has]
          exact steps_plain
        unfold SyncRoot.canonicalize Tree.canonicalize
        rw [hsteps, Tree.walk_entry hdir fun _ => hlink, ← List.append_assoc]
        exact if_pos hsome'
      rw [Fs.exists_, hcanon] at hexists
      cases hexists
    · dsimp only at hrq
      rw [← List.append_assoc, List.dropLast_concat] at hrq
      exact Tree.isDir_above hrq hdir

/-- **What backing up does** in a directory that has just been made: there is
nothing to back up, and no link. -/
theorem backup_fresh {fs₀ : Fs} (hopen : openRoot fs.disk localPath = .ok root)
    (hroot : fs.disk.isDir root = true) (hgrown : Grown root fs₀ fs) {target : Target}
    (hs : FerriSync.safeJoin c.path = .ok target)
    (hlinks : NoLinks fs.disk root (target.path.map osName) target.asDir)
    (hq : target.path.map osName = q ++ [n]) (hdir : fs.disk.isDir (root ++ q) = true)
    (hempty : ∀ m, fs.disk.node (root ++ q ++ [m]) = none) (may : Access → Prop) :
    fs.Since may (backupReceived blake3 localPath c fs).2 ∧
      ∀ b, (backupReceived blake3 localPath c fs).1 = .ok b →
        Ready root (.join root target) (CommitAccess blake3 fs₀.disk root c (.join root target))
          (backupReceived blake3 localPath c fs).2 := by
  have hp : OsPath.join root target = ⟨root ++ q ++ [n], target.asDir⟩ := by
    rw [join_eq, hq, List.append_assoc]
  have hexists : fs.exists_ (.join root target) = false := by
    have hlinks' : NoLinks fs.disk root (q ++ [n]) false := by
      rw [hq] at hlinks
      refine noLinks_concat.mpr ⟨(noLinks_concat.mp hlinks).1, fun _ => ?_⟩
      rw [← List.append_assoc, Tree.isLink, hempty n]
    unfold Fs.exists_
    rw [hp, List.append_assoc]
    cases hcanon : SyncRoot.canonicalize fs.disk ⟨root ++ (q ++ [n]), target.asDir⟩ with
    | error e => rfl
    | ok d =>
      have hd : d = root ++ (q ++ [n]) := canonicalize_lexical hroot hlinks' hcanon
      unfold SyncRoot.canonicalize Tree.canonicalize at hcanon
      split at hcanon
      · cases hcanon
      · split_ifs at hcanon with hsome
        cases hcanon
        rw [hd, ← List.append_assoc, hempty n] at hsome
        cases hsome
  have hmissing : ∀ m, fs₀.disk.node (root ++ q ++ [m]) = none := by
    intro m
    rcases hgrown.node (root ++ q ++ [m]) with hsame | ⟨hnone, -⟩
    · rw [hsame]
      exact hempty m
    · exact hnone
  have hready : Ready root (.join root target)
      (CommitAccess blake3 fs₀.disk root c (.join root target)) fs := by
    rw [hp]
    refine ⟨⟨q, n, rfl, hdir⟩, fun place hwritten => ?_, fun has _ _ => .installed
      (concat_ne_root rfl) (Or.inr ⟨has, hmissing n, fun r _ hrq => ?_, fun hdir₀ => ?_⟩),
      .removed (concat_ne_root rfl)⟩
    · obtain ⟨hwalk, -⟩ := hwritten
      rw [withExtension_concat, steps_plain,
        Tree.walk_entry hdir fun _ => by rw [Tree.isLink, hempty]] at hwalk
      cases hwalk
      have htemp : CommitAccess blake3 fs₀.disk root c ⟨root ++ q ++ [n], target.asDir⟩
          (.wrote (OsPath.withExtension ⟨root ++ q ++ [n], target.asDir⟩ tmpExtension).names) :=
        .wroteFresh (concat_ne_root rfl)
      rwa [withExtension_concat] at htemp
    · dsimp only at hrq
      rw [List.dropLast_concat] at hrq
      have hr : fs.disk.isDir r = true := Tree.isDir_above hrq hdir
      rcases hgrown.node r with hsame | ⟨hnone, -⟩
      · rw [Tree.isDir, ← hsame] at hr
        exact Or.inr hr
      · exact Or.inl hnone
    · dsimp only at hdir₀
      rw [List.dropLast_concat] at hdir₀
      refine ⟨root ++ q ++ [OsStr.withExtension n tmpExtension], ?_, ?_⟩
      · rw [withExtension_concat, steps_plain]
        exact Tree.walk_entry hdir₀ fun _ => by rw [Tree.isLink, hmissing]
      · rw [Tree.isDir, hmissing]
  unfold backupReceived
  rw [hopen]
  dsimp only
  cases hjoin : SyncRoot.safeJoin fs.disk root c.path with
  | error e => exact ⟨.refl fs may, fun b h => by cases h⟩
  | ok p =>
    obtain ⟨target', hs', rfl, -, -⟩ := (SyncRoot.safeJoin_ok_iff hroot).mp hjoin
    rw [hs] at hs'
    cases hs'
    dsimp only
    rw [hexists, Bool.not_false, if_pos rfl]
    exact ⟨.refl fs may, fun b _ => hready⟩

/-- **What a commit does.** -/
theorem commit_accesses (hopen : openRoot fs.disk localPath = .ok root)
    (hroot : fs.disk.isDir root = true) :
    fs.Since (fun a => c.path ≠ "metadata.db" ∧ c.path.utf8ByteSize ≤ maxPathLen ∧
      ∃ p, SyncRoot.safeJoin fs.disk root c.path = .ok p ∧ CommitAccess blake3 fs.disk root c p a)
      (commitReceived blake3 root localPath c fs).2 := by
  unfold commitReceived
  by_cases hmeta : c.path = "metadata.db"
  · rw [if_pos hmeta]
    exact .refl fs _
  · rw [if_neg hmeta]
    by_cases hlong : maxPathLen < c.path.utf8ByteSize
    · rw [if_pos hlong]
      exact .refl fs _
    · rw [if_neg hlong]
      cases hjoin : SyncRoot.safeJoin fs.disk root c.path with
      | error e => exact .refl fs _
      | ok p =>
        suffices h : fs.Since (CommitAccess blake3 fs.disk root c p) _ from
          h.imp fun a ha => ⟨hmeta, not_lt.mp hlong, p, rfl, ha⟩
        obtain ⟨target, hs, hp, hlinks, -⟩ := (SyncRoot.safeJoin_ok_iff hroot).mp hjoin
        obtain ⟨hgrown, hmade⟩ := makeParent_spec hroot hlinks
        rw [← join_eq, ← hp] at hgrown hmade
        dsimp only at hgrown hmade ⊢
        generalize makeParent p fs = made at hgrown hmade
        obtain ⟨r, fs₁⟩ := made
        have hgrew : fs.Since (CommitAccess blake3 fs.disk root c p) fs₁ :=
          hgrown.accesses.imp fun a ⟨q, ha⟩ => ha ▸ .made q
        cases r with
        | error e => exact hgrew
        | ok u =>
          have hbacked : fs₁.Since (CommitAccess blake3 fs.disk root c p)
                (backupReceived blake3 localPath c fs₁).2 ∧
              ∀ b, (backupReceived blake3 localPath c fs₁).1 = .ok b →
                Ready root p (CommitAccess blake3 fs.disk root c p)
                  (backupReceived blake3 localPath c fs₁).2 := by
            rcases hmade rfl with ⟨hsame, hparent⟩ | ⟨q, n, hq, hdir, hempty⟩
            · obtain rfl : fs₁ = fs := hsame
              refine backup_since hopen hroot hjoin fun q n hnames => ?_
              rw [hp, join_eq] at hnames
              exact hparent q n (List.append_cancel_left hnames)
            · rw [hp]
              exact backup_fresh (openRoot_grown hgrown hopen) (hgrown.isDir hroot) hgrown hs
                (hgrown.noLinks hlinks) hq hdir hempty _
          dsimp only
          generalize backupReceived blake3 localPath c fs₁ = backed at hbacked
          obtain ⟨hbackedUp, hready⟩ := hbacked
          obtain ⟨r, fs₂⟩ := backed
          cases r with
          | error e => exact hgrew.trans hbackedUp
          | ok b =>
            have hinstalled := (hgrew.trans hbackedUp).trans (install_since (hready b rfl) c.data)
            dsimp only at hinstalled ⊢
            generalize installReceived p c.data fs₂ = installed at hinstalled
            obtain ⟨r, fs₃⟩ := installed
            cases r with
            | error e => exact hinstalled
            | ok u => exact hinstalled

/-- **What serving a path does**: it reads the file that is there. -/
theorem serve_accesses (hroot : fs.disk.isDir root = true) (s : String) :
    fs.Since (fun a => s ≠ "metadata.db" ∧ s.utf8ByteSize ≤ maxPathLen ∧
      ∃ p data, SyncRoot.safeJoin fs.disk root s = .ok p ∧
        fs.disk.read maxLinks [] p.steps = .ok (p.names, data) ∧ a = .read p.names)
      (serveRequested root s fs).2 := by
  unfold serveRequested
  split_ifs with hskip
  · exact .refl fs _
  · obtain ⟨hmeta, hlong⟩ := not_or.mp hskip
    cases hjoin : SyncRoot.safeJoin fs.disk root s with
    | error e => exact .refl fs _
    | ok p =>
      obtain ⟨target, -, rfl, hlinks, -⟩ := (SyncRoot.safeJoin_ok_iff hroot).mp hjoin
      dsimp only
      unfold Fs.read
      cases hread : fs.disk.read maxLinks [] (OsPath.join root target).steps with
      | error e => exact .refl fs _
      | ok file =>
        obtain ⟨place, data⟩ := file
        obtain ⟨-, -, hplace, -⟩ := read_place hroot hlinks hread
        obtain rfl : place = (OsPath.join root target).names := hplace
        exact (Fs.Since.refl fs _).concat ⟨hmeta, not_lt.mp hlong, _, data, rfl, hread, rfl⟩ _

end

/-! ### What a commit does do -/

section

variable {root q : List OsStr} {n : OsStr} {asDir : Bool} {fs fs' fs₁ : Fs} {p : OsPath} {t : Disk}
variable {blake3 : Bytes → FileHash} {localPath : LocalPath} {c : Commit} {s : String}

/-- What is done stays done. -/
theorem install_accesses {p : OsPath} {data : Bytes} {a : Access} (h : a ∈ fs.accesses) :
    a ∈ (installReceived p data fs).2.accesses := by
  unfold installReceived Fs.write
  dsimp only
  split
  · exact h
  · rename_i fs' hwrite
    have ha : a ∈ fs'.accesses := by
      split at hwrite
      · cases hwrite
      · cases hwrite
        exact List.mem_append_left _ h
    split
    · unfold Fs.remove
      split
      · exact ha
      · exact List.mem_append_left _ ha
    · rename_i fs'' hrename
      obtain ⟨_, _, -, -, -, -, rfl⟩ := rename_ok hrename
      exact List.mem_append_left _ ha

theorem install_wrote {p : OsPath} {data : Bytes} {place : List OsStr}
    (hwalk : fs.disk.walk true maxLinks [] (p.withExtension tmpExtension).steps = .ok place)
    (hleaf : fs.disk.isDir place = false) :
    .wrote place ∈ (installReceived p data fs).2.accesses := by
  have hwrite : fs.write (p.withExtension tmpExtension) data =
      .ok ⟨fs.disk.set place (some (.file data)), fs.accesses ++ [.wrote place]⟩ := by
    unfold Fs.write Tree.write
    rw [hwalk]
    simp [hleaf]
  unfold installReceived
  dsimp only
  rw [hwrite]
  dsimp only
  split
  · unfold Fs.remove
    split
    · simp
    · simp
  · rename_i fs'' hrename
    obtain ⟨_, _, -, -, -, -, rfl⟩ := rename_ok hrename
    simp

theorem makeParent_of_isDir (hdir : fs.disk.isDir q = true) :
    makeParent ⟨q ++ [n], asDir⟩ fs = (.ok (), fs) := by
  rw [makeParent, parent_concat]
  exact createDirAll_of_isDir hdir _

/-- A commit that makes the directory of its target and backs it up installs it. -/
theorem commit_installs (hmeta : c.path ≠ "metadata.db") (hlong : c.path.utf8ByteSize ≤ maxPathLen)
    (hjoin : SyncRoot.safeJoin fs.disk root c.path = .ok p) (hmade : makeParent p fs = (.ok (), fs₁))
    {b : Bool} (hbackup : backupReceived blake3 localPath c fs₁ = (.ok b, fs')) {a : Access}
    (ha : a ∈ (installReceived p c.data fs').2.accesses) :
    a ∈ (commitReceived blake3 root localPath c fs).2.accesses := by
  unfold commitReceived
  rw [if_neg hmeta, if_neg (not_lt.mpr hlong), hjoin]
  dsimp only
  rw [hmade]
  dsimp only
  rw [hbackup]
  dsimp only
  generalize installReceived p c.data fs' = installed at ha
  obtain ⟨r, fs''⟩ := installed
  cases r with
  | error e => exact ha
  | ok u => exact ha

/-- A target that is no directory is left as it is by some content. -/
theorem exists_unconflicted (hopen : openRoot fs.disk localPath = .ok root)
    (hjoin : SyncRoot.safeJoin fs.disk root s = .ok p)
    (hfile : ∀ d, SyncRoot.canonicalize fs.disk p = .ok d → fs.disk.isDir d = false) :
    ∃ data accesses, ∀ ts winner mtime,
      backupReceived blake3 localPath ⟨s, data, ts, winner, mtime⟩ fs =
        (.ok false, ⟨fs.disk, accesses⟩) := by
  unfold backupReceived
  rw [hopen]
  dsimp only
  rw [hjoin]
  dsimp only
  cases hcanon : SyncRoot.canonicalize fs.disk p with
  | error e =>
    have hexists : fs.exists_ p = false := by rw [Fs.exists_, hcanon]; rfl
    rw [hexists]
    exact ⟨[], fs.accesses, fun _ _ _ => rfl⟩
  | ok d =>
    have hexists : fs.exists_ p = true := by rw [Fs.exists_, hcanon]; rfl
    have hread : ∃ data, fs.disk.read maxLinks [] p.steps = .ok (d, data) := by
      unfold SyncRoot.canonicalize Tree.canonicalize at hcanon
      unfold Tree.read
      split at hcanon
      · cases hcanon
      · rename_i place hplace
        split_ifs at hcanon with hsome
        cases hcanon
        have hleaf := hfile d (by
          unfold SyncRoot.canonicalize Tree.canonicalize
          rw [hplace]
          exact if_pos hsome)
        have hlink := Tree.isLink_walk fs.disk.isDir_top hplace
        cases hnode : fs.disk.node d with
        | none =>
          rw [hnode] at hsome
          cases hsome
        | some x =>
          cases x with
          | file data => exact ⟨data, rfl⟩
          | dir =>
            rw [Tree.isDir, hnode] at hleaf
            cases hleaf
          | link absolute steps =>
            rw [Tree.isLink, hnode] at hlink
            cases hlink
    obtain ⟨data, hread⟩ := hread
    refine ⟨data, fs.accesses ++ [.read d], fun _ _ _ => ?_⟩
    rw [hexists, Bool.not_true, if_neg (by decide)]
    unfold Fs.read
    rw [hread]
    exact if_pos rfl

/-- What can be read exists. -/
theorem exists_of_read {file : List OsStr × Bytes}
    (h : fs.disk.read maxLinks [] p.steps = .ok file) : fs.exists_ p = true := by
  unfold Fs.exists_ SyncRoot.canonicalize Tree.canonicalize
  unfold Tree.read at h
  split at h
  · cases h
  · split at h
    · rename_i hsome
      simp [hsome, Except.isOk, Except.toBool]
    all_goals cases h

/-- The temporary name stands beside the file. -/
theorem tempName_inside {target : Target} (hne : (OsPath.join root target).names ≠ root) :
    root <+: ((OsPath.join root target).withExtension tmpExtension).names := by
  rw [join_eq] at hne ⊢
  rcases List.eq_nil_or_concat (target.path.map osName) with hq | ⟨q, n, hq⟩
  · rw [hq] at hne
    exact absurd (List.append_nil root) hne
  · rw [hq, List.concat_eq_append, ← List.append_assoc, withExtension_concat, List.append_assoc]
    exact List.prefix_append _ _

/-- A temporary file that is written elsewhere than its name says has a link for
its name. -/
theorem temp_isLink (hroot : t.isDir root = true) (hjoin : SyncRoot.safeJoin t root s = .ok p)
    (hfile : ∀ d, SyncRoot.canonicalize t p = .ok d → t.isDir d = false) {place : List OsStr}
    (hwritten : WrittenAt t p place) : root <+: (p.withExtension tmpExtension).names ∧
      (place ≠ (p.withExtension tmpExtension).names →
        t.isLink (p.withExtension tmpExtension).names = true) := by
  obtain ⟨target, -, rfl, hlinks, -⟩ := (SyncRoot.safeJoin_ok_iff hroot).mp hjoin
  refine ⟨tempName_inside fun hnames => ?_, fun hplace => ?_⟩
  · have hp : OsPath.join root target = ⟨root, target.asDir⟩ := congrArg (OsPath.mk · _) hnames
    rw [hp] at hfile
    rw [hfile root (canonicalize_root hroot)] at hroot
    cases hroot
  · obtain ⟨hwalk, -⟩ := hwritten
    rw [join_eq] at hwalk hplace ⊢
    rcases List.eq_nil_or_concat (target.path.map osName) with hq | ⟨q, n, hq⟩
    · have hcanon : SyncRoot.canonicalize t (OsPath.join root target) = .ok root := by
        rw [join_eq, hq, List.append_nil]
        exact canonicalize_root hroot
      rw [hfile root hcanon] at hroot
      cases hroot
    · rw [hq, List.concat_eq_append, ← List.append_assoc, withExtension_concat] at hwalk hplace ⊢
      rw [hq, List.concat_eq_append, noLinks_concat] at hlinks
      by_contra hlink
      rw [Bool.not_eq_true] at hlink
      rw [List.append_assoc] at hwalk hplace hlink
      exact hplace (place_of_noLinks hroot (noLinks_concat.mpr ⟨hlinks.1, fun _ => hlink⟩) hwalk)

/-- The file is written where the link at its temporary name leads. -/
theorem temp_written (hopen : openRoot t localPath = .ok root) (hroot : t.isDir root = true)
    (hmeta : s ≠ "metadata.db") (hlong : s.utf8ByteSize ≤ maxPathLen)
    (hjoin : SyncRoot.safeJoin t root s = .ok p)
    (hfile : ∀ d, SyncRoot.canonicalize t p = .ok d → t.isDir d = false)
    (hlink : t.isLink (p.withExtension tmpExtension).names = true) {place : List OsStr}
    (hwritten : WrittenAt t p place) : ∃ c : Commit, c.path = s ∧
      .wrote place ∈ (commitReceived blake3 root localPath c ⟨t, []⟩).2.accesses := by
  obtain ⟨target, -, hp, -, -⟩ := (SyncRoot.safeJoin_ok_iff hroot).mp hjoin
  rw [join_eq] at hp
  rcases List.eq_nil_or_concat (target.path.map osName) with hq | ⟨q, n, hq⟩
  · rw [hq, List.append_nil] at hp
    rw [hp] at hfile
    rw [hfile root (canonicalize_root hroot)] at hroot
    cases hroot
  · rw [hq, List.concat_eq_append, ← List.append_assoc] at hp
    rw [hp] at hjoin hfile hlink hwritten
    have hdir : t.isDir (root ++ q) = true := by
      rw [withExtension_concat] at hlink
      obtain ⟨absolute, steps, hnode⟩ := Tree.isLink_iff.mp hlink
      exact Tree.isDir_concat (by rw [hnode]; simp)
    have hunconflicted : ∃ data accesses, ∀ ts winner mtime,
        backupReceived blake3 localPath ⟨s, data, ts, winner, mtime⟩ ⟨t, []⟩ =
          (.ok false, ⟨t, accesses⟩) := exists_unconflicted hopen hjoin hfile
    obtain ⟨data, accesses, hbackup⟩ := hunconflicted
    refine ⟨⟨s, data, 0, "remote", 0⟩, rfl, ?_⟩
    exact commit_installs (c := ⟨s, data, 0, "remote", 0⟩) hmeta hlong hjoin (makeParent_of_isDir hdir)
      (hbackup 0 "remote" 0) (install_wrote hwritten.1 hwritten.2)

end

end FerriSync
