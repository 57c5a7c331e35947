/-
# What a commit leaves of the file system

What a commit does is a sequence of calls to the file system (`FsStep`). Where no
link below the root has a name that only temporary files and backups have
(`PlainLinks`), it changes places below the root only, none of which is a directory or
a link, and it makes no link (`Kept`). So a walk to a directory leads where it led
before: the root stays the root (`commit_kept`).

Key definitions: `FsStep`, `PlainLinks`, `Kept`.
Key theorems: `kept_of_reaches`, `commit_kept`.
-/
import FerriSync.Confine
import Mathlib.Logic.Relation

namespace FerriSync

open FileTree

/-! ### The calls -/

/-- One call to the file system that succeeds, or a file that is removed if it can
be. -/
inductive FsStep (fs : Fs) : Fs → Prop
  | mkdir {p : OsPath} {fs' : Fs} : fs.mkdir p = .ok fs' → FsStep fs fs'
  | read {p : OsPath} {data : Bytes} {fs' : Fs} : fs.read p = .ok (data, fs') → FsStep fs fs'
  | write {p : OsPath} {data : Bytes} {fs' : Fs} : fs.write p data = .ok fs' → FsStep fs fs'
  | rename {p q : OsPath} {fs' : Fs} : fs.rename p q = .ok fs' → FsStep fs fs'
  | remove (p : OsPath) : FsStep fs (fs.remove p)

def Fs.Reaches : Fs → Fs → Prop := Relation.ReflTransGen FsStep

section

variable {root : List OsStr} {fs fs' fs'' : Fs} {p : OsPath}
variable {blake3 : Bytes → FileHash} {localPath : LocalPath} {c : Commit}

theorem Fs.Reaches.refl (fs : Fs) : fs.Reaches fs := Relation.ReflTransGen.refl

theorem Fs.Reaches.trans (h : fs.Reaches fs') (h' : fs'.Reaches fs'') : fs.Reaches fs'' :=
  Relation.ReflTransGen.trans h h'

theorem FsStep.reaches (h : FsStep fs fs') : fs.Reaches fs' := Relation.ReflTransGen.single h

theorem createDirAll_reaches (fuel : ℕ) (p : OsPath) (fs : Fs) :
    fs.Reaches (createDirAll fuel p fs).2 := by
  induction fuel generalizing p fs with
  | zero => exact .refl fs
  | succ fuel ih =>
    rw [createDirAll]
    split
    · rename_i fs' hmkdir
      exact (FsStep.mkdir hmkdir).reaches
    · split_ifs
      · split
        · exact .refl fs
        · rename_i parent _
          have hparent := ih parent fs
          split
          · rename_i e fs' hmade
            rw [hmade] at hparent
            exact hparent
          · rename_i fs' hmade
            rw [hmade] at hparent
            split
            · rename_i fs'' hmkdir
              exact hparent.trans (FsStep.mkdir hmkdir).reaches
            · split_ifs
              · exact hparent
              · exact hparent
      · exact .refl fs
      · exact .refl fs

theorem makeParent_reaches (p : OsPath) (fs : Fs) : fs.Reaches (makeParent p fs).2 := by
  unfold makeParent
  split
  · exact .refl fs
  · exact createDirAll_reaches _ _ fs

theorem backup_reaches (c : Commit) (fs : Fs) :
    fs.Reaches (backupReceived blake3 localPath c fs).2 := by
  unfold backupReceived
  split
  · exact .refl fs
  · split
    · exact .refl fs
    · split_ifs
      · exact .refl fs
      · split
        · exact .refl fs
        · rename_i existing fs' hread
          have hreached : fs.Reaches fs' := (FsStep.read hread).reaches
          split_ifs
          · exact hreached
          · dsimp only
            split
            · exact hreached
            · rename_i fs'' hrename
              exact hreached.trans (FsStep.rename hrename).reaches

theorem install_reaches (p : OsPath) (data : Bytes) (fs : Fs) :
    fs.Reaches (installReceived p data fs).2 := by
  unfold installReceived
  dsimp only
  split
  · exact .refl fs
  · rename_i fs' hwrite
    have hreached : fs.Reaches fs' := (FsStep.write hwrite).reaches
    split
    · exact hreached.trans (FsStep.remove _).reaches
    · rename_i fs'' hrename
      exact hreached.trans (FsStep.rename hrename).reaches

/-- **A commit is a sequence of calls.** -/
theorem commit_reaches (c : Commit) (fs : Fs) :
    fs.Reaches (commitReceived blake3 root localPath c fs).2 := by
  unfold commitReceived
  split_ifs
  · exact .refl fs
  · exact .refl fs
  · split
    · exact .refl fs
    · rename_i target _
      have hmade := makeParent_reaches target fs
      split
      · rename_i e fs₁ h₁
        rw [h₁] at hmade
        exact hmade
      · rename_i fs₁ h₁
        rw [h₁] at hmade
        have hbacked : fs₁.Reaches (backupReceived blake3 localPath c fs₁).2 := backup_reaches c fs₁
        split
        · rename_i e fs₂ h₂
          rw [h₂] at hbacked
          exact hmade.trans hbacked
        · rename_i b fs₂ h₂
          rw [h₂] at hbacked
          have hinstalled := install_reaches target c.data fs₂
          split
          · rename_i e fs₃ h₃
            rw [h₃] at hinstalled
            exact (hmade.trans hbacked).trans hinstalled
          · rename_i fs₃ h₃
            rw [h₃] at hinstalled
            exact (hmade.trans hbacked).trans hinstalled

end

/-! ### What is kept -/

namespace Access

/-- What is moved away or over. -/
def moved : Access → List (List OsStr)
  | renamed p q => [p, q]
  | removed p => [p]
  | _ => []

end Access

/-- The name of a temporary file or of a backup. -/
def DerivedName (n : OsStr) : Prop :=
  (∃ m, n = OsStr.withExtension m tmpExtension) ∨
    ∃ m ts loser hash, n = OsStr.display m ++ osStr (conflictSuffix ts loser hash)

/-- No link below the root has such a name. -/
def PlainLinks (t : Disk) (root : List OsStr) : Prop :=
  ∀ q n, root <+: q ++ [n] → t.isLink (q ++ [n]) = true → ¬DerivedName n

/-- What is done is done below the root, and what is moved has such a name or is no
link. -/
def MayMove (t : Disk) (root : List OsStr) (a : Access) : Prop :=
  a.Inside root ∧ ∀ r ∈ a.moved, (∃ q n, r = q ++ [n] ∧ DerivedName n) ∨ t.isLink r = false

/-- Only what is below the root, and is no directory and no link, has changed, and
not into a link. -/
def Kept (root : List OsStr) (t t' : Disk) : Prop :=
  ∀ p, t.node p = t'.node p ∨
    root <+: p ∧ t.isDir p = false ∧ t.isLink p = false ∧ t'.isLink p = false

section

variable {root : List OsStr} {t t' t'' : Disk} {fs fs' fs'' : Fs} {p : OsPath}
variable {blake3 : Bytes → FileHash} {localPath : LocalPath} {c : Commit}

theorem Kept.refl (root : List OsStr) (t : Disk) : Kept root t t := fun _ => Or.inl rfl

theorem Kept.trans (h : Kept root t t') (h' : Kept root t' t'') : Kept root t t'' := by
  intro p
  rcases h p with hsame | ⟨hin, hdir, hlink, hlink'⟩
  · rcases h' p with hsame' | ⟨hin, hdir, hlink, hlink'⟩
    · exact Or.inl (hsame.trans hsame')
    · refine Or.inr ⟨hin, ?_, ?_, hlink'⟩
      · rwa [Tree.isDir, hsame]
      · rwa [Tree.isLink, hsame]
  · refine Or.inr ⟨hin, hdir, hlink, ?_⟩
    rcases h' p with hsame' | ⟨-, -, -, hlink''⟩
    · rwa [Tree.isLink, ← hsame']
    · exact hlink''

/-- No link has been made. -/
theorem Kept.isLink (h : Kept root t t') {p : List OsStr} (hlink : t'.isLink p = true) :
    t.isLink p = true := by
  rcases h p with hsame | ⟨-, -, -, hlink'⟩
  · rwa [Tree.isLink, hsame]
  · rw [hlink] at hlink'
    cases hlink'

theorem Kept.isDir (h : Kept root t t') {p : List OsStr} (hdir : t.isDir p = true) :
    t'.isDir p = true := by
  rcases h p with hsame | ⟨-, hdir', -, -⟩
  · rwa [Tree.isDir, ← hsame]
  · rw [hdir] at hdir'
    cases hdir'

theorem Kept.clean (h : Kept root t t') (hclean : PlainLinks t root) : PlainLinks t' root :=
  fun q n hin hlink => hclean q n hin (h.isLink hlink)

theorem Kept.mayMove (h : Kept root t t') {a : Access} (ha : MayMove t root a) :
    MayMove t' root a := by
  refine ⟨ha.1, fun r hr => (ha.2 r hr).imp_right fun hlink => ?_⟩
  by_contra hlink'
  rw [Bool.not_eq_false] at hlink'
  rw [h.isLink hlink'] at hlink
  cases hlink

/-- A walk to a directory leads there still. -/
theorem Kept.openRoot (h : Kept root t t') {localPath : LocalPath}
    (hopen : openRoot t localPath = .ok root) : FerriSync.openRoot t' localPath = .ok root := by
  have hroot := isDir_of_openRoot hopen
  have hends : Tree.EndsAt t t' fun p => t.isDir p = false := by
    intro p
    rcases h p with hsame | ⟨-, hdir, hlink, -⟩
    · exact Or.inl hsame
    · exact Or.inr ⟨hdir, hdir, hlink⟩
  have hplace : ¬t.isDir root = false := by
    rw [hroot]
    decide
  have hroot' := h.isDir hroot
  unfold FerriSync.openRoot Tree.canonicalize at hopen ⊢
  cases hwalk : t.walk true maxLinks localPath.start localPath.steps with
  | error e =>
    rw [hwalk] at hopen
    cases hopen
  | ok place =>
    rw [hwalk] at hopen
    dsimp only at hopen
    split at hopen
    · cases hopen
    · rename_i d hd
      split_ifs at hd
      cases hd
      split_ifs at hopen
      cases hopen
      rw [Tree.walk_congr hends hplace hwalk]
      simp [Tree.isDir_iff.mp hroot', hroot']

/-! ### One call, and any number of them -/

theorem Fs.Since.last {may : Access → Prop} {disk : Disk} {a : Access}
    (h : fs.Since may ⟨disk, fs.accesses ++ [a]⟩) : may a := by
  obtain ⟨done, hdone, hmay⟩ := h
  have : done = [a] := (List.append_cancel_left hdone).symm
  exact hmay a (this ▸ List.mem_singleton_self a)

theorem remove_cases (fs : Fs) (p : OsPath) : fs.remove p = fs ∨ ∃ place,
    fs.disk.isDir place.dropLast = true ∧ fs.disk.isDir place = false ∧
      fs.remove p = ⟨fs.disk.set place none, fs.accesses ++ [.removed place]⟩ := by
  unfold Fs.remove Tree.remove
  cases hwalk : fs.disk.walk false maxLinks [] p.steps with
  | error e => exact Or.inl rfl
  | ok place =>
    dsimp only
    by_cases hdir : fs.disk.isDir place = true
    · rw [if_pos hdir]
      exact Or.inl rfl
    · rw [if_neg hdir]
      by_cases hnone : (fs.disk.node place).isNone = true
      · rw [if_pos hnone]
        exact Or.inl rfl
      · rw [if_neg hnone]
        exact Or.inr ⟨place, Tree.walk_parent fs.disk.isDir_top hwalk, by simpa using hdir, rfl⟩

/-- Putting a file, a directory or nothing where there is neither directory nor
link. -/
theorem kept_set {place : List OsStr} {x : Option (Node OsStr Bytes)} (hin : root <+: place)
    (hparent : t.isDir place.dropLast = true) (hdir : t.isDir place = false)
    (hlink : t.isLink place = false) (hx : ∀ absolute steps, x ≠ some (.link absolute steps)) :
    Kept root t (t.set place x) := by
  intro q
  by_cases hq : q = place
  · subst hq
    refine Or.inr ⟨hin, hdir, hlink, ?_⟩
    by_contra hlink'
    rw [Bool.not_eq_false] at hlink'
    rw [Tree.isLink_set hx hlink'] at hlink
    cases hlink
  · rw [Tree.node_set hparent hdir, if_neg hq]
    exact Or.inl rfl

theorem MayMove.isLink {a : Access} (h : MayMove t root a) (hclean : PlainLinks t root) {r : List OsStr}
    (hplace : r ∈ a.places) (hmoved : r ∈ a.moved) : t.isLink r = false := by
  rcases h.2 r hmoved with ⟨q, n, rfl, hname⟩ | hlink
  · by_contra hlink
    rw [Bool.not_eq_false] at hlink
    exact hclean q n (h.1 _ hplace) hlink hname
  · exact hlink

/-- **What one call keeps.** -/
theorem kept_of_step (h : FsStep fs fs') (hclean : PlainLinks fs.disk root)
    (hmay : fs.Since (MayMove fs.disk root) fs') : Kept root fs.disk fs'.disk := by
  cases h with
  | mkdir hmkdir =>
    obtain ⟨place, hwalk, hnone, rfl⟩ := mkdir_ok hmkdir
    refine kept_set (hmay.last.1 _ (List.mem_singleton_self _))
      (Tree.walk_parent fs.disk.isDir_top hwalk) ?_ ?_ fun absolute steps h => by cases h
    · rw [Tree.isDir, hnone]
    · rw [Tree.isLink, hnone]
  | read hread =>
    have hdisk : fs'.disk = fs.disk := by
      unfold Fs.read at hread
      split at hread
      · cases hread
      · cases hread
        rfl
    rw [hdisk]
    exact .refl root fs.disk
  | write hwrite =>
    unfold Fs.write Tree.write at hwrite
    split at hwrite
    · cases hwrite
    · rename_i place disk hset
      cases hwrite
      split at hset
      · cases hset
      · rename_i place' hwalk
        split_ifs at hset with hdir
        cases hset
        exact kept_set (hmay.last.1 _ (List.mem_singleton_self _))
          (Tree.walk_parent fs.disk.isDir_top hwalk) (by simpa using hdir)
          (Tree.isLink_walk fs.disk.isDir_top hwalk) fun absolute steps h => by cases h
  | rename hrename =>
    obtain ⟨source, target, hsource, hsourceDir, htarget, htargetDir, rfl⟩ := rename_ok hrename
    have hsourceMem : source ∈ (Access.renamed source target).places := List.mem_cons_self
    have htargetMem : target ∈ (Access.renamed source target).places :=
      List.mem_cons_of_mem _ (List.mem_singleton_self _)
    have hsourceLink := hmay.last.isLink hclean hsourceMem hsourceMem
    have htargetLink := hmay.last.isLink hclean htargetMem htargetMem
    have hnodes := node_rename (y := fs.disk.node source)
      (Tree.walk_parent fs.disk.isDir_top hsource) hsourceDir
      (Tree.walk_parent fs.disk.isDir_top htarget) htargetDir
    intro q
    dsimp only
    rw [Tree.isLink, Tree.isLink, hnodes]
    by_cases hq : q = target
    · rw [if_pos hq, hq]
      exact Or.inr ⟨hmay.last.1 _ htargetMem, htargetDir, htargetLink, hsourceLink⟩
    · rw [if_neg hq]
      by_cases hq' : q = source
      · rw [if_pos hq', hq']
        exact Or.inr ⟨hmay.last.1 _ hsourceMem, hsourceDir, hsourceLink, rfl⟩
      · rw [if_neg hq']
        exact Or.inl rfl
  | remove p =>
    rcases remove_cases fs p with hsame | ⟨place, hparent, hdir, hremoved⟩
    · rw [hsame]
      exact .refl root fs.disk
    · rw [hremoved] at hmay ⊢
      have hmem : place ∈ (Access.removed place).places := List.mem_singleton_self _
      exact kept_set (hmay.last.1 _ hmem) hparent hdir (hmay.last.isLink hclean hmem hmem)
        fun absolute steps h => by cases h

/-- A call adds to what has been done. -/
theorem FsStep.accesses (h : FsStep fs fs') : ∃ done, fs'.accesses = fs.accesses ++ done := by
  cases h with
  | mkdir hmkdir =>
    obtain ⟨place, -, -, rfl⟩ := mkdir_ok hmkdir
    exact ⟨_, rfl⟩
  | read hread =>
    unfold Fs.read at hread
    split at hread
    · cases hread
    · cases hread
      exact ⟨_, rfl⟩
  | write hwrite =>
    unfold Fs.write at hwrite
    split at hwrite
    · cases hwrite
    · cases hwrite
      exact ⟨_, rfl⟩
  | rename hrename =>
    obtain ⟨source, target, -, -, -, -, rfl⟩ := rename_ok hrename
    exact ⟨_, rfl⟩
  | remove p =>
    rcases remove_cases fs p with hsame | ⟨place, -, -, hremoved⟩
    · exact ⟨[], by rw [hsame, List.append_nil]⟩
    · exact ⟨_, by rw [hremoved]⟩

theorem Fs.Reaches.accesses (h : fs.Reaches fs') : ∃ done, fs'.accesses = fs.accesses ++ done := by
  induction h with
  | refl => exact ⟨[], (List.append_nil _).symm⟩
  | tail _ hstep ih =>
    obtain ⟨done, hdone⟩ := ih
    obtain ⟨done', hdone'⟩ := hstep.accesses
    exact ⟨done ++ done', by rw [hdone', hdone, List.append_assoc]⟩

/-- **What any calls keep.** -/
theorem kept_of_reaches (h : fs.Reaches fs') (hclean : PlainLinks fs.disk root)
    (hmay : fs.Since (MayMove fs.disk root) fs') : Kept root fs.disk fs'.disk := by
  induction h with
  | refl => exact .refl root fs.disk
  | tail hreached hstep ih =>
    rename_i fs₁ fs₂
    obtain ⟨done, hdone⟩ := Fs.Reaches.accesses hreached
    obtain ⟨done', hdone'⟩ := hstep.accesses
    obtain ⟨all, hall, hmayAll⟩ := hmay
    have hsplit : all = done ++ done' := by
      rw [hdone', hdone, List.append_assoc] at hall
      exact (List.append_cancel_left hall).symm
    have hkept : Kept root fs.disk fs₁.disk :=
      ih ⟨done, hdone, fun a ha => hmayAll a (hsplit ▸ List.mem_append_left _ ha)⟩
    refine hkept.trans (kept_of_step hstep (hkept.clean hclean) ⟨done', hdone', fun a ha => ?_⟩)
    exact hkept.mayMove (hmayAll a (hsplit ▸ List.mem_append_right _ ha))

/-! ### A commit -/

theorem temp_derived (hne : p.names ≠ []) :
    ∃ q n, (p.withExtension tmpExtension).names = q ++ [n] ∧ DerivedName n := by
  obtain ⟨names, asDir⟩ := p
  obtain ⟨q, n, rfl⟩ := (List.eq_nil_or_concat names).resolve_left hne
  rw [List.concat_eq_append, withExtension_concat]
  exact ⟨q, _, rfl, Or.inl ⟨n, rfl⟩⟩

theorem PlainLinks.not_tempLeadsOut (hclean : PlainLinks t root) (hroot : t.isDir root = true) (s : String) :
    ¬TempLeadsOut t root s := by
  rintro ⟨p, place, hjoin, hfile, hlink, hwalk, hleaf, -⟩
  obtain ⟨hin, -⟩ := temp_isLink hroot hjoin hfile ⟨hwalk, hleaf⟩
  by_cases hne : p.names = []
  · rw [OsPath.withExtension, hne] at hlink
    dsimp only [List.getLast?_nil] at hlink
    rw [hne, Tree.isLink_of_isDir t.isDir_top] at hlink
    cases hlink
  · obtain ⟨q, n, hq, hname⟩ := temp_derived hne
    rw [hq] at hin hlink
    exact hclean q n hin hlink hname

/-- What a commit does where no name leads out. -/
theorem commit_mayMove (hopen : openRoot fs.disk localPath = .ok root)
    (hclean : PlainLinks fs.disk root) (hdisplay : root.map OsStr.display = root) :
    fs.Since (MayMove fs.disk root) (commitReceived blake3 root localPath c fs).2 := by
  have hroot := isDir_of_openRoot hopen
  have hinside : fs.Since (Access.Inside root) (commitReceived blake3 root localPath c fs).2 :=
    commit_inside hopen hroot fun _ _ =>
      ⟨hclean.not_tempLeadsOut hroot c.path, not_backupLeadsOut hroot hdisplay c.path⟩
  refine (hinside.and (commit_accesses hopen hroot)).imp ?_
  rintro a ⟨hin, -, -, p, hjoin, haccess⟩
  refine ⟨hin, fun r hr => ?_⟩
  obtain ⟨target, -, rfl, hlinks, -⟩ := (SyncRoot.safeJoin_ok_iff hroot).mp hjoin
  have hnames : ∀ has : target.asDir = false, (OsPath.join root target).names ≠ root →
      fs.disk.isLink (OsPath.join root target).names = false := fun has hne =>
    hlinks _ (fun hnil => hne (by rw [join_eq, hnil, List.append_nil])) List.prefix_rfl fun _ => has
  have hread : ∀ {data}, fs.disk.read maxLinks [] (OsPath.join root target).steps =
      .ok ((OsPath.join root target).names, data) →
      fs.disk.isLink (OsPath.join root target).names = false := by
    intro data hread
    obtain ⟨-, -, -, hnode⟩ := read_place hroot hlinks (join_eq root target ▸ hread)
    rw [join_eq, Tree.isLink, hnode]
  have htemp : (OsPath.join root target).names ≠ root → ∃ q n,
      ((OsPath.join root target).withExtension tmpExtension).names = q ++ [n] ∧ DerivedName n := by
    intro hne
    refine temp_derived fun hnil => hne ?_
    rw [join_eq] at hnil ⊢
    obtain ⟨hroot', hpath⟩ := List.append_eq_nil_iff.mp hnil
    rw [hpath, List.append_nil]
  cases haccess with
  | made q => cases hr
  | read _ => cases hr
  | backedUp hmoved =>
    simp only [Access.moved, List.mem_cons, List.not_mem_nil, or_false] at hr
    rcases hr with rfl | rfl
    · obtain ⟨data, hdata, -⟩ := hmoved
      exact Or.inr (hread hdata)
    · obtain ⟨q, m, hplace⟩ := backedUp_last hmoved
      exact Or.inl ⟨q, _, hplace, Or.inr ⟨m, _, _, _, rfl⟩⟩
  | wrote _ _ => cases hr
  | wroteFresh _ => cases hr
  | wroteMoved _ _ => cases hr
  | installed hne h =>
    simp only [Access.moved, List.mem_cons, List.not_mem_nil, or_false] at hr
    rcases hr with rfl | rfl
    · exact Or.inl (htemp hne)
    · rcases h with ⟨data, hdata⟩ | hcreatable
      · exact Or.inr (hread hdata)
      · exact Or.inr (hnames hcreatable.file hne)
  | removed hne =>
    rw [List.mem_singleton.mp hr]
    exact Or.inl (htemp hne)

/-- **What a commit keeps.** -/
theorem commit_kept (hopen : openRoot fs.disk localPath = .ok root) (hclean : PlainLinks fs.disk root)
    (hdisplay : root.map OsStr.display = root) :
    Kept root fs.disk (commitReceived blake3 root localPath c fs).2.disk :=
  kept_of_reaches (commit_reaches c fs) hclean (commit_mayMove hopen hclean hdisplay)

end

end FerriSync
