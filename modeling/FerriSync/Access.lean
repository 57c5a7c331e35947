/-
# What a session does to the file system

A session's work on a path from its peer, in a file system with symbolic links
(`session.rs`): a received file is committed (`commitReceived`), a requested one
is read (`serveRequested`). Every path it uses is made from the checked one, by
leaving the last component out, by replacing its extension, or by displaying it
and adding a tag. What is done is recorded with the place it is done at
(`Access`), which for a write is where the links lead.

Key definitions: `Access`, `Fs`, `commitReceived`, `serveRequested`, `Fs.Since`.
Key theorems: `createDirAll_spec`, `makeParent_spec`.
-/
import FerriSync.Commit
import FerriSync.SyncRoot

namespace FerriSync

open FileTree

/-! ### What a session does -/

/-- What is done to the file system, and where. -/
inductive Access
  | made (at_ : List OsStr)
  | renamed (source target : List OsStr)
  | wrote (at_ : List OsStr)
  | read (at_ : List OsStr)
  | listed (at_ : List OsStr)
  | removed (at_ : List OsStr)
deriving DecidableEq

def Access.places : Access → List (List OsStr)
  | made p => [p]
  | renamed p q => [p, q]
  | wrote p => [p]
  | read p => [p]
  | listed p => [p]
  | removed p => [p]

def Access.Inside (root : List OsStr) (a : Access) : Prop := ∀ p ∈ a.places, root <+: p

/-- The file system, and what has been done to it. -/
structure Fs where
  disk : Disk
  accesses : List Access

inductive FsError
  | join (e : JoinError)
  | fault (e : Fault)
  | pathTooLong

namespace Fs

variable (fs : Fs)

def exists_ (p : OsPath) : Bool := (SyncRoot.canonicalize fs.disk p).isOk

def isDir (p : OsPath) : Bool :=
  match SyncRoot.canonicalize fs.disk p with
  | .ok d => fs.disk.isDir d
  | .error _ => false

def mkdir (p : OsPath) : Except Fault Fs :=
  match fs.disk.mkdir maxLinks [] p.steps with
  | .error e => .error e
  | .ok (place, disk) => .ok ⟨disk, fs.accesses ++ [.made place]⟩

def read (p : OsPath) : Except Fault (Bytes × Fs) :=
  match fs.disk.read maxLinks [] p.steps with
  | .error e => .error e
  | .ok (place, data) => .ok (data, { fs with accesses := fs.accesses ++ [.read place] })

def write (p : OsPath) (data : Bytes) : Except Fault Fs :=
  match fs.disk.write maxLinks [] p.steps data with
  | .error e => .error e
  | .ok (place, disk) => .ok ⟨disk, fs.accesses ++ [.wrote place]⟩

def rename (p q : OsPath) : Except Fault Fs :=
  match fs.disk.rename maxLinks [] p.steps q.steps with
  | .error e => .error e
  | .ok ((source, target), disk) => .ok ⟨disk, fs.accesses ++ [.renamed source target]⟩

def remove (p : OsPath) : Fs :=
  match fs.disk.remove maxLinks [] p.steps with
  | .error _ => fs
  | .ok (place, disk) => ⟨disk, fs.accesses ++ [.removed place]⟩

end Fs

/-- `create_dir_all`. -/
def createDirAll : ℕ → OsPath → Fs → Except Fault Unit × Fs
  | 0, _, fs => (.ok (), fs)
  | n + 1, p, fs =>
    match fs.mkdir p with
    | .ok fs => (.ok (), fs)
    | .error e =>
      if e = .notFound then
        match p.parent with
        | none => (.error .notFound, fs)
        | some parent =>
          match createDirAll n parent fs with
          | (.error e, fs) => (.error e, fs)
          | (.ok (), fs) =>
            match fs.mkdir p with
            | .ok fs => (.ok (), fs)
            | .error e => if fs.isDir p then (.ok (), fs) else (.error e, fs)
      else if fs.isDir p then (.ok (), fs) else (.error e, fs)

/-- The path that is displayed as this one with a tag after it. A path that ends
in a slash names no file, so it is not backed up. -/
def OsPath.backup (p : OsPath) (tag : List Char) : OsPath :=
  match p.names.getLast? with
  | none => ⟨[osStr tag], false⟩
  | some n => ⟨p.names.dropLast.map OsStr.display ++ [OsStr.display n ++ osStr tag], false⟩

section

variable (blake3 : Bytes → FileHash) (root : List OsStr) (localPath : LocalPath)

/-- If the target exists with different content, rename it to its backup. The
root is opened anew. -/
def backupReceived (c : Commit) (fs : Fs) : Except FsError Bool × Fs :=
  match openRoot fs.disk localPath with
  | .error e => (.error (.fault e), fs)
  | .ok root =>
    match SyncRoot.safeJoin fs.disk root c.path with
    | .error e => (.error (.join e), fs)
    | .ok target =>
      if !fs.exists_ target then (.ok false, fs)
      else match fs.read target with
        | .error e => (.error (.fault e), fs)
        | .ok (existing, fs) =>
          if existing = c.data then (.ok false, fs)
          else
            let tag := conflictSuffix c.ts (loserLabel c.winner) (blake3 c.data)
            match fs.rename target (target.backup tag) with
            | .error e => (.error (.fault e), fs)
            | .ok fs => (.ok true, fs)

/-- Write the temporary file and rename it to the target; if that fails, remove
it. -/
def installReceived (target : OsPath) (data : Bytes) (fs : Fs) : Except FsError Unit × Fs :=
  let temp := target.withExtension tmpExtension
  match fs.write temp data with
  | .error e => (.error (.fault e), fs)
  | .ok fs =>
    match fs.rename temp target with
    | .error e => (.error (.fault e), fs.remove temp)
    | .ok fs => (.ok (), fs)

/-- Make the directory of the target. -/
def makeParent (target : OsPath) (fs : Fs) : Except Fault Unit × Fs :=
  match target.parent with
  | none => (.ok (), fs)
  | some parent => createDirAll (parent.names.length + 1) parent fs

/-- What a session does with a file it has received; says whether it made a
backup. -/
def commitReceived (c : Commit) (fs : Fs) : Except FsError Bool × Fs :=
  if c.path = "metadata.db" then (.ok false, fs)
  else if maxPathLen < c.path.utf8ByteSize then (.error .pathTooLong, fs)
  else match SyncRoot.safeJoin fs.disk root c.path with
    | .error e => (.error (.join e), fs)
    | .ok target =>
      match makeParent target fs with
      | (.error e, fs) => (.error (.fault e), fs)
      | (.ok (), fs) =>
        match backupReceived blake3 localPath c fs with
        | (.error e, fs) => (.error e, fs)
        | (.ok conflicted, fs) =>
          match installReceived target c.data fs with
          | (.error e, fs) => (.error e, fs)
          | (.ok (), fs) => (.ok conflicted, fs)

/-- What a session does with a path it is asked for; gives the bytes it sends. -/
def serveRequested (path : String) (fs : Fs) : Except FsError (Option Bytes) × Fs :=
  if path = "metadata.db" ∨ maxPathLen < path.utf8ByteSize then (.ok none, fs)
  else match SyncRoot.safeJoin fs.disk root path with
    | .error e => (.error (.join e), fs)
    | .ok target =>
      match fs.read target with
      | .error _ => (.ok none, fs)
      | .ok (data, fs) => (.ok (some data), fs)

end

/-! ### Making the directory of the target -/

/-- All that has been done is inside the root. -/
def Fs.Inside (root : List OsStr) (fs : Fs) : Prop := ∀ a ∈ fs.accesses, a.Inside root

/-- What has been done since is as it may be. -/
def Fs.Since (fs : Fs) (may : Access → Prop) (fs' : Fs) : Prop :=
  ∃ done, fs'.accesses = fs.accesses ++ done ∧ ∀ a ∈ done, may a

section

variable {root q q' : List OsStr} {n x : OsStr} {asDir : Bool} {fs fs' fs'' : Fs} {p : OsPath}
variable {may : Access → Prop}

theorem Fs.Since.refl (fs : Fs) (may : Access → Prop) : fs.Since may fs :=
  ⟨[], (List.append_nil _).symm, fun a ha => by cases ha⟩

theorem Fs.Since.concat (h : fs.Since may fs') {a : Access} (ha : may a) (disk : Disk) :
    fs.Since may ⟨disk, fs'.accesses ++ [a]⟩ := by
  obtain ⟨done, hdone, hmay⟩ := h
  refine ⟨done ++ [a], by rw [hdone, List.append_assoc], fun b hb => ?_⟩
  rcases List.mem_append.mp hb with hb | hb
  · exact hmay b hb
  · rw [List.mem_singleton.mp hb]
    exact ha

theorem Fs.Since.trans (h : fs.Since may fs') (h' : fs'.Since may fs'') : fs.Since may fs'' := by
  obtain ⟨done, hdone, hmay⟩ := h
  obtain ⟨done', hdone', hmay'⟩ := h'
  refine ⟨done ++ done', by rw [hdone', hdone, List.append_assoc], fun a ha => ?_⟩
  exact (List.mem_append.mp ha).elim (hmay a) (hmay' a)

theorem Fs.Since.imp {may' : Access → Prop} (h : fs.Since may fs') (himp : ∀ a, may a → may' a) :
    fs.Since may' fs' := by
  obtain ⟨done, hdone, hmay⟩ := h
  exact ⟨done, hdone, fun a ha => himp a (hmay a ha)⟩

theorem Fs.Since.and {may' : Access → Prop} (h : fs.Since may fs') (h' : fs.Since may' fs') :
    fs.Since (fun a => may a ∧ may' a) fs' := by
  obtain ⟨done, hdone, hmay⟩ := h
  obtain ⟨done', hdone', hmay'⟩ := h'
  rw [hdone] at hdone'
  have heq : done = done' := List.append_cancel_left hdone'
  exact ⟨done, hdone, fun a ha => ⟨hmay a ha, hmay' a (heq ▸ ha)⟩⟩

theorem Fs.Since.mem (h : fs.Since may fs') {a : Access} (ha : a ∈ fs'.accesses) :
    a ∈ fs.accesses ∨ may a := by
  obtain ⟨done, hdone, hmay⟩ := h
  rw [hdone] at ha
  exact (List.mem_append.mp ha).imp_right (hmay a)

/-- Directories have been made below the root where nothing was, and nothing else
has been done. -/
structure Grown (root : List OsStr) (fs fs' : Fs) : Prop where
  node : ∀ p, fs.disk.node p = fs'.disk.node p ∨
    fs.disk.node p = none ∧ fs'.disk.isDir p = true
  accesses : fs.Since (fun a => ∃ r, a = .made (root ++ r)) fs'

theorem Grown.refl (root : List OsStr) (fs : Fs) : Grown root fs fs :=
  ⟨fun _ => Or.inl rfl, .refl fs _⟩

theorem Grown.trans (h : Grown root fs fs') (h' : Grown root fs' fs'') : Grown root fs fs'' where
  node p := by
    rcases h.node p with hsame | ⟨hnone, hdir⟩
    · rcases h'.node p with hsame' | ⟨hnone', hdir'⟩
      · exact Or.inl (hsame.trans hsame')
      · exact Or.inr ⟨hsame.trans hnone', hdir'⟩
    · rcases h'.node p with hsame' | ⟨hnone', -⟩
      · exact Or.inr ⟨hnone, by rwa [Tree.isDir, ← hsame'] ⟩
      · rw [Tree.isDir, hnone'] at hdir
        cases hdir
  accesses := h.accesses.trans h'.accesses

theorem Grown.isDir (h : Grown root fs fs') (hdir : fs.disk.isDir q = true) :
    fs'.disk.isDir q = true := by
  rcases h.node q with hsame | ⟨-, hmade⟩
  · rwa [Tree.isDir, ← hsame]
  · exact hmade

theorem Grown.noLinks (h : Grown root fs fs') (hlinks : NoLinks fs.disk root q asDir) :
    NoLinks fs'.disk root q asDir := by
  intro r hr hrq hfull
  rcases h.node (root ++ r) with hsame | ⟨-, hmade⟩
  · rw [Tree.isLink, ← hsame]
    exact hlinks r hr hrq hfull
  · exact Tree.isLink_of_isDir hmade

theorem isDir_of_isDir (hdir : fs.disk.isDir q = true) : fs.isDir ⟨q, asDir⟩ = true := by
  unfold Fs.isDir
  rw [canonicalize_root hdir]
  exact hdir

/-- A directory that is there is not made again. -/
theorem mkdir_of_isDir (hdir : fs.disk.isDir q = true) :
    fs.mkdir ⟨q, false⟩ = .error .alreadyExists := by
  have hwalk : fs.disk.walk false maxLinks [] (OsPath.mk q false).steps = .ok q := by
    rw [steps_plain]
    exact Tree.walk_dir hdir
  unfold Fs.mkdir Tree.mkdir
  rw [hwalk]
  simp [Tree.isDir_iff.mp hdir]

theorem createDirAll_of_isDir (hdir : fs.disk.isDir q = true) (fuel : ℕ) :
    createDirAll (fuel + 1) ⟨q, false⟩ fs = (.ok (), fs) := by
  rw [createDirAll, mkdir_of_isDir hdir]
  dsimp only
  rw [if_neg (by decide), if_pos (isDir_of_isDir hdir)]

theorem mkdir_ok (h : fs.mkdir p = .ok fs') : ∃ place,
    fs.disk.walk false maxLinks [] p.steps = .ok place ∧ fs.disk.node place = none ∧
      fs' = ⟨fs.disk.set place (some .dir), fs.accesses ++ [.made place]⟩ := by
  unfold Fs.mkdir Tree.mkdir at h
  cases hwalk : fs.disk.walk false maxLinks [] p.steps with
  | error e =>
    rw [hwalk] at h
    cases h
  | ok place =>
    rw [hwalk] at h
    dsimp only at h
    cases hnode : fs.disk.node place with
    | some x =>
      rw [hnode] at h
      cases h
    | none =>
      rw [hnode] at h
      cases h
      exact ⟨place, rfl, hnode, rfl⟩

/-- In a directory, anything that is not there can be made. -/
theorem mkdir_entry (hdir : fs.disk.isDir q = true) : fs.mkdir ⟨q ++ [n], false⟩ =
    if fs.disk.node (q ++ [n]) ≠ none then .error .alreadyExists
    else .ok ⟨fs.disk.set (q ++ [n]) (some .dir), fs.accesses ++ [.made (q ++ [n])]⟩ := by
  have hwalk : fs.disk.walk false maxLinks [] (OsPath.mk (q ++ [n]) false).steps = .ok (q ++ [n]) := by
    rw [steps_plain]
    exact Tree.walk_entry hdir fun h => (by cases h)
  unfold Fs.mkdir Tree.mkdir
  rw [hwalk]
  dsimp only
  cases fs.disk.node (q ++ [n]) <;> rfl

/-- A directory that has just been made is empty. -/
theorem grown_mkdir (hroot : fs.disk.isDir root = true) (hlinks : NoLinks fs.disk root q false)
    (h : fs.mkdir ⟨root ++ q, false⟩ = .ok fs') : Grown root fs fs' ∧
      fs'.disk.isDir (root ++ q) = true ∧ ∀ m, fs'.disk.node (root ++ q ++ [m]) = none := by
  obtain ⟨place, hplace, hnone, rfl⟩ := mkdir_ok h
  obtain rfl : place = root ++ q := place_of_noLinks hroot hlinks hplace
  have hparent : fs.disk.isDir (root ++ q).dropLast = true :=
    Tree.walk_parent fs.disk.isDir_top hplace
  have hleaf : fs.disk.isDir (root ++ q) = false := by rw [Tree.isDir, hnone]
  have hset := Tree.node_set (x := some .dir) hparent hleaf
  refine ⟨⟨fun r => ?_, (Fs.Since.refl fs _).concat ⟨q, rfl⟩ _⟩, ?_, fun m => ?_⟩
  · rw [Tree.isDir, hset]
    by_cases hr : r = root ++ q
    · rw [if_pos hr, hr]
      exact Or.inr ⟨hnone, rfl⟩
    · rw [if_neg hr]
      exact Or.inl rfl
  · rw [Tree.isDir, hset, if_pos rfl]
  · rw [hset, if_neg (by simp)]
    by_contra hsome
    rw [Tree.isDir_concat hsome] at hleaf
    cases hleaf

/-- **What making a directory does**: it makes directories inside the root, and
if the last one was not there it is empty. -/
theorem createDirAll_spec (hroot : fs.disk.isDir root = true)
    (hlinks : NoLinks fs.disk root q false) {fuel : ℕ} (hfuel : q.length < fuel) :
    let made := createDirAll fuel ⟨root ++ q, false⟩ fs
    Grown root fs made.2 ∧ (made.1 = .ok () → made.2.disk.isDir (root ++ q) = true ∧
      (made.2 = fs ∨ ∀ m, made.2.disk.node (root ++ q ++ [m]) = none)) := by
  induction q using List.reverseRecOn generalizing fuel with
  | nil =>
    obtain ⟨fuel, rfl⟩ := Nat.exists_eq_succ_of_ne_zero (Nat.ne_of_gt hfuel)
    rw [List.append_nil, Nat.succ_eq_add_one, createDirAll_of_isDir hroot]
    exact ⟨.refl root fs, fun _ => ⟨hroot, Or.inl rfl⟩⟩
  | append_singleton q n ih =>
    obtain ⟨fuel, rfl⟩ := Nat.exists_eq_succ_of_ne_zero (Nat.ne_zero_of_lt hfuel)
    have hlen : q.length < fuel := by
      rw [List.length_append, List.length_singleton] at hfuel
      omega
    by_cases hdir : fs.disk.isDir (root ++ (q ++ [n])) = true
    · rw [Nat.succ_eq_add_one, createDirAll_of_isDir hdir]
      exact ⟨.refl root fs, fun _ => ⟨hdir, Or.inl rfl⟩⟩
    · have hnotDir : fs.isDir ⟨root ++ (q ++ [n]), false⟩ = false := by
        unfold Fs.isDir
        split
        · rename_i d hd
          rw [canonicalize_lexical hroot hlinks hd]
          simpa using hdir
        · rfl
      rw [Nat.succ_eq_add_one, createDirAll]
      cases hmkdir : fs.mkdir ⟨root ++ (q ++ [n]), false⟩ with
      | ok fs' =>
        obtain ⟨hgrown, hmade, hempty⟩ := grown_mkdir hroot hlinks hmkdir
        exact ⟨hgrown, fun _ => ⟨hmade, Or.inr hempty⟩⟩
      | error e =>
        by_cases he : e = .notFound
        · subst he
          have hparent : (OsPath.mk (root ++ (q ++ [n])) false).parent = some ⟨root ++ q, false⟩ := by
            rw [← List.append_assoc, parent_concat]
          obtain ⟨hgrown, hmade⟩ := ih (noLinks_concat.mp hlinks).1 hlen
          dsimp only
          rw [if_pos rfl, hparent]
          dsimp only
          generalize createDirAll fuel ⟨root ++ q, false⟩ fs = made at hgrown hmade
          obtain ⟨r, fs₁⟩ := made
          cases r with
          | error e => exact ⟨hgrown, fun h => by cases h⟩
          | ok u =>
            obtain ⟨hdir₁, hfresh⟩ := hmade rfl
            cases hmkdir₁ : fs₁.mkdir ⟨root ++ (q ++ [n]), false⟩ with
            | ok fs₂ =>
              dsimp only
              rw [hmkdir₁]
              obtain ⟨hgrown₂, hmade₂, hempty₂⟩ :=
                grown_mkdir (hgrown.isDir hroot) (hgrown.noLinks hlinks) hmkdir₁
              exact ⟨hgrown.trans hgrown₂, fun _ => ⟨hmade₂, Or.inr hempty₂⟩⟩
            | error e₁ =>
              -- there was nothing there, or the first attempt would not have failed so
              have hnone : fs₁.disk.node (root ++ q ++ [n]) = none := by
                rcases hfresh with rfl | hempty
                · by_contra hsome
                  rw [← List.append_assoc, mkdir_entry hdir₁, if_pos hsome] at hmkdir
                  cases hmkdir
                · exact hempty n
              rw [← List.append_assoc, mkdir_entry hdir₁, if_neg (not_not.mpr hnone)] at hmkdir₁
              cases hmkdir₁
        · dsimp only
          rw [if_neg he, hnotDir]
          exact ⟨.refl root fs, fun h => by cases h⟩

/-- **Making a directory succeeds** where nothing but directories stands above. -/
theorem createDirAll_ok (hroot : fs.disk.isDir root = true) (hlinks : NoLinks fs.disk root q false)
    (habove : ∀ r, r <+: q → fs.disk.node (root ++ r) = none ∨ fs.disk.isDir (root ++ r) = true)
    {fuel : ℕ} (hfuel : q.length < fuel) : (createDirAll fuel ⟨root ++ q, false⟩ fs).1 = .ok () := by
  induction q using List.reverseRecOn generalizing fuel with
  | nil =>
    obtain ⟨fuel, rfl⟩ := Nat.exists_eq_succ_of_ne_zero (Nat.ne_of_gt hfuel)
    rw [List.append_nil, Nat.succ_eq_add_one, createDirAll_of_isDir hroot]
  | append_singleton q n ih =>
    obtain ⟨fuel, rfl⟩ := Nat.exists_eq_succ_of_ne_zero (Nat.ne_zero_of_lt hfuel)
    have hlen : q.length < fuel := by
      rw [List.length_append, List.length_singleton] at hfuel
      omega
    have habove' : ∀ r, r <+: q → fs.disk.node (root ++ r) = none ∨
        fs.disk.isDir (root ++ r) = true := fun r hr => habove r (hr.trans (List.prefix_append _ _))
    rcases habove _ List.prefix_rfl with hnone | hdir
    · rw [← List.append_assoc] at hnone ⊢
      rw [Nat.succ_eq_add_one, createDirAll]
      by_cases hparent : fs.disk.isDir (root ++ q) = true
      · rw [mkdir_entry hparent, if_neg (not_not.mpr hnone)]
      · rw [Bool.not_eq_true] at hparent
        have hmkdir : fs.mkdir ⟨root ++ q ++ [n], false⟩ = .error .notFound := by
          unfold Fs.mkdir Tree.mkdir
          rw [steps_plain, Tree.walk_missing hroot habove' hparent]
        obtain ⟨hgrown, hmade⟩ := createDirAll_spec hroot (noLinks_concat.mp hlinks).1 hlen
        have hok := ih (noLinks_concat.mp hlinks).1 habove' hlen
        rw [hmkdir]
        dsimp only
        rw [if_pos rfl, parent_concat]
        dsimp only
        generalize createDirAll fuel ⟨root ++ q, false⟩ fs = made at hgrown hmade hok
        obtain ⟨r, fs₁⟩ := made
        obtain rfl : r = .ok () := hok
        obtain ⟨hdir₁, hfresh⟩ := hmade rfl
        dsimp only at hdir₁ hfresh ⊢
        rcases hfresh with rfl | hempty
        · rw [hdir₁] at hparent
          cases hparent
        · rw [mkdir_entry hdir₁, if_neg (not_not.mpr (hempty n))]
    · rw [Nat.succ_eq_add_one, createDirAll_of_isDir hdir]

/-- The directory of the target is there, and it was there before or is empty. -/
theorem makeParent_spec (hroot : fs.disk.isDir root = true) (hlinks : NoLinks fs.disk root q asDir) :
    let made := makeParent ⟨root ++ q, asDir⟩ fs
    Grown root fs made.2 ∧ (made.1 = .ok () →
      (made.2 = fs ∧ ∀ q' n, q = q' ++ [n] → fs.disk.isDir (root ++ q') = true) ∨
      ∃ q' n, q = q' ++ [n] ∧ made.2.disk.isDir (root ++ q') = true ∧
        ∀ m, made.2.disk.node (root ++ q' ++ [m]) = none) := by
  rcases List.eq_nil_or_concat q with rfl | ⟨q, n, rfl⟩
  · have hmade : makeParent ⟨root ++ [], asDir⟩ fs = (.ok (), fs) := by
      rw [List.append_nil]
      rcases List.eq_nil_or_concat root with rfl | ⟨r, m, rfl⟩
      · rfl
      · rw [List.concat_eq_append] at hroot ⊢
        have hdir : fs.disk.isDir r = true := Tree.isDir_above (List.prefix_append _ _) hroot
        rw [makeParent, parent_concat]
        exact createDirAll_of_isDir hdir _
    rw [hmade]
    exact ⟨.refl root fs, fun _ => Or.inl ⟨rfl, fun q' n h => by simp at h⟩⟩
  · rw [List.concat_eq_append] at hlinks ⊢
    have hmake : makeParent ⟨root ++ (q ++ [n]), asDir⟩ fs =
        createDirAll ((root ++ q).length + 1) ⟨root ++ q, false⟩ fs := by
      rw [← List.append_assoc, makeParent, parent_concat]
    have hfuel : q.length < (root ++ q).length + 1 := by
      rw [List.length_append]
      omega
    obtain ⟨hgrown, hok⟩ := createDirAll_spec hroot (noLinks_concat.mp hlinks).1 hfuel
    rw [hmake]
    refine ⟨hgrown, fun h => ?_⟩
    obtain ⟨hdir, hsame | hempty⟩ := hok h
    · refine Or.inl ⟨hsame, fun q' n' heq => ?_⟩
      obtain ⟨rfl, -⟩ := List.append_inj' heq rfl
      rw [← hsame]
      exact hdir
    · exact Or.inr ⟨q, n, rfl, hdir, hempty⟩

end

end FerriSync
