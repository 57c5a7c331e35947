/-
# The transfer manager

The downloads of a sync plan (`TransferManager::execute_downloads`,
`ferrisync-core/src/transfer/manager.rs`). Each file is received, its path is
resolved, the directory it goes to is made, and its data is written to a
temporary file, which is renamed to the path. A download that fails is logged,
and the next one goes on. The temporary file is named after the path, unlike
anything on it (`tempName_ne`). It is removed if it cannot be renamed, not if it
cannot be written.

Every step can fail: the receiver as it likes, and the file system for what
stands there or for a reason of its own (`StepFaults`), which for a write is
that the disk is full. A call of `safe_join` fails as a whole.

A download makes directories and gives up, or it opens its temporary file
(`Opens`), and that is left, removed or renamed (`DownloadStep`).

Key definitions: `TransferManager.writeAtomic`, `executeDownloads`, `Opens`,
`DownloadStep`.
Key theorems: `tempName_ne`, `downloadOne_cases`.
-/
import FerriSync.Footprint
import FerriSync.BackupNames

namespace FerriSync

open FileTree

/-- `tempDir` is walked from the top. -/
structure TransferManager where
  root : List OsStr
  tempDir : List (Step OsStr)
  pid : ℕ

/-- What the system fails of one download. -/
structure StepFaults where
  join : Bool := false
  /-- The directories cannot be made, but for so many names of the path. -/
  dirs : Option ℕ := none
  open_ : Bool := false
  /-- The disk has room for so many bytes. -/
  room : Option ℕ := none
  rename : Bool := false
  cleanup : Bool := false

/-- Without a cause, a call has failed for a reason of the system's own. -/
inductive DownloadError
  | receive (e : String)
  | join (e : Option JoinError)
  | createDirs (e : Option Fault)
  | tempWrite (e : Option Fault)
  | rename (e : Option Fault)

namespace StepFaults

variable (faults : StepFaults) (data : Bytes)

/-- There is room for the data. -/
def fits : Bool := faults.room.all (data.length ≤ ·)

/-- The beginning of the data that there is room for. -/
def kept : Bytes := faults.room.elim data data.take

end StepFaults

def mayFail {ε α : Type} (fails : Bool) (r : Except ε α) : Except (Option ε) α :=
  if fails then .error none else r.mapError some

/-- `create_dir_all`, on the directory the target stands in. -/
def createParent (dirs : Option ℕ) (target : OsPath) (fs : Fs) : Except (Option Fault) Unit × Fs :=
  match dirs with
  | none =>
    let made := makeParent target fs
    (made.1.mapError some, made.2)
  | some n =>
    match target.parent with
    | none => (.ok (), fs)
    | some parent => (.error none, (createDirAll (n + 1) ⟨parent.names.take n, false⟩ fs).2)

namespace TransferManager

variable (m : TransferManager)

def readFile (path : FilePath) (t : Disk) : Except FsError Bytes :=
  match SyncRoot.safeJoin t m.root path.val with
  | .error e => .error (.join e)
  | .ok full =>
    match t.read maxLinks [] full.steps with
    | .error e => .error (.fault e)
    | .ok (_, data) => .ok data

def tempName (path : FilePath) : OsStr :=
  osStr (".ferrisync-tmp-".toList ++ path.val.toList.map (fun c => if c = '/' then '_' else c) ++
    '-' :: (toString m.pid).toList)

def tempPath (path : FilePath) : List (Step OsStr) := m.tempDir ++ [.name (m.tempName path)]

section

variable (faults : StepFaults) (path : FilePath)

def writeTemp (data : Bytes) (fs : Fs) : Except (Option Fault) Unit × Fs :=
  match mayFail faults.open_ (fs.disk.write maxLinks [] (m.tempPath path) (faults.kept data)) with
  | .error e => (.error e, fs)
  | .ok (place, disk) =>
    let fs := ⟨disk, fs.accesses ++ [.wrote place]⟩
    if faults.fits data then (.ok (), fs) else (.error none, fs)

def removeTemp (fs : Fs) : Fs :=
  match mayFail faults.cleanup (fs.disk.remove maxLinks [] (m.tempPath path)) with
  | .error _ => fs
  | .ok (place, disk) => ⟨disk, fs.accesses ++ [.removed place]⟩

def renameTemp (target : OsPath) (fs : Fs) : Except (Option Fault) Unit × Fs :=
  match mayFail faults.rename (fs.disk.rename maxLinks [] (m.tempPath path) target.steps) with
  | .error e => (.error e, m.removeTemp faults path fs)
  | .ok ((source, place), disk) => (.ok (), ⟨disk, fs.accesses ++ [.renamed source place]⟩)

/-- Write to the temporary file, then rename it into place. -/
def writeAtomic (data : Bytes) (fs : Fs) : Except DownloadError Unit × Fs :=
  match mayFail faults.join (SyncRoot.safeJoin fs.disk m.root path.val) with
  | .error e => (.error (.join e), fs)
  | .ok target =>
    match createParent faults.dirs target fs with
    | (.error e, fs) => (.error (.createDirs e), fs)
    | (.ok (), fs) =>
      match m.writeTemp faults path data fs with
      | (.error e, fs) => (.error (.tempWrite e), fs)
      | (.ok (), fs) =>
        match m.renameTemp faults path target fs with
        | (.error e, fs) => (.error (.rename e), fs)
        | (.ok (), fs) => (.ok (), fs)

def downloadOne (received : Except String Bytes) (fs : Fs) : Except DownloadError Unit × Fs :=
  match received with
  | .error e => (.error (.receive e), fs)
  | .ok data => m.writeAtomic faults path data fs

end

section

variable (receiver : ℕ → FilePath → Except String Bytes) (faults : ℕ → StepFaults)

/-- The operation that comes after `k` others. -/
def performDownload (k : ℕ) (op : SyncOperation) (state : List FilePath × Fs) :
    List FilePath × Fs :=
  match op with
  | .download path _ _ =>
    match m.downloadOne (faults k) path (receiver k path) state.2 with
    | (.ok (), fs) => (state.1 ++ [path], fs)
    | (.error _, fs) => (state.1, fs)
  | _ => state

def downloadFrom : ℕ → List SyncOperation → List FilePath × Fs → List FilePath × Fs
  | _, [], state => state
  | k, op :: ops, state => downloadFrom (k + 1) ops (m.performDownload receiver faults k op state)

/-- It gives the paths it received, and never fails. -/
def executeDownloads (ops : List SyncOperation) (fs : Fs) : List FilePath × Fs :=
  m.downloadFrom receiver faults 0 ops ([], fs)

end

end TransferManager

/-! ### The temporary name -/

theorem length_part_le {path part : List Char} (h : part ∈ path.splitOn '/') :
    part.length ≤ path.length := by
  induction hlen : path.length using Nat.strong_induction_on generalizing path with
  | _ k ih =>
    rcases PathString.exists_lastPart path with hno | ⟨dir, name, rfl, hno⟩
    · rw [List.splitOn_eq_singleton hno, List.mem_singleton] at h
      rw [h, hlen]
    · rw [PathString.splitOn_below hno] at h
      rw [List.length_append, List.length_cons] at hlen
      rcases List.mem_append.mp h with h | h
      · have hdir := ih dir.length (by omega) h rfl
        omega
      · rw [List.mem_singleton.mp h]
        omega

/-- The names of a target are parts of its path. -/
theorem length_name_le {s : String} {target : Target} (h : safeJoin s = .ok target) {n : FileName}
    (hn : n ∈ target.path) : n.chars.length ≤ s.toList.length := by
  unfold safeJoin at h
  dsimp only at h
  split_ifs at h
  cases h
  obtain ⟨part, hpart, hname⟩ := List.mem_filterMap.mp hn
  unfold FileName.ofChars? at hname
  split_ifs at hname
  cases hname
  exact length_part_le hpart

/-- **A temporary name is no name of the target's path.** -/
theorem TransferManager.tempName_ne (m : TransferManager) {path : FilePath} {target : Target}
    (h : safeJoin path.val = .ok target) {n : FileName} (hn : n ∈ target.path) :
    m.tempName path ≠ osName n := by
  intro heq
  have hlen := congrArg List.length heq
  simp only [TransferManager.tempName, osName, osStr, List.length_map, List.length_append,
    List.length_cons] at hlen
  have hname : n.chars.length ≤ path.val.toList.length := length_name_le h hn
  omega

/-! ### What a download does -/

section

variable {root q : List OsStr} {asDir : Bool} {fs fs₁ : Fs}

theorem mayFail_ok {ε α : Type} {fails : Bool} {r : Except ε α} {x : α}
    (h : mayFail fails r = .ok x) : fails = false ∧ r = .ok x := by
  unfold mayFail at h
  split_ifs at h with hfails
  cases r with
  | error e => cases h
  | ok y =>
    cases h
    exact ⟨by simpa using hfails, rfl⟩

theorem NoLinks.prefix_ {t : Disk} {q' : List OsStr} (h : NoLinks t root q asDir) (hq : q' <+: q)
    (hne : q' ≠ q) : NoLinks t root q' false := by
  intro r hr hrq _
  refine h r hr (hrq.trans hq) fun heq => absurd ?_ hne
  exact hq.eq_of_length (Nat.le_antisymm hq.length_le (heq ▸ hrq.length_le))

/-- Whether or not it fails, making the directory of the target makes nothing
else. -/
theorem createParent_spec (hroot : fs.disk.isDir root = true) (hlinks : NoLinks fs.disk root q asDir)
    (dirs : Option ℕ) :
    let made := createParent dirs ⟨root ++ q, asDir⟩ fs
    Grown root fs made.2 ∧
      (made.1 = .ok () → ∀ q' n, q = q' ++ [n] → made.2.disk.isDir (root ++ q') = true) := by
  unfold createParent
  cases dirs with
  | none =>
    obtain ⟨hgrown, hmade⟩ := makeParent_spec hroot hlinks
    refine ⟨hgrown, fun h q' n hq => ?_⟩
    dsimp only at h
    cases hr : (makeParent ⟨root ++ q, asDir⟩ fs).1 with
    | error e =>
      rw [hr] at h
      cases h
    | ok u =>
      rcases hmade hr with ⟨hsame, hdir⟩ | ⟨q₁, n₁, hq₁, hdir, -⟩
      · dsimp only
        rw [hsame]
        exact hdir q' n hq
      · rw [hq] at hq₁
        rw [(List.append_inj' hq₁ rfl).1]
        exact hdir
  | some k =>
    dsimp only
    cases hparent : (OsPath.mk (root ++ q) asDir).parent with
    | none =>
      refine ⟨.refl root fs, fun _ q' n hq => ?_⟩
      unfold OsPath.parent at hparent
      split_ifs at hparent with hnil
      rw [hq] at hnil
      simp at hnil
    | some parent =>
      refine ⟨?_, fun h => by cases h⟩
      unfold OsPath.parent at hparent
      split_ifs at hparent with hne
      cases hparent
      dsimp only
      have hprefix : (root ++ q).dropLast.take k <+: root ++ q :=
        (List.take_prefix _ _).trans (List.dropLast_prefix _)
      rcases List.prefix_or_prefix_of_prefix hprefix (List.prefix_append root q) with habove | hbelow
      · rw [createDirAll_of_isDir (Tree.isDir_above habove hroot)]
        exact .refl root fs
      · obtain ⟨q', heq⟩ := hbelow
        rw [← heq] at hprefix ⊢
        have hq' : q' <+: q := (List.prefix_append_right_inj root).mp hprefix
        have hlen : (root ++ q').length ≤ k ∧ (root ++ q').length ≤ (root ++ q).length - 1 := by
          rw [heq, List.length_take, List.length_dropLast]
          omega
        rw [List.length_append, List.length_append] at hlen
        have hroom : 0 < (root ++ q).length := List.length_pos_iff.mpr hne
        rw [List.length_append] at hroom
        have hne' : q' ≠ q := by
          rintro rfl
          omega
        exact (createDirAll_spec hroot (hlinks.prefix_ hq' hne') (by omega)).1

/-- The download gets to its temporary file, which is opened at this place; the
directories have been made. -/
structure Opens (m : TransferManager) (faults : StepFaults) (path : FilePath)
    (received : Except String Bytes) (fs : Fs) (data : Bytes) (target : OsPath) (fs₁ : Fs)
    (place : List OsStr) : Prop where
  received : received = .ok data
  joined : mayFail faults.join (SyncRoot.safeJoin fs.disk m.root path.val) = .ok target
  made : createParent faults.dirs target fs = (.ok (), fs₁)
  opened : faults.open_ = false
  leads : fs₁.disk.walk true maxLinks [] (m.tempPath path) = .ok place
  leaf : fs₁.disk.isDir place = false

/-- After the temporary file has been written. -/
def Fs.written (fs : Fs) (place : List OsStr) (kept : Bytes) : Fs :=
  ⟨fs.disk.set place (some (.file kept)), fs.accesses ++ [.wrote place]⟩

/-- The temporary file cannot be renamed. -/
def RenameFails (faults : StepFaults) (target : OsPath) (fs : Fs) : Prop :=
  faults.rename = true ∨ target.asDir = true ∨ fs.disk.isDir target.names = true

/-- What has been done when a download ends. -/
inductive DownloadStep (m : TransferManager) (faults : StepFaults) (path : FilePath)
    (received : Except String Bytes) (fs : Fs) : Except DownloadError Unit → Fs → Prop
  | gaveUp {e : DownloadError} {fs' : Fs} (hgrown : Grown m.root fs fs') :
      DownloadStep m faults path received fs (.error e) fs'
  | cutShort {e : DownloadError} {data : Bytes} {target : OsPath} {fs' : Fs} {place : List OsStr}
      (hopens : Opens m faults path received fs data target fs' place)
      (hfits : faults.fits data = false) :
      DownloadStep m faults path received fs (.error e) (fs'.written place (faults.kept data))
  | notRenamed {e : DownloadError} {data : Bytes} {target : OsPath} {fs' fs'' : Fs}
      {place : List OsStr} (hopens : Opens m faults path received fs data target fs' place)
      (hfits : faults.fits data = true) (hblocked : RenameFails faults target fs')
      (hremoved : fs'' = m.removeTemp faults path (fs'.written place data)) :
      DownloadStep m faults path received fs (.error e) fs''
  | installed {data : Bytes} {target : OsPath} {fs' : Fs} {place source : List OsStr}
      (hopens : Opens m faults path received fs data target fs' place)
      (hfits : faults.fits data = true) (hblocked : ¬RenameFails faults target fs')
      (hsource : fs'.disk.walk false maxLinks [] (m.tempPath path) = .ok source) :
      DownloadStep m faults path received fs (.ok ())
        ⟨((fs'.written place data).disk.set source none).set target.names
          ((fs'.written place data).disk.node source),
          (fs'.written place data).accesses ++ [.renamed source target.names]⟩

variable {m : TransferManager} {faults : StepFaults} {path : FilePath} {data : Bytes}
  {received : Except String Bytes} {target : OsPath} {place source : List OsStr}

theorem Opens.spec (hroot : fs.disk.isDir m.root = true)
    (h : Opens m faults path received fs data target fs₁ place) : ∃ t : Target,
      FerriSync.safeJoin path.val = .ok t ∧ target = .join m.root t ∧
      NoLinks fs₁.disk m.root (t.path.map osName) t.asDir ∧ Grown m.root fs fs₁ ∧
      ∀ q n, t.path.map osName = q ++ [n] → fs₁.disk.isDir (m.root ++ q) = true := by
  obtain ⟨t, ht, rfl, hlinks, -⟩ := (SyncRoot.safeJoin_ok_iff hroot).mp (mayFail_ok h.joined).2
  have hmade := createParent_spec hroot hlinks faults.dirs
  rw [← join_eq, h.made] at hmade
  exact ⟨t, ht, rfl, hmade.1.noLinks hlinks, hmade.1, hmade.2 rfl⟩

/-- The place of the temporary file is in a directory, and no link. -/
theorem Opens.stands (h : Opens m faults path received fs data target fs₁ place) :
    fs₁.disk.isDir place.dropLast = true ∧ fs₁.disk.isLink place = false :=
  ⟨Tree.walk_parent fs₁.disk.isDir_top h.leads, Tree.isLink_walk fs₁.disk.isDir_top h.leads⟩

theorem Opens.node_written (h : Opens m faults path received fs data target fs₁ place) (kept : Bytes)
    (r : List OsStr) : (fs₁.written place kept).disk.node r =
      if r = place then some (.file kept) else fs₁.disk.node r :=
  Tree.node_set h.stands.1 h.leaf r

theorem Opens.isDir_written (h : Opens m faults path received fs data target fs₁ place) (kept : Bytes)
    (r : List OsStr) : (fs₁.written place kept).disk.isDir r = fs₁.disk.isDir r :=
  Tree.isDir_set h.stands.1 h.leaf (by simp) r

/-- The name of the temporary file leads to what has been written, or to a link. -/
theorem Opens.temp (h : Opens m faults path received fs data target fs₁ place) (kept : Bytes) :
    ∃ source, fs₁.disk.walk false maxLinks [] (m.tempPath path) = .ok source ∧
      (fs₁.written place kept).disk.walk false maxLinks [] (m.tempPath path) = .ok source ∧
      source.getLast? = some (m.tempName path) ∧
      (source = place ∨ fs₁.disk.isLink source = true) := by
  obtain ⟨source, hsource, hplace⟩ := Tree.walk_unfollowed h.leads
  refine ⟨source, hsource, Tree.walk_leaves (fun r => ?_) hsource, Tree.walk_last hsource, hplace⟩
  by_cases hr : r = place
  · have hnode := h.node_written kept r
    rw [if_pos hr] at hnode
    refine Or.inr ⟨⟨hr ▸ h.leaf, hr ▸ h.stands.2⟩, ?_, ?_⟩
    · rw [Tree.isDir, hnode]
    · rw [Tree.isLink, hnode]
  · have hnode := h.node_written kept r
    rw [if_neg hr] at hnode
    exact Or.inl hnode.symm

theorem Opens.temp_node (h : Opens m faults path received fs data target fs₁ place) (kept : Bytes)
    (hsource : source = place ∨ fs₁.disk.isLink source = true) :
    (fs₁.written place kept).disk.node source ≠ none ∧
      (fs₁.written place kept).disk.isDir source = false := by
  have hnode := h.node_written kept source
  rw [h.isDir_written]
  by_cases hs : source = place
  · rw [if_pos hs] at hnode
    rw [hnode, hs]
    exact ⟨by simp, h.leaf⟩
  · rw [if_neg hs] at hnode
    obtain ⟨absolute, steps, hlink⟩ := Tree.isLink_iff.mp (hsource.resolve_left hs)
    rw [hnode, Tree.isDir, hlink]
    exact ⟨by simp, rfl⟩

/-- The directory of the target is there. -/
theorem Opens.parent (hroot : fs.disk.isDir m.root = true)
    (h : Opens m faults path received fs data target fs₁ place) (q : List OsStr) (n : OsStr)
    (hq : target.names = q ++ [n]) : fs₁.disk.isDir q = true := by
  obtain ⟨t, -, rfl, -, hgrown, hparent⟩ := h.spec hroot
  rcases List.eq_nil_or_concat (t.path.map osName) with hnil | ⟨q', n', hq'⟩
  · refine Tree.isDir_above (q := m.root) ⟨[n], ?_⟩ (hgrown.isDir hroot)
    rw [← hq, join_eq, hnil, List.append_nil]
  · rw [List.concat_eq_append] at hq'
    rw [join_eq, hq', ← List.append_assoc] at hq
    rw [← (List.append_inj' hq rfl).1]
    exact hparent q' n' hq'

/-! ### The end of a download -/

/-- A temporary file that can be removed is. -/
theorem removeTemp_eq (hcleanup : faults.cleanup = false)
    (hsource : fs.disk.walk false maxLinks [] (m.tempPath path) = .ok source)
    (hnode : fs.disk.node source ≠ none) (hleaf : fs.disk.isDir source = false) :
    m.removeTemp faults path fs = ⟨fs.disk.set source none, fs.accesses ++ [.removed source]⟩ := by
  unfold TransferManager.removeTemp Tree.remove mayFail
  rw [hcleanup, if_neg (by decide), hsource]
  dsimp only
  rw [hleaf, if_neg (by decide), if_neg (by simpa using hnode)]
  rfl

theorem removeTemp_cleanup (hcleanup : faults.cleanup = true) : m.removeTemp faults path fs = fs := by
  unfold TransferManager.removeTemp mayFail
  rw [hcleanup, if_pos rfl]

/-- To a directory, or to a path that ends in a slash, nothing is renamed. -/
theorem renameTemp_blocked (hblocked : RenameFails faults target fs) :
    ∃ e, m.renameTemp faults path target fs = (.error e, m.removeTemp faults path fs) := by
  unfold TransferManager.renameTemp
  cases hrename : mayFail faults.rename
      (fs.disk.rename maxLinks [] (m.tempPath path) target.steps) with
  | error e => exact ⟨e, rfl⟩
  | ok renamed =>
    obtain ⟨hfault, hok⟩ := mayFail_ok hrename
    obtain ⟨names, asDir⟩ := target
    unfold Tree.rename at hok
    split at hok
    · cases hok
    · split_ifs at hok
      split at hok
      · cases hok
      · rename_i place hplace
        split_ifs at hok with hdir
        have hdir' : fs.disk.isDir place = true := by
          rcases hblocked with hblocked | hblocked | hblocked
          · rw [hfault] at hblocked
            cases hblocked
          · obtain rfl : asDir = true := hblocked
            exact Tree.walk_here fs.disk.isDir_top hplace
          · cases asDir with
            | true => exact Tree.walk_here fs.disk.isDir_top hplace
            | false =>
              rw [steps_plain, Tree.walk_dir hblocked] at hplace
              cases hplace
              exact hblocked
        exact absurd hdir' hdir

/-- Else the temporary file is renamed. -/
theorem renameTemp_ok (hblocked : ¬RenameFails faults target fs)
    (hsource : fs.disk.walk false maxLinks [] (m.tempPath path) = .ok source)
    (hnode : fs.disk.node source ≠ none) (hleaf : fs.disk.isDir source = false)
    (hparent : ∀ q n, target.names = q ++ [n] → fs.disk.isDir q = true) :
    m.renameTemp faults path target fs =
      (.ok (), ⟨(fs.disk.set source none).set target.names (fs.disk.node source),
        fs.accesses ++ [.renamed source target.names]⟩) := by
  obtain ⟨hfault, hplain, hdir⟩ : faults.rename = false ∧ target.asDir = false ∧
      fs.disk.isDir target.names = false := by simpa [RenameFails] using hblocked
  obtain ⟨names, asDir⟩ := target
  obtain rfl : asDir = false := hplain
  obtain ⟨q, n, rfl⟩ : ∃ q n, names = q ++ [n] := by
    rcases List.eq_nil_or_concat names with rfl | ⟨q, n, rfl⟩
    · rw [Tree.isDir_top] at hdir
      cases hdir
    · exact ⟨q, n, List.concat_eq_append⟩
  have hwalk : fs.disk.walk false maxLinks [] (OsPath.mk (q ++ [n]) false).steps = .ok (q ++ [n]) := by
    rw [steps_plain]
    exact Tree.walk_entry (hparent q n rfl) fun h => (by cases h)
  unfold TransferManager.renameTemp Tree.rename mayFail
  rw [hfault, if_neg (by decide), hsource]
  dsimp only
  rw [hleaf, if_neg (by decide), if_neg (by simpa using hnode), hwalk]
  dsimp only
  rw [hdir, if_neg (by decide)]
  rfl

theorem kept_of_fits (h : faults.fits data = true) : faults.kept data = data := by
  unfold StepFaults.fits at h
  unfold StepFaults.kept
  cases hroom : faults.room with
  | none => rfl
  | some n =>
    rw [hroom] at h
    exact List.take_of_length_le (by simpa using h)

/-- A temporary file that is opened is written, as far as there is room. -/
theorem writeTemp_opens (hopened : faults.open_ = false)
    (hleads : fs.disk.walk true maxLinks [] (m.tempPath path) = .ok place)
    (hleaf : fs.disk.isDir place = false) : m.writeTemp faults path data fs =
      (if faults.fits data then .ok () else .error none, fs.written place (faults.kept data)) := by
  unfold TransferManager.writeTemp Tree.write mayFail
  rw [hopened, if_neg (by decide), hleads]
  dsimp only
  rw [hleaf, if_neg (by decide)]
  dsimp only [Except.mapError]
  split_ifs <;> rfl

/-- One that is not is not written. -/
theorem writeTemp_cases (m : TransferManager) (faults : StepFaults) (path : FilePath) (data : Bytes)
    (fs : Fs) : (∃ e, m.writeTemp faults path data fs = (.error e, fs)) ∨
    ∃ place, faults.open_ = false ∧ fs.disk.walk true maxLinks [] (m.tempPath path) = .ok place ∧
      fs.disk.isDir place = false := by
  unfold TransferManager.writeTemp
  cases hwrite : mayFail faults.open_
      (fs.disk.write maxLinks [] (m.tempPath path) (faults.kept data)) with
  | error e => exact Or.inl ⟨e, rfl⟩
  | ok written =>
    obtain ⟨hopened, hok⟩ := mayFail_ok hwrite
    unfold Tree.write at hok
    split at hok
    · cases hok
    · rename_i place hplace
      split_ifs at hok with hdir
      exact Or.inr ⟨place, hopened, hplace, by simpa using hdir⟩

/-- Without room, the temporary file stays. -/
theorem Opens.downloadOne_cut (h : Opens m faults path received fs data target fs₁ place)
    (hfits : faults.fits data = false) : ∃ e, m.downloadOne faults path received fs =
      (.error e, fs₁.written place (faults.kept data)) := by
  refine ⟨.tempWrite none, ?_⟩
  unfold TransferManager.downloadOne
  rw [h.received]
  dsimp only
  unfold TransferManager.writeAtomic
  rw [h.joined]
  dsimp only
  rw [h.made]
  dsimp only
  rw [writeTemp_opens h.opened h.leads h.leaf, hfits, if_neg (by decide)]

/-- With room, it is renamed or not. -/
theorem Opens.downloadOne_fits (h : Opens m faults path received fs data target fs₁ place)
    (hfits : faults.fits data = true) : m.downloadOne faults path received fs =
      ((m.renameTemp faults path target (fs₁.written place data)).1.mapError .rename,
        (m.renameTemp faults path target (fs₁.written place data)).2) := by
  unfold TransferManager.downloadOne
  rw [h.received]
  dsimp only
  unfold TransferManager.writeAtomic
  rw [h.joined]
  dsimp only
  rw [h.made]
  dsimp only
  rw [writeTemp_opens h.opened h.leads h.leaf, hfits, if_pos rfl, kept_of_fits hfits]
  dsimp only
  generalize m.renameTemp faults path target (fs₁.written place data) = renamed
  obtain ⟨r, fs'⟩ := renamed
  cases r <;> rfl

theorem Opens.downloadOne_blocked (h : Opens m faults path received fs data target fs₁ place)
    (hfits : faults.fits data = true) (hblocked : RenameFails faults target fs₁) :
    ∃ e, m.downloadOne faults path received fs =
      (.error e, m.removeTemp faults path (fs₁.written place data)) := by
  have hwritten : RenameFails faults target (fs₁.written place data) := by
    unfold RenameFails
    rwa [h.isDir_written]
  obtain ⟨e, he⟩ := @renameTemp_blocked _ m faults path target hwritten
  exact ⟨.rename e, by rw [h.downloadOne_fits hfits, he]; rfl⟩

theorem Opens.downloadOne_installs (hroot : fs.disk.isDir m.root = true)
    (h : Opens m faults path received fs data target fs₁ place) (hfits : faults.fits data = true)
    (hblocked : ¬RenameFails faults target fs₁)
    (hsource : fs₁.disk.walk false maxLinks [] (m.tempPath path) = .ok source) :
    m.downloadOne faults path received fs =
      (.ok (), ⟨((fs₁.written place data).disk.set source none).set target.names
        ((fs₁.written place data).disk.node source),
        (fs₁.written place data).accesses ++ [.renamed source target.names]⟩) := by
  obtain ⟨source', hsource', hwritten, -, hplace⟩ := h.temp data
  rw [hsource] at hsource'
  cases hsource'
  obtain ⟨hnode, hleaf⟩ := h.temp_node data hplace
  have hwrittenBlocked : ¬RenameFails faults target (fs₁.written place data) := by
    unfold RenameFails
    rwa [h.isDir_written]
  have hparent : ∀ q n, target.names = q ++ [n] →
      (fs₁.written place data).disk.isDir q = true := by
    intro q n hq
    rw [h.isDir_written]
    exact h.parent hroot q n hq
  rw [h.downloadOne_fits hfits, renameTemp_ok hwrittenBlocked hwritten hnode hleaf hparent]
  rfl

/-- A download that does not get to its temporary file gives up. -/
theorem downloadOne_gaveUp (hroot : fs.disk.isDir m.root = true)
    (h : ¬∃ data target fs₁ place, Opens m faults path received fs data target fs₁ place) :
    ∃ e fs', m.downloadOne faults path received fs = (.error e, fs') ∧ Grown m.root fs fs' := by
  unfold TransferManager.downloadOne
  cases hreceived : received with
  | error e => exact ⟨_, _, rfl, .refl m.root fs⟩
  | ok data =>
    dsimp only
    unfold TransferManager.writeAtomic
    cases hjoin : mayFail faults.join (SyncRoot.safeJoin fs.disk m.root path.val) with
    | error e => exact ⟨_, _, rfl, .refl m.root fs⟩
    | ok target =>
      have hgrown : Grown m.root fs (createParent faults.dirs target fs).2 := by
        obtain ⟨t, -, rfl, hlinks, -⟩ := (SyncRoot.safeJoin_ok_iff hroot).mp (mayFail_ok hjoin).2
        exact (createParent_spec hroot hlinks faults.dirs).1
      dsimp only
      cases hmade : createParent faults.dirs target fs with
      | mk r fs₁ =>
        rw [hmade] at hgrown
        cases r with
        | error e => exact ⟨_, _, rfl, hgrown⟩
        | ok u =>
          dsimp only
          rcases writeTemp_cases m faults path data fs₁ with ⟨e, he⟩ | ⟨place, hopened, hleads, hleaf⟩
          · rw [he]
            exact ⟨_, _, rfl, hgrown⟩
          · exact absurd ⟨_, _, _, _, hreceived, hjoin, hmade, hopened, hleads, hleaf⟩ h

/-- **What a download does.** -/
theorem downloadOne_cases (m : TransferManager) (faults : StepFaults) (path : FilePath)
    (received : Except String Bytes) (hroot : fs.disk.isDir m.root = true) :
    DownloadStep m faults path received fs (m.downloadOne faults path received fs).1
      (m.downloadOne faults path received fs).2 := by
  by_cases h : ∃ data target fs₁ place, Opens m faults path received fs data target fs₁ place
  · obtain ⟨data, target, fs₁, place, hopens⟩ := h
    by_cases hfits : faults.fits data = true
    · by_cases hblocked : RenameFails faults target fs₁
      · obtain ⟨e, he⟩ := hopens.downloadOne_blocked hfits hblocked
        rw [he]
        exact .notRenamed hopens hfits hblocked rfl
      · obtain ⟨source, hsource, -⟩ := hopens.temp data
        rw [hopens.downloadOne_installs hroot hfits hblocked hsource]
        exact .installed hopens hfits hblocked hsource
    · rw [Bool.not_eq_true] at hfits
      obtain ⟨e, he⟩ := hopens.downloadOne_cut hfits
      rw [he]
      exact .cutShort hopens hfits
  · obtain ⟨e, fs', he, hgrown⟩ := downloadOne_gaveUp hroot h
    rw [he]
    exact .gaveUp hgrown

end

end FerriSync
