/-
# Downloads are all or nothing

What should hold of a run of `execute_downloads` (`AllOrNone`): it gives the
paths of the files it has renamed into place, each holds what was delivered for
it last, nothing else has changed below the root, and no temporary file is left.

It holds at every point of a run if and only if every download that opens its
temporary file is safe (`Safe`). One whose write is cut short is not: the
temporary file is removed only where it cannot be renamed (`temp_file_left`).

Key definitions: `Committed`, `AllOrNone`, `Safe`, `OperationEffect`.
Key theorems: `AllOrNone.step`, `effect_of_safe`, `free_of_allOrNothing`,
`downloads_all_or_nothing_iff`.
-/
import FerriSync.Confine
import FerriSync.TransferManager

namespace FerriSync

open FileTree

/-! ### What should hold of a run -/

/-- A download whose file has been renamed into place. -/
structure Committed where
  path : FilePath
  place : List OsStr
  data : Bytes

namespace TransferManager

variable (m : TransferManager) (receiver : ℕ → FilePath → Except String Bytes)
  (faults : ℕ → StepFaults)

/-- What an operation commits: the data delivered for it, if something has been
renamed to its target. -/
def commits (k : ℕ) (op : SyncOperation) (fs : Fs) : List Committed :=
  match op with
  | .download path _ _ =>
    match receiver k path, SyncRoot.safeJoin fs.disk m.root path.val with
    | .ok data, .ok target =>
      let after := (m.performDownload receiver faults k op ([], fs)).2
      let installed := (after.accesses.drop fs.accesses.length).any fun
        | .renamed _ place => place = target.names
        | _ => false
      if installed then [⟨path, target.names, data⟩] else []
    | _, _ => []
  | _ => []

def commitsFrom : ℕ → List SyncOperation → List FilePath × Fs → List Committed
  | _, [], _ => []
  | k, op :: ops, state => m.commits receiver faults k op state.2 ++
      commitsFrom (k + 1) ops (m.performDownload receiver faults k op state)

/-- All that a run commits, in order. -/
def committed (ops : List SyncOperation) (fs : Fs) : List Committed :=
  m.commitsFrom receiver faults 0 ops ([], fs)

end TransferManager

/-- A run from a disk has done all of some downloads, and nothing of the others. -/
structure AllOrNone (m : TransferManager) (t : Disk) (committed : List Committed)
    (run : List FilePath × Fs) : Prop where
  returned : run.1 = committed.map (·.path)
  /-- A path holds what was delivered for its place last. -/
  holds : ∀ before c after, committed = before ++ c :: after → (∀ d ∈ after, d.place ≠ c.place) →
    m.readFile c.path run.2.disk = .ok c.data
  /-- Everything else below the root is as it was, but for new directories. -/
  kept : ∀ place, m.root <+: place → (∀ c ∈ committed, c.place ≠ place) →
    run.2.disk.node place = t.node place ∨
      t.node place = none ∧ run.2.disk.isDir place = true
  /-- Where a temporary file has been written, no file stands but one that has
  been renamed there since. -/
  cleared : ∀ before place after, run.2.accesses = before ++ .wrote place :: after →
    (∃ data, run.2.disk.node place = some (.file data)) → ∃ source, .renamed source place ∈ after

def TransferManager.DownloadsAllOrNothing (m : TransferManager)
    (receiver : ℕ → FilePath → Except String Bytes) (faults : ℕ → StepFaults) (t : Disk)
    (ops : List SyncOperation) : Prop :=
  AllOrNone m t (m.committed receiver faults ops ⟨t, []⟩)
    (m.executeDownloads receiver faults ops ⟨t, []⟩)

/-- If the download opens its temporary file, there is room for its data, no link
stands for the file, nor anything that is the root's; and the file can be removed
if it cannot be renamed. -/
structure Safe (m : TransferManager) (faults : StepFaults) (path : FilePath)
    (received : Except String Bytes) (fs : Fs) : Prop where
  fits : ∀ {data target fs₁ place}, Opens m faults path received fs data target fs₁ place →
    faults.fits data = true
  noLink : ∀ {data target fs₁ place}, Opens m faults path received fs data target fs₁ place →
    fs₁.disk.isSymlink maxLinks [] (m.tempPath path) = false
  free : ∀ {data target fs₁ place}, Opens m faults path received fs data target fs₁ place →
    m.root <+: place → fs₁.disk.node place = none
  removable : ∀ {data target fs₁ place}, Opens m faults path received fs data target fs₁ place →
    RenameFails faults target fs₁ → faults.cleanup = false

/-! ### Runs -/

section

variable {m : TransferManager} {receiver : ℕ → FilePath → Except String Bytes}
  {faults : ℕ → StepFaults} {k : ℕ} {op : SyncOperation} {ops : List SyncOperation}

theorem downloadFrom_append (ops' : List SyncOperation) (state : List FilePath × Fs) :
    m.downloadFrom receiver faults k (ops ++ ops') state =
      m.downloadFrom receiver faults (k + ops.length) ops'
        (m.downloadFrom receiver faults k ops state) := by
  induction ops generalizing k state with
  | nil => rfl
  | cons op ops ih =>
    rw [List.cons_append, TransferManager.downloadFrom, ih, List.length_cons, Nat.add_right_comm,
      Nat.add_assoc]
    rfl

theorem commitsFrom_append (ops' : List SyncOperation) (state : List FilePath × Fs) :
    m.commitsFrom receiver faults k (ops ++ ops') state =
      m.commitsFrom receiver faults k ops state ++
        m.commitsFrom receiver faults (k + ops.length) ops'
          (m.downloadFrom receiver faults k ops state) := by
  induction ops generalizing k state with
  | nil => rfl
  | cons op ops ih =>
    rw [List.cons_append, TransferManager.commitsFrom, ih, List.length_cons, Nat.add_right_comm,
      Nat.add_assoc, ← List.append_assoc]
    rfl

theorem executeDownloads_concat (fs : Fs) :
    m.executeDownloads receiver faults (ops ++ [op]) fs =
      m.performDownload receiver faults ops.length op
        (m.executeDownloads receiver faults ops fs) := by
  unfold TransferManager.executeDownloads
  rw [downloadFrom_append, Nat.zero_add]
  rfl

theorem committed_concat (fs : Fs) : m.committed receiver faults (ops ++ [op]) fs =
    m.committed receiver faults ops fs ++ m.commits receiver faults ops.length op
      (m.executeDownloads receiver faults ops fs).2 := by
  unfold TransferManager.committed
  rw [commitsFrom_append, Nat.zero_add]
  exact congrArg _ (List.append_nil _)

/-! ### What is read and committed -/

variable {fs fs₁ fs' : Fs} {t : Disk} {path : FilePath} {data : Bytes}

theorem safeJoin_names {root : List OsStr} {s : String} {p : OsPath}
    (h : SyncRoot.safeJoin t root s = .ok p) :
    ∃ target, FerriSync.safeJoin s = .ok target ∧ p = .join root target := by
  unfold SyncRoot.safeJoin at h
  cases hs : FerriSync.safeJoin s with
  | error e =>
    rw [hs] at h
    cases h
  | ok target =>
    rw [hs] at h
    dsimp only at h
    split at h
    · cases h
    · split at h
      · cases h
      · split_ifs at h
        cases h
        exact ⟨target, rfl, rfl⟩

theorem read_of_file {p : List OsStr} (hnode : t.node p = some (.file data)) :
    t.read maxLinks [] (OsPath.mk p false).steps = .ok (p, data) := by
  obtain ⟨dir, n, rfl⟩ : ∃ dir n, p = dir ++ [n] := by
    rcases List.eq_nil_or_concat p with rfl | ⟨dir, n, rfl⟩
    · rw [t.top] at hnode
      cases hnode
    · exact ⟨dir, n, List.concat_eq_append⟩
  have hdir : t.isDir dir = true := Tree.isDir_concat (by rw [hnode]; simp)
  have hwalk : t.walk true maxLinks [] (OsPath.mk (dir ++ [n]) false).steps = .ok (dir ++ [n]) := by
    rw [steps_plain]
    exact Tree.walk_entry hdir fun _ => by rw [Tree.isLink, hnode]
  unfold Tree.read
  rw [hwalk]
  dsimp only
  rw [hnode]

/-- **A path is read where its components lead.** -/
theorem readFile_eq_ok_iff (hroot : t.isDir m.root = true) : m.readFile path t = .ok data ↔
    ∃ target, FerriSync.safeJoin path.val = .ok target ∧ target.asDir = false ∧
      t.node (m.root ++ target.path.map osName) = some (.file data) := by
  unfold TransferManager.readFile
  constructor
  · intro h
    split at h
    · cases h
    · rename_i full hjoin
      obtain ⟨target, hs, rfl, hlinks, -⟩ := (SyncRoot.safeJoin_ok_iff hroot).mp hjoin
      split at h
      · cases h
      · rename_i place data' hread
        cases h
        obtain ⟨hplain, -, -, hnode⟩ := read_place hroot hlinks hread
        exact ⟨target, hs, hplain, hnode⟩
  · rintro ⟨⟨q, asDir⟩, hs, hplain, hnode⟩
    obtain rfl : asDir = false := hplain
    have hlinks : NoLinks t m.root (q.map osName) false := noLinks_of_file hnode
    have hjoin : SyncRoot.safeJoin t m.root path.val = .ok (.join m.root ⟨q, false⟩) := by
      refine (SyncRoot.safeJoin_ok_iff hroot).mpr ⟨_, hs, rfl, hlinks, fun d hd => ?_⟩
      rw [canonicalize_lexical hroot hlinks hd]
      exact List.prefix_append _ _
    rw [hjoin]
    dsimp only
    rw [join_eq, read_of_file hnode]

/-- A committed place is where its path leads. -/
theorem place_of_mem_commits {c : Committed} (hc : c ∈ m.commits receiver faults k op fs) :
    ∃ target, FerriSync.safeJoin c.path.val = .ok target ∧
      c.place = m.root ++ target.path.map osName := by
  unfold TransferManager.commits at hc
  split at hc
  · split at hc
    · rename_i hjoin
      dsimp only at hc
      split_ifs at hc
      · rw [List.mem_singleton.mp hc]
        obtain ⟨target, hs, rfl⟩ := safeJoin_names hjoin
        exact ⟨target, hs, rfl⟩
      · cases hc
    · cases hc
  · cases hc

theorem place_of_mem_committed {c : Committed} (hc : c ∈ m.committed receiver faults ops fs) :
    ∃ target, FerriSync.safeJoin c.path.val = .ok target ∧
      c.place = m.root ++ target.path.map osName := by
  induction ops using List.reverseRecOn with
  | nil => cases hc
  | append_singleton ops op ih =>
    rw [committed_concat, List.mem_append] at hc
    exact hc.elim ih place_of_mem_commits

/-! ### What one operation commits -/

variable {target : OsPath} {place source : List OsStr} {version : FileVersion} {size : ℕ}

theorem Fs.Since.drop {may : Access → Prop} (h : fs.Since may fs') :
    ∀ a ∈ fs'.accesses.drop fs.accesses.length, may a := by
  obtain ⟨done, hdone, hmay⟩ := h
  rw [hdone, List.drop_left]
  exact hmay

def Access.isRenamed : Access → Bool
  | .renamed _ _ => true
  | _ => false

theorem performDownload_snd (state : List FilePath × Fs) :
    (m.performDownload receiver faults k (.download path version size) state).2 =
      (m.downloadOne (faults k) path (receiver k path) state.2).2 := by
  unfold TransferManager.performDownload
  dsimp only
  generalize m.downloadOne (faults k) path (receiver k path) state.2 = downloaded
  obtain ⟨r, fs'⟩ := downloaded
  cases r <;> rfl

theorem performDownload_fst (state : List FilePath × Fs) :
    (m.performDownload receiver faults k (.download path version size) state).1 = state.1 ++
      (if (m.downloadOne (faults k) path (receiver k path) state.2).1.isOk then [path] else []) := by
  unfold TransferManager.performDownload
  dsimp only
  generalize m.downloadOne (faults k) path (receiver k path) state.2 = downloaded
  obtain ⟨r, fs'⟩ := downloaded
  cases r with
  | error e => exact (List.append_nil _).symm
  | ok u => rfl

/-- Where nothing has been renamed, nothing is committed. -/
theorem commits_eq_nil (h : fs.Since (fun a => a.isRenamed = false)
    (m.downloadOne (faults k) path (receiver k path) fs).2) :
    m.commits receiver faults k (.download path version size) fs = [] := by
  unfold TransferManager.commits
  dsimp only
  split
  · rw [performDownload_snd, if_neg]
    rw [List.any_eq_true]
    rintro ⟨a, ha, htarget⟩
    have hrenamed := h.drop a ha
    cases a <;> simp_all [Access.isRenamed]
  · rfl

theorem commits_installed (hopens : Opens m (faults k) path (receiver k path) fs data target fs₁ place)
    {may : Access → Prop} (h : fs.Since may fs')
    (hinstalled : (m.downloadOne (faults k) path (receiver k path) fs).2.accesses =
      fs'.accesses ++ [.renamed source target.names]) :
    m.commits receiver faults k (.download path version size) fs = [⟨path, target.names, data⟩] := by
  unfold TransferManager.commits
  dsimp only
  rw [hopens.received, (mayFail_ok hopens.joined).2]
  dsimp only
  obtain ⟨done, hdone, -⟩ := h
  rw [performDownload_snd, hinstalled, hdone, List.append_assoc, List.drop_left, if_pos (by simp)]

/-- Writing the temporary file is all that has been done but for directories. -/
theorem Opens.since (hroot : fs.disk.isDir m.root = true) {received : Except String Bytes}
    {fault : StepFaults} (h : Opens m fault path received fs data target fs₁ place) (kept : Bytes) :
    fs.Since (fun a => a.isRenamed = false) (fs₁.written place kept) := by
  obtain ⟨t, -, -, -, hgrown, -⟩ := h.spec hroot
  have hmade : fs.Since (fun a => a.isRenamed = false) fs₁ :=
    hgrown.accesses.imp fun a ⟨r, ha⟩ => by rw [ha]; rfl
  exact hmade.concat rfl _

theorem Fs.Since.removeTemp {fault : StepFaults} (h : fs.Since (fun a => a.isRenamed = false) fs') :
    fs.Since (fun a => a.isRenamed = false) (m.removeTemp fault path fs') := by
  unfold TransferManager.removeTemp
  split
  · exact h
  · exact h.concat rfl _

/-- What is returned is what has been committed. -/
theorem performDownload_returned (hroot : fs.disk.isDir m.root = true) (paths : List FilePath) :
    (m.performDownload receiver faults k op (paths, fs)).1 =
      paths ++ (m.commits receiver faults k op fs).map (·.path) := by
  cases op with
  | download path version size =>
    rw [performDownload_fst]
    congr 1
    dsimp only
    have hstep := downloadOne_cases m (faults k) path (receiver k path) hroot
    cases hdone : m.downloadOne (faults k) path (receiver k path) fs with
    | mk r fs' =>
      rw [hdone] at hstep
      cases hstep with
      | gaveUp hgrown =>
        rw [commits_eq_nil]
        · rfl
        · rw [hdone]
          exact hgrown.accesses.imp fun a ⟨r, ha⟩ => by rw [ha]; rfl
      | cutShort hopens hfits =>
        rw [commits_eq_nil]
        · rfl
        · rw [hdone]
          exact hopens.since hroot _
      | notRenamed hopens hfits hblocked hremoved =>
        rw [commits_eq_nil]
        · rfl
        · rw [hdone, hremoved]
          exact (hopens.since hroot _).removeTemp
      | installed hopens hfits hblocked hsource =>
        rw [commits_installed hopens (hopens.since hroot _) (by rw [hdone])]
        rfl
  | _ => exact (List.append_nil _).symm

theorem performDownload_eq_downloadOne (state : List FilePath × Fs) :
    m.performDownload receiver faults k (.download path version size) state =
      ((m.performDownload receiver faults k (.download path version size) state).1,
        (m.downloadOne (faults k) path (receiver k path) state.2).2) :=
  Prod.ext rfl (performDownload_snd state)

theorem performDownload_eq_commits {state : List FilePath × Fs}
    (hroot : state.2.disk.isDir m.root = true) : m.performDownload receiver faults k op state =
      (state.1 ++ (m.commits receiver faults k op state.2).map (·.path),
        (m.performDownload receiver faults k op state).2) :=
  Prod.ext (performDownload_returned hroot state.1) rfl

/-- No directory is lost. -/
theorem DownloadStep.isDir {fault : StepFaults} {received : Except String Bytes}
    {r : Except DownloadError Unit} (h : DownloadStep m fault path received fs r fs')
    (hroot : fs.disk.isDir m.root = true) {p : List OsStr} (hp : fs.disk.isDir p = true) :
    fs'.disk.isDir p = true := by
  have hwritten : ∀ {data target fs₁ place}, Opens m fault path received fs data target fs₁ place →
      ∀ kept, (fs₁.written place kept).disk.isDir p = true := by
    intro data target fs₁ place hopens kept
    obtain ⟨t, -, -, -, hgrown, -⟩ := hopens.spec hroot
    rw [hopens.isDir_written]
    exact hgrown.isDir hp
  cases h with
  | gaveUp hgrown => exact hgrown.isDir hp
  | cutShort hopens hfits => exact hwritten hopens _
  | notRenamed hopens hfits hblocked hremoved =>
    rw [hremoved]
    unfold TransferManager.removeTemp
    split
    · exact hwritten hopens _
    · rename_i place disk hremove
      have hok := (mayFail_ok hremove).2
      unfold Tree.remove at hok
      split at hok
      · cases hok
      · split_ifs at hok
        cases hok
        exact Tree.isDir_set_of_isDir (hwritten hopens _)
  | installed hopens hfits hblocked hsource =>
    exact Tree.isDir_set_of_isDir (Tree.isDir_set_of_isDir (hwritten hopens _))

theorem performDownload_isDir (hroot : fs.disk.isDir m.root = true) (paths : List FilePath)
    {p : List OsStr} (hp : fs.disk.isDir p = true) :
    (m.performDownload receiver faults k op (paths, fs)).2.disk.isDir p = true := by
  cases op with
  | download path version size =>
    rw [performDownload_snd]
    exact (downloadOne_cases m (faults k) path (receiver k path) hroot).isDir hroot hp
  | _ => exact hp

theorem isDir_root (hroot : fs.disk.isDir m.root = true) (ops : List SyncOperation) :
    (m.executeDownloads receiver faults ops fs).2.disk.isDir m.root = true := by
  induction ops using List.reverseRecOn with
  | nil => exact hroot
  | append_singleton ops op ih =>
    rw [executeDownloads_concat]
    exact performDownload_isDir ih _ ih

/-! ### Safe downloads -/

/-- What an operation may do to the file system when it commits this. -/
structure OperationEffect (m : TransferManager) (fs fs' : Fs) (done : List Committed) : Prop where
  holds : ∀ before c after, done = before ++ c :: after → (∀ d ∈ after, d.place ≠ c.place) →
    m.readFile c.path fs'.disk = .ok c.data
  kept : ∀ place, m.root <+: place → (∀ c ∈ done, c.place ≠ place) →
    fs'.disk.node place = fs.disk.node place ∨
      fs.disk.node place = none ∧ fs'.disk.isDir place = true
  accesses : ∃ new, fs'.accesses = fs.accesses ++ new ∧
    (∀ place, .wrote place ∈ new → ∀ data, fs'.disk.node place ≠ some (.file data)) ∧
    ∀ place data, fs'.disk.node place = some (.file data) →
      fs.disk.node place = some (.file data) ∨ ∃ source, .renamed source place ∈ new

/-- A file that has been committed stands at its place. -/
theorem node_of_readFile (hroot : t.isDir m.root = true) {c : Committed}
    (hplace : ∃ target, FerriSync.safeJoin c.path.val = .ok target ∧
      c.place = m.root ++ target.path.map osName) (h : m.readFile c.path t = .ok c.data) :
    t.node c.place = some (.file c.data) := by
  obtain ⟨target, hs, hc⟩ := hplace
  obtain ⟨target', hs', -, hnode⟩ := (readFile_eq_ok_iff hroot).mp h
  rw [hs] at hs'
  cases hs'
  rw [hc]
  exact hnode

theorem readFile_of_node {t' : Disk} (hroot : t.isDir m.root = true) (hroot' : t'.isDir m.root = true)
    {c : Committed} (hplace : ∃ target, FerriSync.safeJoin c.path.val = .ok target ∧
      c.place = m.root ++ target.path.map osName) (h : m.readFile c.path t = .ok c.data)
    (hnode : t'.node c.place = t.node c.place) : m.readFile c.path t' = .ok c.data := by
  obtain ⟨target, hs, hc⟩ := hplace
  obtain ⟨target', hs', hplain, hfile⟩ := (readFile_eq_ok_iff hroot).mp h
  rw [hs] at hs'
  cases hs'
  rw [hc, hfile] at hnode
  exact (readFile_eq_ok_iff hroot').mpr ⟨target, hs, hplain, hnode⟩

/-- **What an operation may do keeps a run all or nothing.** -/
theorem AllOrNone.step {history done : List Committed} {paths : List FilePath}
    (hplaces : ∀ c ∈ history, ∃ target, FerriSync.safeJoin c.path.val = .ok target ∧
      c.place = m.root ++ target.path.map osName)
    (hroot : fs.disk.isDir m.root = true) (hroot' : fs'.disk.isDir m.root = true)
    (h : AllOrNone m t history (paths, fs)) (heffect : OperationEffect m fs fs' done) :
    AllOrNone m t (history ++ done) (paths ++ done.map (·.path), fs') where
  returned := by
    rw [List.map_append, ← h.returned]
  holds before c after heq hlast := by
    rcases List.append_eq_append_iff.mp heq with ⟨mid, hmid, hdone⟩ | ⟨mid, hhistory, hmid⟩
    · exact heffect.holds mid c after hdone hlast
    · cases mid with
      | nil =>
        rw [List.nil_append] at hmid
        exact heffect.holds [] c after hmid.symm hlast
      | cons d mid =>
        obtain ⟨rfl, rfl⟩ := List.cons.inj hmid
        have hc : c ∈ history := by
          rw [hhistory]
          simp
        have hread : m.readFile c.path fs.disk = .ok c.data :=
          h.holds before c mid hhistory fun d hd => hlast d (List.mem_append_left _ hd)
        have hfile := node_of_readFile hroot (hplaces c hc) hread
        obtain ⟨target, -, hplace⟩ := hplaces c hc
        have hbelow : m.root <+: c.place := hplace ▸ List.prefix_append _ _
        rcases heffect.kept c.place hbelow fun d hd => hlast d (List.mem_append_right _ hd) with
          hsame | ⟨hnone, -⟩
        · exact readFile_of_node hroot hroot' (hplaces c hc) hread hsame
        · rw [hnone] at hfile
          cases hfile
  kept place hbelow hother := by
    have hold := h.kept place hbelow fun c hc => hother c (List.mem_append_left _ hc)
    have hnew := heffect.kept place hbelow fun c hc => hother c (List.mem_append_right _ hc)
    dsimp only at hold ⊢
    rcases hold with hsame | ⟨hnone, hdir⟩
    · rwa [← hsame]
    · rcases hnew with hsame | ⟨hnone', -⟩
      · exact Or.inr ⟨hnone, by rwa [Tree.isDir, hsame]⟩
      · rw [Tree.isDir, hnone'] at hdir
        cases hdir
  cleared before place after heq hfile := by
    obtain ⟨new, hnew, hwrote, hrenamed⟩ := heffect.accesses
    dsimp only at heq hfile
    rw [hnew] at heq
    obtain ⟨data, hdata⟩ := hfile
    rcases List.append_eq_append_iff.mp heq with ⟨mid, hmid, hnew'⟩ | ⟨mid, hfs, hmid⟩
    · exact absurd hdata (hwrote place (by rw [hnew']; simp) data)
    · cases mid with
      | nil =>
        rw [List.nil_append] at hmid
        exact absurd hdata (hwrote place (by rw [← hmid]; simp) data)
      | cons a mid =>
        obtain ⟨rfl, rfl⟩ := List.cons.inj hmid
        rcases hrenamed place data hdata with hold | ⟨source, hsource⟩
        · obtain ⟨source, hsource⟩ := h.cleared before place mid hfs ⟨data, hold⟩
          exact ⟨source, List.mem_append_left _ hsource⟩
        · exact ⟨source, List.mem_append_right _ hsource⟩

/-! #### What a safe download does -/

variable {fault : StepFaults} {received : Except String Bytes} {r : List OsStr}

/-- No file comes from making directories. -/
theorem Grown.file {root p : List OsStr} (hgrown : Grown root fs fs')
    (hfile : fs'.disk.node p = some (.file data)) : fs.disk.node p = some (.file data) := by
  rcases hgrown.node p with hsame | ⟨-, hdir⟩
  · rw [hsame, hfile]
  · rw [Tree.isDir, hfile] at hdir
    cases hdir

theorem OperationEffect.of_grown (hgrown : Grown m.root fs fs') : OperationEffect m fs fs' [] where
  holds before c after heq := by simp at heq
  kept place _ _ := by
    rcases hgrown.node place with hsame | hmade
    · exact Or.inl hsame.symm
    · exact Or.inr hmade
  accesses := by
    obtain ⟨new, hnew, hmade⟩ := hgrown.accesses
    refine ⟨new, hnew, fun place hwrote => ?_, fun place data hfile => Or.inl (hgrown.file hfile)⟩
    obtain ⟨r, hr⟩ := hmade _ hwrote
    cases hr

/-- Without a link, the temporary file is where its name leads. -/
theorem Opens.source_eq (h : Opens m fault path received fs data target fs₁ place)
    (hlink : fs₁.disk.isSymlink maxLinks [] (m.tempPath path) = false)
    (hsource : fs₁.disk.walk false maxLinks [] (m.tempPath path) = .ok source) : source = place := by
  obtain ⟨source', hsource', -, -, hplace⟩ := h.temp data
  rw [hsource] at hsource'
  cases hsource'
  refine hplace.resolve_right fun hlinked => ?_
  rw [Tree.isSymlink, hsource] at hlink
  dsimp only at hlink
  rw [hlink] at hlinked
  cases hlinked

/-- The temporary file is not at the target. -/
theorem Opens.place_ne (hroot : fs.disk.isDir m.root = true)
    (h : Opens m fault path received fs data target fs₁ place)
    (hlink : fs₁.disk.isSymlink maxLinks [] (m.tempPath path) = false) : place ≠ target.names := by
  obtain ⟨source, hsource, -, hlast, -⟩ := h.temp data
  rw [h.source_eq hlink hsource] at hlast
  obtain ⟨t, ht, rfl, -, hgrown, -⟩ := h.spec hroot
  intro heq
  rw [join_eq] at heq
  dsimp only at heq
  rcases List.eq_nil_or_concat t.path with hnil | ⟨q, n, hq⟩
  · rw [hnil, List.map_nil, List.append_nil] at heq
    have hleaf := h.leaf
    rw [heq, hgrown.isDir hroot] at hleaf
    cases hleaf
  · rw [hq, List.concat_eq_append, List.map_append, List.map_singleton, ← List.append_assoc] at heq
    rw [heq, List.getLast?_concat] at hlast
    refine m.tempName_ne ht (n := n) ?_ (Option.some.inj hlast).symm
    rw [hq, List.concat_eq_append]
    simp

theorem Opens.node_removed (h : Opens m fault path received fs data target fs₁ place) :
    ((fs₁.written place data).disk.set place none).node r =
      if r = place then none else fs₁.disk.node r := by
  have hparent : (fs₁.written place data).disk.isDir place.dropLast = true := by
    rw [h.isDir_written]
    exact h.stands.1
  have hleaf : (fs₁.written place data).disk.isDir place = false := by
    rw [h.isDir_written]
    exact h.leaf
  rw [Tree.node_set hparent hleaf]
  by_cases hr : r = place
  · rw [if_pos hr, if_pos hr]
  · rw [if_neg hr, if_neg hr, h.node_written, if_neg hr]

theorem Opens.node_renamed (hroot : fs.disk.isDir m.root = true)
    (h : Opens m fault path received fs data target fs₁ place)
    (hblocked : ¬RenameFails fault target fs₁)
    (hparent : (fs₁.written place data).disk.isDir source.dropLast = true)
    (hleaf : (fs₁.written place data).disk.isDir source = false) :
    (((fs₁.written place data).disk.set source none).set target.names
      ((fs₁.written place data).disk.node source)).node r =
        if r = target.names then (fs₁.written place data).disk.node source
        else if r = source then none else (fs₁.written place data).disk.node r := by
  have hdir : fs₁.disk.isDir target.names = false := by
    by_contra hdir
    exact hblocked (Or.inr (Or.inr (by simpa using hdir)))
  obtain ⟨q, n, hq⟩ : ∃ q n, target.names = q ++ [n] := by
    rcases List.eq_nil_or_concat target.names with hnil | ⟨q, n, hq⟩
    · rw [hnil, Tree.isDir_top] at hdir
      cases hdir
    · exact ⟨q, n, hq.trans List.concat_eq_append⟩
  have htarget : fs₁.disk.isDir target.names.dropLast = true := by
    rw [hq, List.dropLast_concat]
    exact h.parent hroot q n hq
  rw [← h.isDir_written data] at hdir htarget
  exact node_rename hparent hleaf htarget hdir r

theorem Opens.node_installed (hroot : fs.disk.isDir m.root = true)
    (h : Opens m fault path received fs data target fs₁ place)
    (hblocked : ¬RenameFails fault target fs₁) :
    (((fs₁.written place data).disk.set place none).set target.names
      ((fs₁.written place data).disk.node place)).node r =
        if r = target.names then some (.file data) else if r = place then none
        else fs₁.disk.node r := by
  rw [h.node_renamed hroot hblocked (by rw [h.isDir_written]; exact h.stands.1)
    (by rw [h.isDir_written]; exact h.leaf), h.node_written, if_pos rfl]
  by_cases hr : r = place
  · rw [if_pos hr, if_pos hr]
  · rw [if_neg hr, if_neg hr, h.node_written, if_neg hr]

/-- What has been written is the temporary file. -/
theorem Opens.accesses (hroot : fs.disk.isDir m.root = true)
    (h : Opens m fault path received fs data target fs₁ place) (kept : Bytes) :
    ∃ made, (fs₁.written place kept).accesses = fs.accesses ++ (made ++ [.wrote place]) ∧
      ∀ p, .wrote p ∉ made := by
  obtain ⟨t, -, -, -, hgrown, -⟩ := h.spec hroot
  obtain ⟨made, hmade, honly⟩ := hgrown.accesses
  refine ⟨made, ?_, fun p hp => ?_⟩
  · rw [← List.append_assoc, ← hmade]
    rfl
  · obtain ⟨r, hr⟩ := honly _ hp
    cases hr

theorem OperationEffect.of_removed (hroot : fs.disk.isDir m.root = true)
    (h : Opens m fault path received fs data target fs₁ place)
    (hfree : m.root <+: place → fs₁.disk.node place = none) :
    OperationEffect m fs ⟨(fs₁.written place data).disk.set place none,
      (fs₁.written place data).accesses ++ [.removed place]⟩ [] := by
  obtain ⟨t, -, -, -, hgrown, -⟩ := h.spec hroot
  have heffect := OperationEffect.of_grown hgrown
  have hbelow : ∀ r, m.root <+: r →
      ((fs₁.written place data).disk.set place none).node r = fs₁.disk.node r := by
    intro r hr
    rw [h.node_removed]
    by_cases hplace : r = place
    · rw [if_pos hplace, hplace, hfree (hplace ▸ hr)]
    · rw [if_neg hplace]
  refine ⟨fun before c after heq => by simp at heq, fun r hr hother => ?_, ?_⟩
  · dsimp only
    rw [Tree.isDir, hbelow r hr]
    exact heffect.kept r hr hother
  · obtain ⟨made, hmade, hno⟩ := h.accesses hroot data
    refine ⟨made ++ [.wrote place] ++ [.removed place], ?_, fun p hwrote file => ?_,
      fun p file hfile => Or.inl ?_⟩
    · rw [hmade, List.append_assoc]
    · have hp : p = place := by simpa [hno] using hwrote
      rw [h.node_removed, if_pos hp]
      simp
    · rw [h.node_removed] at hfile
      split_ifs at hfile
      exact hgrown.file hfile

theorem OperationEffect.of_installed (hroot : fs.disk.isDir m.root = true)
    (h : Opens m fault path received fs data target fs₁ place)
    (hlink : fs₁.disk.isSymlink maxLinks [] (m.tempPath path) = false)
    (hfree : m.root <+: place → fs₁.disk.node place = none) (hblocked : ¬RenameFails fault target fs₁) :
    OperationEffect m fs ⟨((fs₁.written place data).disk.set place none).set target.names
        ((fs₁.written place data).disk.node place),
      (fs₁.written place data).accesses ++ [.renamed place target.names]⟩
      [⟨path, target.names, data⟩] := by
  obtain ⟨t, ht, rfl, -, hgrown, -⟩ := h.spec hroot
  have heffect := OperationEffect.of_grown hgrown
  have hne : place ≠ (OsPath.join m.root t).names := h.place_ne hroot hlink
  have hother : ∀ r, m.root <+: r → (OsPath.join m.root t).names ≠ r →
      (((fs₁.written place data).disk.set place none).set (OsPath.join m.root t).names
        ((fs₁.written place data).disk.node place)).node r = fs₁.disk.node r := by
    intro r hr htarget
    rw [h.node_installed hroot hblocked, if_neg htarget.symm]
    by_cases hplace : r = place
    · rw [if_pos hplace, hplace, hfree (hplace ▸ hr)]
    · rw [if_neg hplace]
  refine ⟨fun before c after heq _ => ?_, fun r hr hnot => ?_, ?_⟩
  · obtain rfl : c = ⟨path, (OsPath.join m.root t).names, data⟩ := by
      have hc : c ∈ [⟨path, (OsPath.join m.root t).names, data⟩] := by
        rw [heq]
        simp
      exact List.mem_singleton.mp hc
    have hplain : t.asDir = false := by
      by_contra hasDir
      rw [Bool.not_eq_false] at hasDir
      exact hblocked (Or.inr (Or.inl hasDir))
    refine (readFile_eq_ok_iff ?_).mpr ⟨t, ht, hplain, ?_⟩
    · exact Tree.isDir_set_of_isDir (Tree.isDir_set_of_isDir
        (by rw [h.isDir_written]; exact hgrown.isDir hroot))
    · exact (h.node_installed hroot hblocked).trans (if_pos rfl)
  · dsimp only
    have htarget := hnot _ (List.mem_singleton_self _)
    rw [Tree.isDir, hother r hr htarget]
    exact heffect.kept r hr fun c hc => by cases hc
  · obtain ⟨made, hmade, hno⟩ := h.accesses hroot data
    refine ⟨made ++ [.wrote place] ++ [.renamed place (OsPath.join m.root t).names], ?_,
      fun p hwrote file => ?_, fun p file hfile => ?_⟩
    · rw [hmade, List.append_assoc]
    · have hp : p = place := by simpa [hno] using hwrote
      rw [h.node_installed hroot hblocked, if_neg (hp ▸ hne), if_pos hp]
      simp
    · rw [h.node_installed hroot hblocked] at hfile
      split_ifs at hfile with htarget
      · exact Or.inr ⟨place, by rw [htarget]; simp⟩
      · exact Or.inl (hgrown.file hfile)

/-- **A safe download does all or nothing.** -/
theorem effect_of_safe (hroot : fs.disk.isDir m.root = true)
    (hsafe : Safe m (faults k) path (receiver k path) fs) (paths : List FilePath) :
    OperationEffect m fs (m.performDownload receiver faults k (.download path version size) (paths, fs)).2
      (m.commits receiver faults k (.download path version size) fs) := by
  rw [performDownload_snd]
  have hstep := downloadOne_cases m (faults k) path (receiver k path) hroot
  cases hdone : m.downloadOne (faults k) path (receiver k path) fs with
  | mk r fs' =>
    rw [hdone] at hstep
    cases hstep with
    | gaveUp hgrown =>
      rw [commits_eq_nil]
      · exact .of_grown hgrown
      · rw [hdone]
        exact hgrown.accesses.imp fun a ⟨r, ha⟩ => by rw [ha]; rfl
    | cutShort hopens hfits =>
      rw [hsafe.fits hopens] at hfits
      cases hfits
    | @notRenamed _ data target fs₁ fs' place hopens hfits hblocked hremoved =>
      obtain ⟨source, hsource, hwritten, -, hplace⟩ := hopens.temp data
      obtain ⟨hnode, hleaf⟩ := hopens.temp_node data hplace
      obtain rfl : source = place := hopens.source_eq (hsafe.noLink hopens) hsource
      rw [commits_eq_nil]
      · rw [hremoved, removeTemp_eq (hsafe.removable hopens hblocked) hwritten hnode hleaf]
        exact .of_removed hroot hopens (hsafe.free hopens)
      · rw [hdone, hremoved]
        exact (hopens.since hroot _).removeTemp
    | installed hopens hfits hblocked hsource =>
      cases hopens.source_eq (hsafe.noLink hopens) hsource
      rw [commits_installed hopens (hopens.since hroot _) (by rw [hdone])]
      exact .of_installed hroot hopens (hsafe.noLink hopens) (hsafe.free hopens) hblocked

/-! ### All or nothing means safe -/

/-- A temporary file that stays is not cleared. -/
theorem AllOrNone.not_written {history : List Committed} {paths : List FilePath} {kept : Bytes}
    (h : AllOrNone m t history (paths, fs)) (hfile : fs.disk.node place = some (.file kept))
    (before after : List Access) (hafter : ∀ a ∈ after, a.isRenamed = false) :
    fs.accesses ≠ before ++ .wrote place :: after := by
  intro haccesses
  obtain ⟨source, hsource⟩ := h.cleared before place after haccesses ⟨kept, hfile⟩
  cases hafter _ hsource

theorem exists_last {α : Type} {p : α → Prop} {xs : List α} (h : ∃ x ∈ xs, p x) :
    ∃ before x after, xs = before ++ x :: after ∧ p x ∧ ∀ y ∈ after, ¬p y := by
  induction xs with
  | nil =>
    obtain ⟨x, hx, -⟩ := h
    cases hx
  | cons a xs ih =>
    by_cases hxs : ∃ x ∈ xs, p x
    · obtain ⟨before, x, after, rfl, hx, hafter⟩ := ih hxs
      exact ⟨a :: before, x, after, rfl, hx, hafter⟩
    · obtain ⟨x, hx, hpx⟩ := h
      rcases List.mem_cons.mp hx with rfl | hx
      · exact ⟨[], x, xs, rfl, hpx, fun y hy hpy => hxs ⟨y, hy, hpy⟩⟩
      · exact absurd ⟨x, hx, hpx⟩ hxs

/-- A file below the root is not removed. -/
theorem AllOrNone.not_removed {history done : List Committed} {paths paths' : List FilePath}
    (hplaces : ∀ c ∈ history, ∃ target, FerriSync.safeJoin c.path.val = .ok target ∧
      c.place = m.root ++ target.path.map osName) (hroot' : fs'.disk.isDir m.root = true)
    (h : AllOrNone m t history (paths, fs))
    (h' : AllOrNone m t (history ++ done) (paths', fs')) (hbelow : m.root <+: place)
    (hdone : ∀ c ∈ done, c.place ≠ place) (hfile : fs.disk.node place = some (.file data)) :
    fs'.disk.node place ≠ none := by
  intro hnone
  by_cases hcommitted : ∃ c ∈ history, c.place = place
  · obtain ⟨before, c, after, rfl, rfl, hafter⟩ := exists_last hcommitted
    have hread : m.readFile c.path fs'.disk = .ok c.data := by
      refine h'.holds before c (after ++ done) (by simp) fun d hd => ?_
      exact (List.mem_append.mp hd).elim (hafter d) (hdone d)
    have hnode := node_of_readFile hroot' (hplaces c (by simp)) hread
    rw [hnone] at hnode
    cases hnode
  · have hother : ∀ c ∈ history, c.place ≠ place := fun c hc hplace => hcommitted ⟨c, hc, hplace⟩
    have hstart : t.node place = some (.file data) := by
      rcases h.kept place hbelow hother with hsame | ⟨-, hdir⟩
      · exact hsame ▸ hfile
      · dsimp only at hdir
        rw [Tree.isDir, hfile] at hdir
        cases hdir
    rcases h'.kept place hbelow fun c hc => (List.mem_append.mp hc).elim (hother c) (hdone c) with
      hsame | ⟨hnone', -⟩
    · dsimp only at hsame
      rw [hnone, hstart] at hsame
      cases hsame
    · rw [hstart] at hnone'
      cases hnone'

section

variable {history : List Committed} {paths paths' : List FilePath}
  (hroot : fs.disk.isDir m.root = true)
  (hafter : AllOrNone m t
    (history ++ m.commits receiver faults k (.download path version size) fs)
    (paths', (m.downloadOne (faults k) path (receiver k path) fs).2))
  (hopens : Opens m (faults k) path (receiver k path) fs data target fs₁ place)

include hafter hopens

theorem fits_of_allOrNothing : (faults k).fits data = true := by
  by_contra hfits
  rw [Bool.not_eq_true] at hfits
  obtain ⟨e, he⟩ := hopens.downloadOne_cut hfits
  rw [he] at hafter
  have hfile := (hopens.node_written ((faults k).kept data) place).trans (if_pos rfl)
  exact hafter.not_written hfile _ [] (fun a ha => by cases ha) rfl

theorem removable_of_allOrNothing (hblocked : RenameFails (faults k) target fs₁) :
    (faults k).cleanup = false := by
  by_contra hcleanup
  rw [Bool.not_eq_false] at hcleanup
  obtain ⟨e, he⟩ := hopens.downloadOne_blocked (fits_of_allOrNothing hafter hopens) hblocked
  rw [he, removeTemp_cleanup hcleanup] at hafter
  have hfile := (hopens.node_written data place).trans (if_pos rfl)
  exact hafter.not_written hfile _ [] (fun a ha => by cases ha) rfl

include hroot

/-- What is written through a link is not removed with it, and the link is no file. -/
theorem noLink_of_allOrNothing : fs₁.disk.isSymlink maxLinks [] (m.tempPath path) = false := by
  have hfits := fits_of_allOrNothing hafter hopens
  obtain ⟨source, hsource, hwritten, -, hplace⟩ := hopens.temp data
  obtain ⟨hnode, hleaf⟩ := hopens.temp_node data hplace
  rw [Tree.isSymlink, hsource]
  dsimp only
  by_contra hlink
  rw [Bool.not_eq_false] at hlink
  have hne : place ≠ source := by
    rintro rfl
    rw [hopens.stands.2] at hlink
    cases hlink
  have hparent : (fs₁.written place data).disk.isDir source.dropLast = true :=
    Tree.walk_parent (fs₁.written place data).disk.isDir_top hwritten
  by_cases hblocked : RenameFails (faults k) target fs₁
  · have hcleanup := removable_of_allOrNothing hafter hopens hblocked
    obtain ⟨e, he⟩ := hopens.downloadOne_blocked hfits hblocked
    rw [he, removeTemp_eq hcleanup hwritten hnode hleaf] at hafter
    have hfile : ((fs₁.written place data).disk.set source none).node place =
        some (.file data) := by
      rw [Tree.node_set hparent hleaf, if_neg hne, hopens.node_written, if_pos rfl]
    refine hafter.not_written hfile fs₁.accesses [.removed source] (fun a ha => ?_) ?_
    · rw [List.mem_singleton.mp ha]
      rfl
    · exact List.append_assoc _ _ _
  · have hinstalled := hopens.downloadOne_installs hroot hfits hblocked hsource
    rw [commits_installed hopens (hopens.since hroot data) (by rw [hinstalled]), hinstalled] at hafter
    obtain ⟨t', ht, htarget, -⟩ := hopens.spec hroot
    have hread := hafter.holds history _ [] rfl fun d hd => by cases hd
    have hdir : (m.downloadOne (faults k) path (receiver k path) fs).2.disk.isDir m.root = true :=
      (downloadOne_cases m _ path _ hroot).isDir hroot hroot
    rw [hinstalled] at hdir
    have hfile := node_of_readFile (c := ⟨path, target.names, data⟩) hdir
      ⟨t', ht, by rw [htarget, join_eq]⟩ hread
    dsimp only at hfile
    obtain ⟨absolute, steps, hlinked⟩ := Tree.isLink_iff.mp hlink
    rw [hopens.node_renamed hroot hblocked hparent hleaf, if_pos rfl, hopens.node_written,
      if_neg hne.symm, hlinked] at hfile
    cases hfile

/-- What stands below the root at the temporary file's place is lost. -/
theorem free_of_allOrNothing {paths : List FilePath}
    (hplaces : ∀ c ∈ history, ∃ target, FerriSync.safeJoin c.path.val = .ok target ∧
      c.place = m.root ++ target.path.map osName)
    (hbefore : AllOrNone m t history (paths, fs)) (hbelow : m.root <+: place) :
    fs₁.disk.node place = none := by
  have hfits := fits_of_allOrNothing hafter hopens
  have hnoLink := noLink_of_allOrNothing hroot hafter hopens
  obtain ⟨source, hsource, hwritten, -, hplace⟩ := hopens.temp data
  obtain ⟨hnode, hleaf⟩ := hopens.temp_node data hplace
  obtain rfl : source = place := hopens.source_eq hnoLink hsource
  obtain ⟨-, -, -, -, hgrown, -⟩ := hopens.spec hroot
  have hdir : (m.downloadOne (faults k) path (receiver k path) fs).2.disk.isDir m.root = true :=
    (downloadOne_cases m _ path _ hroot).isDir hroot hroot
  by_contra hsome
  obtain ⟨old, hold⟩ : ∃ old, fs₁.disk.node source = some (.file old) := by
    have hstands := hopens.stands.2
    have hnoDir := hopens.leaf
    cases hx : fs₁.disk.node source with
    | none => exact absurd hx hsome
    | some x =>
      cases x with
      | file old => exact ⟨old, rfl⟩
      | dir =>
        rw [Tree.isDir, hx] at hnoDir
        cases hnoDir
      | link absolute steps =>
        rw [Tree.isLink, hx] at hstands
        cases hstands
  by_cases hblocked : RenameFails (faults k) target fs₁
  · have hcleanup := removable_of_allOrNothing hafter hopens hblocked
    obtain ⟨e, he⟩ := hopens.downloadOne_blocked hfits hblocked
    rw [commits_eq_nil (by rw [he]; exact (hopens.since hroot data).removeTemp)] at hafter
    refine hbefore.not_removed hplaces hdir hafter hbelow (fun c hc => by cases hc)
      (hgrown.file hold) ?_
    rw [he, removeTemp_eq hcleanup hwritten hnode hleaf]
    exact hopens.node_removed.trans (if_pos rfl)
  · have hinstalled := hopens.downloadOne_installs hroot hfits hblocked hsource
    rw [commits_installed hopens (hopens.since hroot data) (by rw [hinstalled])] at hafter
    have hne := hopens.place_ne hroot hnoLink
    refine hbefore.not_removed hplaces hdir hafter hbelow (fun c hc => ?_) (hgrown.file hold) ?_
    · rw [List.mem_singleton.mp hc]
      exact hne.symm
    · rw [hinstalled]
      exact (hopens.node_installed hroot hblocked).trans
        ((if_neg hne).trans (if_pos rfl))

end

/-- Nothing has been done. -/
theorem AllOrNone.nil (m : TransferManager) (t : Disk) : AllOrNone m t [] ([], ⟨t, []⟩) where
  returned := rfl
  holds before c after heq := by simp at heq
  kept place _ _ := Or.inl rfl
  cleared before place after heq := by simp at heq

theorem effect_of_operation (hroot : fs.disk.isDir m.root = true) (paths : List FilePath)
    (hsafe : ∀ path version size, op = .download path version size →
      Safe m (faults k) path (receiver k path) fs) :
    OperationEffect m fs (m.performDownload receiver faults k op (paths, fs)).2
      (m.commits receiver faults k op fs) := by
  cases op with
  | download path version size => exact effect_of_safe hroot (hsafe path version size rfl) paths
  | _ => exact .of_grown (.refl m.root fs)

end

/-- **Every run is all or nothing**, if and only if every download in it is safe. -/
theorem downloads_all_or_nothing_iff (m : TransferManager) (localPath : LocalPath)
    (receiver : ℕ → FilePath → Except String Bytes) (faults : ℕ → StepFaults) (t : Disk)
    (ops : List SyncOperation) (hopen : openRoot t localPath = .ok m.root) :
    (∀ done, done <+: ops → m.DownloadsAllOrNothing receiver faults t done) ↔
      ∀ done path version size rest, ops = done ++ .download path version size :: rest →
        Safe m (faults done.length) path (receiver done.length path)
          (m.executeDownloads receiver faults done ⟨t, []⟩).2 := by
  have hstart : (Fs.mk t []).disk.isDir m.root = true := isDir_of_openRoot hopen
  have hroot : ∀ done, (m.executeDownloads receiver faults done ⟨t, []⟩).2.disk.isDir m.root = true :=
    isDir_root hstart
  constructor
  · intro h done path version size rest hops
    have hbefore : m.DownloadsAllOrNothing receiver faults t done := h done ⟨_, hops.symm⟩
    have hafter : m.DownloadsAllOrNothing receiver faults t (done ++ [.download path version size]) :=
      h _ ⟨rest, by rw [hops, List.append_assoc]; rfl⟩
    unfold TransferManager.DownloadsAllOrNothing at hbefore hafter
    rw [committed_concat, executeDownloads_concat, performDownload_eq_downloadOne] at hafter
    exact ⟨fits_of_allOrNothing hafter, noLink_of_allOrNothing (hroot done) hafter,
      fun hopens => free_of_allOrNothing (hroot done) hafter hopens
        (fun c hc => place_of_mem_committed hc) hbefore,
      removable_of_allOrNothing hafter⟩
  · intro hsafe done hdone
    induction done using List.reverseRecOn with
    | nil => exact .nil m t
    | append_singleton done op ih =>
      obtain ⟨rest, hops⟩ := hdone
      rw [List.append_assoc, List.singleton_append] at hops
      have hbefore : m.DownloadsAllOrNothing receiver faults t done := ih ⟨_, hops⟩
      have heffect : OperationEffect m (m.executeDownloads receiver faults done ⟨t, []⟩).2
          (m.performDownload receiver faults done.length op
            (m.executeDownloads receiver faults done ⟨t, []⟩)).2
          (m.commits receiver faults done.length op
            (m.executeDownloads receiver faults done ⟨t, []⟩).2) :=
        effect_of_operation (hroot done) _ fun path version size hop =>
          hsafe done path version size rest (by rw [← hop]; exact hops.symm)
      have hroot' := hroot (done ++ [op])
      unfold TransferManager.DownloadsAllOrNothing at hbefore ⊢
      rw [executeDownloads_concat] at hroot' ⊢
      rw [committed_concat, performDownload_eq_commits (hroot done)]
      exact hbefore.step (fun c hc => place_of_mem_committed hc) (hroot done) hroot' heffect

/-- A folder and a directory for temporary files, both empty. -/
def stagingDisk : Disk := (Tree.empty.set [word "srv"] (some .dir)).set [word "tmp"] (some .dir)

def stagingManager : TransferManager := ⟨[word "srv"], [.name (word "tmp")], 7⟩

def sampleDownload : SyncOperation := .download ⟨"a"⟩ FileVersion.new 3

theorem downloads_all_or_nothing_iff_one : stagingManager.DownloadsAllOrNothing
    (fun _ _ => .ok [1, 2, 3]) (fun _ => {}) stagingDisk [sampleDownload] := by
  have hopen : openRoot stagingDisk srvPath = .ok stagingManager.root := by rfl
  have hjoin : SyncRoot.safeJoin stagingDisk [word "srv"] "a" = .ok ⟨[word "srv", word "a"], false⟩ := by
    rfl
  refine (downloads_all_or_nothing_iff stagingManager srvPath (fun _ _ => .ok [1, 2, 3]) (fun _ => {})
    stagingDisk [sampleDownload] hopen).mpr (fun done path version size rest hops => ?_) _
    List.prefix_rfl
  obtain ⟨rfl, hop⟩ : done = [] ∧ sampleDownload = .download path version size := by
    cases done with
    | nil => exact ⟨rfl, (List.cons.inj hops).1⟩
    | cons op done =>
      have hlen := congrArg List.length hops
      simp at hlen
  cases hop
  have hsame : ∀ {data target fs₁ place}, Opens stagingManager {} ⟨"a"⟩ (.ok [1, 2, 3])
      ⟨stagingDisk, []⟩ data target fs₁ place → fs₁ = ⟨stagingDisk, []⟩ := by
    intro data target fs₁ place h
    have hresolved : SyncRoot.safeJoin stagingDisk [word "srv"] "a" = .ok target := (mayFail_ok h.joined).2
    rw [hjoin] at hresolved
    cases hresolved
    have hdir : (Fs.mk stagingDisk []).disk.isDir [word "srv"] = true := by decide +kernel
    have hmade : createParent none ⟨[word "srv"] ++ [word "a"], false⟩ ⟨stagingDisk, []⟩ =
        (.ok (), ⟨stagingDisk, []⟩) := by
      unfold createParent
      rw [makeParent_of_isDir hdir]
      rfl
    exact (congrArg Prod.snd (h.made.symm.trans hmade))
  have hlink : stagingDisk.isSymlink maxLinks [] (stagingManager.tempPath ⟨"a"⟩) = false := by
    decide +kernel
  have hplace : stagingDisk.walk true maxLinks [] (stagingManager.tempPath ⟨"a"⟩) =
      .ok [word "tmp", stagingManager.tempName ⟨"a"⟩] := by rfl
  refine ⟨fun _ => rfl, fun h => ?_, fun h hbelow => ?_, fun _ _ => rfl⟩
  · obtain rfl := hsame h
    exact hlink
  · obtain rfl := hsame h
    have hleads := h.leads.symm.trans hplace
    cases hleads
    revert hbelow
    decide +kernel

/-- **A temporary file is left.** The disk is full after one byte of `a`. -/
theorem temp_file_left : openRoot stagingDisk srvPath = .ok stagingManager.root ∧
    ¬stagingManager.DownloadsAllOrNothing (fun _ _ => .ok [1, 2, 3]) (fun _ => { room := some 1 })
      stagingDisk [sampleDownload] := by
  refine ⟨by rfl, fun h => ?_⟩
  obtain ⟨source, hsource⟩ := h.cleared [] [word "tmp", stagingManager.tempName ⟨"a"⟩] []
    (by decide +kernel) ⟨[1], by rfl⟩
  cases hsource

end FerriSync
