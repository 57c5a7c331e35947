/-
# A folder on disk

What a session sees of the file system: the files below the root with their
bytes and modification times, and the directories. All can be read, all
names are text, and there are no symbolic links: a disk with links and any
names is in `SyncRoot`, and scans of one in `Scanning`. A file is written or
renamed only next to a target whose parent directory has just been made, so
a missing parent is not an error here.

`scan` (`SyncRoot::scan`) lists the files; one named `metadata.db` is left
out. `buildProtocolIndex` stamps each with one counter, its modification time,
under the label the caller passes.

Key definitions: `Folder`, `Folder.rename`, `Folder.scan`, `buildProtocolIndex`.
Key theorems: `Folder.entry_rename`, `Folder.entry_write`, `buildProtocolIndex_eq`.
-/
import FerriSync.Orchestrator
import FerriSync.Path
import Mathlib.Data.Finset.Lattice.Basic
import Mathlib.Data.Finset.Dedup
import Mathlib.Data.Finset.Empty

namespace FerriSync

/-- A file: its bytes and its modification time in nanoseconds since the
epoch. -/
structure FileEntry where
  data : Bytes
  mtime : ℤ
deriving DecidableEq

structure Folder where
  files : AList fun _ : RelPath => FileEntry
  dirs : Finset RelPath

namespace Folder

/-- The file at a path. -/
def entry (f : Folder) (p : RelPath) : Option FileEntry := f.files.lookup p

/-- The bytes at a path. -/
def content (f : Folder) (p : RelPath) : Option Bytes := (f.entry p).map (·.data)

def isDir (f : Folder) (p : RelPath) : Bool := decide (p = []) || decide (p ∈ f.dirs)

/-- `Path::exists`. -/
def targetExists (f : Folder) (t : Target) : Bool :=
  f.isDir t.path || (!t.asDir && (f.entry t.path).isSome)

/-- `fs::read`. -/
def read (f : Folder) (t : Target) : Except String Bytes :=
  if t.asDir || f.isDir t.path then .error "Is a directory"
  else match f.entry t.path with
    | some e => .ok e.data
    | none => .error "No such file or directory"

/-- `fs::create_dir_all`. -/
def createDirAll (f : Folder) (p : RelPath) : Except String Folder :=
  if p.inits.any fun q => (f.entry q).isSome then .error "Not a directory"
  else .ok { f with dirs := f.dirs ∪ p.inits.toFinset }

/-- `fs::write`: create or truncate, then write everything. -/
def write (f : Folder) (p : RelPath) (data : Bytes) (mtime : ℤ) : Except String Folder :=
  if f.isDir p then .error "Is a directory"
  else .ok { f with files := f.files.insert p ⟨data, mtime⟩ }

/-- `fs::remove_file`. -/
def remove (f : Folder) (p : RelPath) : Folder := { f with files := f.files.erase p }

/-- `fs::rename` of a file: it replaces a file at its new name. -/
def rename (f : Folder) (p : RelPath) (t : Target) : Except String Folder :=
  match f.entry p with
  | none => .error "No such file or directory"
  | some e =>
    if t.asDir || f.isDir t.path then .error "Is a directory"
    else .ok { f with files := (f.files.erase p).insert t.path e }

/-! ### What each operation leaves -/

variable {f g : Folder}

theorem isDir_nil (f : Folder) : f.isDir [] = true := by simp [isDir]

theorem ne_nil_of_not_dir {p : RelPath} (h : f.isDir p = false) : p ≠ [] := by
  rintro rfl
  rw [f.isDir_nil] at h
  cases h

/-- A file that can be read is a regular file, not named as a directory. -/
theorem read_ok {t : Target} {b : Bytes} (h : f.read t = .ok b) :
    t.asDir = false ∧ f.isDir t.path = false ∧ ∃ e, f.entry t.path = some e ∧ e.data = b := by
  unfold read at h
  split_ifs at h with hd
  simp only [Bool.or_eq_true, not_or, Bool.not_eq_true] at hd
  cases he : f.entry t.path with
  | none => rw [he] at h; cases h
  | some e =>
    rw [he] at h
    exact ⟨hd.1, hd.2, e, rfl, by simpa using h⟩

theorem createDirAll_ok {p : RelPath} (h : f.createDirAll p = .ok g) :
    g.files = f.files ∧ g.dirs = f.dirs ∪ p.inits.toFinset ∧
      ∀ q ∈ p.inits, f.entry q = none := by
  unfold createDirAll at h
  split_ifs at h with ha
  cases h
  refine ⟨rfl, rfl, fun q hq => ?_⟩
  by_contra hne
  exact ha (List.any_eq_true.mpr ⟨q, hq, by simpa [Option.isSome_iff_ne_none] using hne⟩)

theorem createDirAll_of_none {p : RelPath} (h : ∀ q ∈ p.inits, f.entry q = none) :
    f.createDirAll p = .ok { f with dirs := f.dirs ∪ p.inits.toFinset } := by
  unfold createDirAll
  rw [if_neg]
  intro ha
  obtain ⟨q, hq, hs⟩ := List.any_eq_true.mp ha
  rw [h q hq] at hs
  cases hs

theorem entry_write {p : RelPath} {d : Bytes} {m : ℤ} (h : f.write p d m = .ok g) (q : RelPath) :
    g.entry q = if q = p then some ⟨d, m⟩ else f.entry q := by
  unfold write at h
  split_ifs at h
  cases h
  by_cases hq : q = p
  · subst hq; simp [entry]
  · simp [entry, hq, AList.lookup_insert_ne hq]

theorem write_dirs {p : RelPath} {d : Bytes} {m : ℤ} (h : f.write p d m = .ok g) :
    g.dirs = f.dirs := by
  unfold write at h
  split_ifs at h
  cases h
  rfl

theorem not_dir_of_write {p : RelPath} {d : Bytes} {m : ℤ} (h : f.write p d m = .ok g) :
    f.isDir p = false := by
  unfold write at h
  split_ifs at h with hd
  simpa using hd

theorem write_of_not_dir {p : RelPath} (h : f.isDir p = false) (d : Bytes) (m : ℤ) :
    ∃ g, f.write p d m = .ok g := by
  simp [write, h]

theorem entry_remove (p q : RelPath) :
    (f.remove p).entry q = if q = p then none else f.entry q := by
  by_cases hq : q = p
  · subst hq; simp [entry, remove]
  · simp [entry, remove, hq, AList.lookup_erase_ne hq]

theorem entry_rename {p : RelPath} {t : Target} (h : f.rename p t = .ok g) :
    ∃ e, f.entry p = some e ∧
      ∀ q, g.entry q = if q = t.path then some e else if q = p then none else f.entry q := by
  unfold rename at h
  cases he : f.entry p with
  | none => rw [he] at h; cases h
  | some e =>
    rw [he] at h
    dsimp only at h
    split_ifs at h
    cases h
    refine ⟨e, rfl, fun q => ?_⟩
    by_cases hq : q = t.path
    · subst hq; simp [entry]
    · rw [if_neg hq, entry, AList.lookup_insert_ne hq]
      exact entry_remove p q

theorem rename_dirs {p : RelPath} {t : Target} (h : f.rename p t = .ok g) : g.dirs = f.dirs := by
  unfold rename at h
  cases he : f.entry p with
  | none => rw [he] at h; cases h
  | some e =>
    rw [he] at h
    dsimp only at h
    split_ifs at h
    cases h
    rfl

theorem not_asDir_of_rename {p : RelPath} {t : Target} (h : f.rename p t = .ok g) :
    t.asDir = false := by
  unfold rename at h
  cases he : f.entry p with
  | none => rw [he] at h; cases h
  | some e =>
    rw [he] at h
    dsimp only at h
    split_ifs at h with hc
    simp only [Bool.or_eq_true, not_or, Bool.not_eq_true] at hc
    exact hc.1

theorem rename_of_entry {p : RelPath} {t : Target} {e : FileEntry} (he : f.entry p = some e)
    (ht : t.asDir = false) (hd : f.isDir t.path = false) : ∃ g, f.rename p t = .ok g := by
  simp [rename, he, ht, hd]

theorem content_of_entry_eq {q : RelPath} (h : g.entry q = f.entry q) :
    g.content q = f.content q := by
  rw [content, h, content]

theorem content_eq_some {q : RelPath} {b : Bytes} :
    f.content q = some b ↔ ∃ e, f.entry q = some e ∧ e.data = b := by
  simp [content]

/-- A content that no file has is at no path. -/
theorem content_ne_of_all {b : Bytes} (h : (f.files.entries.all fun x => decide (x.2.data ≠ b)) = true)
    (q : RelPath) : f.content q ≠ some b := by
  intro hq
  obtain ⟨e, he, hdata⟩ := content_eq_some.mp hq
  simpa [hdata] using List.all_eq_true.mp h _ (AList.mem_lookup_iff.mp he)

/-! ### The scan -/

/-- The name `SyncRoot::scan_dir` leaves out. -/
def metadataName : List Char := ['m', 'e', 't', 'a', 'd', 'a', 't', 'a', '.', 'd', 'b']

/-- The scan skips a file of this path. -/
def skipped (p : RelPath) : Bool := decide (p.getLast?.map (·.chars) = some metadataName)

variable (blake3 : Bytes → FileHash)

/-- One file as `scan_dir` lists it. -/
def scanEntry (p : RelPath) (e : FileEntry) : SnapshotEntry where
  path := ⟨render p⟩
  kind := .file
  size := e.data.length
  hash := blake3 e.data
  version := .new
  mtime := Int64.ofInt (max 0 e.mtime)

/-- The files of the folder, in the order the directories list them. -/
def scan (f : Folder) : List SnapshotEntry :=
  (f.files.entries.filter fun x => !skipped x.1).map fun x => scanEntry blake3 x.1 x.2

end Folder

/-- The index of a folder: its scan, each entry with the label's counter at the
file's modification time. -/
def buildProtocolIndex (blake3 : Bytes → FileHash) (f : Folder) (deviceId : String) :
    List IndexEntry :=
  (f.scan blake3).map fun e =>
    indexEntry { e with version := .single ⟨deviceId⟩ e.mtime.toUInt64 }

/-- One file as the index lists it. -/
def fileIndexEntry (blake3 : Bytes → FileHash) (p : RelPath) (e : FileEntry) : IndexEntry where
  path := render p
  localVersion := (Int64.ofInt (max 0 e.mtime)).toUInt64
  remoteVersion := 0
  mtime := Int64.ofInt (max 0 e.mtime)
  size := e.data.length
  hash := (blake3 e.data).bytes

theorem max_zero_uint64 (n : UInt64) : max 0 n = n := by
  have h : (0 : UInt64) ≤ n := by simp [UInt64.le_iff_toNat_le]
  exact if_pos h

theorem buildProtocolIndex_eq (blake3 : Bytes → FileHash) (f : Folder) (deviceId : String) :
    buildProtocolIndex blake3 f deviceId =
      (f.files.entries.filter fun x => !Folder.skipped x.1).map
        fun x => fileIndexEntry blake3 x.1 x.2 := by
  rw [buildProtocolIndex, Folder.scan, List.map_map]
  refine List.map_congr_left fun x _ => ?_
  simp [Folder.scanEntry, indexEntry, fileIndexEntry, FileVersion.single, AList.singleton_entries,
    max_zero_uint64]

end FerriSync
