/-
# Devices, file versions and snapshots

The reconciler's data (`ferrisync-core/src/domain/`). A `FileVersion` is a
map from devices to counters; `dominates` compares two of them entry by
entry, as the code's two loops do, and `dominates_iff` says what that means:
at least as large at every device, larger at one, where an absent counter is
zero. So no two versions dominate each other (`dominates_asymm`), which is
what makes the two plans of a session mirror images.

A `HashMap` is an `AList`: its entries in some order, no key twice.

Key definitions: `FileVersion.dominates`, `Snapshot.lookup`, `SyncPlan`.
Key theorems: `FileVersion.dominates_iff`, `FileVersion.dominates_asymm`.
-/
import Mathlib.Data.List.AList
import Mathlib.Tactic.Common

namespace FerriSync

/-- The bytes of a file or of a hash. -/
abbrev Bytes := List UInt8

/-- A device's identifier, the label its version counters carry. -/
structure DeviceId where
  val : String
deriving DecidableEq, Repr

/-- A local storage key of a folder. -/
structure FolderId where
  val : Int64
deriving DecidableEq

/-- A relative file path as the index carries it. -/
structure FilePath where
  val : String
deriving DecidableEq, Repr

/-- A BLAKE3 hash: 32 bytes. -/
structure FileHash where
  bytes : Bytes
  length_eq : bytes.length = 32
deriving DecidableEq

/-- Counters by device. -/
structure FileVersion where
  versions : AList fun _ : DeviceId => UInt64
deriving DecidableEq

namespace FileVersion

def new : FileVersion := ⟨∅⟩

def single (device : DeviceId) (version : UInt64) : FileVersion :=
  ⟨AList.singleton device version⟩

/-- The counter of a device, 0 if absent. -/
def get (v : FileVersion) (device : DeviceId) : UInt64 := (v.versions.lookup device).getD 0

/-- The first loop goes over the counters of `self`, the second over those of
`other` that `self` has no entry for. -/
def dominates (self other : FileVersion) : Bool :=
  self.versions.entries.all (fun e => !decide (e.2 < other.get e.1)) &&
  other.versions.entries.all (fun e => decide (e.1 ∈ self.versions) || !decide (e.2 > 0)) &&
  self.versions.entries.any (fun e => decide (e.2 > other.get e.1))

def concurrent (self other : FileVersion) : Bool :=
  !self.dominates other && !other.dominates self

theorem get_of_mem {v : FileVersion} {e : Sigma fun _ : DeviceId => UInt64}
    (h : e ∈ v.versions.entries) : v.get e.1 = e.2 := by
  have hl : v.versions.lookup e.1 = some e.2 := AList.mem_lookup_iff.mpr h
  rw [get, hl, Option.getD_some]

theorem get_of_notMem {v : FileVersion} {d : DeviceId} (h : d ∉ v.versions) : v.get d = 0 := by
  rw [get, AList.lookup_eq_none.mpr h, Option.getD_none]

theorem exists_entry {v : FileVersion} {d : DeviceId} (h : d ∈ v.versions) :
    ⟨d, v.get d⟩ ∈ v.versions.entries := by
  obtain ⟨n, hn⟩ := Option.isSome_iff_exists.mp (AList.lookup_isSome.mpr h)
  rw [get, hn]
  exact AList.mem_lookup_iff.mp hn

theorem not_lt_zero (n : UInt64) : ¬ n < 0 := by
  simp [UInt64.lt_iff_toNat_lt]

/-- **Dominance is the order of the counters.** -/
theorem dominates_iff (a b : FileVersion) :
    a.dominates b = true ↔ (∀ d, ¬ a.get d < b.get d) ∧ ∃ d, b.get d < a.get d := by
  simp only [dominates, Bool.and_eq_true, List.all_eq_true, List.any_eq_true,
    Bool.or_eq_true, Bool.not_eq_true', decide_eq_true_eq, decide_eq_false_iff_not]
  constructor
  · rintro ⟨⟨h1, h2⟩, e, he, hlt⟩
    refine ⟨fun d => ?_, e.1, by rw [get_of_mem he]; exact hlt⟩
    by_cases hd : d ∈ a.versions
    · exact h1 _ (exists_entry hd)
    · rw [get_of_notMem hd]
      by_cases hb : d ∈ b.versions
      · exact (h2 _ (exists_entry hb)).resolve_left hd
      · rw [get_of_notMem hb]; exact not_lt_zero 0
  · rintro ⟨h1, d, hd⟩
    refine ⟨⟨fun e he => ?_, fun e he => ?_⟩, ?_⟩
    · rw [← get_of_mem he]; exact h1 e.1
    · by_cases hm : e.1 ∈ a.versions
      · exact Or.inl hm
      · have := h1 e.1
        rw [get_of_notMem hm, get_of_mem he] at this
        exact Or.inr this
    · have hm : d ∈ a.versions := by
        by_contra hm
        rw [get_of_notMem hm] at hd
        exact not_lt_zero _ hd
      exact ⟨_, exists_entry hm, hd⟩

/-- Two versions never dominate each other. -/
theorem dominates_asymm {a b : FileVersion} (h : a.dominates b = true) : b.dominates a = false := by
  by_contra hba
  obtain ⟨-, d, hd⟩ := (dominates_iff a b).mp h
  exact ((dominates_iff b a).mp (by simpa using hba)).1 d hd

end FileVersion

inductive EntryKind
  | file
  | directory
deriving DecidableEq, Repr

/-- One file of a snapshot. `size` is a `u64` of the code. -/
structure SnapshotEntry where
  path : FilePath
  kind : EntryKind
  size : ℕ
  hash : FileHash
  version : FileVersion
  mtime : Int64
deriving DecidableEq

/-- What a folder holds at a point in time: the reconciler's input. -/
structure Snapshot where
  folderId : FolderId
  generation : UInt64
  entries : List SnapshotEntry
deriving DecidableEq

namespace Snapshot

/-- The entry a map collected from the entries has for `path`: of two
entries with one path, the later. -/
def lookup (s : Snapshot) (path : FilePath) : Option SnapshotEntry :=
  s.entries.reverse.find? fun e => e.path = path

def paths (s : Snapshot) : List FilePath := s.entries.map (·.path)

theorem mem_paths_of_lookup {s : Snapshot} {p : FilePath} {e : SnapshotEntry}
    (h : s.lookup p = some e) : p ∈ s.paths := by
  have hm : e ∈ s.entries := List.mem_reverse.mp (List.mem_of_find?_eq_some h)
  have hp : e.path = p := by simpa using List.find?_some h
  exact List.mem_map.mpr ⟨e, hm, hp⟩

theorem lookup_isSome {s : Snapshot} {p : FilePath} : (s.lookup p).isSome ↔ p ∈ s.paths := by
  simp [lookup, paths]

end Snapshot

/-- Records that a file was deleted on a device. -/
structure Tombstone where
  path : FilePath
  folderId : FolderId
  deviceId : DeviceId
  deletedAt : UInt64
deriving DecidableEq

/-- A single synchronization operation. -/
inductive SyncOperation
  | upload (path : FilePath) (version : FileVersion) (size : ℕ)
  | download (path : FilePath) (version : FileVersion) (size : ℕ)
  | delete (path : FilePath)
  | conflict (path : FilePath) (localVersion remoteVersion : FileVersion)
deriving DecidableEq

def SyncOperation.path : SyncOperation → FilePath
  | upload p _ _ => p
  | download p _ _ => p
  | delete p => p
  | conflict p _ _ => p

/-- What should happen during a synchronization. -/
structure SyncPlan where
  uploads : List SyncOperation := []
  downloads : List SyncOperation := []
  deletes : List SyncOperation := []
  conflicts : List SyncOperation := []
deriving DecidableEq

end FerriSync
