/-
# The reconciler

`reconcile` (`ferrisync-core/src/sync/reconciler.rs`) compares two snapshots
path by path. What it does for one path is `operation`; the plan is the
operations of all paths, filed by kind (`reconcile_uploads` and its
siblings), in the order a `HashSet` happens to give them, which is a
parameter (`PathOrder`).

Exchanging the two sides exchanges uploads with downloads and the two
versions of a conflict (`operation_mirror`), so the plans the two devices
compute, each with itself as the local side, are mirror images whatever the
two orders are (`reconcile_uploads_mirror`, `reconcile_conflicts_mirror`).

Key definitions: `PathOrder`, `operation`, `reconcile`, `SyncOperation.mirror`.
Key theorems: `operation_mirror`, `reconcile_uploads_mirror`,
`reconcile_downloads_mirror`, `reconcile_conflicts_mirror`.
-/
import FerriSync.Domain
import Mathlib.Data.List.Dedup
import Mathlib.Data.List.Perm.Basic

namespace FerriSync

/-- An order in which a hash set of the paths of two snapshots is iterated. -/
structure PathOrder (l r : Snapshot) where
  order : List FilePath
  nodup : order.Nodup
  mem_iff : ∀ p, p ∈ order ↔ p ∈ l.paths ∨ p ∈ r.paths

namespace PathOrder

variable {l r : Snapshot}

/-- The paths as they come, the local ones first. -/
def firstSeen (l r : Snapshot) : PathOrder l r where
  order := (l.paths ++ r.paths).dedup
  nodup := List.nodup_dedup _
  mem_iff p := by simp

theorem perm_swap (o : PathOrder l r) (o' : PathOrder r l) : o.order.Perm o'.order :=
  (List.perm_ext_iff_of_nodup o.nodup o'.nodup).mpr fun p => by
    rw [o.mem_iff, o'.mem_iff, or_comm]

end PathOrder

/-- The tombstones have one for `path`. -/
def isDeleted (tombstones : List Tombstone) (path : FilePath) : Bool :=
  tombstones.any fun t => t.path = path

/-- What the loop of `reconcile` does for one path. -/
def operation (l r : Snapshot) (localTombstones remoteTombstones : List Tombstone)
    (path : FilePath) : Option SyncOperation :=
  match l.lookup path, r.lookup path with
  | some localE, some remoteE =>
    if localE.hash = remoteE.hash then none
    else if localE.version.dominates remoteE.version then
      some (.upload path localE.version localE.size)
    else if remoteE.version.dominates localE.version then
      some (.download path remoteE.version remoteE.size)
    else some (.conflict path localE.version remoteE.version)
  | some localE, none =>
    if isDeleted remoteTombstones path then some (.conflict path localE.version .new)
    else some (.upload path localE.version localE.size)
  | none, some remoteE =>
    if isDeleted localTombstones path then some (.conflict path .new remoteE.version)
    else some (.download path remoteE.version remoteE.size)
  | none, none => none

/-- File an operation under its kind. -/
def SyncPlan.push (plan : SyncPlan) (op : SyncOperation) : SyncPlan :=
  match op with
  | .upload .. => { plan with uploads := plan.uploads ++ [op] }
  | .download .. => { plan with downloads := plan.downloads ++ [op] }
  | .delete .. => { plan with deletes := plan.deletes ++ [op] }
  | .conflict .. => { plan with conflicts := plan.conflicts ++ [op] }

/-- Compare two snapshots, each path once. -/
def reconcile (l r : Snapshot) (localTombstones remoteTombstones : List Tombstone)
    (paths : PathOrder l r) : SyncPlan :=
  paths.order.foldl (fun plan path =>
    match operation l r localTombstones remoteTombstones path with
    | some op => plan.push op
    | none => plan) {}

/-! ### The plan, list by list -/

namespace SyncOperation

def isUpload : SyncOperation → Bool
  | upload .. => true
  | _ => false

def isDownload : SyncOperation → Bool
  | download .. => true
  | _ => false

def isDelete : SyncOperation → Bool
  | delete .. => true
  | _ => false

def isConflict : SyncOperation → Bool
  | conflict .. => true
  | _ => false

/-- The operation as the other side sees it. -/
def mirror : SyncOperation → SyncOperation
  | upload p v s => download p v s
  | download p v s => upload p v s
  | delete p => delete p
  | conflict p v w => conflict p w v

@[simp] theorem mirror_path (op : SyncOperation) : op.mirror.path = op.path := by
  cases op <;> rfl

@[simp] theorem mirror_isUpload (op : SyncOperation) : op.mirror.isUpload = op.isDownload := by
  cases op <;> rfl

@[simp] theorem mirror_isDownload (op : SyncOperation) : op.mirror.isDownload = op.isUpload := by
  cases op <;> rfl

@[simp] theorem mirror_isConflict (op : SyncOperation) : op.mirror.isConflict = op.isConflict := by
  cases op <;> rfl

end SyncOperation

variable (l r : Snapshot) (lt rt : List Tombstone)

/-- A plan grown by the operations of a list of paths. -/
theorem foldl_push (ps : List FilePath) (plan : SyncPlan) :
    ps.foldl (fun plan path =>
      match operation l r lt rt path with
      | some op => plan.push op
      | none => plan) plan =
    ⟨plan.uploads ++ (ps.filterMap (operation l r lt rt)).filter (·.isUpload),
      plan.downloads ++ (ps.filterMap (operation l r lt rt)).filter (·.isDownload),
      plan.deletes ++ (ps.filterMap (operation l r lt rt)).filter (·.isDelete),
      plan.conflicts ++ (ps.filterMap (operation l r lt rt)).filter (·.isConflict)⟩ := by
  induction ps generalizing plan with
  | nil => simp
  | cons p ps ih =>
    rw [List.foldl_cons, ih]
    cases ho : operation l r lt rt p with
    | none => simp [ho]
    | some op =>
      cases op <;> simp [ho, SyncPlan.push, SyncOperation.isUpload,
        SyncOperation.isDownload, SyncOperation.isDelete, SyncOperation.isConflict]

variable {l r} (o : PathOrder l r)

theorem reconcile_uploads : (reconcile l r lt rt o).uploads =
    (o.order.filterMap (operation l r lt rt)).filter (·.isUpload) := by
  simp [reconcile, foldl_push]

theorem reconcile_downloads : (reconcile l r lt rt o).downloads =
    (o.order.filterMap (operation l r lt rt)).filter (·.isDownload) := by
  simp [reconcile, foldl_push]

theorem reconcile_conflicts : (reconcile l r lt rt o).conflicts =
    (o.order.filterMap (operation l r lt rt)).filter (·.isConflict) := by
  simp [reconcile, foldl_push]

/-! ### The mirror -/

/-- **One path, seen from the two sides.** -/
theorem operation_mirror (p : FilePath) :
    (operation l r lt rt p).map SyncOperation.mirror = operation r l rt lt p := by
  unfold operation
  cases l.lookup p with
  | none =>
    cases r.lookup p with
    | none => rfl
    | some remoteE => cases isDeleted lt p <;> rfl
  | some localE =>
    cases r.lookup p with
    | none => cases isDeleted rt p <;> rfl
    | some remoteE =>
      simp only [eq_comm (a := localE.hash)]
      by_cases hh : remoteE.hash = localE.hash
      · simp [hh]
      · by_cases hl : localE.version.dominates remoteE.version = true
        · simp [hh, hl, FileVersion.dominates_asymm hl, SyncOperation.mirror]
        · by_cases hr : remoteE.version.dominates localE.version = true <;>
            simp [hh, hl, hr, SyncOperation.mirror]

/-- The operations of the two sides are each other's mirror images, in some
order. -/
theorem operations_mirror (o' : PathOrder r l) :
    ((o.order.filterMap (operation l r lt rt)).map SyncOperation.mirror).Perm
      (o'.order.filterMap (operation r l rt lt)) := by
  rw [List.map_filterMap]
  simp only [operation_mirror]
  exact (o.perm_swap o').filterMap _

theorem reconcile_uploads_mirror (o' : PathOrder r l) :
    ((reconcile l r lt rt o).uploads.map SyncOperation.mirror).Perm
      (reconcile r l rt lt o').downloads := by
  have h := (operations_mirror lt rt o o').filter (·.isDownload)
  rw [List.filter_map] at h
  rw [reconcile_uploads, reconcile_downloads]
  convert h using 4
  simp

theorem reconcile_downloads_mirror (o' : PathOrder r l) :
    ((reconcile l r lt rt o).downloads.map SyncOperation.mirror).Perm
      (reconcile r l rt lt o').uploads := by
  have h := (operations_mirror lt rt o o').filter (·.isUpload)
  rw [List.filter_map] at h
  rw [reconcile_uploads, reconcile_downloads]
  convert h using 4
  simp

theorem reconcile_conflicts_mirror (o' : PathOrder r l) :
    ((reconcile l r lt rt o).conflicts.map SyncOperation.mirror).Perm
      (reconcile r l rt lt o').conflicts := by
  have h := (operations_mirror lt rt o o').filter (·.isConflict)
  rw [List.filter_map] at h
  rw [reconcile_conflicts, reconcile_conflicts]
  convert h using 4
  simp

/-! ### Which paths a plan lists -/

variable {lt rt}

theorem operation_path {p : FilePath} {op : SyncOperation}
    (h : operation l r lt rt p = some op) : op.path = p := by
  unfold operation at h
  split at h
  · split_ifs at h <;> simp only [Option.some.injEq] at h <;> subst h <;> rfl
  · split_ifs at h <;> simp only [Option.some.injEq] at h <;> subst h <;> rfl
  · split_ifs at h <;> simp only [Option.some.injEq] at h <;> subst h <;> rfl
  · cases h

/-- The paths of an order's operations are among the order's, each once. -/
theorem filterMap_operation_path (ps : List FilePath) :
    ((ps.filterMap (operation l r lt rt)).map (·.path)).Sublist ps := by
  induction ps with
  | nil => simp
  | cons p ps ih =>
    cases ho : operation l r lt rt p with
    | none => simpa [List.filterMap_cons, ho] using ih.cons p
    | some op =>
      simp only [List.filterMap_cons, ho, List.map_cons, operation_path ho]
      exact ih.cons_cons p

theorem operations_nodup : ((o.order.filterMap (operation l r lt rt)).map (·.path)).Nodup :=
  o.nodup.sublist (filterMap_operation_path o.order)

end FerriSync
