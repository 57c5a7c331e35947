/-
# What the reconciler decides for each path

Version vectors are ordered by their counters: `FileVersion.dominates` is the
strict order of `get` taken device by device, whatever zero counters the two
maps spell out (`FileVersion.dominates_order`), and bumping a counter goes up
in it.

`Due` says which operation two snapshots call for at a path, case by case;
a plan lists these operations, each path once, in the list of its kind
(`reconcile_exact`), in whatever order the entries and the tombstones come.

The peer's index is decoded twice, by `indexToSnapshot`, which a session uses
and which takes the 32 bytes of a hash as they are, and by `fromRemoteIndex`,
which hashes them again. The two agree on no other entries than those whose
hash is the hash of itself (`decoders_agree_iff`).

Key definitions: `FileVersion.bump`, `Due`, `fromRemoteIndex`, `DecodersAgree`.
Key theorems: `FileVersion.dominates_order`, `operation_eq_some_iff`,
`reconcile_exact`, `decoders_agree_iff`.
-/
import FerriSync.Commit
import FerriSync.Orchestrator
import FerriSync.Reconciler

namespace FerriSync

/-! ### The order of the versions -/

namespace FileVersion

/-- Add one to the counter of a device. -/
def bump (v : FileVersion) (device : DeviceId) : FileVersion :=
  ⟨v.versions.insert device (v.get device + 1)⟩

theorem get_bump (v : FileVersion) (device d : DeviceId) :
    (v.bump device).get d = if d = device then v.get device + 1 else v.get d := by
  by_cases h : d = device
  · subst h
    rw [if_pos rfl, bump, get, AList.lookup_insert, Option.getD_some]
  · rw [if_neg h, bump, get, AList.lookup_insert_ne h, get]

/-- **Dominance, with the comparisons as the code's documentation has them.** -/
theorem dominates_iff_le (a b : FileVersion) :
    a.dominates b = true ↔ (∀ d, b.get d ≤ a.get d) ∧ ∃ d, b.get d < a.get d := by
  rw [dominates_iff]
  simp only [UInt64.not_lt]

theorem dominates_irrefl (a : FileVersion) : a.dominates a = false := by
  by_contra h
  obtain ⟨-, d, hd⟩ := (dominates_iff_le a a).mp (by simpa using h)
  exact UInt64.lt_irrefl _ hd

theorem dominates_trans {a b c : FileVersion} (hab : a.dominates b = true)
    (hbc : b.dominates c = true) : a.dominates c = true := by
  obtain ⟨hab, -⟩ := (dominates_iff_le a b).mp hab
  obtain ⟨hbc, d, hd⟩ := (dominates_iff_le b c).mp hbc
  refine (dominates_iff_le a c).mpr ⟨fun d => ?_, d, ?_⟩
  · exact UInt64.le_trans (hbc d) (hab d)
  · exact UInt64.lt_of_lt_of_le hd (hab d)

theorem dominates_congr {a a' b b' : FileVersion} (ha : ∀ d, a'.get d = a.get d)
    (hb : ∀ d, b'.get d = b.get d) : a'.dominates b' = a.dominates b := by
  rw [Bool.eq_iff_iff, dominates_iff_le, dominates_iff_le]
  simp only [ha, hb]

/-- One more, where the counter has room for it, is more. -/
theorem lt_add_one {n : UInt64} (h : n.toNat < UInt64.size - 1) : n < n + 1 := by
  have hadd : (n + 1).toNat = n.toNat + 1 := by
    rw [UInt64.toNat_add, UInt64.toNat_one]
    apply Nat.mod_eq_of_lt
    simp only [UInt64.size] at h
    omega
  rw [UInt64.lt_iff_toNat_lt, hadd]
  omega

theorem bump_dominates {a : FileVersion} {device : DeviceId}
    (h : (a.get device).toNat < UInt64.size - 1) : (a.bump device).dominates a = true := by
  rw [dominates_iff_le]
  refine ⟨fun d => ?_, device, ?_⟩
  · rw [get_bump]
    split_ifs with hd
    · rw [hd]
      exact UInt64.le_of_lt (lt_add_one h)
    · exact UInt64.le_refl _
  · rw [get_bump, if_pos rfl]
    exact lt_add_one h

/-- **The order of the versions.** It compares what `get` gives and nothing
else; a counter below the largest `u64` can be bumped, and that goes up. -/
theorem dominates_order (a b c : FileVersion) (device : DeviceId) :
    (a.dominates b = true ↔ (∀ d, b.get d ≤ a.get d) ∧ ∃ d, b.get d < a.get d) ∧
    a.dominates a = false ∧
    (a.dominates b = true → b.dominates a = false) ∧
    (a.dominates b = true → b.dominates c = true → a.dominates c = true) ∧
    (∀ a' b' : FileVersion, (∀ d, a'.get d = a.get d) → (∀ d, b'.get d = b.get d) →
      a'.dominates b' = a.dominates b) ∧
    ((a.get device).toNat < UInt64.size - 1 → (a.bump device).dominates a = true) :=
  ⟨dominates_iff_le a b, dominates_irrefl a, dominates_asymm, dominates_trans,
    fun _ _ => dominates_congr, bump_dominates⟩

end FileVersion

/-! ### The decision at a path -/

/-- The operation that two snapshots and the two sides' tombstones call for at
a path, and the case it is called for in. -/
inductive Due (l r : Snapshot) (localTombstones remoteTombstones : List Tombstone) :
    SyncOperation → Prop
  | localWins {a b : SnapshotEntry} (ha : a ∈ l.entries) (hb : b ∈ r.entries)
      (hpath : b.path = a.path) (hhash : a.hash ≠ b.hash)
      (hdom : a.version.dominates b.version = true) :
      Due l r localTombstones remoteTombstones (.upload a.path a.version a.size)
  | remoteWins {a b : SnapshotEntry} (ha : a ∈ l.entries) (hb : b ∈ r.entries)
      (hpath : b.path = a.path) (hhash : a.hash ≠ b.hash)
      (hdom : b.version.dominates a.version = true) :
      Due l r localTombstones remoteTombstones (.download a.path b.version b.size)
  | concurrent {a b : SnapshotEntry} (ha : a ∈ l.entries) (hb : b ∈ r.entries)
      (hpath : b.path = a.path) (hhash : a.hash ≠ b.hash)
      (hconc : a.version.concurrent b.version = true) :
      Due l r localTombstones remoteTombstones (.conflict a.path a.version b.version)
  | localOnly {a : SnapshotEntry} (ha : a ∈ l.entries) (hr : a.path ∉ r.paths)
      (ht : ∀ t ∈ remoteTombstones, t.path ≠ a.path) :
      Due l r localTombstones remoteTombstones (.upload a.path a.version a.size)
  | deletedRemotely {a : SnapshotEntry} (ha : a ∈ l.entries) (hr : a.path ∉ r.paths)
      (ht : ∃ t ∈ remoteTombstones, t.path = a.path) :
      Due l r localTombstones remoteTombstones (.conflict a.path a.version .new)
  | remoteOnly {b : SnapshotEntry} (hb : b ∈ r.entries) (hl : b.path ∉ l.paths)
      (ht : ∀ t ∈ localTombstones, t.path ≠ b.path) :
      Due l r localTombstones remoteTombstones (.download b.path b.version b.size)
  | deletedLocally {b : SnapshotEntry} (hb : b ∈ r.entries) (hl : b.path ∉ l.paths)
      (ht : ∃ t ∈ localTombstones, t.path = b.path) :
      Due l r localTombstones remoteTombstones (.conflict b.path .new b.version)

namespace Snapshot

theorem mem_paths {s : Snapshot} {e : SnapshotEntry} (h : e ∈ s.entries) : e.path ∈ s.paths :=
  List.mem_map.mpr ⟨e, h, rfl⟩

/-- What the map has for a path is an entry of that path. -/
theorem mem_of_lookup {s : Snapshot} {p : FilePath} {e : SnapshotEntry}
    (h : s.lookup p = some e) : e ∈ s.entries ∧ e.path = p :=
  ⟨List.mem_reverse.mp (List.mem_of_find?_eq_some h), by simpa using List.find?_some h⟩

theorem lookup_eq_none_iff {s : Snapshot} {p : FilePath} : s.lookup p = none ↔ p ∉ s.paths := by
  rw [← lookup_isSome, Option.not_isSome_iff_eq_none]

/-- Where no path is given twice, the map has every entry. -/
theorem lookup_eq_some_iff {s : Snapshot} (h : s.paths.Nodup) {p : FilePath} {e : SnapshotEntry} :
    s.lookup p = some e ↔ e ∈ s.entries ∧ e.path = p := by
  constructor
  · exact mem_of_lookup
  · rintro ⟨he, rfl⟩
    cases hl : s.lookup e.path with
    | none => exact absurd (mem_paths he) (lookup_eq_none_iff.mp hl)
    | some e' =>
      obtain ⟨he', hp⟩ := mem_of_lookup hl
      rw [List.inj_on_of_nodup_map h he' he hp]

end Snapshot

theorem isDeleted_iff {ts : List Tombstone} {p : FilePath} :
    isDeleted ts p = true ↔ ∃ t ∈ ts, t.path = p := by
  simp [isDeleted]

theorem isDeleted_eq_false_iff {ts : List Tombstone} {p : FilePath} :
    isDeleted ts p = false ↔ ∀ t ∈ ts, t.path ≠ p := by
  simp [isDeleted]

section

variable {l r : Snapshot} {lt rt : List Tombstone}

theorem Due.path_mem {op : SyncOperation} (h : Due l r lt rt op) :
    op.path ∈ l.paths ∨ op.path ∈ r.paths := by
  cases h with
  | localWins ha | remoteWins ha | concurrent ha | localOnly ha | deletedRemotely ha =>
    exact Or.inl (Snapshot.mem_paths ha)
  | remoteOnly hb | deletedLocally hb => exact Or.inr (Snapshot.mem_paths hb)

theorem Due.not_delete {op : SyncOperation} (h : Due l r lt rt op) : op.isDelete = false := by
  cases h <;> rfl

/-- What the loop does is due. -/
theorem due_of_operation {p : FilePath} {op : SyncOperation}
    (h : operation l r lt rt p = some op) : Due l r lt rt op := by
  unfold operation at h
  split at h
  · rename_i a b ha hb
    obtain ⟨hal, rfl⟩ := Snapshot.mem_of_lookup ha
    obtain ⟨hbr, hpath⟩ := Snapshot.mem_of_lookup hb
    by_cases hhash : a.hash = b.hash
    · simp [hhash] at h
    · by_cases hdom : a.version.dominates b.version = true
      · simp only [hhash, hdom, if_true, if_false, Option.some.injEq] at h
        subst h
        exact Due.localWins hal hbr hpath hhash hdom
      · by_cases hdom' : b.version.dominates a.version = true
        · simp only [hhash, hdom, hdom', Bool.false_eq_true, if_true, if_false, Option.some.injEq] at h
          subst h
          exact Due.remoteWins hal hbr hpath hhash hdom'
        · simp only [hhash, hdom, hdom', Bool.false_eq_true, if_false, Option.some.injEq] at h
          subst h
          exact Due.concurrent hal hbr hpath hhash (by simp [FileVersion.concurrent, hdom, hdom'])
  · rename_i a ha hb
    obtain ⟨hal, rfl⟩ := Snapshot.mem_of_lookup ha
    have hr := Snapshot.lookup_eq_none_iff.mp hb
    cases hd : isDeleted rt a.path with
    | true =>
      simp only [hd, if_true, Option.some.injEq] at h
      subst h
      exact Due.deletedRemotely hal hr (isDeleted_iff.mp hd)
    | false =>
      simp only [hd, Bool.false_eq_true, if_false, Option.some.injEq] at h
      subst h
      exact Due.localOnly hal hr (isDeleted_eq_false_iff.mp hd)
  · rename_i b ha hb
    obtain ⟨hbr, rfl⟩ := Snapshot.mem_of_lookup hb
    have hl := Snapshot.lookup_eq_none_iff.mp ha
    cases hd : isDeleted lt b.path with
    | true =>
      simp only [hd, if_true, Option.some.injEq] at h
      subst h
      exact Due.deletedLocally hbr hl (isDeleted_iff.mp hd)
    | false =>
      simp only [hd, Bool.false_eq_true, if_false, Option.some.injEq] at h
      subst h
      exact Due.remoteOnly hbr hl (isDeleted_eq_false_iff.mp hd)
  · cases h

/-- What is due is what the loop does, where no snapshot gives a path twice. -/
theorem operation_of_due (hl : l.paths.Nodup) (hr : r.paths.Nodup) {op : SyncOperation}
    (h : Due l r lt rt op) : operation l r lt rt op.path = some op := by
  unfold operation
  cases h with
  | @localWins a b ha hb hpath hhash hdom =>
    have hla : l.lookup a.path = some a := (Snapshot.lookup_eq_some_iff hl).mpr ⟨ha, rfl⟩
    have hrb : r.lookup a.path = some b := (Snapshot.lookup_eq_some_iff hr).mpr ⟨hb, hpath⟩
    simp only [SyncOperation.path, hla, hrb, hhash, hdom, if_true, if_false]
  | @remoteWins a b ha hb hpath hhash hdom =>
    have hla : l.lookup a.path = some a := (Snapshot.lookup_eq_some_iff hl).mpr ⟨ha, rfl⟩
    have hrb : r.lookup a.path = some b := (Snapshot.lookup_eq_some_iff hr).mpr ⟨hb, hpath⟩
    simp only [SyncOperation.path, hla, hrb, hhash, hdom, FileVersion.dominates_asymm hdom,
      Bool.false_eq_true, if_true, if_false]
  | @concurrent a b ha hb hpath hhash hconc =>
    have hla : l.lookup a.path = some a := (Snapshot.lookup_eq_some_iff hl).mpr ⟨ha, rfl⟩
    have hrb : r.lookup a.path = some b := (Snapshot.lookup_eq_some_iff hr).mpr ⟨hb, hpath⟩
    simp only [FileVersion.concurrent, Bool.and_eq_true, Bool.not_eq_true'] at hconc
    simp only [SyncOperation.path, hla, hrb, hhash, hconc.1, hconc.2, Bool.false_eq_true, if_false]
  | @localOnly a ha hn ht =>
    have hla : l.lookup a.path = some a := (Snapshot.lookup_eq_some_iff hl).mpr ⟨ha, rfl⟩
    simp only [SyncOperation.path, hla, Snapshot.lookup_eq_none_iff.mpr hn,
      isDeleted_eq_false_iff.mpr ht, Bool.false_eq_true, if_false]
  | @deletedRemotely a ha hn ht =>
    have hla : l.lookup a.path = some a := (Snapshot.lookup_eq_some_iff hl).mpr ⟨ha, rfl⟩
    simp only [SyncOperation.path, hla, Snapshot.lookup_eq_none_iff.mpr hn,
      isDeleted_iff.mpr ht, if_true]
  | @remoteOnly b hb hn ht =>
    have hrb : r.lookup b.path = some b := (Snapshot.lookup_eq_some_iff hr).mpr ⟨hb, rfl⟩
    simp only [SyncOperation.path, hrb, Snapshot.lookup_eq_none_iff.mpr hn,
      isDeleted_eq_false_iff.mpr ht, Bool.false_eq_true, if_false]
  | @deletedLocally b hb hn ht =>
    have hrb : r.lookup b.path = some b := (Snapshot.lookup_eq_some_iff hr).mpr ⟨hb, rfl⟩
    simp only [SyncOperation.path, hrb, Snapshot.lookup_eq_none_iff.mpr hn,
      isDeleted_iff.mpr ht, if_true]

/-- **One path, exactly.** -/
theorem operation_eq_some_iff (hl : l.paths.Nodup) (hr : r.paths.Nodup) {p : FilePath}
    {op : SyncOperation} : operation l r lt rt p = some op ↔ Due l r lt rt op ∧ op.path = p := by
  constructor
  · intro h
    exact ⟨due_of_operation h, operation_path h⟩
  · rintro ⟨h, rfl⟩
    exact operation_of_due hl hr h

/-- The operations of an order are what is due. -/
theorem mem_operations (hl : l.paths.Nodup) (hr : r.paths.Nodup) (o : PathOrder l r)
    {op : SyncOperation} :
    op ∈ o.order.filterMap (operation l r lt rt) ↔ Due l r lt rt op := by
  rw [List.mem_filterMap]
  constructor
  · rintro ⟨p, -, hp⟩
    exact due_of_operation hp
  · intro h
    exact ⟨op.path, (o.mem_iff _).mpr h.path_mem, operation_of_due hl hr h⟩

end

/-! ### The plan -/

/-- The paths a plan lists, in any of its lists. -/
def SyncPlan.paths (plan : SyncPlan) : List FilePath :=
  (plan.uploads ++ plan.downloads ++ plan.deletes ++ plan.conflicts).map (·.path)

theorem reconcile_deletes_filter (l r : Snapshot) (lt rt : List Tombstone) (o : PathOrder l r) :
    (reconcile l r lt rt o).deletes =
      (o.order.filterMap (operation l r lt rt)).filter (·.isDelete) := by
  simp [reconcile, foldl_push]

theorem reconcile_deletes (l r : Snapshot) (lt rt : List Tombstone) (o : PathOrder l r) :
    (reconcile l r lt rt o).deletes = [] := by
  rw [reconcile_deletes_filter, List.filter_eq_nil_iff]
  intro op hop
  obtain ⟨p, -, hp⟩ := List.mem_filterMap.mp hop
  simp [(due_of_operation hp).not_delete]

/-- Operations taken apart by kind are the operations. -/
theorem perm_kinds : ∀ ops : List SyncOperation,
    (ops.filter (·.isUpload) ++ ops.filter (·.isDownload) ++ ops.filter (·.isDelete) ++
      ops.filter (·.isConflict)).Perm ops
  | [] => by simp
  | op :: ops => by
    have ih := perm_kinds ops
    cases op with
    | upload p v s => exact ih.cons _
    | download p v s =>
      simp only [List.append_assoc] at ih ⊢
      exact List.perm_middle.trans (ih.cons _)
    | delete p =>
      rw [List.append_assoc] at ih ⊢
      exact List.perm_middle.trans (ih.cons _)
    | conflict p v w => exact List.perm_middle.trans (ih.cons _)

section

variable (l r : Snapshot) (lt rt : List Tombstone) (o : PathOrder l r)

theorem reconcile_paths_perm : (reconcile l r lt rt o).paths.Perm
    ((o.order.filterMap (operation l r lt rt)).map (·.path)) := by
  rw [SyncPlan.paths, reconcile_deletes_filter, reconcile_uploads, reconcile_downloads,
    reconcile_conflicts]
  exact (perm_kinds _).map _

/-- A plan lists no path twice. -/
theorem reconcile_paths_nodup : (reconcile l r lt rt o).paths.Nodup :=
  (reconcile_paths_perm l r lt rt o).nodup_iff.mpr (operations_nodup o)

end

/-- Snapshots and tombstones in another order call for the same. -/
theorem Due.of_perm {l l' r r' : Snapshot} {lt lt' rt rt' : List Tombstone}
    (hl : l.entries.Perm l'.entries) (hr : r.entries.Perm r'.entries) (hlt : lt.Perm lt')
    (hrt : rt.Perm rt') {op : SyncOperation} (h : Due l r lt rt op) : Due l' r' lt' rt' op := by
  have hlp : ∀ p, p ∈ l.paths ↔ p ∈ l'.paths := fun p => (hl.map (·.path)).mem_iff
  have hrp : ∀ p, p ∈ r.paths ↔ p ∈ r'.paths := fun p => (hr.map (·.path)).mem_iff
  cases h with
  | localWins ha hb hpath hhash hdom =>
    exact localWins (hl.mem_iff.mp ha) (hr.mem_iff.mp hb) hpath hhash hdom
  | remoteWins ha hb hpath hhash hdom =>
    exact remoteWins (hl.mem_iff.mp ha) (hr.mem_iff.mp hb) hpath hhash hdom
  | concurrent ha hb hpath hhash hconc =>
    exact concurrent (hl.mem_iff.mp ha) (hr.mem_iff.mp hb) hpath hhash hconc
  | localOnly ha hn ht =>
    rw [hrp] at hn
    exact localOnly (hl.mem_iff.mp ha) hn fun t h => ht t (hrt.mem_iff.mpr h)
  | deletedRemotely ha hn ht =>
    rw [hrp] at hn
    obtain ⟨t, h, hp⟩ := ht
    exact deletedRemotely (hl.mem_iff.mp ha) hn ⟨t, hrt.mem_iff.mp h, hp⟩
  | remoteOnly hb hn ht =>
    rw [hlp] at hn
    exact remoteOnly (hr.mem_iff.mp hb) hn fun t h => ht t (hlt.mem_iff.mpr h)
  | deletedLocally hb hn ht =>
    rw [hlp] at hn
    obtain ⟨t, h, hp⟩ := ht
    exact deletedLocally (hr.mem_iff.mp hb) hn ⟨t, hlt.mem_iff.mp h, hp⟩

theorem due_iff_of_perm {l l' r r' : Snapshot} {lt lt' rt rt' : List Tombstone}
    (hl : l.entries.Perm l'.entries) (hr : r.entries.Perm r'.entries) (hlt : lt.Perm lt')
    (hrt : rt.Perm rt') {op : SyncOperation} : Due l r lt rt op ↔ Due l' r' lt' rt' op :=
  ⟨Due.of_perm hl hr hlt hrt, Due.of_perm hl.symm hr.symm hlt.symm hrt.symm⟩

section

variable {l r : Snapshot} (hl : l.paths.Nodup) (hr : r.paths.Nodup) (lt rt : List Tombstone)
  (o : PathOrder l r)

include hl hr

theorem mem_reconcile_uploads (op : SyncOperation) :
    op ∈ (reconcile l r lt rt o).uploads ↔ op.isUpload = true ∧ Due l r lt rt op := by
  rw [reconcile_uploads, List.mem_filter, mem_operations hl hr, and_comm]

theorem mem_reconcile_downloads (op : SyncOperation) :
    op ∈ (reconcile l r lt rt o).downloads ↔ op.isDownload = true ∧ Due l r lt rt op := by
  rw [reconcile_downloads, List.mem_filter, mem_operations hl hr, and_comm]

theorem mem_reconcile_conflicts (op : SyncOperation) :
    op ∈ (reconcile l r lt rt o).conflicts ↔ op.isConflict = true ∧ Due l r lt rt op := by
  rw [reconcile_conflicts, List.mem_filter, mem_operations hl hr, and_comm]

theorem mem_reconcile_paths (p : FilePath) :
    p ∈ (reconcile l r lt rt o).paths ↔ ∃ op, Due l r lt rt op ∧ op.path = p := by
  rw [(reconcile_paths_perm l r lt rt o).mem_iff, List.mem_map]
  simp only [mem_operations hl hr]

/-- Equal content calls for nothing. -/
theorem identical_not_listed {a b : SnapshotEntry} (ha : a ∈ l.entries) (hb : b ∈ r.entries)
    (hpath : b.path = a.path) (hhash : a.hash = b.hash) :
    a.path ∉ (reconcile l r lt rt o).paths := by
  rw [mem_reconcile_paths hl hr]
  rintro ⟨op, hop, hp⟩
  have hsome : operation l r lt rt a.path = some op := (operation_eq_some_iff hl hr).mpr ⟨hop, hp⟩
  have hla : l.lookup a.path = some a := (Snapshot.lookup_eq_some_iff hl).mpr ⟨ha, rfl⟩
  have hrb : r.lookup a.path = some b := (Snapshot.lookup_eq_some_iff hr).mpr ⟨hb, hpath⟩
  simp [operation, hla, hrb, hhash] at hsome

omit hl hr in
theorem operations_distinct : (o.order.filterMap (operation l r lt rt)).Nodup :=
  List.Nodup.of_map _ (operations_nodup o)

/-- The three lists of a plan do not depend on how the input is ordered. -/
theorem reconcile_perm {l' r' : Snapshot} {lt' rt' : List Tombstone} (o' : PathOrder l' r')
    (hll : l.entries.Perm l'.entries) (hrr : r.entries.Perm r'.entries) (hlt : lt.Perm lt')
    (hrt : rt.Perm rt') :
    (reconcile l r lt rt o).uploads.Perm (reconcile l' r' lt' rt' o').uploads ∧
    (reconcile l r lt rt o).downloads.Perm (reconcile l' r' lt' rt' o').downloads ∧
    (reconcile l r lt rt o).conflicts.Perm (reconcile l' r' lt' rt' o').conflicts := by
  have hl' : l'.paths.Nodup := (hll.map SnapshotEntry.path).nodup_iff.mp hl
  have hr' : r'.paths.Nodup := (hrr.map SnapshotEntry.path).nodup_iff.mp hr
  have hops : (o.order.filterMap (operation l r lt rt)).Perm
      (o'.order.filterMap (operation l' r' lt' rt')) := by
    rw [List.perm_ext_iff_of_nodup (operations_distinct lt rt o) (operations_distinct lt' rt' o')]
    intro op
    rw [mem_operations hl hr, mem_operations hl' hr', due_iff_of_perm hll hrr hlt hrt]
  rw [reconcile_uploads, reconcile_uploads, reconcile_downloads, reconcile_downloads,
    reconcile_conflicts, reconcile_conflicts]
  exact ⟨hops.filter _, hops.filter _, hops.filter _⟩

/-- **The plan, exactly.** Each list holds the operations of its kind that are
due, no path stands in two places, and the order of the input does not matter. -/
theorem reconcile_exact :
    (reconcile l r lt rt o).deletes = [] ∧ (reconcile l r lt rt o).paths.Nodup ∧
    (∀ p ∈ (reconcile l r lt rt o).paths, p ∈ l.paths ∨ p ∈ r.paths) ∧
    (∀ a ∈ l.entries, ∀ b ∈ r.entries, b.path = a.path → a.hash = b.hash →
      a.path ∉ (reconcile l r lt rt o).paths) ∧
    (∀ op, op ∈ (reconcile l r lt rt o).uploads ↔ op.isUpload = true ∧ Due l r lt rt op) ∧
    (∀ op, op ∈ (reconcile l r lt rt o).downloads ↔ op.isDownload = true ∧ Due l r lt rt op) ∧
    (∀ op, op ∈ (reconcile l r lt rt o).conflicts ↔ op.isConflict = true ∧ Due l r lt rt op) ∧
    ∀ (l' r' : Snapshot) (lt' rt' : List Tombstone) (o' : PathOrder l' r'),
      l.entries.Perm l'.entries → r.entries.Perm r'.entries → lt.Perm lt' → rt.Perm rt' →
      (reconcile l r lt rt o).uploads.Perm (reconcile l' r' lt' rt' o').uploads ∧
      (reconcile l r lt rt o).downloads.Perm (reconcile l' r' lt' rt' o').downloads ∧
      (reconcile l r lt rt o).conflicts.Perm (reconcile l' r' lt' rt' o').conflicts := by
  refine ⟨reconcile_deletes l r lt rt o, reconcile_paths_nodup l r lt rt o, ?_,
    fun a ha b hb => identical_not_listed hl hr lt rt o ha hb, mem_reconcile_uploads hl hr lt rt o,
    mem_reconcile_downloads hl hr lt rt o, mem_reconcile_conflicts hl hr lt rt o,
    fun l' r' lt' rt' o' => reconcile_perm hl hr lt rt o o'⟩
  intro p hp
  obtain ⟨op, hop, rfl⟩ := (mem_reconcile_paths hl hr lt rt o p).mp hp
  exact hop.path_mem

end

theorem reconcile_exact_deleted :
    let version := FileVersion.single ⟨"dev-1"⟩ 1
    let l : Snapshot := ⟨⟨1⟩, 1, [⟨⟨"del.txt"⟩, .file, 100, sampleBlake3 [97], version, 1000⟩]⟩
    let r : Snapshot := ⟨⟨1⟩, 1, []⟩
    let plan := reconcile l r [] [⟨⟨"del.txt"⟩, ⟨1⟩, ⟨"dev-2"⟩, 2⟩] (.firstSeen l r)
    l.paths.Nodup ∧ r.paths.Nodup ∧ plan.paths.Nodup ∧
      plan.conflicts = [.conflict ⟨"del.txt"⟩ version .new] :=
  ⟨by decide, by decide, (reconcile_exact (by decide) (by decide) _ _ _).2.1, rfl⟩

/-! ### The two decoders of an index -/

section

variable (blake3 : Bytes → FileHash)

/-- A hash of some bytes, `FileHash::from_bytes`. -/
def FileHash.fromBytes (data : Bytes) : FileHash := blake3 data

def fromRemoteIndex (folderId : FolderId) (generation : UInt64) (entries : List IndexEntry) :
    Snapshot where
  folderId := folderId
  generation := generation
  entries := entries.map fun e =>
    { path := ⟨e.path⟩
      kind := .file
      size := e.size
      hash := FileHash.fromBytes blake3 e.hash
      version := .new
      mtime := e.mtime }

/-- What the two decoders are to agree on in an entry. -/
def SnapshotEntry.content (e : SnapshotEntry) : FilePath × ℕ × FileHash × Int64 :=
  (e.path, e.size, e.hash, e.mtime)

/-- A path that both sides have and the plan does not list. -/
def Identical (l r : Snapshot) (o : PathOrder l r) (path : FilePath) : Prop :=
  path ∈ l.paths ∧ path ∈ r.paths ∧ path ∉ (reconcile l r [] [] o).paths

/-- The decoders give the same entries, and no local snapshot tells them apart. -/
def DecodersAgree (folderId : FolderId) (generation : UInt64) (index : Index) : Prop :=
  (fromRemoteIndex blake3 folderId generation index.entries).entries.map SnapshotEntry.content =
    (indexToSnapshot index folderId).entries.map SnapshotEntry.content ∧
  ∀ (l : Snapshot) (o : PathOrder l (fromRemoteIndex blake3 folderId generation index.entries))
    (o' : PathOrder l (indexToSnapshot index folderId)) (path : FilePath),
    Identical l _ o path ↔ Identical l _ o' path

end

theorem mem_paths_iff_operation {l r : Snapshot} {lt rt : List Tombstone} (o : PathOrder l r)
    (p : FilePath) :
    p ∈ (reconcile l r lt rt o).paths ↔ ∃ op, operation l r lt rt p = some op := by
  rw [(reconcile_paths_perm l r lt rt o).mem_iff, List.mem_map]
  constructor
  · rintro ⟨op, hop, rfl⟩
    obtain ⟨p, -, hp⟩ := List.mem_filterMap.mp hop
    rw [operation_path hp]
    exact ⟨op, hp⟩
  · rintro ⟨op, hop⟩
    have hp := operation_path hop
    refine ⟨op, List.mem_filterMap.mpr ⟨p, (o.mem_iff p).mpr ?_, hop⟩, hp⟩
    rw [← hp]
    exact (due_of_operation hop).path_mem

/-- Identical is what has the same hash on both sides. -/
theorem identical_iff {l r : Snapshot} (o : PathOrder l r) (p : FilePath) :
    Identical l r o p ↔
      ∃ a b, l.lookup p = some a ∧ r.lookup p = some b ∧ a.hash = b.hash := by
  rw [Identical, mem_paths_iff_operation, ← Snapshot.lookup_isSome, ← Snapshot.lookup_isSome]
  constructor
  · rintro ⟨hl, hr, hop⟩
    obtain ⟨a, ha⟩ := Option.isSome_iff_exists.mp hl
    obtain ⟨b, hb⟩ := Option.isSome_iff_exists.mp hr
    refine ⟨a, b, ha, hb, ?_⟩
    by_contra hhash
    apply hop
    simp only [operation, ha, hb, hhash, if_false]
    split_ifs <;> exact ⟨_, rfl⟩
  · rintro ⟨a, b, ha, hb, hhash⟩
    refine ⟨by rw [ha]; rfl, by rw [hb]; rfl, ?_⟩
    rintro ⟨op, hop⟩
    simp [operation, ha, hb, hhash] at hop

/-- Snapshots that agree in path and hash entry by entry give the same hash for
each path. -/
theorem lookup_hash_congr {r r' : Snapshot}
    (h : r.entries.map SnapshotEntry.content = r'.entries.map SnapshotEntry.content) (p : FilePath) :
    (r.lookup p).map (·.hash) = (r'.lookup p).map (·.hash) := by
  have hfind : ∀ s : Snapshot, (s.lookup p).map (·.hash) =
      ((s.entries.map SnapshotEntry.content).reverse.find? fun x => x.1 = p).map (·.2.2.1) := by
    intro s
    rw [← List.map_reverse, List.find?_map, Option.map_map]
    rfl
  rw [hfind, hfind, h]

theorem identical_congr {l r r' : Snapshot}
    (h : r.entries.map SnapshotEntry.content = r'.entries.map SnapshotEntry.content)
    (o : PathOrder l r) (o' : PathOrder l r') (p : FilePath) :
    Identical l r o p ↔ Identical l r' o' p := by
  have hhash := lookup_hash_congr h p
  rw [identical_iff, identical_iff]
  constructor
  · rintro ⟨a, b, ha, hb, heq⟩
    rw [hb, Option.map_some] at hhash
    obtain ⟨b', hb', hbb⟩ := Option.map_eq_some_iff.mp hhash.symm
    exact ⟨a, b', ha, hb', heq.trans hbb.symm⟩
  · rintro ⟨a, b, ha, hb, heq⟩
    rw [hb, Option.map_some] at hhash
    obtain ⟨b', hb', hbb⟩ := Option.map_eq_some_iff.mp hhash
    exact ⟨a, b', ha, hb', heq.trans hbb.symm⟩

/-- A vector of 32 bytes is the hash it is copied to. -/
theorem FileHash.ofVec_bytes_eq {h : Bytes} (hlen : h.length = 32) : (FileHash.ofVec h).bytes = h := by
  simp [FileHash.ofVec, hlen, List.take_of_length_le]

/-- **The two decoders of an index agree** exactly where each hash is its own. -/
theorem decoders_agree_iff (blake3 : Bytes → FileHash) (folderId : FolderId) (generation : UInt64)
    (index : Index) (hlen : ∀ e ∈ index.entries, e.hash.length = 32) :
    DecodersAgree blake3 folderId generation index ↔
      ∀ e ∈ index.entries, (blake3 e.hash).bytes = e.hash := by
  have hentry : ∀ e ∈ index.entries, (blake3 e.hash).bytes = e.hash ↔
      blake3 e.hash = FileHash.ofVec e.hash := by
    intro e he
    constructor
    · intro h
      rw [← FileHash.ofVec_bytes (blake3 e.hash), h]
    · intro h
      rw [h, FileHash.ofVec_bytes_eq (hlen e he)]
  have hmap : (fromRemoteIndex blake3 folderId generation index.entries).entries.map
        SnapshotEntry.content =
      (indexToSnapshot index folderId).entries.map SnapshotEntry.content ↔
      ∀ e ∈ index.entries, (blake3 e.hash).bytes = e.hash := by
    rw [fromRemoteIndex, indexToSnapshot, List.map_map, List.map_map, List.map_inj_left]
    refine forall₂_congr fun e he => ?_
    rw [hentry e he]
    simp [SnapshotEntry.content, snapshotEntry, FileHash.fromBytes]
  rw [← hmap]
  constructor
  · exact fun h => h.1
  · exact fun h => ⟨h, fun l o o' p => identical_congr h o o' p⟩

/-- The index of a folder with an empty file. -/
def emptyFileIndex : Index where
  folderId := "music"
  deviceId := "laptop"
  remotePath := none
  entries := [⟨"f", 0, 0, 1000, 0, (sampleBlake3 []).bytes⟩]

/-- BLAKE3, with its value at the hash of the empty file too. -/
def hashedBlake3 (data : Bytes) : FileHash :=
  if data = (sampleBlake3 []).bytes then
    FileHash.ofVec [130, 135, 142, 216, 164, 128, 238, 65, 119, 86, 54, 130, 14, 5, 169, 52, 202,
      92, 116, 114, 35, 202, 100, 48, 102, 88, 238, 89, 130, 230, 194, 39]
  else sampleBlake3 data

theorem decoders_agree_iff_file :
    (∀ e ∈ emptyFileIndex.entries, e.hash.length = 32) ∧
    (DecodersAgree hashedBlake3 ⟨1⟩ 5 emptyFileIndex ↔
      ∀ e ∈ emptyFileIndex.entries, (hashedBlake3 e.hash).bytes = e.hash) :=
  ⟨by decide +kernel, decoders_agree_iff hashedBlake3 ⟨1⟩ 5 emptyFileIndex (by decide +kernel)⟩

/-- An empty file that both sides have: of the two snapshots decoded from the
peer's index only one has its hash. -/
theorem decoders_differ :
    ¬∀ index : Index, (∀ e ∈ index.entries, e.hash.length = 32) →
      DecodersAgree hashedBlake3 ⟨1⟩ 5 index := by
  intro h
  have hagree := (h emptyFileIndex (by decide +kernel)).1
  revert hagree
  decide +kernel

end FerriSync
