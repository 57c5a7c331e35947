/-
# What two folders come to

Which copy of each file a session keeps (`Ends.verdict`): the only one, the one
whose version dominates, otherwise the server's; or neither is sent, if the
two hashes agree. The two plans say the same (`mem_toPush_iff`,
`mem_toPushToClient_iff`): the client pushes the files of which its copy is
kept, the server those of which its own is.

Key definitions: `Ends`, `Ends.verdict`, `Ends.chosen`.
Key theorems: `lookup_index`, `mem_toPush_iff`, `mem_toPushToClient_iff`.
-/
import FerriSync.Plan
import FerriSync.Layout
import FerriSync.Session

namespace FerriSync

/-- The two ends of a session, each with its folder. -/
structure Ends where
  client : Config
  server : Config
  clientFolder : Folder
  serverFolder : Folder

/-- Whose copy of a file both ends are to have. -/
inductive Verdict
  | same
  | client
  | server
deriving DecidableEq, Repr

/-- The version an index gives a file, under a device's label. -/
def fileVersion (device : String) (e : FileEntry) : FileVersion :=
  let n := (Int64.ofInt (max 0 e.mtime)).toUInt64
  if n > 0 then .single ⟨device⟩ n else .new

namespace Ends

variable (e : Ends)

/-- The paths of the two folders. -/
def files (u : RelPath) : Prop :=
  (e.clientFolder.entry u).isSome ∨ (e.serverFolder.entry u).isSome

def verdict (u : RelPath) : Verdict :=
  match e.clientFolder.entry u, e.serverFolder.entry u with
  | none, none => .same
  | some _, none => .client
  | none, some _ => .server
  | some a, some b =>
    if e.client.blake3 a.data = e.client.blake3 b.data then .same
    else if (fileVersion e.client.deviceId a).dominates (fileVersion e.server.deviceId b) then .client
    else .server

/-- The paths of which one copy is sent. -/
def moved (u : RelPath) : Prop := e.verdict u ≠ .same

/-- The bytes both ends are to have at a path. -/
def chosen (u : RelPath) : Option Bytes :=
  match e.verdict u with
  | .client => e.clientFolder.content u
  | _ => e.serverFolder.content u

/-- The index each end announces. -/
def clientIndex : Index :=
  ⟨e.client.folderIdStr, e.client.deviceId, e.client.remotePath,
    buildProtocolIndex e.client.blake3 e.clientFolder e.client.deviceId⟩

def serverIndex : Index :=
  ⟨e.server.folderIdStr, e.server.deviceId, none,
    buildProtocolIndex e.server.blake3 e.serverFolder e.server.deviceId⟩

def clientPlan : ClientPlan :=
  FerriSync.clientPlan e.clientIndex e.serverIndex e.client.folderId (e.client.order _ _)

def serverPlan : ServerPlan :=
  FerriSync.serverPlan e.serverIndex e.clientIndex e.server.folderId (e.server.order _ _)

end Ends

theorem Ends.moved_files {e : Ends} {u : RelPath} (h : e.moved u) : e.files u := by
  unfold Ends.moved Ends.verdict at h
  unfold Ends.files
  cases hx : e.clientFolder.entry u with
  | some x => exact Or.inl rfl
  | none =>
    cases hy : e.serverFolder.entry u with
    | some y => exact Or.inr rfl
    | none =>
      rw [hx, hy] at h
      exact absurd rfl h

/-! ### The index of a folder -/

section

variable {blake3 : Bytes → FileHash} {f : Folder} {device : String}

theorem mem_index_of_entry {u : RelPath} {x : FileEntry} (hx : f.entry u = some x)
    (hs : Folder.skipped u = false) :
    fileIndexEntry blake3 u x ∈ buildProtocolIndex blake3 f device := by
  rw [buildProtocolIndex_eq]
  refine List.mem_map.mpr ⟨⟨u, x⟩, List.mem_filter.mpr ⟨AList.mem_lookup_iff.mp hx, ?_⟩, rfl⟩
  simp [hs]

theorem entry_of_mem_index {y : IndexEntry} (hy : y ∈ buildProtocolIndex blake3 f device) :
    ∃ u x, f.entry u = some x ∧ y = fileIndexEntry blake3 u x := by
  rw [buildProtocolIndex_eq] at hy
  obtain ⟨⟨u, x⟩, hmem, rfl⟩ := List.mem_map.mp hy
  exact ⟨u, x, AList.mem_lookup_iff.mpr (List.mem_filter.mp hmem).1, rfl⟩

/-- A folder with files that have names, and none that the scan leaves out. -/
structure Listed (f : Folder) : Prop where
  ne_nil : ∀ u x, f.entry u = some x → u ≠ []
  notSkipped : ∀ u x, f.entry u = some x → Folder.skipped u = false

/-- The entry with a file's path is the file's. -/
theorem entry_of_path (hf : Listed f) {u : RelPath} {x : FileEntry} (hx : f.entry u = some x)
    {y : IndexEntry} (hy : y ∈ buildProtocolIndex blake3 f device) (hp : y.path = render u) :
    y = fileIndexEntry blake3 u x := by
  obtain ⟨u', x', hx', rfl⟩ := entry_of_mem_index hy
  have hu : u' = u := render_injective (hf.ne_nil u' x' hx') (hf.ne_nil u x hx) hp
  subst hu
  rw [hx] at hx'
  cases hx'
  rfl

/-- Finding a path in the index finds the file there. -/
theorem find_index (hf : Listed f) {u : RelPath} (hu : u ≠ []) (es : List IndexEntry)
    (hes : ∀ y, y ∈ es ↔ y ∈ buildProtocolIndex blake3 f device) :
    (es.find? fun y => y.path = render u) = (f.entry u).map (fileIndexEntry blake3 u) := by
  cases hx : f.entry u with
  | none =>
    refine List.find?_eq_none.mpr fun y hy hp => ?_
    obtain ⟨u', x', hx', rfl⟩ := entry_of_mem_index ((hes y).mp hy)
    have hp' : render u' = render u := of_decide_eq_true hp
    rw [render_injective (hf.ne_nil u' x' hx') hu hp', hx] at hx'
    cases hx'
  | some x =>
    cases hfind : es.find? fun y => y.path = render u with
    | none =>
      have hmem : fileIndexEntry blake3 u x ∈ es :=
        (hes _).mpr (mem_index_of_entry hx (hf.notSkipped u x hx))
      exact absurd (decide_eq_true rfl) (List.find?_eq_none.mp hfind _ hmem)
    | some y =>
      have hmem := (hes y).mp (List.mem_of_find?_eq_some hfind)
      have hp : y.path = render u := by simpa using List.find?_some hfind
      rw [entry_of_path hf hx hmem hp]
      rfl

/-- What the reconciler finds at a path. -/
theorem lookup_index (hf : Listed f) {u : RelPath} (hu : u ≠ []) (folderId : String)
    (remotePath : Option String) (folder : FolderId) :
    (indexToSnapshot ⟨folderId, device, remotePath, buildProtocolIndex blake3 f device⟩
      folder).lookup ⟨render u⟩ =
      (f.entry u).map fun x => snapshotEntry ⟨device⟩ (fileIndexEntry blake3 u x) := by
  have hfind := find_index hf hu (buildProtocolIndex blake3 f device).reverse fun _ =>
    List.mem_reverse
  have hpred : ((fun e : SnapshotEntry => decide (e.path = ⟨render u⟩)) ∘ snapshotEntry ⟨device⟩) =
      fun y => decide (y.path = render u) := by
    funext y
    simp [snapshotEntry]
  rw [Snapshot.lookup, indexToSnapshot, ← List.map_reverse, List.find?_map, hpred, hfind,
    Option.map_map]
  rfl

end

/-! ### Which files the plans push -/

section

variable {l r : Snapshot} {p : FilePath}

/-- A file is uploaded if the other side lacks it or has an older version. -/
theorem exists_upload_iff :
    (∃ op, operation l r [] [] p = some op ∧ op.isUpload = true) ↔
      ∃ a, l.lookup p = some a ∧
        ∀ b, r.lookup p = some b → a.hash ≠ b.hash ∧ a.version.dominates b.version = true := by
  unfold operation
  cases l.lookup p with
  | none =>
    cases r.lookup p <;> simp [isDeleted, SyncOperation.isUpload]
  | some a =>
    cases r.lookup p with
    | none => simp [isDeleted, SyncOperation.isUpload]
    | some b =>
      by_cases hh : a.hash = b.hash
      · simp [hh]
      · by_cases hd : a.version.dominates b.version = true
        · simp [hh, hd, SyncOperation.isUpload]
        · by_cases hd' : b.version.dominates a.version = true <;>
            simp [hh, hd, hd', SyncOperation.isUpload]

/-- A file is uploaded or in conflict if the other side lacks it or has
another version, and not a newer one. -/
theorem exists_upload_or_conflict_iff :
    (∃ op, operation l r [] [] p = some op ∧ (op.isUpload = true ∨ op.isConflict = true)) ↔
      ∃ a, l.lookup p = some a ∧
        ∀ b, r.lookup p = some b → a.hash ≠ b.hash ∧ b.version.dominates a.version = false := by
  unfold operation
  cases l.lookup p with
  | none =>
    cases r.lookup p <;> simp [isDeleted, SyncOperation.isUpload, SyncOperation.isConflict]
  | some a =>
    cases r.lookup p with
    | none => simp [isDeleted, SyncOperation.isUpload]
    | some b =>
      by_cases hh : a.hash = b.hash
      · simp [hh]
      · by_cases hd : a.version.dominates b.version = true
        · simp [hh, hd, FileVersion.dominates_asymm hd, SyncOperation.isUpload]
        · by_cases hd' : b.version.dominates a.version = true <;>
            simp [hh, hd, hd', SyncOperation.isUpload, SyncOperation.isConflict]

theorem mem_order_of_operation {op : SyncOperation} (o : PathOrder l r)
    (h : operation l r [] [] p = some op) : p ∈ o.order := by
  rw [o.mem_iff]
  unfold operation at h
  cases hl : l.lookup p with
  | some a => exact Or.inl (Snapshot.mem_paths_of_lookup hl)
  | none =>
    cases hr : r.lookup p with
    | some b => exact Or.inr (Snapshot.mem_paths_of_lookup hr)
    | none =>
      rw [hl, hr] at h
      cases h

end

section

variable {own remote : Index} {folder : FolderId}
  (o : PathOrder (indexToSnapshot own folder) (indexToSnapshot remote folder))

theorem mem_toPush_iff_operation (y : IndexEntry) :
    y ∈ (clientPlan own remote folder o).toPush ↔ ∃ p : FilePath,
      (∃ op, operation (indexToSnapshot own folder) (indexToSnapshot remote folder) [] [] p = some op ∧
        op.isUpload = true) ∧ (own.entries.find? fun e => e.path = p.val) = some y := by
  rw [clientPlan, List.mem_filterMap]
  constructor
  · rintro ⟨op, hop, hy⟩
    rw [reconcile_uploads, List.mem_filter, List.mem_filterMap] at hop
    obtain ⟨⟨p, -, hp⟩, hup⟩ := hop
    refine ⟨p, ⟨op, hp, hup⟩, ?_⟩
    cases op with
    | upload q v n =>
      have hq : q = p := operation_path hp
      rw [← hq]
      exact hy
    | download | delete | conflict => cases hup
  · rintro ⟨p, ⟨op, hop, hup⟩, hy⟩
    refine ⟨op, ?_, ?_⟩
    · rw [reconcile_uploads, List.mem_filter, List.mem_filterMap]
      exact ⟨⟨p, mem_order_of_operation o hop, hop⟩, hup⟩
    · cases op with
      | upload q v n =>
        have hq : q = p := operation_path hop
        rw [← hq] at hy
        exact hy
      | download | delete | conflict => cases hup

theorem mem_toPushToClient_iff_operation (y : IndexEntry) :
    y ∈ (serverPlan own remote folder o).toPushToClient ↔ ∃ p : FilePath,
      (∃ op, operation (indexToSnapshot own folder) (indexToSnapshot remote folder) [] [] p = some op ∧
        (op.isUpload = true ∨ op.isConflict = true)) ∧
      (own.entries.find? fun e => e.path = p.val) = some y := by
  have hup := mem_toPush_iff_operation o y
  rw [clientPlan] at hup
  dsimp only at hup
  rw [serverPlan, List.mem_append, hup, List.mem_filterMap]
  constructor
  · rintro (⟨p, ⟨op, hop, hu⟩, hy⟩ | ⟨op, hop, hy⟩)
    · exact ⟨p, ⟨op, hop, Or.inl hu⟩, hy⟩
    · rw [reconcile_conflicts, List.mem_filter, List.mem_filterMap] at hop
      obtain ⟨⟨p, -, hp⟩, hc⟩ := hop
      refine ⟨p, ⟨op, hp, Or.inr hc⟩, ?_⟩
      rw [operationEntry, operation_path hp] at hy
      exact hy
  · rintro ⟨p, ⟨op, hop, hu | hc⟩, hy⟩
    · exact Or.inl ⟨p, ⟨op, hop, hu⟩, hy⟩
    · refine Or.inr ⟨op, ?_, ?_⟩
      · rw [reconcile_conflicts, List.mem_filter, List.mem_filterMap]
        exact ⟨⟨p, mem_order_of_operation o hop, hop⟩, hc⟩
      · rw [operationEntry, operation_path hop]
        exact hy

end

/-! ### The verdict and the plans -/

/-- What the reconciler reads of a file. -/
theorem snapshotEntry_hash (device : String) (blake3 : Bytes → FileHash) (u : RelPath) (x : FileEntry) :
    (snapshotEntry ⟨device⟩ (fileIndexEntry blake3 u x)).hash = blake3 x.data := by
  simp [snapshotEntry, fileIndexEntry]

theorem snapshotEntry_version (device : String) (blake3 : Bytes → FileHash) (u : RelPath)
    (x : FileEntry) :
    (snapshotEntry ⟨device⟩ (fileIndexEntry blake3 u x)).version = fileVersion device x := rfl

namespace Ends

variable {e : Ends} (hclient : Listed e.clientFolder) (hserver : Listed e.serverFolder)
  (hash : e.server.blake3 = e.client.blake3) (folder : FolderId) {u : RelPath} (hu : u ≠ [])

include hclient hu in
theorem client_lookup : (indexToSnapshot e.clientIndex folder).lookup ⟨render u⟩ =
    (e.clientFolder.entry u).map fun x =>
      snapshotEntry ⟨e.client.deviceId⟩ (fileIndexEntry e.client.blake3 u x) :=
  lookup_index hclient hu _ _ _

include hserver hu in
theorem server_lookup : (indexToSnapshot e.serverIndex folder).lookup ⟨render u⟩ =
    (e.serverFolder.entry u).map fun x =>
      snapshotEntry ⟨e.server.deviceId⟩ (fileIndexEntry e.server.blake3 u x) :=
  lookup_index hserver hu _ _ _

include hclient hserver hash hu in
/-- The client's upload is the verdict for the client. -/
theorem upload_iff_verdict :
    (∃ op, operation (indexToSnapshot e.clientIndex folder) (indexToSnapshot e.serverIndex folder) [] []
      ⟨render u⟩ = some op ∧ op.isUpload = true) ↔ e.verdict u = .client := by
  rw [exists_upload_iff, client_lookup hclient folder hu, server_lookup hserver folder hu, hash, verdict]
  cases e.clientFolder.entry u with
  | none => cases e.serverFolder.entry u <;> simp
  | some a =>
    cases e.serverFolder.entry u with
    | none => simp
    | some b =>
      simp only [Option.map_some, Option.some.injEq, exists_eq_left', forall_eq', snapshotEntry_hash,
        snapshotEntry_version]
      by_cases hh : e.client.blake3 a.data = e.client.blake3 b.data
      · simp [hh]
      · by_cases hd : (fileVersion e.client.deviceId a).dominates
            (fileVersion e.server.deviceId b) = true <;> simp [hh, hd]

include hclient hserver hash hu in
/-- The server's upload or conflict is the verdict for the server. -/
theorem upload_or_conflict_iff_verdict :
    (∃ op, operation (indexToSnapshot e.serverIndex folder) (indexToSnapshot e.clientIndex folder) [] []
      ⟨render u⟩ = some op ∧ (op.isUpload = true ∨ op.isConflict = true)) ↔ e.verdict u = .server := by
  rw [exists_upload_or_conflict_iff, client_lookup hclient folder hu, server_lookup hserver folder hu,
    hash, verdict]
  cases e.clientFolder.entry u with
  | none => cases e.serverFolder.entry u <;> simp
  | some a =>
    cases e.serverFolder.entry u with
    | none => simp
    | some b =>
      simp only [Option.map_some, Option.some.injEq, exists_eq_left', forall_eq', snapshotEntry_hash,
        snapshotEntry_version]
      by_cases hh : e.client.blake3 a.data = e.client.blake3 b.data
      · simp [hh]
      · by_cases hd : (fileVersion e.client.deviceId a).dominates
            (fileVersion e.server.deviceId b) = true <;> simp [hh, Ne.symm hh, hd]

include hclient hserver hash

/-- **The client pushes the files of which its copy is kept.** -/
theorem mem_toPush_iff (y : IndexEntry) :
    y ∈ e.clientPlan.toPush ↔ ∃ u x, e.verdict u = .client ∧ e.clientFolder.entry u = some x ∧
      y = fileIndexEntry e.client.blake3 u x := by
  rw [Ends.clientPlan, mem_toPush_iff_operation]
  constructor
  · rintro ⟨⟨p⟩, hop, hfind⟩
    obtain ⟨u, x, hx, rfl⟩ := entry_of_mem_index (List.mem_of_find?_eq_some hfind)
    have hp := List.find?_some hfind
    obtain rfl : render u = p := of_decide_eq_true hp
    exact ⟨u, x, (upload_iff_verdict hclient hserver hash _ (hclient.ne_nil u x hx)).mp hop, hx, rfl⟩
  · rintro ⟨u, x, hv, hx, rfl⟩
    have hne := hclient.ne_nil u x hx
    refine ⟨⟨render u⟩, (upload_iff_verdict hclient hserver hash _ hne).mpr hv, ?_⟩
    have hfind := find_index hclient hne e.clientIndex.entries fun _ => Iff.rfl
    rw [hfind, hx]
    rfl

/-- **The server pushes the files of which its copy is kept.** -/
theorem mem_toPushToClient_iff (y : IndexEntry) :
    y ∈ e.serverPlan.toPushToClient ↔ ∃ u x, e.verdict u = .server ∧
      e.serverFolder.entry u = some x ∧ y = fileIndexEntry e.server.blake3 u x := by
  rw [Ends.serverPlan, mem_toPushToClient_iff_operation]
  constructor
  · rintro ⟨⟨p⟩, hop, hfind⟩
    obtain ⟨u, x, hx, rfl⟩ := entry_of_mem_index (List.mem_of_find?_eq_some hfind)
    have hp := List.find?_some hfind
    obtain rfl : render u = p := of_decide_eq_true hp
    exact ⟨u, x, (upload_or_conflict_iff_verdict hclient hserver hash _
      (hserver.ne_nil u x hx)).mp hop, hx, rfl⟩
  · rintro ⟨u, x, hv, hx, rfl⟩
    have hne := hserver.ne_nil u x hx
    refine ⟨⟨render u⟩, (upload_or_conflict_iff_verdict hclient hserver hash _ hne).mpr hv, ?_⟩
    have hfind := find_index hserver hne e.serverIndex.entries fun _ => Iff.rfl
    rw [hfind, hx]
    rfl

end Ends

end FerriSync
