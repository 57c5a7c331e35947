/-
# The two plans of a session

Both ends of a session reconcile the two indexes, each with its own as the
local side, and read from the plan which files to send and which to expect
(`session.rs`: `run_sync_session` and `handle_server_session` after the index
exchange). No tombstones are exchanged. A conflict goes from the server to
the client: the client counts it among its pulls, the server among its
pushes.

The two computations agree (`plans_mirror`): what one side sends is what the
other waits for, in some order.

Key definitions: `clientPlan`, `serverPlan`.
Key theorems: `toPush_perm`, `toPull_perm`, `plans_mirror`.
-/
import FerriSync.Orchestrator
import FerriSync.Reconciler

namespace FerriSync

/-- The entry of an index that an upload names. -/
def uploadEntry (entries : List IndexEntry) : SyncOperation → Option IndexEntry
  | .upload path _ _ => entries.find? fun e => e.path = path.val
  | _ => none

/-- The entry of an index that a download names. -/
def downloadEntry (entries : List IndexEntry) : SyncOperation → Option IndexEntry
  | .download path _ _ => entries.find? fun e => e.path = path.val
  | _ => none

/-- The entry of an index that an operation names, of whatever kind. -/
def operationEntry (entries : List IndexEntry) (op : SyncOperation) : Option IndexEntry :=
  entries.find? fun e => e.path = op.path.val

structure ClientPlan where
  plan : SyncPlan
  toPush : List IndexEntry
  toPull : List IndexEntry

structure ServerPlan where
  plan : SyncPlan
  toPushToClient : List IndexEntry
  clientToPush : List IndexEntry

/-- The client's plan from its own index and the one it received. -/
def clientPlan (own remote : Index) (folder : FolderId)
    (paths : PathOrder (indexToSnapshot own folder) (indexToSnapshot remote folder)) : ClientPlan :=
  let plan := reconcile (indexToSnapshot own folder) (indexToSnapshot remote folder) [] [] paths
  { plan := plan
    toPush := plan.uploads.filterMap (uploadEntry own.entries)
    toPull := plan.downloads.filterMap (downloadEntry remote.entries) ++
      plan.conflicts.filterMap (operationEntry remote.entries) }

/-- The server's plan from its own index and the one it received. -/
def serverPlan (own remote : Index) (folder : FolderId)
    (paths : PathOrder (indexToSnapshot own folder) (indexToSnapshot remote folder)) : ServerPlan :=
  let plan := reconcile (indexToSnapshot own folder) (indexToSnapshot remote folder) [] [] paths
  { plan := plan
    toPushToClient := plan.uploads.filterMap (uploadEntry own.entries) ++
      plan.conflicts.filterMap (operationEntry own.entries)
    clientToPush := plan.downloads.filterMap (downloadEntry remote.entries) }

theorem downloadEntry_mirror (entries : List IndexEntry) (op : SyncOperation) :
    downloadEntry entries op.mirror = uploadEntry entries op := by
  cases op <;> rfl

theorem uploadEntry_mirror (entries : List IndexEntry) (op : SyncOperation) :
    uploadEntry entries op.mirror = downloadEntry entries op := by
  cases op <;> rfl

theorem operationEntry_mirror (entries : List IndexEntry) (op : SyncOperation) :
    operationEntry entries op.mirror = operationEntry entries op := by
  simp [operationEntry]

/-- The paths of an order do not depend on the local folder ids. -/
def PathOrder.refolder {a b : Index} {f : FolderId}
    (o : PathOrder (indexToSnapshot a f) (indexToSnapshot b f)) (g : FolderId) :
    PathOrder (indexToSnapshot a g) (indexToSnapshot b g) :=
  ⟨o.order, o.nodup, o.mem_iff⟩

theorem reconcile_refolder {a b : Index} {f : FolderId}
    (o : PathOrder (indexToSnapshot a f) (indexToSnapshot b f)) (g : FolderId) :
    reconcile (indexToSnapshot a g) (indexToSnapshot b g) [] [] (o.refolder g) =
      reconcile (indexToSnapshot a f) (indexToSnapshot b f) [] [] o := rfl

section

variable (c s : Index) (fc fs : FolderId)
  (oc : PathOrder (indexToSnapshot c fc) (indexToSnapshot s fc))
  (os : PathOrder (indexToSnapshot s fs) (indexToSnapshot c fs))

/-- What the client pushes is what the server expects. -/
theorem toPush_perm : (clientPlan c s fc oc).toPush.Perm (serverPlan s c fs os).clientToPush := by
  have h := (reconcile_uploads_mirror [] [] oc (os.refolder fc)).filterMap
    (downloadEntry c.entries)
  rw [List.filterMap_map, reconcile_refolder] at h
  simp only [Function.comp_def, downloadEntry_mirror] at h
  exact h

/-- What the client expects is what the server pushes. -/
theorem toPull_perm : (clientPlan c s fc oc).toPull.Perm (serverPlan s c fs os).toPushToClient := by
  have hd := (reconcile_downloads_mirror [] [] oc (os.refolder fc)).filterMap
    (uploadEntry s.entries)
  have hc := (reconcile_conflicts_mirror [] [] oc (os.refolder fc)).filterMap
    (operationEntry s.entries)
  rw [List.filterMap_map, reconcile_refolder] at hd hc
  simp only [Function.comp_def, uploadEntry_mirror, operationEntry_mirror] at hd hc
  exact hd.append hc

end

/-! ### Conflicts go from the server to the client -/

section

variable {own remote : Index} {folder : FolderId}
  (o : PathOrder (indexToSnapshot own folder) (indexToSnapshot remote folder))

theorem mem_entries_of_lookup {i : Index} {p : FilePath} {e : SnapshotEntry}
    (h : (indexToSnapshot i folder).lookup p = some e) :
    ∃ x, i.entries.find? (fun e => e.path = p.val) = some x ∧ x.path = p.val := by
  have hp := Snapshot.mem_paths_of_lookup h
  simp only [Snapshot.paths, indexToSnapshot, List.map_map, List.mem_map] at hp
  obtain ⟨x, hx, rfl⟩ := hp
  cases hf : i.entries.find? (fun e => e.path = x.path) with
  | none => simpa using List.find?_eq_none.mp hf x hx
  | some y => exact ⟨y, hf, by simpa [snapshotEntry] using List.find?_some hf⟩

/-- Without tombstones only a path that both sides have is a conflict. -/
theorem lookup_of_conflict {l r : Snapshot} {p : FilePath} {op : SyncOperation}
    (h : operation l r [] [] p = some op) (hc : op.isConflict = true) :
    (∃ e, l.lookup p = some e) ∧ ∃ e, r.lookup p = some e := by
  unfold operation at h
  cases hl : l.lookup p <;> cases hr : r.lookup p <;> simp only [hl, hr] at h
  · cases h
  · simp [isDeleted] at h; subst h; cases hc
  · simp [isDeleted] at h; subst h; cases hc
  · exact ⟨⟨_, rfl⟩, ⟨_, rfl⟩⟩

theorem mem_conflicts {op : SyncOperation}
    (h : op ∈ (reconcile (indexToSnapshot own folder) (indexToSnapshot remote folder) [] [] o).conflicts) :
    operation (indexToSnapshot own folder) (indexToSnapshot remote folder) [] [] op.path = some op ∧
      op.isConflict = true := by
  rw [reconcile_conflicts, List.mem_filter, List.mem_filterMap] at h
  obtain ⟨⟨p, -, hp⟩, hc⟩ := h
  exact ⟨by rw [operation_path hp]; exact hp, hc⟩

/-- A conflict's entry is found in either index. -/
theorem conflict_entries {op : SyncOperation}
    (h : op ∈ (reconcile (indexToSnapshot own folder) (indexToSnapshot remote folder) [] [] o).conflicts) :
    (∃ x, operationEntry own.entries op = some x ∧ x.path = op.path.val) ∧
      ∃ x, operationEntry remote.entries op = some x ∧ x.path = op.path.val := by
  obtain ⟨ho, hc⟩ := mem_conflicts o h
  obtain ⟨⟨e, he⟩, e', he'⟩ := lookup_of_conflict ho hc
  exact ⟨mem_entries_of_lookup he, mem_entries_of_lookup he'⟩

/-- A path is uploaded, downloaded or in conflict, not two of these. -/
theorem not_upload_of_conflict {op up : SyncOperation}
    (h : op ∈ (reconcile (indexToSnapshot own folder) (indexToSnapshot remote folder) [] [] o).conflicts)
    (hu : up ∈ (reconcile (indexToSnapshot own folder) (indexToSnapshot remote folder) [] [] o).uploads) :
    up.path ≠ op.path := by
  obtain ⟨ho, hc⟩ := mem_conflicts o h
  rw [reconcile_uploads, List.mem_filter, List.mem_filterMap] at hu
  obtain ⟨⟨p, -, hp⟩, hup⟩ := hu
  intro he
  rw [operation_path hp] at he
  rw [he, ho] at hp
  cases hp
  cases op <;> cases hc
  cases hup

theorem path_of_uploadEntry {entries : List IndexEntry} {op : SyncOperation} {x : IndexEntry}
    (h : uploadEntry entries op = some x) : x.path = op.path.val := by
  cases op with
  | upload p v n => simpa [SyncOperation.path] using List.find?_some h
  | download | delete | conflict => cases h

/-! ### Which files a plan lists -/

theorem path_of_downloadEntry {entries : List IndexEntry} {op : SyncOperation} {x : IndexEntry}
    (h : downloadEntry entries op = some x) : x.path = op.path.val := by
  cases op with
  | download p v n => simpa [SyncOperation.path] using List.find?_some h
  | upload | delete | conflict => cases h

theorem path_of_operationEntry {entries : List IndexEntry} {op : SyncOperation} {x : IndexEntry}
    (h : operationEntry entries op = some x) : x.path = op.path.val := by
  simpa using List.find?_some h

/-- Entries looked up by the path of an operation have the operations' paths. -/
theorem entries_path_sublist (find : SyncOperation → Option IndexEntry)
    (hfind : ∀ op x, find op = some x → x.path = op.path.val) (ops : List SyncOperation) :
    ((ops.filterMap find).map (·.path)).Sublist (ops.map (·.path.val)) := by
  induction ops with
  | nil => exact .slnil
  | cons op ops ih =>
    cases hx : find op with
    | none => simpa [List.filterMap_cons, hx] using ih.cons op.path.val
    | some x => simpa [List.filterMap_cons, hx, hfind op x hx] using ih

theorem operations_path_nodup {l r : Snapshot} (o : PathOrder l r) :
    ((o.order.filterMap (operation l r [] [])).map (·.path.val)).Nodup := by
  have h : ((o.order.filterMap (operation l r [] [])).map (·.path)).Nodup := operations_nodup o
  have hinj : Function.Injective FilePath.val := fun a b hab => by cases a; cases b; cases hab; rfl
  have := h.map hinj
  rwa [List.map_map] at this

/-- A plan lists no file twice to push. -/
theorem toPush_nodup : ((clientPlan own remote folder o).toPush.map (·.path)).Nodup := by
  have hsub : ((clientPlan own remote folder o).toPush.map (·.path)).Sublist
      ((reconcile (indexToSnapshot own folder) (indexToSnapshot remote folder) [] [] o).uploads.map
        (·.path.val)) :=
    entries_path_sublist _ (fun _ _ => path_of_uploadEntry) _
  rw [reconcile_uploads] at hsub
  exact ((operations_path_nodup o).sublist ((List.filter_sublist).map _)).sublist hsub

/-- Nor to pull. -/
theorem toPull_nodup : ((clientPlan own remote folder o).toPull.map (·.path)).Nodup := by
  have hops := operations_path_nodup o
  have hdown := entries_path_sublist (downloadEntry remote.entries)
    (fun _ _ => path_of_downloadEntry)
    (reconcile (indexToSnapshot own folder) (indexToSnapshot remote folder) [] [] o).downloads
  have hconf := entries_path_sublist (operationEntry remote.entries)
    (fun _ _ => path_of_operationEntry)
    (reconcile (indexToSnapshot own folder) (indexToSnapshot remote folder) [] [] o).conflicts
  rw [reconcile_downloads] at hdown
  rw [reconcile_conflicts] at hconf
  simp only [clientPlan, List.map_append]
  rw [reconcile_downloads, reconcile_conflicts]
  refine List.nodup_append.mpr ⟨(hops.sublist ((List.filter_sublist).map _)).sublist hdown,
    (hops.sublist ((List.filter_sublist).map _)).sublist hconf, ?_⟩
  intro a ha b hb hab
  obtain ⟨d, hd, rfl⟩ := List.mem_map.mp (hdown.subset ha)
  obtain ⟨c, hc, rfl⟩ := List.mem_map.mp (hconf.subset hb)
  rw [List.mem_filter] at hd hc
  -- the two are one operation, and of two kinds
  have hdc : d = c := List.inj_on_of_nodup_map hops hd.1 hc.1 hab
  subst hdc
  cases d <;> simp_all [SyncOperation.isDownload, SyncOperation.isConflict]

theorem mem_of_toPull {x : IndexEntry} (h : x ∈ (clientPlan own remote folder o).toPull) :
    x ∈ remote.entries := by
  rcases List.mem_append.mp h with h | h
  · obtain ⟨op, -, hx⟩ := List.mem_filterMap.mp h
    cases op with
    | download p v n => exact List.mem_of_find?_eq_some hx
    | upload | delete | conflict => cases hx
  · obtain ⟨op, -, hx⟩ := List.mem_filterMap.mp h
    exact List.mem_of_find?_eq_some hx

/-- A conflict's path is among the client's pulls and none of its pushes. -/
theorem conflict_pulled {op : SyncOperation} (h : op ∈ (clientPlan own remote folder o).plan.conflicts) :
    (∃ x ∈ (clientPlan own remote folder o).toPull, x.path = op.path.val) ∧
      ∀ x ∈ (clientPlan own remote folder o).toPush, x.path ≠ op.path.val := by
  obtain ⟨-, x, hx, hp⟩ := conflict_entries o h
  refine ⟨⟨x, List.mem_append_right _ (List.mem_filterMap.mpr ⟨op, h, hx⟩), hp⟩, fun y hy he => ?_⟩
  obtain ⟨up, hup, hyu⟩ := List.mem_filterMap.mp hy
  have hpath : up.path.val = op.path.val := (path_of_uploadEntry hyu).symm.trans he
  exact not_upload_of_conflict o h hup (by cases hq : up.path; cases hr : op.path; simp_all)

/-- The paths in conflict are the same on both sides. -/
theorem conflict_swap {c s : Index} {fc fs : FolderId}
    (oc : PathOrder (indexToSnapshot c fc) (indexToSnapshot s fc))
    (os : PathOrder (indexToSnapshot s fs) (indexToSnapshot c fs)) {op : SyncOperation}
    (h : op ∈ (serverPlan s c fs os).plan.conflicts) :
    op.mirror ∈ (clientPlan c s fc oc).plan.conflicts := by
  have hp := reconcile_conflicts_mirror [] [] (os.refolder fc) oc
  exact hp.mem_iff.mp (List.mem_map_of_mem h)

end

/-- **The two plans are mirror images.** Whatever the tombstones and the orders
in which the paths are visited, the uploads of one side are the downloads of
the other and the conflicts are the same with the versions exchanged. So the
files the client decides to push are those the server expects from it, the
files it expects are those the server pushes, and a conflict goes from the
server to the client in both computations. -/
theorem plans_mirror :
    (∀ (l r : Snapshot) (lt rt : List Tombstone) (o : PathOrder l r) (o' : PathOrder r l),
      ((reconcile l r lt rt o).uploads.map SyncOperation.mirror).Perm
        (reconcile r l rt lt o').downloads ∧
      ((reconcile l r lt rt o).downloads.map SyncOperation.mirror).Perm
        (reconcile r l rt lt o').uploads ∧
      ((reconcile l r lt rt o).conflicts.map SyncOperation.mirror).Perm
        (reconcile r l rt lt o').conflicts) ∧
    ∀ (c s : Index) (fc fs : FolderId)
      (oc : PathOrder (indexToSnapshot c fc) (indexToSnapshot s fc))
      (os : PathOrder (indexToSnapshot s fs) (indexToSnapshot c fs)),
      (clientPlan c s fc oc).toPush.Perm (serverPlan s c fs os).clientToPush ∧
      (clientPlan c s fc oc).toPull.Perm (serverPlan s c fs os).toPushToClient ∧
      ∀ p, ((∃ op ∈ (clientPlan c s fc oc).plan.conflicts, op.path.val = p) ∨
          ∃ op ∈ (serverPlan s c fs os).plan.conflicts, op.path.val = p) →
        (∃ x ∈ (clientPlan c s fc oc).toPull, x.path = p) ∧
        (∃ x ∈ (serverPlan s c fs os).toPushToClient, x.path = p) ∧
        (∀ x ∈ (clientPlan c s fc oc).toPush, x.path ≠ p) ∧
        ∀ x ∈ (serverPlan s c fs os).clientToPush, x.path ≠ p := by
  refine ⟨fun l r lt rt o o' => ⟨reconcile_uploads_mirror lt rt o o',
    reconcile_downloads_mirror lt rt o o', reconcile_conflicts_mirror lt rt o o'⟩, fun c s fc fs oc os => ?_⟩
  have hpush := toPush_perm c s fc fs oc os
  have hpull := toPull_perm c s fc fs oc os
  refine ⟨hpush, hpull, fun p hp => ?_⟩
  have hclient : ∃ op ∈ (clientPlan c s fc oc).plan.conflicts, op.path.val = p := by
    rcases hp with h | ⟨op, hop, rfl⟩
    · exact h
    · exact ⟨op.mirror, conflict_swap oc os hop, by simp⟩
  obtain ⟨op, hop, rfl⟩ := hclient
  obtain ⟨⟨x, hx, hxp⟩, hno⟩ := conflict_pulled oc hop
  exact ⟨⟨x, hx, hxp⟩, ⟨x, hpull.mem_iff.mp hx, hxp⟩, hno, fun y hy => hno y (hpush.mem_iff.mpr hy)⟩

end FerriSync
