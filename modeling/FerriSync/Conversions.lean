/-
# A snapshot over the wire

An index carries one number for an entry's version, the largest of its counters,
and one label for all of them (`snapshotToIndex`). Who receives it reads the number
as that label's counter, and a zero as no counter (`indexToSnapshot`).

So a snapshot arrives as it was sent if and only if it is of files whose versions
have no counter or one, which is positive and the label's (`arrives_iff`). Whatever
an index is read as is of that kind (`labelled_of_index`), and the plans of a
reconciliation do not see the conversions (`reconcile_entries`).

Key definitions: `Labelled`.
Key theorems: `arrives_iff`, `labelled_of_index`, `snapshot_round_trip`.
-/
import FerriSync.Reconciler
import FerriSync.Commit

namespace FerriSync

/-- No counter, or one that is positive and the device's. -/
def FileVersion.Labelled (device : DeviceId) (v : FileVersion) : Prop :=
  v = .new ∨ ∃ n, 0 < n ∧ v = .single device n

/-- The entries are files whose versions are under the label. -/
def Snapshot.Labelled (device : DeviceId) (s : Snapshot) : Prop :=
  ∀ e ∈ s.entries, e.kind = .file ∧ e.version.Labelled device

/-- The number the index carries for a version. -/
def FileVersion.carried (v : FileVersion) : UInt64 := (v.versions.entries.map (·.2)).foldl max 0

theorem carried_new : FileVersion.new.carried = 0 := rfl

theorem carried_single (device : DeviceId) (n : UInt64) : (FileVersion.single device n).carried = n :=
  max_zero_uint64 n

/-- One entry comes back as it was. -/
theorem snapshotEntry_indexEntry_iff {device : DeviceId} {e : SnapshotEntry} :
    snapshotEntry device (indexEntry e) = e ↔ e.kind = .file ∧ e.version.Labelled device := by
  have hentry : snapshotEntry device (indexEntry e) = { e with
      kind := .file
      version := if e.version.carried > 0 then .single device e.version.carried else .new } := by
    simp [snapshotEntry, indexEntry, FileVersion.carried]
  rw [hentry]
  constructor
  · intro h
    have hkind := congrArg SnapshotEntry.kind h
    have hversion := congrArg SnapshotEntry.version h
    refine ⟨hkind.symm, ?_⟩
    dsimp only at hversion
    split_ifs at hversion with hpos
    · exact Or.inr ⟨_, hpos, hversion.symm⟩
    · exact Or.inl hversion.symm
  · rintro ⟨hkind, hnew | ⟨n, hn, hsingle⟩⟩
    · rw [hnew, carried_new, if_neg (by simp), ← hkind, ← hnew]
    · rw [hsingle, carried_single, if_pos hn, ← hkind, ← hsingle]

/-- **What arrives as it was sent**, but for the generation, which is not sent. -/
theorem arrives_iff (s : Snapshot) (folderIdStr device : String) :
    indexToSnapshot (snapshotToIndex s folderIdStr device) s.folderId = { s with generation := 0 } ↔
      s.Labelled ⟨device⟩ := by
  have harrived : indexToSnapshot (snapshotToIndex s folderIdStr device) s.folderId =
      ⟨s.folderId, 0, s.entries.map fun e => snapshotEntry ⟨device⟩ (indexEntry e)⟩ := by
    rw [indexToSnapshot, snapshotToIndex, List.map_map]
    rfl
  rw [harrived]
  calc (⟨s.folderId, 0, s.entries.map fun e => snapshotEntry ⟨device⟩ (indexEntry e)⟩ : Snapshot) =
          { s with generation := 0 }
      ↔ (s.entries.map fun e => snapshotEntry ⟨device⟩ (indexEntry e)) = s.entries.map id := by
        rw [List.map_id]
        simp
    _ ↔ ∀ e ∈ s.entries, snapshotEntry ⟨device⟩ (indexEntry e) = id e := List.map_inj_left
    _ ↔ s.Labelled ⟨device⟩ := forall₂_congr fun e _ => snapshotEntry_indexEntry_iff

/-- What an index is read as has the label of the index. -/
theorem labelled_of_index (index : Index) (folderId : FolderId) :
    (indexToSnapshot index folderId).Labelled ⟨index.deviceId⟩ := by
  intro e he
  obtain ⟨x, -, rfl⟩ := List.mem_map.mp he
  refine ⟨rfl, ?_⟩
  show (if x.localVersion > 0 then FileVersion.single ⟨index.deviceId⟩ x.localVersion
    else .new).Labelled _
  split_ifs with hpos
  · exact Or.inr ⟨_, hpos, rfl⟩
  · exact Or.inl rfl

/-- A plan is made of the entries, path by path. -/
theorem reconcile_entries {l l' r r' : Snapshot} (hl : l'.entries = l.entries)
    (hr : r'.entries = r.entries) (localTombstones remoteTombstones : List Tombstone)
    (o : PathOrder l r) (o' : PathOrder l' r') (horder : o'.order = o.order) :
    reconcile l' r' localTombstones remoteTombstones o' =
      reconcile l r localTombstones remoteTombstones o := by
  have hoperation : ∀ path, operation l' r' localTombstones remoteTombstones path =
      operation l r localTombstones remoteTombstones path := by
    intro path
    unfold operation Snapshot.lookup
    rw [hl, hr]
  unfold reconcile
  simp only [horder, hoperation]

/-- **The conversions are inverse**: a snapshot under a label comes back from the
index, and either side of a reconciliation may be replaced by what comes back.
Everything an index is read as, in particular one that `build_protocol_index` has
made, is such a snapshot. -/
theorem snapshot_round_trip (s : Snapshot) (folderIdStr device : String) (h : s.Labelled ⟨device⟩) :
    indexToSnapshot (snapshotToIndex s folderIdStr device) s.folderId = { s with generation := 0 } ∧
    (∀ (r : Snapshot) (localTombstones remoteTombstones : List Tombstone)
      (o : PathOrder s r)
      (o' : PathOrder (indexToSnapshot (snapshotToIndex s folderIdStr device) s.folderId) r),
      o'.order = o.order → reconcile _ r localTombstones remoteTombstones o' =
        reconcile s r localTombstones remoteTombstones o) ∧
    (∀ (l : Snapshot) (localTombstones remoteTombstones : List Tombstone)
      (o : PathOrder l s)
      (o' : PathOrder l (indexToSnapshot (snapshotToIndex s folderIdStr device) s.folderId)),
      o'.order = o.order → reconcile l _ localTombstones remoteTombstones o' =
        reconcile l s localTombstones remoteTombstones o) ∧
    ∀ (blake3 : Bytes → FileHash) (f : Folder) (folderId : FolderId) (remotePath : Option String),
      (indexToSnapshot ⟨folderIdStr, device, remotePath, buildProtocolIndex blake3 f device⟩
        folderId).Labelled ⟨device⟩ := by
  have hback := (arrives_iff s folderIdStr device).mpr h
  have hentries : (indexToSnapshot (snapshotToIndex s folderIdStr device) s.folderId).entries =
      s.entries := by rw [hback]
  refine ⟨hback, ?_, ?_, ?_⟩
  · intro r localTombstones remoteTombstones o o' horder
    exact reconcile_entries hentries rfl localTombstones remoteTombstones o o' horder
  · intro l localTombstones remoteTombstones o o' horder
    exact reconcile_entries rfl hentries localTombstones remoteTombstones o o' horder
  · intro blake3 f folderId remotePath
    exact labelled_of_index _ folderId

/-- A file without a counter and one with the label's. -/
def sampleSnapshot : Snapshot where
  folderId := ⟨1⟩
  generation := 7
  entries := [⟨⟨"f"⟩, .file, 1, sampleBlake3 [97], .new, 0⟩,
    ⟨⟨"g"⟩, .file, 1, sampleBlake3 [98], .single ⟨"phone"⟩ 5, 5⟩]

theorem snapshot_round_trip_two :
    indexToSnapshot (snapshotToIndex sampleSnapshot "1" "phone") ⟨1⟩ =
      { sampleSnapshot with generation := 0 } := by
  have hlabelled : sampleSnapshot.Labelled ⟨"phone"⟩ := by
    intro e he
    simp only [sampleSnapshot, List.mem_cons, List.not_mem_nil, or_false] at he
    rcases he with rfl | rfl
    · exact ⟨rfl, Or.inl rfl⟩
    · exact ⟨rfl, Or.inr ⟨5, by decide, rfl⟩⟩
  exact (snapshot_round_trip sampleSnapshot "1" "phone" hlabelled).1

end FerriSync
