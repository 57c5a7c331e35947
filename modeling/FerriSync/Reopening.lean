/-
# Opening a database again

`Storage::open` looks for databases of older versions each time: it gives every folder
a pair with the device in its row, an identifier and a name, if it has none. But a
folder that is up to date can look like an old one: its first device may have been
detached or replaced, its name may have been set to nothing, and a peer may have sent
an empty identifier. Everything else is left as it is (`reopening_keeps_iff`).

Key definitions: `SameFolders`, `Settled`.
Key theorems: `reopening_keeps_iff`.
-/
import FerriSync.Database

namespace FerriSync

namespace Database

/-- The folders, with their identifiers and names, and which devices are attached to
them. -/
structure SameFolders (db db' : Database) : Prop where
  folders : db'.syncFolders = db.syncFolders
  pairs : ∀ k, k ∈ db'.pairKeys ↔ k ∈ db.pairKeys

/-- The folder does not look like one of an older version: the device in its row is
attached to it, and it has an identifier and a name. A folder at the empty path has
the empty name. -/
structure Settled (db : Database) (f : SyncFolderRow) : Prop where
  paired : (f.id, f.deviceId) ∈ db.pairKeys
  identified : f.folderGuid ≠ none ∧ f.folderGuid ≠ some ""
  named : f.name ≠ none ∧ (f.name = some "" → Storage.pathLabel f.localPath = "")

end Database

section

variable {blake3 : Bytes → FileHash} {processId : ℕ} {db : Database}

open Database

/-- An identifier that is made is not empty. -/
theorem newFolderGuid_ne (folderId : ℕ) : newFolderGuid blake3 processId folderId ≠ "" := by
  intro h
  have hlist := congrArg String.toList h
  unfold newFolderGuid at hlist
  rw [String.toList_append] at hlist
  simp at hlist

/-- The row is kept where it has an identifier and a name. -/
theorem migrated_iff (f : SyncFolderRow) : deriveName (mintGuid blake3 processId f) = f ↔
    (f.folderGuid ≠ none ∧ f.folderGuid ≠ some "") ∧ f.name ≠ none ∧
      (f.name = some "" → Storage.pathLabel f.localPath = "") := by
  have hguid : (deriveName (mintGuid blake3 processId f)).folderGuid =
      (mintGuid blake3 processId f).folderGuid := by
    unfold deriveName
    split <;> rfl
  by_cases hid : f.folderGuid = none ∨ f.folderGuid = some ""
  · have hminted : (mintGuid blake3 processId f).folderGuid =
        some (newFolderGuid blake3 processId f.id) := by
      unfold mintGuid
      rw [if_pos hid]
    constructor
    · intro h
      exfalso
      rw [h, hminted] at hguid
      rcases hid with hid | hid
      · rw [hid] at hguid
        cases hguid
      · rw [hid] at hguid
        exact newFolderGuid_ne f.id (Option.some.inj hguid).symm
    · rintro ⟨⟨hnone, hempty⟩, _⟩
      exact absurd hid (not_or.mpr ⟨hnone, hempty⟩)
  · have hkeep : mintGuid blake3 processId f = f := if_neg hid
    rw [hkeep]
    unfold deriveName
    by_cases hname : f.name = none ∨ f.name = some ""
    · rw [if_pos hname]
      constructor
      · intro h
        have hlabel : some (Storage.pathLabel f.localPath) = f.name := congrArg SyncFolderRow.name h
        refine ⟨not_or.mp hid, ?_, fun hempty => ?_⟩
        · rw [← hlabel]
          simp
        · rw [hempty] at hlabel
          exact Option.some.inj hlabel
      · rintro ⟨_, hsome, hlabel⟩
        have hempty : f.name = some "" := hname.resolve_left hsome
        rw [hlabel hempty, ← hempty]
    · rw [if_neg hname]
      exact ⟨fun _ => ⟨not_or.mp hid, (not_or.mp hname).1, fun h => absurd (Or.inr h) hname⟩, fun _ => rfl⟩

theorem map_eq_self_iff {α : Type} {g : α → α} {rows : List α} :
    rows.map g = rows ↔ ∀ r ∈ rows, g r = r := by
  have hid : rows.map id = rows := List.map_id rows
  constructor
  · intro h
    exact List.map_inj_left.mp (h.trans hid.symm)
  · intro h
    exact (List.map_congr_left h).trans hid

/-- **Opening a database again leaves the folders and their pairs as they are exactly if
none looks like one of an older version.** -/
theorem reopening_keeps_iff (blake3 : Bytes → FileHash) (processId : ℕ) (s : DbState) :
    SameFolders s.val (s.val.reopen blake3 processId) ↔ ∀ f ∈ s.val.syncFolders, s.val.Settled f := by
  obtain ⟨_, ⟨pairs, heq⟩, hkeys⟩ := backfill_spec (List.Subset.refl s.val.syncFolders) s.valid
  have hreopen : s.val.reopen blake3 processId = { s.val with
      folderDevices := pairs
      syncFolders := s.val.syncFolders.map fun f => deriveName (mintGuid blake3 processId f) } := by
    show ({ s.val.syncFolders.foldl backfillPair s.val with syncFolders := _ } : Database) = _
    unfold backfillPairs
    rw [heq]
  have hpairs : (s.val.reopen blake3 processId).pairKeys =
      (s.val.syncFolders.foldl backfillPair s.val).pairKeys := by
    rw [hreopen, heq]
    rfl
  constructor
  · rintro ⟨hfolders, hsame⟩ f hf
    have hmigrated : deriveName (mintGuid blake3 processId f) = f := by
      rw [hreopen] at hfolders
      exact map_eq_self_iff.mp hfolders f hf
    obtain ⟨hid, hname⟩ := (migrated_iff f).mp hmigrated
    refine ⟨(hsame _).mp ?_, hid, hname⟩
    rw [hpairs]
    exact (hkeys _).mpr (Or.inr ⟨f, hf, rfl⟩)
  · intro h
    refine ⟨?_, fun k => ?_⟩
    · rw [hreopen]
      exact map_eq_self_iff.mpr fun f hf =>
        (migrated_iff f).mpr ⟨(h f hf).identified, (h f hf).named⟩
    · rw [hpairs, hkeys]
      constructor
      · rintro (hk | ⟨f, hf, rfl⟩)
        · exact hk
        · exact (h f hf).paired
      · exact Or.inl

/-- A folder is attached to two devices, then the first is detached. -/
def detached : List StorageOp :=
  [.upsertDevice "laptop" "Laptop" none none, .upsertDevice "phone" "Phone" none none,
    .addSyncFolder "/home/music" "laptop" "bidirectional",
    .addFolderDevice 1 "phone" "bidirectional" none, .removeFolderDevice 1 "laptop"]

/-- **Opening a database again brings a detached device back.** -/
theorem reopening_reattaches : ¬ ∀ (ops : List StorageOp) (processId : ℕ),
    let h := (Host.new 1).run sampleBlake3 ops
    SameFolders h.db.val (h.db.val.reopen sampleBlake3 processId) := by
  intro hkeeps
  have hpair : (1, "laptop") ∈ (((Host.new 1).run sampleBlake3 detached).db.val.reopen
      sampleBlake3 2).pairKeys := by decide +kernel
  have hgone : (1, "laptop") ∉ ((Host.new 1).run sampleBlake3 detached).db.val.pairKeys := by
    decide +kernel
  exact hgone (((hkeeps detached 2).pairs _).mp hpair)

end

end FerriSync
