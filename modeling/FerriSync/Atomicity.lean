/-
# Failing statements

Which operations leave the database as it was when they fail. `remove_folder_device`
and `remove_device` run in a transaction, and always do. The others commit a part of
their statements before one that can fail: `remove_sync_folder_by_id` the deletion of
the pairs, `wire_folder_pair` the folder, `reconcile_devices_by_cert` every rename. They
do so exactly if the one does not fail, or nothing has changed before it
(`mutation_atomic_iff`).

Key definitions: `StopsUnchanged`, `Mutation`, `Mutation.AllOrNothing`.
Key theorems: `mutation_atomic_iff`.
-/
import FerriSync.Reconciliation
import FerriSync.Wiring

namespace FerriSync

open Transactions

namespace Database

/-- The renames come to a stop before they have changed an identifier, or they come to
their end: then the deletions do, before one has met a row, and no identifier has been
changed either, or these come to their end too. -/
structure StopsUnchanged (db : Database) (olds : List (String × String)) : Prop where
  renames : ∀ before c after j, DeviceColumn.all = before ++ c :: after →
    (∀ b ∈ before, ∀ i, db.Renamable (renamed (olds.take i)) b) → db.StopsAt olds c j →
    (∀ b ∈ before, ∀ id ∈ db.columnIds b, renamed olds id = id) ∧
      ∀ id ∈ db.columnIds c, renamed (olds.take j) id = id
  deletions : (∀ c j, db.Renamable (renamed (olds.take j)) c) → ∀ j,
    (∀ id, db.Referred id → renamed olds id ∉ (olds.take j).map Prod.fst) →
    (∃ id, db.Referred id ∧ renamed olds id ∈ (olds.take (j + 1)).map Prod.fst) →
    (∀ c, ∀ id ∈ db.columnIds c, renamed olds id = id) ∧
      ∀ id ∈ (olds.take j).map Prod.fst, id ∉ db.deviceIds

/-- The peer has a row, or no folder is changed for it: the folder at the path has the
guid already, or cannot get it because both guids are shared; there is no such folder
but one of the guid; or there is none and no row for the device itself either. -/
def WiresNothingHalf (db : Database) (guid localPath ownDeviceId peerDeviceId : String) : Prop :=
  peerDeviceId ∈ db.deviceIds ∨
    match db.syncFolders.find? fun f => decide (f.localPath = localPath) with
    | some wired => wired.folderGuid = some guid ∨ ∃ oldGuid, wired.folderGuid = some oldGuid ∧
        (∃ s ∈ db.sharedFolders, s.deviceId = ownDeviceId ∧ s.folderGuid = oldGuid) ∧
        ∃ s ∈ db.sharedFolders, s.deviceId = ownDeviceId ∧ s.folderGuid = guid
    | none => (db.folderByGuid guid).isSome = true ∨ ownDeviceId ∉ db.deviceIds

end Database

open Database

/-- One of the operations with its arguments. -/
inductive Mutation
  | reconcileDevicesByCert (order : IterationOrder) (certDer : Bytes) (legacySelfId : Option String)
      (ownName : String)
  | wireFolderPair (guid localPath name ownDeviceId peerDeviceId : String) (peerPath : Option String)
  | removeSyncFolderById (folderId : ℕ)
  | removeFolderDevice (folderId : ℕ) (deviceId : String)
  | removeDevice (deviceId : String)

namespace Mutation

variable (blake3 : Bytes → FileHash)

def statements : Mutation → Sql Unit
  | reconcileDevicesByCert order certDer legacySelfId ownName =>
    Database.reconcileDevicesByCert blake3 order certDer legacySelfId ownName
  | wireFolderPair guid localPath name ownDeviceId peerDeviceId peerPath =>
    discard (Database.wireFolderPair guid localPath name ownDeviceId peerDeviceId peerPath)
  | removeSyncFolderById folderId => Database.removeSyncFolderById folderId
  | removeFolderDevice folderId deviceId => discard (Database.removeFolderDevice folderId deviceId)
  | removeDevice deviceId => discard (Database.removeDevice deviceId)

/-- It succeeds, or nothing has changed before what fails. -/
def AllOrNothing (db : Database) : Mutation → Prop
  | reconcileDevicesByCert order certDer legacySelfId _ =>
    db.StopsUnchanged (oldNames blake3 order certDer legacySelfId db)
  | wireFolderPair guid localPath _ ownDeviceId peerDeviceId _ =>
    db.WiresNothingHalf guid localPath ownDeviceId peerDeviceId
  | removeSyncFolderById folderId =>
    ((∀ m ∈ db.fileMetadata, m.folderId ≠ folderId) ∧ ∀ r ∈ db.fileHistory, r.folderId ≠ folderId) ∨
      ∀ p ∈ db.folderDevices, p.folderId ≠ folderId
  | removeFolderDevice _ _ | removeDevice _ => True

end Mutation

namespace Database

section

variable {s : DbState}

theorem removeSyncFolderById_atomicAt {folderId : ℕ} : AtomicAt (removeSyncFolderById folderId) s ↔
    ((∀ m ∈ s.val.fileMetadata, m.folderId ≠ folderId) ∧
      ∀ r ∈ s.val.fileHistory, r.folderId ≠ folderId) ∨
      ∀ p ∈ s.val.folderDevices, p.folderId ≠ folderId := by
  have hpairs := deletePairs_valid s.valid (isPairOf folderId none)
  let t : DbState := ⟨_, hpairs⟩
  have hunrecorded : (t.val.deleteFolders fun f => decide (f.id = folderId)).violation = none ↔
      (∀ m ∈ s.val.fileMetadata, m.folderId ≠ folderId) ∧
        ∀ r ∈ s.val.fileHistory, r.folderId ≠ folderId := by
    rw [deleteFolders_valid hpairs]
    constructor
    · intro h
      have hrow : ∀ id ∈ s.val.folderIds, id = folderId →
          (∀ m ∈ s.val.fileMetadata, m.folderId ≠ folderId) ∧
            ∀ r ∈ s.val.fileHistory, r.folderId ≠ folderId := by
        rintro id hid rfl
        obtain ⟨f, hf, rfl⟩ := List.mem_map.mp hid
        exact h f hf (decide_eq_true rfl)
      exact ⟨fun m hm heq => (hrow _ (s.references.metadata m hm) heq).1 m hm heq,
        fun r hr heq => (hrow _ (s.references.history r hr) heq).2 r hr heq⟩
    · intro h f _ hf
      rw [of_decide_eq_true hf]
      exact h
  have hkept : t = s ↔ ∀ p ∈ s.val.folderDevices, p.folderId ≠ folderId := by
    have hrows : t = s ↔
        (s.val.folderDevices.filter fun p => !isPairOf folderId none p) = s.val.folderDevices := by
      constructor
      · exact fun h => congrArg (fun s : DbState => s.val.folderDevices) h
      · intro h
        apply State.ext
        show ({ s.val with folderDevices := _ } : Database) = s.val
        rw [h]
    rw [hrows, List.filter_eq_self]
    refine forall₂_congr fun p _ => ?_
    simp [isPairOf]
  unfold removeSyncFolderById AtomicAt
  rw [Effects.bind_ok (execute_ok hpairs), ← hunrecorded, ← hkept]
  constructor
  · intro h
    cases hfolder : (t.val.deleteFolders fun f => decide (f.id = folderId)).violation with
    | none => exact Or.inl rfl
    | some e => exact Or.inr (h e t (execute_eq_error.mpr ⟨hfolder, rfl⟩))
  · rintro (h | h) e s' he
    · have hfolder := (execute_eq_error.mp he).1
      rw [h] at hfolder
      cases hfolder
    · exact (execute_eq_error.mp he).2.trans h

theorem wireFolderPair_atomicAt {guid localPath name ownDeviceId peerDeviceId : String}
    {peerPath : Option String} :
    AtomicAt (wireFolderPair guid localPath name ownDeviceId peerDeviceId peerPath) s ↔
      s.val.WiresNothingHalf guid localPath ownDeviceId peerDeviceId := by
  have hpeer : AtomicAt (wireFolderPair guid localPath name ownDeviceId peerDeviceId peerPath) s ↔
      peerDeviceId ∈ s.val.deviceIds ∨
        ∀ id t, wiredFolder guid localPath name ownDeviceId s = .ok id t → t = s := by
    unfold wireFolderPair AtomicAt
    constructor
    · intro h
      by_contra hnot
      obtain ⟨hpeer, hchanged⟩ := not_or.mp hnot
      refine hchanged fun id t ht => ?_
      have hdevices := (wiredFolder_there ht).2
      cases hpair : (t.val.putPair id peerDeviceId "bidirectional" peerPath).violation with
      | none => exact absurd (hdevices ▸ ((putPair_valid t.valid).mp hpair).2) hpeer
      | some e =>
        refine h e t (bind_eq_error.mpr (Or.inr ⟨id, t, transaction_eq_ok.mpr ht, ?_⟩))
        exact bind_eq_error.mpr (Or.inl (execute_eq_error.mpr ⟨hpair, rfl⟩))
    · intro h e s' he
      rcases bind_eq_error.mp he with he | ⟨id, t, ht, he⟩
      · exact (transaction_eq_error.mp he).1
      · have ht := transaction_eq_ok.mp ht
        obtain ⟨hid, hdevices⟩ := wiredFolder_there ht
        rcases bind_eq_error.mp he with he | ⟨_, u, _, he⟩
        · obtain ⟨hfails, rfl⟩ := execute_eq_error.mp he
          rcases h with hpeer | hsame
          · have hvalid : (s'.val.putPair id peerDeviceId "bidirectional" peerPath).violation = none :=
              (putPair_valid s'.valid).mpr ⟨hid, hdevices ▸ hpeer⟩
            rw [hvalid] at hfails
            cases hfails
          · exact hsame id s' ht
        · cases he
  rw [hpeer]
  refine or_congr_right ?_
  simp only [wiredFolder_eq_ok]
  cases hwired : s.val.syncFolders.find? fun f => decide (f.localPath = localPath) with
  | some wired =>
    have hmem := List.mem_of_find?_eq_some hwired
    simp only
    by_cases hguid : wired.folderGuid = some guid
    · refine iff_of_true (fun id t h => State.ext ?_) (Or.inl hguid)
      rw [h.2, rebind_self s.valid hmem hguid]
    · rw [or_iff_right hguid]
      constructor
      · intro h
        by_contra hfree
        have hvalid : (s.val.rebind wired guid ownDeviceId).violation = none :=
          (rebind_valid s.valid hguid).mpr fun oldGuid hold hboth => hfree ⟨oldGuid, hold, hboth⟩
        exact rebind_ne hmem hguid (congrArg State.val (h _ ⟨_, hvalid⟩ ⟨rfl, rfl⟩))
      · rintro ⟨oldGuid, hold, hboth⟩ id t ⟨_, ht⟩
        exact absurd hboth ((rebind_valid s.valid hguid).mp (ht ▸ t.valid) oldGuid hold)
  | none =>
    simp only
    cases hguid : s.val.folderByGuid guid with
    | some f => exact iff_of_true (fun id t h => h.2) (Or.inl rfl)
    | none =>
      simp only [Option.isSome_none, Bool.false_eq_true, false_or]
      constructor
      · intro h hown
        have hvalid : (s.val.insertWired guid localPath name ownDeviceId).violation = none :=
          (insertWired_valid s.valid).mpr hown
        have hsame := congrArg (fun s : DbState => s.val.syncFolders.length) (h _ ⟨_, hvalid⟩ ⟨rfl, rfl⟩)
        simp [insertWired, insertFolder] at hsame
      · rintro hown id t ⟨_, ht⟩
        exact absurd ((insertWired_valid s.valid).mp (ht ▸ t.valid)) hown

theorem reconcile_atomicAt {blake3 : Bytes → FileHash} {order : IterationOrder} {certDer : Bytes}
    {legacySelfId : Option String} {ownName : String} :
    AtomicAt (reconcileDevicesByCert blake3 order certDer legacySelfId ownName) s ↔
      s.val.StopsUnchanged (oldNames blake3 order certDer legacySelfId s.val) := by
  have hstatements : AtomicAt (reconcileDevicesByCert blake3 order certDer legacySelfId ownName) s ↔
      AtomicAt ((reconciliation blake3 certDer ownName
        (oldNames blake3 order certDer legacySelfId s.val)).forM execute) s := by
    unfold AtomicAt
    rw [reconcile_eq]
  rw [hstatements, atomicAt_forM]
  generalize oldNames blake3 order certDer legacySelfId s.val = olds
  simp only [reconciliation_fails]
  have hcolumns : ∀ before c after j, DeviceColumn.all = before ++ c :: after →
      (((before.map fun b => (b, renamed olds)) ++ [(c, renamed (olds.take j))]).map Prod.fst).Nodup := by
    intro before c after j hsplit
    have hdistinct : (before ++ c :: after).Nodup := hsplit ▸ by decide
    have hnames : ((before.map fun b => (b, renamed olds)) ++ [(c, renamed (olds.take j))]).map Prod.fst =
        before ++ [c] := by
      rw [List.map_append, List.map_map]
      congr 1
      exact List.map_id _
    rw [hnames]
    exact hdistinct.sublist ((List.sublist_append_left [c] after).append_left before)
  constructor
  · intro h
    refine ⟨fun before c after j hsplit hbefore hstops => ?_, fun hfits j hfree hfails => ?_⟩
    · have hvalid : (s.val.mapColumns ((before.map fun b => (b, renamed olds)) ++
          [(c, renamed (olds.take j))])).violation = none := by
        refine mapColumns_valid (hcolumns before c after j hsplit) s.valid fun f hf => ?_
        rcases List.mem_append.mp hf with hf | hf
        · obtain ⟨b, hb, rfl⟩ := List.mem_map.mp hf
          have hlast := hbefore b hb olds.length
          rw [List.take_length] at hlast
          exact hlast
        · rw [List.mem_singleton.mp hf]
          exact hstops.1 j le_rfl
      have hsame := congrArg State.val
        (h ⟨_, hvalid⟩ (Or.inl ⟨before, c, after, j, hsplit, hbefore, hstops, rfl⟩))
      have hfixed := (mapColumns_eq_self (hcolumns before c after j hsplit)).mp hsame
      rw [List.forall_mem_append, List.forall_mem_map, List.forall_mem_singleton] at hfixed
      exact hfixed
    · have hfree' : ∀ id ∈ (olds.take j).map Prod.fst,
          ¬(s.val.mapColumns (allRenamed olds)).Referred id := by
        intro id hid hreferred
        obtain ⟨id', hreferred', rfl⟩ := referred_allRenamed.mp hreferred
        exact hfree id' hreferred' hid
      have hvalid := (deleteNames_valid (allRenamed_valid hfits) _).mpr hfree'
      obtain ⟨id, hreferred, hid⟩ := hfails
      have hsame := congrArg State.val (h ⟨_, hvalid⟩ (Or.inr ⟨hfits, j, hfree',
        ⟨_, hid, referred_allRenamed.mpr ⟨id, hreferred, rfl⟩⟩, rfl⟩))
      obtain ⟨hfixed, hrows⟩ := deleteNames_eq_self.mp hsame
      refine ⟨fun c id hid => ?_, hrows⟩
      exact (mapColumns_eq_self allRenamed_distinct).mp hfixed _
        (List.mem_map_of_mem (by cases c <;> decide)) id hid
  · rintro h s' (⟨before, c, after, j, hsplit, hbefore, hstops, hs'⟩ | ⟨hfits, j, hfree, hfails, hs'⟩)
    · refine State.ext (hs'.trans ((mapColumns_eq_self (hcolumns before c after j hsplit)).mpr ?_))
      rw [List.forall_mem_append, List.forall_mem_map, List.forall_mem_singleton]
      exact h.renames before c after j hsplit hbefore hstops
    · obtain ⟨id, hid, hreferred⟩ := hfails
      obtain ⟨id', hreferred', rfl⟩ := referred_allRenamed.mp hreferred
      obtain ⟨hfixed, hrows⟩ := h.deletions hfits j
        (fun id hreferred hid => hfree _ hid (referred_allRenamed.mpr ⟨id, hreferred, rfl⟩))
        ⟨id', hreferred', hid⟩
      refine State.ext (hs'.trans (deleteNames_eq_self.mpr ⟨?_, hrows⟩))
      refine (mapColumns_eq_self allRenamed_distinct).mpr fun f hf => ?_
      obtain ⟨c, _, rfl⟩ := List.mem_map.mp hf
      exact hfixed c

end

end Database

/-- **An operation that fails leaves the database as it was exactly if nothing has changed
before what fails.** -/
theorem mutation_atomic_iff (blake3 : Bytes → FileHash) (s : DbState) (m : Mutation) :
    AtomicAt (m.statements blake3) s ↔ m.AllOrNothing blake3 s.val := by
  cases m with
  | reconcileDevicesByCert order certDer legacySelfId ownName => exact reconcile_atomicAt
  | wireFolderPair guid localPath name ownDeviceId peerDeviceId peerPath =>
    exact atomicAt_discard.trans wireFolderPair_atomicAt
  | removeSyncFolderById folderId => exact removeSyncFolderById_atomicAt
  | removeFolderDevice folderId deviceId =>
    exact iff_of_true (atomicAt_discard.mpr (Atomic.transaction _ |>.at s)) trivial
  | removeDevice deviceId =>
    exact iff_of_true (atomicAt_discard.mpr (Atomic.transaction _ |>.at s)) trivial

/-- A folder, one of whose files is recorded. -/
def playedFolder : List StorageOp :=
  [.upsertDevice "laptop" "Laptop" none none, .addSyncFolder "/home/music" "laptop" "bidirectional",
    .recordHistory ⟨1, "song", "laptop", "push", 1, 0, [], 0⟩]

/-- **A removal that fails leaves the folder without its pairs.** -/
theorem removal_half_done : ¬ ∀ (ops : List StorageOp) (m : Mutation),
    AtomicAt (m.statements sampleBlake3) ((Host.new 1).run sampleBlake3 ops).db := by
  intro hatomic
  have hplayed : (∃ r ∈ ((Host.new 1).run sampleBlake3 playedFolder).db.val.fileHistory, r.folderId = 1) ∧
      ∃ p ∈ ((Host.new 1).run sampleBlake3 playedFolder).db.val.folderDevices, p.folderId = 1 := by
    decide +kernel
  obtain ⟨⟨r, hr, hrecorded⟩, p, hp, hpaired⟩ := hplayed
  rcases removeSyncFolderById_atomicAt.mp (hatomic playedFolder (.removeSyncFolderById 1)) with h | h
  · exact h.2 r hr hrecorded
  · exact h p hp hpaired

end FerriSync
