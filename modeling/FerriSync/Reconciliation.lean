/-
# The statements of a reconciliation

`reconcile_devices_by_cert` renames devices, one after another in one column and then
in the next, and deletes the rows of the old names. What an identifier is after some
renames is `renamed`; a column can be renamed if no key occurs twice and every name has
a row (`Renamable`). So the call succeeds, or stops with this or that state, as can be
said of the tables before it (`renames_chain`, `renames_fail`, `deletions_chain`,
`deletions_fail`).

Key definitions: `renamed`, `columnIds`, `Renamable`, `Referred`, `renames`, `deletions`.
Key theorems: `mapColumns_eq_self`, `renames_chain`, `renames_fail`, `deletions_fail`.
-/
import FerriSync.Database

namespace FerriSync

open Transactions

namespace Database

/-! ### Columns -/

/-- The identifiers in a column. -/
def columnIds (db : Database) : DeviceColumn → List String
  | .folderDevices => db.folderDevices.map (·.deviceId)
  | .syncFolders => db.syncFolders.map (·.deviceId)
  | .sharedFolders => db.sharedFolders.map (·.deviceId)
  | .fileHistory => db.fileHistory.map (·.deviceId)
  | .syncSessions => db.syncSessions.map (·.peerDevice)

/-- The identifiers in a column can be mapped so: no two pairs of a folder and no two
shares of one get the same, and each device has a row, where the schema asks for
one. -/
def Renamable (db : Database) (f : String → String) : DeviceColumn → Prop
  | .folderDevices => (db.folderDevices.map fun p => (p.folderId, f p.deviceId)).Nodup ∧
      ∀ p ∈ db.folderDevices, f p.deviceId ∈ db.deviceIds
  | .syncFolders => ∀ r ∈ db.syncFolders, f r.deviceId ∈ db.deviceIds
  | .sharedFolders => (db.sharedFolders.map fun s => (s.folderGuid, f s.deviceId)).Nodup ∧
      ∀ s ∈ db.sharedFolders, f s.deviceId ∈ db.deviceIds
  | .fileHistory | .syncSessions => True

/-- A folder, a pair or a share is of the device. -/
def Referred (db : Database) (id : String) : Prop :=
  id ∈ db.columnIds .folderDevices ∨ id ∈ db.columnIds .syncFolders ∨ id ∈ db.columnIds .sharedFolders

/-- Map columns, each in its way. -/
def mapColumns (fs : List (DeviceColumn × (String → String))) (db : Database) : Database :=
  fs.foldl (fun db f => db.mapColumn f.2 f.1) db

section

variable {db : Database} {f g : String → String} {c c' : DeviceColumn}

@[simp] theorem mapColumn_devices : (db.mapColumn f c).devices = db.devices := by
  cases c <;> rfl

theorem columnIds_mapColumn :
    (db.mapColumn f c).columnIds c' = if c' = c then (db.columnIds c').map f else db.columnIds c' := by
  cases c <;> cases c' <;> simp [columnIds, mapColumn]

theorem mapColumn_mapColumn : (db.mapColumn f c).mapColumn g c = db.mapColumn (g ∘ f) c := by
  cases c <;> simp [mapColumn]

/-- Rows whose identifiers stay are as they were. -/
theorem map_put {α : Type} {rows : List α} (key : α → String) (put : α → String → α)
    (hput : ∀ r, put r (key r) = r) (h : ∀ id ∈ rows.map key, f id = id) :
    rows.map (fun r => put r (f (key r))) = rows := by
  calc rows.map (fun r => put r (f (key r)))
    _ = rows.map id := List.map_congr_left fun r hr => by
      rw [h _ (List.mem_map_of_mem hr), hput]
      rfl
    _ = rows := List.map_id rows

theorem mapColumn_id (h : ∀ id ∈ db.columnIds c, f id = id) : db.mapColumn f c = db := by
  cases c with
  | folderDevices =>
    have hrows := map_put _ (fun p id => ({ p with deviceId := id } : Db.FolderDevice)) (fun p => rfl) h
    show ({ db with folderDevices := _ } : Database) = db
    rw [hrows]
  | syncFolders =>
    have hrows := map_put _ (fun r id => ({ r with deviceId := id } : SyncFolderRow)) (fun r => rfl) h
    show ({ db with syncFolders := _ } : Database) = db
    rw [hrows]
  | sharedFolders =>
    have hrows := map_put _ (fun s id => ({ s with deviceId := id } : SharedFolderRow)) (fun s => rfl) h
    show ({ db with sharedFolders := _ } : Database) = db
    rw [hrows]
  | fileHistory =>
    have hrows := map_put _ (fun r id => ({ r with deviceId := id } : Db.FileHistory)) (fun r => rfl) h
    show ({ db with fileHistory := _ } : Database) = db
    rw [hrows]
  | syncSessions =>
    have hrows := map_put _ (fun s id => ({ s with peerDevice := id } : Db.SyncSession)) (fun s => rfl) h
    show ({ db with syncSessions := _ } : Database) = db
    rw [hrows]

/-- Another column is not concerned. -/
theorem renamable_mapColumn (h : c' ≠ c) : (db.mapColumn f c).Renamable g c' ↔ db.Renamable g c' := by
  cases c <;> cases c' <;> first | exact absurd rfl h | exact Iff.rfl

/-- A column can be mapped if the constraints say so. -/
theorem mapColumn_valid (h : db.violation = none) :
    (db.mapColumn f c).violation = none ↔ db.Renamable f c := by
  obtain ⟨hkeys, hrefs⟩ := violation_eq_none.mp h
  rw [violation_eq_none]
  cases c with
  | folderDevices =>
    have hpairs : (db.mapColumn f .folderDevices).folderDevices.map (fun p => (p.folderId, p.deviceId)) =
        db.folderDevices.map fun p => (p.folderId, f p.deviceId) := List.map_map
    constructor
    · rintro ⟨hkeys', hrefs'⟩
      exact ⟨hpairs ▸ hkeys'.folderDevices, fun p hp => hrefs'.pairDevice _ (List.mem_map_of_mem hp)⟩
    · rintro ⟨hnodup, hdevices⟩
      refine ⟨⟨hkeys.devices, hkeys.syncFolders, hpairs ▸ hnodup, hkeys.fileMetadata,
        hkeys.sharedFolders⟩, ⟨hrefs.folderOwner, fun p hp => ?_, fun p hp => ?_, hrefs.metadata,
        hrefs.history, hrefs.share⟩⟩
      · obtain ⟨q, hq, rfl⟩ := List.mem_map.mp hp
        exact hrefs.pairFolder q hq
      · obtain ⟨q, hq, rfl⟩ := List.mem_map.mp hp
        exact hdevices q hq
  | syncFolders =>
    have hids : (db.mapColumn f .syncFolders).folderIds = db.folderIds := List.map_map
    constructor
    · rintro ⟨_, hrefs'⟩ r hr
      exact hrefs'.folderOwner _ (List.mem_map_of_mem hr)
    · intro hdevices
      refine ⟨⟨hkeys.devices, ?_, hkeys.folderDevices, hkeys.fileMetadata, hkeys.sharedFolders⟩,
        ⟨fun r hr => ?_, ?_, hrefs.pairDevice, ?_, ?_, hrefs.share⟩⟩
      · rw [hids]
        exact hkeys.syncFolders
      · obtain ⟨q, hq, rfl⟩ := List.mem_map.mp hr
        exact hdevices q hq
      · rw [hids]
        exact hrefs.pairFolder
      · rw [hids]
        exact hrefs.metadata
      · rw [hids]
        exact hrefs.history
  | sharedFolders =>
    have hshares : (db.mapColumn f .sharedFolders).sharedFolders.map (fun s => (s.folderGuid, s.deviceId)) =
        db.sharedFolders.map fun s => (s.folderGuid, f s.deviceId) := List.map_map
    constructor
    · rintro ⟨hkeys', hrefs'⟩
      exact ⟨hshares ▸ hkeys'.sharedFolders, fun s hs => hrefs'.share _ (List.mem_map_of_mem hs)⟩
    · rintro ⟨hnodup, hdevices⟩
      refine ⟨⟨hkeys.devices, hkeys.syncFolders, hkeys.folderDevices, hkeys.fileMetadata,
        hshares ▸ hnodup⟩, ⟨hrefs.folderOwner, hrefs.pairFolder, hrefs.pairDevice, hrefs.metadata,
        hrefs.history, fun s hs => ?_⟩⟩
      obtain ⟨q, hq, rfl⟩ := List.mem_map.mp hs
      exact hdevices q hq
  | fileHistory =>
    refine iff_of_true ⟨⟨hkeys.devices, hkeys.syncFolders, hkeys.folderDevices, hkeys.fileMetadata,
      hkeys.sharedFolders⟩, ⟨hrefs.folderOwner, hrefs.pairFolder, hrefs.pairDevice, hrefs.metadata,
      fun r hr => ?_, hrefs.share⟩⟩ trivial
    obtain ⟨q, hq, rfl⟩ := List.mem_map.mp hr
    exact hrefs.history q hq
  | syncSessions =>
    exact iff_of_true ⟨⟨hkeys.devices, hkeys.syncFolders, hkeys.folderDevices, hkeys.fileMetadata,
      hkeys.sharedFolders⟩, ⟨hrefs.folderOwner, hrefs.pairFolder, hrefs.pairDevice, hrefs.metadata,
      hrefs.history, hrefs.share⟩⟩ trivial

/-! ### Several columns -/

section

variable {fs : List (DeviceColumn × (String → String))}

theorem columnIds_mapColumns (h : c ∉ fs.map Prod.fst) :
    (db.mapColumns fs).columnIds c = db.columnIds c := by
  induction fs generalizing db with
  | nil => rfl
  | cons f fs ih =>
    obtain ⟨hne, hrest⟩ := not_or.mp (List.mem_cons.not.mp h)
    show ((db.mapColumn f.2 f.1).mapColumns fs).columnIds c = _
    rw [ih hrest, columnIds_mapColumn, if_neg hne]

@[simp] theorem mapColumns_devices : (db.mapColumns fs).devices = db.devices := by
  induction fs generalizing db with
  | nil => rfl
  | cons f fs ih => exact ih.trans mapColumn_devices

theorem columnIds_mapColumns_mem (hdistinct : (fs.map Prod.fst).Nodup) (hf : (c, f) ∈ fs) :
    (db.mapColumns fs).columnIds c = (db.columnIds c).map f := by
  induction fs generalizing db with
  | nil => cases hf
  | cons f' fs ih =>
    obtain ⟨hnew, hrest⟩ := List.nodup_cons.mp hdistinct
    show ((db.mapColumn f'.2 f'.1).mapColumns fs).columnIds c = _
    rcases List.mem_cons.mp hf with rfl | hf
    · rw [columnIds_mapColumns hnew, columnIds_mapColumn, if_pos rfl]
    · have hne : c ≠ f'.1 := fun heq => hnew (heq ▸ List.mem_map_of_mem hf)
      rw [ih hrest hf, columnIds_mapColumn, if_neg hne]

theorem mapColumns_valid (hdistinct : (fs.map Prod.fst).Nodup) (h : db.violation = none)
    (hall : ∀ f ∈ fs, db.Renamable f.2 f.1) : (db.mapColumns fs).violation = none := by
  induction fs generalizing db with
  | nil => exact h
  | cons f fs ih =>
    obtain ⟨hnew, hrest⟩ := List.nodup_cons.mp hdistinct
    obtain ⟨hone, hall⟩ := List.forall_mem_cons.mp hall
    refine ih hrest ((mapColumn_valid h).mpr hone) fun f' hf' => ?_
    have hne : f'.1 ≠ f.1 := fun heq => hnew (heq ▸ List.mem_map_of_mem hf')
    exact (renamable_mapColumn hne).mpr (hall f' hf')

/-- **What maps each column once changes nothing exactly if it leaves all identifiers as
they are.** -/
theorem mapColumns_eq_self (hdistinct : (fs.map Prod.fst).Nodup) :
    db.mapColumns fs = db ↔ ∀ f ∈ fs, ∀ id ∈ db.columnIds f.1, f.2 id = id := by
  induction fs generalizing db with
  | nil => exact iff_of_true rfl fun f hf => absurd hf List.not_mem_nil
  | cons f fs ih =>
    obtain ⟨hnew, hrest⟩ := List.nodup_cons.mp hdistinct
    rw [List.forall_mem_cons]
    constructor
    · intro h
      have h : (db.mapColumn f.2 f.1).mapColumns fs = db := h
      have hids : (db.columnIds f.1).map f.2 = db.columnIds f.1 := by
        have h' := congrArg (columnIds · f.1) h
        rw [columnIds_mapColumns hnew, columnIds_mapColumn, if_pos rfl] at h'
        exact h'
      have hfixed : ∀ id ∈ db.columnIds f.1, f.2 id = id :=
        List.map_inj_left.mp (hids.trans (List.map_id _).symm)
      rw [mapColumn_id hfixed] at h
      exact ⟨hfixed, (ih hrest).mp h⟩
    · rintro ⟨hfixed, hall⟩
      show (db.mapColumn f.2 f.1).mapColumns fs = db
      rw [mapColumn_id hfixed]
      exact (ih hrest).mpr hall

/-- And then deletes devices. -/
theorem deleteNames_eq_self {names : List String} :
    ((db.mapColumns fs).deleteDevices fun d => decide (d.id ∈ names)) = db ↔
      db.mapColumns fs = db ∧ ∀ id ∈ names, id ∉ db.deviceIds := by
  have hdevices : (db.devices.filter fun d => !decide (d.id ∈ names)) = db.devices ↔
      ∀ id ∈ names, id ∉ db.deviceIds := by
    rw [List.filter_eq_self]
    constructor
    · intro h id hid hrow
      obtain ⟨d, hd, rfl⟩ := List.mem_map.mp hrow
      have hkept := h d hd
      rw [decide_eq_true hid] at hkept
      cases hkept
    · intro h d hd
      rw [Bool.not_eq_true', decide_eq_false_iff_not]
      exact fun hid => h d.id hid (List.mem_map_of_mem hd)
  constructor
  · intro h
    have hrows := congrArg Database.devices h
    have hkept : ((db.mapColumns fs).devices.filter fun d => !decide (d.id ∈ names)) = db.devices := hrows
    rw [mapColumns_devices] at hkept
    refine ⟨?_, hdevices.mp hkept⟩
    have hsplit : db.mapColumns fs = { (db.mapColumns fs).deleteDevices fun d => decide (d.id ∈ names) with
        devices := (db.mapColumns fs).devices } := rfl
    rw [hsplit, h, mapColumns_devices]
  · rintro ⟨h, hnames⟩
    rw [h]
    show ({ db with devices := _ } : Database) = db
    rw [hdevices.mpr hnames]

end

end

/-! ### Renames -/

/-- What an identifier is after some renames. -/
def renamed (olds : List (String × String)) (id : String) : String :=
  olds.foldl (fun id old => rename old.1 old.2 id) id

/-- The renames in one column. -/
def columnRenames (olds : List (String × String)) (c : DeviceColumn) : List (Database → Database) :=
  olds.map fun old db => db.mapColumn (rename old.1 old.2) c

/-- The renames come to a stop in the column, with the one after so many. -/
def StopsAt (db : Database) (olds : List (String × String)) (c : DeviceColumn) (j : ℕ) : Prop :=
  (∀ i ≤ j, db.Renamable (renamed (olds.take i)) c) ∧ ¬db.Renamable (renamed (olds.take (j + 1))) c

section

variable {olds : List (String × String)} {c : DeviceColumn} {cs : List DeviceColumn} {s t : DbState}

theorem runAll_columnRenames (olds : List (String × String)) (db : Database) :
    runAll (columnRenames olds c) db = db.mapColumn (renamed olds) c := by
  induction olds generalizing db with
  | nil => exact (mapColumn_id fun id _ => rfl).symm
  | cons old olds ih =>
    show runAll (columnRenames olds c) (db.mapColumn (rename old.1 old.2) c) = _
    rw [ih, mapColumn_mapColumn]
    rfl

theorem take_columnRenames (j : ℕ) :
    (columnRenames olds c).take j = columnRenames (olds.take j) c := (List.map_take ..).symm

theorem columnRenames_chain : Chain (columnRenames olds c) s t ↔
    t.val = s.val.mapColumn (renamed olds) c ∧ ∀ j, s.val.Renamable (renamed (olds.take j)) c := by
  rw [chain_iff, runAll_columnRenames]
  refine and_congr_right fun _ => forall_congr' fun j => ?_
  rw [take_columnRenames, runAll_columnRenames, mapColumn_valid s.valid]

theorem columnRenames_fail : Fails (columnRenames olds c) s t ↔
    ∃ j, s.val.StopsAt olds c j ∧ t.val = s.val.mapColumn (renamed (olds.take j)) c := by
  rw [fails_iff]
  refine exists_congr fun j => ?_
  simp only [take_columnRenames, runAll_columnRenames, ne_eq, mapColumn_valid s.valid]
  exact and_assoc.symm

theorem stopsAt_mapColumn {db : Database} {f : String → String} {c' : DeviceColumn} {j : ℕ}
    (h : c' ≠ c) : (db.mapColumn f c).StopsAt olds c' j ↔ db.StopsAt olds c' j := by
  unfold StopsAt
  simp only [renamable_mapColumn h]

/-- All columns are renamed. -/
theorem renames_chain (hdistinct : cs.Nodup) : Chain (cs.flatMap (columnRenames olds)) s t ↔
    t.val = s.val.mapColumns (cs.map fun c => (c, renamed olds)) ∧
      ∀ c ∈ cs, ∀ j, s.val.Renamable (renamed (olds.take j)) c := by
  induction cs generalizing s with
  | nil =>
    constructor
    · rintro rfl
      exact ⟨rfl, fun c hc => absurd hc List.not_mem_nil⟩
    · rintro ⟨h, _⟩
      exact State.ext h
  | cons c cs ih =>
    obtain ⟨hnew, hrest⟩ := List.nodup_cons.mp hdistinct
    rw [List.flatMap_cons, chain_append]
    constructor
    · rintro ⟨u, hu, h⟩
      obtain ⟨hend, hcolumn⟩ := columnRenames_chain.mp hu
      obtain ⟨ht, hall⟩ := (ih hrest).mp h
      rw [hend] at ht hall
      refine ⟨ht, List.forall_mem_cons.mpr ⟨hcolumn, fun c' hc' j => ?_⟩⟩
      have hne : c' ≠ c := fun heq => hnew (heq ▸ hc')
      exact (renamable_mapColumn hne).mp (hall c' hc' j)
    · rintro ⟨ht, hall⟩
      obtain ⟨hcolumn, hall⟩ := List.forall_mem_cons.mp hall
      have hvalid : (s.val.mapColumn (renamed olds) c).violation = none := by
        have h := hcolumn olds.length
        rw [List.take_length] at h
        exact (mapColumn_valid s.valid).mpr h
      refine ⟨⟨_, hvalid⟩, columnRenames_chain.mpr ⟨rfl, hcolumn⟩, (ih hrest).mpr ⟨ht, ?_⟩⟩
      intro c' hc' j
      have hne : c' ≠ c := fun heq => hnew (heq ▸ hc')
      exact (renamable_mapColumn hne).mpr (hall c' hc' j)

/-- A rename is not possible. -/
theorem renames_fail (hdistinct : cs.Nodup) : Fails (cs.flatMap (columnRenames olds)) s t ↔
    ∃ before c after j, cs = before ++ c :: after ∧
      (∀ b ∈ before, ∀ i, s.val.Renamable (renamed (olds.take i)) b) ∧ s.val.StopsAt olds c j ∧
      t.val = s.val.mapColumns ((before.map fun b => (b, renamed olds)) ++
        [(c, renamed (olds.take j))]) := by
  induction cs generalizing s with
  | nil =>
    constructor
    · exact fun h => h.elim
    · rintro ⟨before, c, after, j, h, _⟩
      cases before <;> cases h
  | cons c cs ih =>
    obtain ⟨hnew, hrest⟩ := List.nodup_cons.mp hdistinct
    rw [List.flatMap_cons, fails_append]
    constructor
    · rintro (h | ⟨u, hu, h⟩)
      · obtain ⟨j, hstops, ht⟩ := columnRenames_fail.mp h
        exact ⟨[], c, cs, j, rfl, fun b hb => absurd hb List.not_mem_nil, hstops, ht⟩
      · obtain ⟨hend, hcolumn⟩ := columnRenames_chain.mp hu
        obtain ⟨before, c', after, j, rfl, hbefore, hstops, ht⟩ := (ih hrest).mp h
        rw [hend] at hbefore hstops ht
        have hne : c' ≠ c := fun heq => hnew (by simp [heq])
        refine ⟨c :: before, c', after, j, rfl, List.forall_mem_cons.mpr ⟨hcolumn, fun b hb i => ?_⟩,
          (stopsAt_mapColumn hne).mp hstops, ht⟩
        have hne : b ≠ c := fun heq => hnew (by simp [← heq, hb])
        exact (renamable_mapColumn hne).mp (hbefore b hb i)
    · rintro ⟨before, c', after, j, hsplit, hbefore, hstops, ht⟩
      cases before with
      | nil =>
        obtain ⟨rfl, rfl⟩ := List.cons.inj hsplit
        exact Or.inl (columnRenames_fail.mpr ⟨j, hstops, ht⟩)
      | cons b before =>
        obtain ⟨rfl, rfl⟩ := List.cons.inj hsplit
        obtain ⟨hcolumn, hbefore⟩ := List.forall_mem_cons.mp hbefore
        have hvalid : (s.val.mapColumn (renamed olds) c).violation = none := by
          have h := hcolumn olds.length
          rw [List.take_length] at h
          exact (mapColumn_valid s.valid).mpr h
        have hne : c' ≠ c := fun heq => hnew (by simp [heq])
        refine Or.inr ⟨⟨_, hvalid⟩, columnRenames_chain.mpr ⟨rfl, hcolumn⟩, (ih hrest).mpr
          ⟨before, c', after, j, rfl, fun b hb i => ?_, (stopsAt_mapColumn hne).mpr hstops, ht⟩⟩
        have hne : b ≠ c := fun heq => hnew (by simp [← heq, hb])
        exact (renamable_mapColumn hne).mpr (hbefore b hb i)

end

/-! ### Deletions -/

/-- The rows of the old names. -/
def deletions (olds : List (String × String)) : List (Database → Database) :=
  olds.map fun old db => db.deleteDevices fun d => decide (d.id = old.1)

section

variable {olds : List (String × String)} {s t : DbState} {db : Database}

theorem runAll_deletions (olds : List (String × String)) (db : Database) :
    runAll (deletions olds) db = db.deleteDevices fun d => decide (d.id ∈ olds.map Prod.fst) := by
  induction olds generalizing db with
  | nil =>
    show db = { db with devices := _ }
    simp
  | cons old olds ih =>
    show runAll (deletions olds) (db.deleteDevices fun d => decide (d.id = old.1)) = _
    rw [ih]
    unfold deleteDevices
    rw [List.filter_filter]
    congr 1
    refine List.filter_congr fun d _ => ?_
    simp only [List.map_cons, List.mem_cons, Bool.decide_or, Bool.not_or]
    exact Bool.and_comm _ _

/-- Devices that nothing refers to can be deleted. -/
theorem deleteNames_valid (h : db.violation = none) (names : List String) :
    (db.deleteDevices fun d => decide (d.id ∈ names)).violation = none ↔
      ∀ id ∈ names, ¬db.Referred id := by
  have hrefs := (violation_eq_none.mp h).2
  rw [deleteDevices_valid h]
  constructor
  · intro hfree id hid hreferred
    have hrow : ∀ id', id' ∈ db.deviceIds → id' = id → (∀ f ∈ db.syncFolders, f.deviceId ≠ id) ∧
        (∀ p ∈ db.folderDevices, p.deviceId ≠ id) ∧ ∀ s ∈ db.sharedFolders, s.deviceId ≠ id := by
      rintro id' hid' rfl
      obtain ⟨d, hd, rfl⟩ := List.mem_map.mp hid'
      exact hfree d hd (decide_eq_true hid)
    rcases hreferred with hin | hin | hin
    · obtain ⟨p, hp, heq⟩ := List.mem_map.mp hin
      exact (hrow _ (hrefs.pairDevice p hp) heq).2.1 p hp heq
    · obtain ⟨f, hf, heq⟩ := List.mem_map.mp hin
      exact (hrow _ (hrefs.folderOwner f hf) heq).1 f hf heq
    · obtain ⟨s, hs, heq⟩ := List.mem_map.mp hin
      exact (hrow _ (hrefs.share s hs) heq).2.2 s hs heq
  · intro hfree d _ hd
    have hnot := hfree d.id (of_decide_eq_true hd)
    exact ⟨fun f hf heq => hnot (Or.inr (Or.inl (List.mem_map.mpr ⟨f, hf, heq⟩))),
      fun p hp heq => hnot (Or.inl (List.mem_map.mpr ⟨p, hp, heq⟩)),
      fun s hs heq => hnot (Or.inr (Or.inr (List.mem_map.mpr ⟨s, hs, heq⟩)))⟩

theorem take_deletions (j : ℕ) : (deletions olds).take j = deletions (olds.take j) :=
  (List.map_take ..).symm

/-- All the rows go. -/
theorem deletions_chain : Chain (deletions olds) s t ↔
    t.val = (s.val.deleteDevices fun d => decide (d.id ∈ olds.map Prod.fst)) ∧
      ∀ id ∈ olds.map Prod.fst, ¬s.val.Referred id := by
  rw [chain_iff, runAll_deletions]
  refine and_congr_right fun _ => ?_
  simp only [take_deletions, runAll_deletions, deleteNames_valid s.valid]
  constructor
  · intro h
    have hall := h olds.length
    rw [List.take_length] at hall
    exact hall
  · exact fun h j id hid => h id (List.map_subset _ (List.take_subset j olds) hid)

/-- A row is still referred to. -/
theorem deletions_fail : Fails (deletions olds) s t ↔
    ∃ j, (∀ id ∈ (olds.take j).map Prod.fst, ¬s.val.Referred id) ∧
      (∃ id ∈ (olds.take (j + 1)).map Prod.fst, s.val.Referred id) ∧
      t.val = (s.val.deleteDevices fun d => decide (d.id ∈ (olds.take j).map Prod.fst)) := by
  rw [fails_iff]
  refine exists_congr fun j => ?_
  simp only [take_deletions, runAll_deletions, deleteNames_valid s.valid, ne_eq, not_forall,
    exists_prop, not_not]
  refine and_congr_left fun _ => ?_
  constructor
  · exact fun h => h j le_rfl
  · intro h i hi id hid
    exact h id (List.map_subset _ (List.take_subset_take_left olds hi) hid)

end

/-! ### The call -/

section

variable {blake3 : Bytes → FileHash} {order : IterationOrder} {certDer : Bytes}
  {legacySelfId : Option String} {ownName : String} {s s' : DbState}

/-- `ensure_self_row`. -/
def putSelf (id : String) (certDer : Bytes) (name : String) (db : Database) : Database := { db with
  devices := upsert (fun d : Db.Device => decide (d.id = id))
    (fun d => ⟨d.id, if name = "" then d.name else name, some certDer, d.lastAddr⟩)
    ⟨id, name, some certDer, none⟩ db.devices }

theorem putSelf_valid (id : String) (name : String) :
    (s.val.putSelf id certDer name).violation = none :=
  violation_upsertDevice (fun _ => decide_eq_true_iff) (fun _ => rfl) s.valid

/-- What a device is renamed to in every column. -/
def allRenamed (olds : List (String × String)) : List (DeviceColumn × (String → String)) :=
  DeviceColumn.all.map fun c => (c, renamed olds)

/-- The old names and the new ones, in the order of the map. -/
def oldNames (blake3 : Bytes → FileHash) (order : IterationOrder) (certDer : Bytes)
    (legacySelfId : Option String) (db : Database) : List (String × String) :=
  order.list (remapOf blake3 db.devices (certToDeviceId blake3 certDer) legacySelfId)

/-- The statements of the call. -/
def reconciliation (blake3 : Bytes → FileHash) (certDer : Bytes) (ownName : String)
    (olds : List (String × String)) : List (Database → Database) :=
  DeviceColumn.all.flatMap (columnRenames olds) ++ deletions olds ++
    [putSelf (certToDeviceId blake3 certDer) certDer ownName]

theorem reconcile_eq : reconcileDevicesByCert blake3 order certDer legacySelfId ownName s =
    (reconciliation blake3 certDer ownName
      (oldNames blake3 order certDer legacySelfId s.val)).forM execute s := by
  let olds := oldNames blake3 order certDer legacySelfId s.val
  have hcolumn : ∀ c, (columnRenames olds c).forM execute =
      (olds.forM fun old => execute fun db => db.mapColumn (rename old.1 old.2) c : Sql Unit) :=
    fun c => List.forM_map
  have hdelete : (deletions olds).forM execute =
      (olds.forM fun old => execute fun db =>
        db.deleteDevices fun d => decide (d.id = old.1) : Sql Unit) :=
    List.forM_map
  show _ = (forM (DeviceColumn.all.flatMap (columnRenames olds) ++ deletions olds ++
    [putSelf (certToDeviceId blake3 certDer) certDer ownName]) execute : Sql Unit) s
  rw [List.forM_append, List.forM_append]
  show _ = (((DeviceColumn.all.flatMap (columnRenames olds)).forM execute >>= fun _ =>
    (deletions olds).forM execute) >>= fun _ => _) s
  rw [forM_flatMap, hdelete]
  simp only [hcolumn, bind_assoc, List.forM_cons, List.forM_nil, bind_pure_unit]
  rfl

theorem allRenamed_distinct {olds : List (String × String)} : ((allRenamed olds).map Prod.fst).Nodup := by
  have hcolumns : (allRenamed olds).map Prod.fst = DeviceColumn.all := by
    unfold allRenamed
    rw [List.map_map]
    exact List.map_id _
  rw [hcolumns]
  decide

theorem allRenamed_valid {olds : List (String × String)}
    (h : ∀ c j, s.val.Renamable (renamed (olds.take j)) c) :
    (s.val.mapColumns (allRenamed olds)).violation = none := by
  refine mapColumns_valid allRenamed_distinct s.valid fun f hf => ?_
  obtain ⟨c, _, rfl⟩ := List.mem_map.mp hf
  have hlast := h c olds.length
  rw [List.take_length] at hlast
  exact hlast

/-- The columns after all renames. -/
theorem columnIds_allRenamed {db : Database} {olds : List (String × String)} (c : DeviceColumn) :
    (db.mapColumns (allRenamed olds)).columnIds c = (db.columnIds c).map (renamed olds) := by
  have hmem : (c, renamed olds) ∈ allRenamed olds :=
    List.mem_map_of_mem (by cases c <;> decide : c ∈ DeviceColumn.all)
  exact columnIds_mapColumns_mem allRenamed_distinct hmem

theorem referred_allRenamed {db : Database} {olds : List (String × String)} {id : String} :
    (db.mapColumns (allRenamed olds)).Referred id ↔ ∃ id', db.Referred id' ∧ renamed olds id' = id := by
  unfold Referred
  simp only [columnIds_allRenamed, List.mem_map]
  constructor
  · rintro (⟨id', h, heq⟩ | ⟨id', h, heq⟩ | ⟨id', h, heq⟩)
    · exact ⟨id', Or.inl h, heq⟩
    · exact ⟨id', Or.inr (Or.inl h), heq⟩
    · exact ⟨id', Or.inr (Or.inr h), heq⟩
  · rintro ⟨id', h | h | h, heq⟩
    · exact Or.inl ⟨id', h, heq⟩
    · exact Or.inr (Or.inl ⟨id', h, heq⟩)
    · exact Or.inr (Or.inr ⟨id', h, heq⟩)

/-- The call succeeds. -/
theorem reconciliation_chain {olds : List (String × String)} :
    Chain (reconciliation blake3 certDer ownName olds) s s' ↔
      (∀ c j, s.val.Renamable (renamed (olds.take j)) c) ∧
      (∀ id ∈ olds.map Prod.fst, ¬(s.val.mapColumns (allRenamed olds)).Referred id) ∧
      s'.val = ((s.val.mapColumns (allRenamed olds)).deleteDevices fun d =>
        decide (d.id ∈ olds.map Prod.fst)).putSelf (certToDeviceId blake3 certDer) certDer ownName := by
  have hall : ∀ c, c ∈ DeviceColumn.all := fun c => by cases c <;> decide
  have hdistinct : DeviceColumn.all.Nodup := by decide
  unfold reconciliation
  rw [chain_append]
  constructor
  · rintro ⟨w, hw, v, hv, rfl⟩
    obtain ⟨u, hu, hw⟩ := chain_append.mp hw
    obtain ⟨hend, hfits⟩ := (renames_chain hdistinct).mp hu
    obtain ⟨hdeleted, hfree⟩ := deletions_chain.mp hw
    rw [hend] at hfree hdeleted
    rw [hdeleted] at hv
    exact ⟨fun c => hfits c (hall c), hfree, hv⟩
  · rintro ⟨hfits, hfree, hend⟩
    have hrenamed := allRenamed_valid hfits
    have hdeleted := (deleteNames_valid hrenamed _).mpr hfree
    exact ⟨⟨_, hdeleted⟩, chain_append.mpr ⟨⟨_, hrenamed⟩,
      (renames_chain hdistinct).mpr ⟨rfl, fun c _ => hfits c⟩, deletions_chain.mpr ⟨rfl, hfree⟩⟩,
      s', hend, rfl⟩

/-- The call stops at a rename or at a deletion. -/
theorem reconciliation_fails {olds : List (String × String)} :
    Fails (reconciliation blake3 certDer ownName olds) s s' ↔
      (∃ before c after j, DeviceColumn.all = before ++ c :: after ∧
        (∀ b ∈ before, ∀ i, s.val.Renamable (renamed (olds.take i)) b) ∧ s.val.StopsAt olds c j ∧
        s'.val = s.val.mapColumns ((before.map fun b => (b, renamed olds)) ++
          [(c, renamed (olds.take j))])) ∨
      (∀ c j, s.val.Renamable (renamed (olds.take j)) c) ∧ ∃ j,
        (∀ id ∈ (olds.take j).map Prod.fst, ¬(s.val.mapColumns (allRenamed olds)).Referred id) ∧
        (∃ id ∈ (olds.take (j + 1)).map Prod.fst, (s.val.mapColumns (allRenamed olds)).Referred id) ∧
        s'.val = ((s.val.mapColumns (allRenamed olds)).deleteDevices fun d =>
          decide (d.id ∈ (olds.take j).map Prod.fst)) := by
  have hall : ∀ c, c ∈ DeviceColumn.all := fun c => by cases c <;> decide
  have hdistinct : DeviceColumn.all.Nodup := by decide
  unfold reconciliation
  rw [fails_append, fails_append, renames_fail hdistinct]
  have hself : ¬∃ t, Chain (DeviceColumn.all.flatMap (columnRenames olds) ++ deletions olds) s t ∧
      Fails [putSelf (certToDeviceId blake3 certDer) certDer ownName] t s' := by
    rintro ⟨t, _, ⟨hfails, _⟩ | ⟨u, _, h⟩⟩
    · exact hfails (putSelf_valid _ _)
    · exact h
  rw [or_iff_left hself]
  refine or_congr_right ?_
  constructor
  · rintro ⟨u, hu, h⟩
    obtain ⟨hend, hfits⟩ := (renames_chain hdistinct).mp hu
    have hfails := deletions_fail.mp h
    rw [hend] at hfails
    exact ⟨fun c => hfits c (hall c), hfails⟩
  · rintro ⟨hfits, hfails⟩
    have hrenamed := allRenamed_valid hfits
    exact ⟨⟨_, hrenamed⟩, (renames_chain hdistinct).mpr ⟨rfl, fun c _ => hfits c⟩,
      deletions_fail.mpr hfails⟩

end

end Database

end FerriSync
