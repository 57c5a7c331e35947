/-
# Merging the rows of a device

`reconcile_devices_by_cert` is to leave one row for each device. What an identifier stands
for is `deviceOf`: the device of its certificate, this device for the identifier that it
had before, the only device of its name. But the call makes no row for a device that has
none under its own identifier; it renames rows that have the same key then; this device's
own row can be taken for another one's; and a row without a certificate that has no
namesake yet can get one when other rows are merged. It merges without loss, in whatever
order its map is gone through, exactly if none of these is the case
(`reconcile_merges_iff`).

Key definitions: `RenamedTo`, `Merged`, `ReconcilesWell`, `Mergeable`, `After`.
Key theorems: `CertsKept.renamedTo`, `reconcile_ok`, `reconcile_again`,
`merged_of_mergeable`, `mergeable_of_reconcilesWell`, `reconcile_merges_iff`.
-/
import FerriSync.Commit
import FerriSync.Remap

namespace FerriSync

open Transactions

namespace Database

/-! ### Renames in any order -/

/-- The identifier has this name in the end, and no new name is renamed again. -/
def RenamedTo (olds : List (String × String)) (id new : String) : Prop :=
  id ∉ olds.map Prod.fst ∧ new = id ∨ (id, new) ∈ olds ∧ new ∉ olds.map Prod.fst

section

variable {olds : List (String × String)} {id new mid : String}

theorem renamed_cons (old : String × String) :
    renamed (old :: olds) id = renamed olds (rename old.1 old.2 id) := rfl

theorem renamed_of_notMem (h : id ∉ olds.map Prod.fst) : renamed olds id = id := by
  induction olds with
  | nil => rfl
  | cons old olds ih =>
    obtain ⟨hne, hrest⟩ := not_or.mp (List.mem_cons.not.mp h)
    rw [renamed_cons, rename, if_neg hne]
    exact ih hrest

theorem renamed_of_mem (hnodup : (olds.map Prod.fst).Nodup) (h : (id, new) ∈ olds)
    (hnew : new ∉ olds.map Prod.fst) : renamed olds id = new := by
  induction olds with
  | nil => cases h
  | cons old olds ih =>
    obtain ⟨hfirst, hrest⟩ := List.nodup_cons.mp hnodup
    have hlater : new ∉ olds.map Prod.fst := (not_or.mp (List.mem_cons.not.mp hnew)).2
    rw [renamed_cons]
    obtain rfl | h := List.mem_cons.mp h
    · rw [rename, if_pos rfl]
      exact renamed_of_notMem hlater
    · have hne : id ≠ old.1 := fun heq => hfirst (heq ▸ List.mem_map_of_mem h)
      rw [rename, if_neg hne]
      exact ih hrest h hlater

/-- Where the new name is renamed later, it is not the last. -/
theorem renamed_twice (hnodup : (olds.map Prod.fst).Nodup)
    (hmid : (mid, new) ∈ olds) (hnew : new ∉ olds.map Prod.fst) :
    renamed ((id, mid) :: olds) id = new := by
  rw [renamed_cons, rename, if_pos rfl]
  exact renamed_of_mem hnodup hmid hnew

theorem RenamedTo.renamed (hnodup : (olds.map Prod.fst).Nodup) (h : RenamedTo olds id new) :
    renamed olds id = new := by
  obtain ⟨hid, rfl⟩ | ⟨hmem, hnew⟩ := h
  · exact renamed_of_notMem hid
  · exact renamed_of_mem hnodup hmem hnew

/-- On the way there it has its old name or the new one. -/
theorem RenamedTo.take (hnodup : (olds.map Prod.fst).Nodup) (h : RenamedTo olds id new) (j : ℕ) :
    Database.renamed (olds.take j) id = id ∨ Database.renamed (olds.take j) id = new := by
  have hsub : (olds.take j).map Prod.fst ⊆ olds.map Prod.fst := List.map_subset _ (List.take_subset j olds)
  have hnodup' : ((olds.take j).map Prod.fst).Nodup := by
    rw [List.map_take]
    exact hnodup.sublist (List.take_sublist j _)
  by_cases hid : id ∈ (olds.take j).map Prod.fst
  · obtain ⟨⟨id', new'⟩, hmem, rfl⟩ := List.mem_map.mp hid
    obtain ⟨hnot, -⟩ | ⟨hmem', hnew⟩ := h
    · exact absurd (hsub hid) hnot
    · have hsame : (id', new') = (id', new) :=
        List.inj_on_of_nodup_map hnodup (List.take_subset j olds hmem) hmem' rfl
      rw [Prod.mk.inj hsame |>.2] at hmem
      exact .inr (renamed_of_mem hnodup' hmem fun h => hnew (hsub h))
  · exact .inl (renamed_of_notMem hid)

end

section

variable {order : IterationOrder} {m : AList fun _ : String => String} {id new : String}

theorem mem_order : (id, new) ∈ order.list m ↔ m.lookup id = some new := by
  rw [(order.perm m).mem_iff, ← Option.mem_def, AList.mem_lookup_iff, List.mem_map]
  constructor
  · intro ⟨e, he, heq⟩
    rw [← (Prod.mk.inj heq).1, ← (Prod.mk.inj heq).2]
    exact he
  · intro h
    exact ⟨_, h, rfl⟩

theorem order_perm_keys : ((order.list m).map Prod.fst).Perm m.keys := by
  have hperm := (order.perm m).map Prod.fst
  rw [List.map_map] at hperm
  exact hperm

theorem order_nodup : ((order.list m).map Prod.fst).Nodup :=
  order_perm_keys.nodup_iff.mpr m.nodupKeys

theorem mem_order_keys : id ∈ (order.list m).map Prod.fst ↔ m.lookup id ≠ none := by
  rw [order_perm_keys.mem_iff, ne_eq, AList.lookup_eq_none, not_not]
  exact AList.mem_keys.symm

/-- Any entry comes first in some order. -/
theorem exists_order (h : m.lookup id = some new) :
    ∃ (order : IterationOrder) (olds : List (String × String)), order.list m = (id, new) :: olds := by
  classical
  have hmem : (id, new) ∈ m.entries.map fun e => (e.1, e.2) :=
    List.mem_map.mpr ⟨⟨id, new⟩, AList.mem_lookup_iff.mp h, rfl⟩
  refine ⟨⟨fun m' => if m' = m then (id, new) :: (m.entries.map fun e => (e.1, e.2)).erase (id, new)
    else m'.entries.map fun e => (e.1, e.2), ?_⟩, _, if_pos rfl⟩
  intro m'
  split_ifs with heq
  · rw [heq]
    exact (List.perm_cons_erase hmem).symm
  · exact List.Perm.refl _

end

/-! ### What the call is to leave -/

section

variable (blake3 : Bytes → FileHash) (certDer : Bytes) (legacySelfId : Option String) (ownName : String)

/-- The other tables, with every device for what it stands for. -/
def standing (db : Database) : Database :=
  db.mapColumns (DeviceColumn.all.map fun c =>
    (c, deviceOf blake3 db.devices certDer legacySelfId))

/-- Nothing is lost. -/
structure Merged (db db' : Database) : Prop where
  certs : ∀ d ∈ db.devices, ∀ cert, d.certDer = some cert →
    ∃ e ∈ db'.devices, e.id = certToDeviceId blake3 cert ∧ e.certDer = some cert ∧
      ∀ e' ∈ db'.devices, e'.certDer = some cert → e' = e
  ownRow : certToDeviceId blake3 certDer ∈ db'.deviceIds
  rows : { db' with devices := db.devices } = standing blake3 certDer legacySelfId db
  gone : ∀ id ∈ db.deviceIds, id ∉ db'.deviceIds →
    (∀ c, id ∉ db'.columnIds c) ∧ ∀ m ∈ db'.fileMetadata, m.deviceId ≠ id

/-- In whatever order the map is gone through, the call merges without loss, and a second one
changes nothing. -/
def ReconcilesWell (s : DbState) : Prop :=
  ∀ order, ∃ s', reconcileDevicesByCert blake3 order certDer legacySelfId ownName s = .ok () s' ∧
    Merged blake3 certDer legacySelfId s.val s'.val ∧
    ∀ order', reconcileDevicesByCert blake3 order' certDer legacySelfId ownName s' = .ok () s'

/-- The device of its name that this one's own row is taken for, where it has no certificate. -/
def ownNamesake (rows : List Db.Device) : Option String :=
  (rows.find? fun d => decide (d.id = certToDeviceId blake3 certDer)).bind fun d =>
    if d.certDer = none then namesake blake3 rows (certToDeviceId blake3 certDer) d.name else none

/-- The name that this device has afterwards. -/
def ownNameAfter (rows : List Db.Device) : String :=
  (rows.find? fun d => decide (d.id = certToDeviceId blake3 certDer)).elim ownName fun d =>
    if ownName = "" ∧ ownNamesake blake3 certDer rows = none then d.name else ownName

/-- The other devices under the name that are in the row of their certificate. -/
def peersNamed (rows : List Db.Device) (name : String) : List Db.Device :=
  rows.filter fun d => decide (d.name = name ∧ d.id ≠ certToDeviceId blake3 certDer) &&
    d.certDer.any fun cert => decide (certToDeviceId blake3 cert = d.id)

/-- Tables that are merged without loss. -/
structure Mergeable (db : Database) : Prop where
  /-- Each certificate is in the row where it belongs. -/
  certs : CertsKept blake3 db.devices certDer legacySelfId
  /-- This device's row stays, or nothing is of this device. -/
  stays : ownNamesake blake3 certDer db.devices = none ∨ ∀ c, ∀ id ∈ db.columnIds c,
    deviceOf blake3 db.devices certDer legacySelfId id ≠ certToDeviceId blake3 certDer
  /-- It is there, or no folder is of this device. -/
  ownRow : certToDeviceId blake3 certDer ∈ db.deviceIds ∨ ∀ id, db.Referred id →
    deviceOf blake3 db.devices certDer legacySelfId id ≠ certToDeviceId blake3 certDer
  /-- No folder is paired, and none is shared, under two identifiers of one device. -/
  pairs : (db.folderDevices.map fun p => (p.folderId,
    deviceOf blake3 db.devices certDer legacySelfId p.deviceId)).Nodup
  shares : (db.sharedFolders.map fun s => (s.folderGuid,
    deviceOf blake3 db.devices certDer legacySelfId s.deviceId)).Nodup
  /-- No file is from a device under another identifier than its last. -/
  metadata : ∀ m ∈ db.fileMetadata, m.deviceId ∈ db.deviceIds →
    deviceOf blake3 db.devices certDer legacySelfId m.deviceId = m.deviceId
  /-- A row without a certificate that stays is not beside one device of its name alone. -/
  stubs : ∀ d ∈ db.devices, d.certDer = none → d.id ≠ certToDeviceId blake3 certDer →
    deviceOf blake3 db.devices certDer legacySelfId d.id = d.id →
    (peersNamed blake3 certDer db.devices d.name).length = 1 →
    ownNameAfter blake3 certDer ownName db.devices = d.name

end
/-! ### Mergeable tables are merged -/

section

variable {blake3 : Bytes → FileHash} {certDer : Bytes} {legacySelfId : Option String} {ownName : String}
  {order : IterationOrder} {s s' : DbState} {db : Database} {f g : String → String} {id : String}

theorem lookup_remapOf_own (hnodup : db.deviceIds.Nodup) :
    (remapOf blake3 db.devices (certToDeviceId blake3 certDer) legacySelfId).lookup
      (certToDeviceId blake3 certDer) = ownNamesake blake3 certDer db.devices := by
  unfold ownNamesake
  by_cases hid : certToDeviceId blake3 certDer ∈ db.devices.map (·.id)
  · obtain ⟨d, hd, hown⟩ := List.mem_map.mp hid
    rw [← hown, find_device hnodup hd, Option.bind_some, hown]
    cases hcert : d.certDer with
    | some cert =>
      rw [← hown, lookup_remapOf_cert hnodup hd hcert, if_pos rfl, if_neg (Option.some_ne_none cert)]
    | none =>
      rw [if_pos rfl, ← hown, lookup_remapOf_stub hnodup hd hcert, if_neg fun h => h.1 rfl]
  · rw [find_device_none hid, lookup_remapOf_of_notMem hid, if_neg fun h => h.1 rfl]
    rfl

/-- **What is mentioned is renamed to what it stands for**, in any order of the map. -/
theorem CertsKept.renamedTo (hkept : CertsKept blake3 db.devices certDer legacySelfId)
    (hnodup : db.deviceIds.Nodup)
    (hstays : ownNamesake blake3 certDer db.devices = none ∨
      deviceOf blake3 db.devices certDer legacySelfId id ≠ certToDeviceId blake3 certDer) :
    RenamedTo (oldNames blake3 order certDer legacySelfId db) id
      (deviceOf blake3 db.devices certDer legacySelfId id) := by
  unfold RenamedTo oldNames
  rw [mem_order_keys, mem_order_keys, mem_order, not_not, not_not]
  by_cases hown : id = certToDeviceId blake3 certDer
  · rw [hown, deviceOf_own] at hstays
    rw [hown, deviceOf_own, lookup_remapOf_own hnodup]
    exact .inl ⟨hstays.resolve_right (not_not.mpr rfl), rfl⟩
  · rw [hkept.lookup hnodup hown]
    by_cases hsame : deviceOf blake3 db.devices certDer legacySelfId id = id
    · rw [if_pos hsame]
      exact .inl ⟨rfl, hsame⟩
    · rw [if_neg hsame]
      refine .inr ⟨rfl, ?_⟩
      by_cases hself : deviceOf blake3 db.devices certDer legacySelfId id = certToDeviceId blake3 certDer
      · rw [hself, lookup_remapOf_own hnodup]
        exact hstays.resolve_right (not_not.mpr hself)
      · rw [hkept.lookup hnodup hself, if_pos (hkept.deviceOf_deviceOf hnodup id)]

theorem RenamedTo.new_notMem {olds : List (String × String)} {new : String} (h : RenamedTo olds id new) :
    new ∉ olds.map Prod.fst := by
  obtain ⟨hid, rfl⟩ | ⟨-, hnew⟩ := h
  · exact hid
  · exact hnew

/-- Part of the way to a name that fits, the tables fit as well. -/
theorem renamable_of_halfway {c : DeviceColumn} (hvalid : db.violation = none)
    (hhalf : ∀ id ∈ db.columnIds c, g id = id ∨ g id = f id) (hfinal : ∀ id, f (f id) = f id)
    (hpairs : (db.folderDevices.map fun p => (p.folderId, f p.deviceId)).Nodup)
    (hshares : (db.sharedFolders.map fun s => (s.folderGuid, f s.deviceId)).Nodup)
    (hrows : ∀ id, db.Referred id → f id ∈ db.deviceIds) : db.Renamable g c := by
  obtain ⟨-, hrefs⟩ := violation_eq_none.mp hvalid
  have hsame : ∀ id ∈ db.columnIds c, f (g id) = f id := by
    intro id hid
    obtain h | h := hhalf id hid
    · rw [h]
    · rw [h, hfinal]
  have hrow : ∀ id ∈ db.columnIds c, db.Referred id → id ∈ db.deviceIds → g id ∈ db.deviceIds := by
    intro id hid hreferred hold
    obtain h | h := hhalf id hid
    · rwa [h]
    · rw [h]
      exact hrows id hreferred
  cases c with
  | folderDevices =>
    refine ⟨?_, ?_⟩
    · apply List.Nodup.of_map (fun k : ℕ × String => (k.1, f k.2))
      rw [List.map_map]
      convert hpairs using 1
      apply List.map_congr_left
      intro p hp
      exact congrArg (Prod.mk p.folderId) (hsame _ (List.mem_map_of_mem hp))
    · intro p hp
      have hid : p.deviceId ∈ db.columnIds .folderDevices := List.mem_map_of_mem hp
      exact hrow _ hid (.inl hid) (hrefs.pairDevice p hp)
  | syncFolders =>
    intro r hr
    have hid : r.deviceId ∈ db.columnIds .syncFolders := List.mem_map_of_mem hr
    exact hrow _ hid (.inr (.inl hid)) (hrefs.folderOwner r hr)
  | sharedFolders =>
    refine ⟨?_, ?_⟩
    · apply List.Nodup.of_map (fun k : String × String => (k.1, f k.2))
      rw [List.map_map]
      convert hshares using 1
      apply List.map_congr_left
      intro s hs
      exact congrArg (Prod.mk s.folderGuid) (hsame _ (List.mem_map_of_mem hs))
    · intro s hs
      have hid : s.deviceId ∈ db.columnIds .sharedFolders := List.mem_map_of_mem hs
      exact hrow _ hid (.inr (.inr hid)) (hrefs.share s hs)
  | fileHistory => trivial
  | syncSessions => trivial

theorem map_put_congr {α : Type} {rows : List α} (key : α → String) (put : α → String → α)
    (h : ∀ id ∈ rows.map key, f id = g id) :
    rows.map (fun r => put r (f (key r))) = rows.map fun r => put r (g (key r)) := by
  apply List.map_congr_left
  intro r hr
  rw [h _ (List.mem_map_of_mem hr)]

/-- Maps that agree on what a column mentions. -/
theorem mapColumn_congr {c : DeviceColumn} (h : ∀ id ∈ db.columnIds c, f id = g id) :
    db.mapColumn f c = db.mapColumn g c := by
  cases c with
  | folderDevices =>
    have hrows := map_put_congr _ (fun r id => ({ r with deviceId := id } : Db.FolderDevice)) h
    change ({ db with folderDevices := _ } : Database) = { db with folderDevices := _ }
    rw [hrows]
  | syncFolders =>
    have hrows := map_put_congr _ (fun r id => ({ r with deviceId := id } : SyncFolderRow)) h
    change ({ db with syncFolders := _ } : Database) = { db with syncFolders := _ }
    rw [hrows]
  | sharedFolders =>
    have hrows := map_put_congr _ (fun r id => ({ r with deviceId := id } : SharedFolderRow)) h
    change ({ db with sharedFolders := _ } : Database) = { db with sharedFolders := _ }
    rw [hrows]
  | fileHistory =>
    have hrows := map_put_congr _ (fun r id => ({ r with deviceId := id } : Db.FileHistory)) h
    change ({ db with fileHistory := _ } : Database) = { db with fileHistory := _ }
    rw [hrows]
  | syncSessions =>
    have hrows := map_put_congr _ (fun r id => ({ r with peerDevice := id } : Db.SyncSession)) h
    change ({ db with syncSessions := _ } : Database) = { db with syncSessions := _ }
    rw [hrows]

/-- Maps that agree on what is mentioned. -/
theorem mapColumns_congr {cs : List DeviceColumn} (hdistinct : cs.Nodup)
    (h : ∀ c ∈ cs, ∀ id ∈ db.columnIds c, f id = g id) :
    db.mapColumns (cs.map fun c => (c, f)) = db.mapColumns (cs.map fun c => (c, g)) := by
  induction cs generalizing db with
  | nil => rfl
  | cons c cs ih =>
    obtain ⟨hnew, hrest⟩ := List.nodup_cons.mp hdistinct
    have hfirst : db.mapColumn f c = db.mapColumn g c := mapColumn_congr (h c List.mem_cons_self)
    change (db.mapColumn f c).mapColumns _ = (db.mapColumn g c).mapColumns _
    rw [hfirst]
    apply ih hrest
    intro c' hc' id hid
    have hne : c' ≠ c := fun heq => hnew (heq ▸ hc')
    rw [columnIds_mapColumn, if_neg hne] at hid
    exact h c' (List.mem_cons_of_mem _ hc') id hid

/-- A folder, a pair and a share are of devices that have rows. -/
theorem referred_mem (hvalid : db.violation = none) (h : db.Referred id) : id ∈ db.deviceIds := by
  obtain ⟨-, hrefs⟩ := violation_eq_none.mp hvalid
  obtain h | h | h := h
  · obtain ⟨p, hp, rfl⟩ := List.mem_map.mp h
    exact hrefs.pairDevice p hp
  · obtain ⟨r, hr, rfl⟩ := List.mem_map.mp h
    exact hrefs.folderOwner r hr
  · obtain ⟨s, hs, rfl⟩ := List.mem_map.mp h
    exact hrefs.share s hs

theorem referred_mentioned (h : db.Referred id) : ∃ c, id ∈ db.columnIds c := by
  obtain h | h | h := h
  · exact ⟨_, h⟩
  · exact ⟨_, h⟩
  · exact ⟨_, h⟩

/-- The tables after the call: those of the map are gone, and this device's row is there. -/
def mergedTables (blake3 : Bytes → FileHash) (certDer : Bytes) (legacySelfId : Option String)
    (ownName : String) (db : Database) : Database :=
  ((standing blake3 certDer legacySelfId db).deleteDevices fun d =>
    ((remapOf blake3 db.devices (certToDeviceId blake3 certDer) legacySelfId).lookup d.id).isSome).putSelf
      (certToDeviceId blake3 certDer) certDer ownName

theorem decide_mem_oldNames : decide (id ∈ (oldNames blake3 order certDer legacySelfId db).map Prod.fst) =
    ((remapOf blake3 db.devices (certToDeviceId blake3 certDer) legacySelfId).lookup id).isSome := by
  rw [Bool.eq_iff_iff, decide_eq_true_iff, Option.isSome_iff_ne_none]
  exact mem_order_keys

theorem reconcile_ok_iff : reconcileDevicesByCert blake3 order certDer legacySelfId ownName s = .ok () s' ↔
    (∀ c j, s.val.Renamable (renamed ((oldNames blake3 order certDer legacySelfId s.val).take j)) c) ∧
    (∀ id ∈ (oldNames blake3 order certDer legacySelfId s.val).map Prod.fst,
      ¬(s.val.mapColumns (allRenamed (oldNames blake3 order certDer legacySelfId s.val))).Referred id) ∧
    s'.val = ((s.val.mapColumns (allRenamed (oldNames blake3 order certDer legacySelfId
      s.val))).deleteDevices fun d => ((remapOf blake3 s.val.devices (certToDeviceId blake3 certDer)
        legacySelfId).lookup d.id).isSome).putSelf (certToDeviceId blake3 certDer) certDer ownName := by
  rw [reconcile_eq, forM_eq_ok, reconciliation_chain]
  simp only [decide_mem_oldNames]

/-- **The call succeeds**, with these tables. -/
theorem reconcile_ok (h : Mergeable blake3 certDer legacySelfId ownName s.val) (order : IterationOrder) :
    ∃ s', reconcileDevicesByCert blake3 order certDer legacySelfId ownName s = .ok () s' ∧
      s'.val = mergedTables blake3 certDer legacySelfId ownName s.val := by
  let olds := oldNames blake3 order certDer legacySelfId s.val
  have hnodup : s.val.deviceIds.Nodup := (violation_eq_none.mp s.valid).1.devices
  have holds : (olds.map Prod.fst).Nodup := order_nodup
  have hto : ∀ c, ∀ id ∈ s.val.columnIds c,
      RenamedTo olds id (deviceOf blake3 s.val.devices certDer legacySelfId id) := by
    intro c id hid
    apply h.certs.renamedTo hnodup
    exact h.stays.imp_right fun hnone => hnone c id hid
  have hrenamable : ∀ c j, s.val.Renamable (renamed (olds.take j)) c := by
    intro c j
    apply renamable_of_halfway s.valid _ (h.certs.deviceOf_deviceOf hnodup) h.pairs h.shares
    · intro id hreferred
      apply h.certs.deviceOf_mem hnodup (referred_mem s.valid hreferred)
      exact h.ownRow.imp_right fun hnone => hnone id hreferred
    · intro id hid
      exact (hto c id hid).take holds j
  have hstanding : s.val.mapColumns (allRenamed olds) = standing blake3 certDer legacySelfId s.val := by
    apply mapColumns_congr (by decide)
    intro c _ id hid
    exact (hto c id hid).renamed holds
  have hfree : ∀ id ∈ olds.map Prod.fst, ¬(s.val.mapColumns (allRenamed olds)).Referred id := by
    intro id hid hreferred
    obtain ⟨id', hreferred', rfl⟩ := referred_allRenamed.mp hreferred
    obtain ⟨c, hmentioned⟩ := referred_mentioned hreferred'
    have hrenamed := hto c id' hmentioned
    rw [hrenamed.renamed holds] at hid
    exact hrenamed.new_notMem hid
  have hdeleted := (deleteNames_valid (allRenamed_valid hrenamable) _).mpr hfree
  have hvalid : (mergedTables blake3 certDer legacySelfId ownName s.val).violation = none := by
    simp only [olds, decide_mem_oldNames] at hdeleted
    rw [hstanding] at hdeleted
    exact @putSelf_valid certDer ⟨_, hdeleted⟩ _ ownName
  refine ⟨⟨_, hvalid⟩, reconcile_ok_iff.mpr ⟨hrenamable, hfree, ?_⟩, rfl⟩
  change mergedTables blake3 certDer legacySelfId ownName s.val = _
  rw [hstanding]
  rfl

end

/-! ### The devices afterwards -/

section

variable {blake3 : Bytes → FileHash} {certDer : Bytes} {legacySelfId : Option String} {ownName : String}
  {db : Database} {rows : List Db.Device} {id name : String}

/-- The row of this device, and the other rows. -/
theorem putSelf_perm (hnodup : db.deviceIds.Nodup) (id : String) (name : String) :
    ∃ addr, (db.putSelf id certDer name).devices.Perm
      (⟨id, (db.devices.find? fun d => decide (d.id = id)).elim name
          fun d => if name = "" then d.name else name, some certDer, addr⟩ ::
        db.devices.filter fun d => decide (d.id ≠ id)) := by
  by_cases hid : id ∈ db.deviceIds
  · obtain ⟨d, hd, rfl⟩ := List.mem_map.mp hid
    rw [find_device hnodup hd]
    refine ⟨d.lastAddr, ?_⟩
    obtain ⟨before, after, hsplit⟩ := List.append_of_mem hd
    have hothers : ∀ e ∈ before ++ after, e.id ≠ d.id := by
      intro e he heq
      unfold deviceIds at hnodup
      rw [hsplit, List.map_append, List.map_cons, List.nodup_middle, List.nodup_cons, ← List.map_append]
        at hnodup
      exact hnodup.1 (heq ▸ List.mem_map_of_mem he)
    have hfilter : db.devices.filter (fun e => decide (e.id ≠ d.id)) = before ++ after := by
      rw [hsplit, List.filter_append, List.filter_cons_of_neg (by simp), ← List.filter_append,
        List.filter_eq_self]
      intro e he
      exact decide_eq_true (hothers e he)
    have hput : (db.putSelf d.id certDer name).devices =
        before ++ ⟨d.id, if name = "" then d.name else name, some certDer, d.lastAddr⟩ :: after := by
      have hany : db.devices.any (fun e => decide (e.id = d.id)) = true :=
        List.any_eq_true.mpr ⟨d, hd, decide_eq_true rfl⟩
      have hsame : ∀ l : List Db.Device, (∀ e ∈ l, e.id ≠ d.id) → (l.map fun e =>
          if decide (e.id = d.id) = true then
            (⟨e.id, if name = "" then e.name else name, some certDer, e.lastAddr⟩ : Db.Device)
          else e) = l := by
        intro l hl
        rw [← List.map_id l, List.map_map]
        apply List.map_congr_left
        intro e he
        exact if_neg (by simpa using hl e he)
      unfold putSelf upsert
      rw [if_pos hany, hsplit, List.map_append, List.map_cons, if_pos (decide_eq_true rfl),
        hsame before fun e he => hothers e (List.mem_append_left _ he),
        hsame after fun e he => hothers e (List.mem_append_right _ he)]
    rw [hput, hfilter]
    exact List.perm_middle
  · rw [find_device_none hid]
    refine ⟨none, ?_⟩
    have hothers : ∀ e ∈ db.devices, e.id ≠ id := fun e he heq => hid (heq ▸ List.mem_map_of_mem he)
    have hany : ¬db.devices.any (fun e => decide (e.id = id)) = true := by
      rw [List.any_eq_true]
      intro ⟨e, he, heq⟩
      exact hothers e he (of_decide_eq_true heq)
    have hfilter : db.devices.filter (fun e => decide (e.id ≠ id)) = db.devices := by
      rw [List.filter_eq_self]
      intro e he
      exact decide_eq_true (hothers e he)
    unfold putSelf upsert
    rw [if_neg hany, hfilter]
    exact List.perm_append_singleton _ _

/-- The rows with a certificate under a name. -/
def certified (rows : List Db.Device) (name : String) : List Db.Device :=
  rows.filter fun d => d.certDer.isSome && decide (d.name = name)

theorem namesake_eq_none_iff {ownId : String} : namesake blake3 rows ownId name = none ↔
    ∀ d, certified rows name = [d] → ∀ cert, d.certDer = some cert →
      certToDeviceId blake3 cert = ownId := by
  have hcount : certCountByName rows name = (certified rows name).length := List.countP_eq_length_filter
  unfold namesake
  rw [hcount]
  constructor
  · intro h d hd cert hcert
    have hone : (certified rows name).length = 1 := by rw [hd]; rfl
    rw [if_pos hone] at h
    have hid : certIdByName blake3 rows name = some (certToDeviceId blake3 cert) := by
      unfold certIdByName
      change ((certified rows name).getLast?.bind _).map _ = _
      rw [hd]
      simp [hcert]
    rw [hid, Option.filter_some] at h
    by_contra hne
    rw [if_pos (decide_eq_true hne)] at h
    cases h
  · intro h
    split_ifs with hone
    · obtain ⟨d, hd⟩ := List.length_eq_one_iff.mp hone
      have hmem : d ∈ certified rows name := by rw [hd]; exact List.mem_singleton_self d
      have hsome : d.certDer.isSome = true := (Bool.and_eq_true_iff.mp (List.mem_filter.mp hmem).2).1
      obtain ⟨cert, hcert⟩ := Option.isSome_iff_exists.mp hsome
      have hid : certIdByName blake3 rows name = some (certToDeviceId blake3 cert) := by
        unfold certIdByName
        change ((certified rows name).getLast?.bind _).map _ = _
        rw [hd]
        simp [hcert]
      rw [hid, Option.filter_some, h d hd cert hcert, if_neg (by simp)]
    · rfl

end

section

variable {blake3 : Bytes → FileHash} {certDer : Bytes} {legacySelfId : Option String} {ownName : String}
  {order : IterationOrder} {s s' : DbState} {db : Database} {id name : String} {d e : Db.Device}

/-- A row that is neither this device's nor to be merged into another. -/
def Stays (blake3 : Bytes → FileHash) (certDer : Bytes) (legacySelfId : Option String)
    (rows : List Db.Device) (d : Db.Device) : Prop :=
  d.id ≠ certToDeviceId blake3 certDer ∧
    (remapOf blake3 rows (certToDeviceId blake3 certDer) legacySelfId).lookup d.id = none

instance (rows : List Db.Device) (d : Db.Device) : Decidable (Stays blake3 certDer legacySelfId rows d) :=
  inferInstanceAs (Decidable (_ ∧ _))

/-- The table of devices after the call, with this device's row. -/
structure After (blake3 : Bytes → FileHash) (certDer : Bytes) (legacySelfId : Option String)
    (ownName : String) (rows rows' : List Db.Device) (own : Db.Device) : Prop where
  id_eq : own.id = certToDeviceId blake3 certDer
  cert_eq : own.certDer = some certDer
  name_eq : own.name = ownNameAfter blake3 certDer ownName rows
  perm : rows'.Perm (own :: rows.filter fun d => decide (Stays blake3 certDer legacySelfId rows d))

theorem after_merged (hnodup : db.deviceIds.Nodup) : ∃ own, After blake3 certDer legacySelfId ownName
    db.devices (mergedTables blake3 certDer legacySelfId ownName db).devices own := by
  let left := (standing blake3 certDer legacySelfId db).deleteDevices fun d =>
    ((remapOf blake3 db.devices (certToDeviceId blake3 certDer) legacySelfId).lookup d.id).isSome
  have hleft : left.devices = db.devices.filter fun d =>
      !((remapOf blake3 db.devices (certToDeviceId blake3 certDer) legacySelfId).lookup d.id).isSome := by
    change List.filter _ (db.mapColumns _).devices = _
    rw [mapColumns_devices]
  have hleftNodup : left.deviceIds.Nodup := by
    unfold deviceIds
    rw [hleft]
    exact hnodup.sublist (List.filter_sublist.map _)
  obtain ⟨addr, hperm⟩ := @putSelf_perm certDer left hleftNodup (certToDeviceId blake3 certDer) ownName
  have hname : ((left.devices.find? fun d => decide (d.id = certToDeviceId blake3 certDer)).elim ownName
      fun d => if ownName = "" then d.name else ownName) =
        ownNameAfter blake3 certDer ownName db.devices := by
    unfold ownNameAfter
    by_cases hid : certToDeviceId blake3 certDer ∈ db.deviceIds
    · obtain ⟨d, hd, hown⟩ := List.mem_map.mp hid
      have hfind := find_device hnodup hd
      rw [hown] at hfind
      rw [hfind, Option.elim_some]
      by_cases hstays : ownNamesake blake3 certDer db.devices = none
      · have hd' : d ∈ left.devices := by
          rw [hleft]
          refine List.mem_filter.mpr ⟨hd, ?_⟩
          rw [hown, lookup_remapOf_own hnodup, hstays]
          rfl
        have hfind' := find_device hleftNodup hd'
        rw [hown] at hfind'
        rw [hfind', Option.elim_some]
        simp only [hstays, and_true]
      · have hgone : certToDeviceId blake3 certDer ∉ left.devices.map (·.id) := by
          rw [hleft, List.mem_map]
          intro ⟨e, he, heq⟩
          have hnot := (List.mem_filter.mp he).2
          rw [heq, lookup_remapOf_own hnodup] at hnot
          exact hstays (by simpa using hnot)
        rw [find_device_none hgone, if_neg fun h => hstays h.2]
        rfl
    · have hgone : certToDeviceId blake3 certDer ∉ left.devices.map (·.id) := by
        rw [hleft]
        intro h
        obtain ⟨e, he, heq⟩ := List.mem_map.mp h
        exact hid (heq ▸ List.mem_map_of_mem (List.mem_of_mem_filter he))
      rw [find_device_none hgone, find_device_none hid]
      rfl
  have hrows : (db.devices.filter fun d => decide (d.id ≠ certToDeviceId blake3 certDer) &&
      !((remapOf blake3 db.devices (certToDeviceId blake3 certDer) legacySelfId).lookup d.id).isSome) =
      db.devices.filter fun d => decide (Stays blake3 certDer legacySelfId db.devices d) := by
    apply List.filter_congr
    intro d _
    rw [Bool.eq_iff_iff, Bool.and_eq_true_iff, decide_eq_true_iff, decide_eq_true_iff]
    exact and_congr_right fun _ => by simp
  rw [hname, hleft, List.filter_filter, hrows] at hperm
  refine ⟨⟨certToDeviceId blake3 certDer, ownNameAfter blake3 certDer ownName db.devices, some certDer,
    addr⟩, rfl, rfl, rfl, ?_⟩
  unfold mergedTables
  exact hperm

theorem After.mem_iff {rows rows' : List Db.Device} {own : Db.Device}
    (h : After blake3 certDer legacySelfId ownName rows rows' own) :
    e ∈ rows' ↔ e = own ∨ e ∈ rows ∧ Stays blake3 certDer legacySelfId rows e := by
  rw [h.perm.mem_iff, List.mem_cons, List.mem_filter, decide_eq_true_iff]

section

variable {rows rows' : List Db.Device} {own : Db.Device}

/-- A certificate in a row that stays belongs there. -/
theorem Stays.cert (hstays : Stays blake3 certDer legacySelfId rows d)
    (hnodup : (rows.map (·.id)).Nodup) (hkept : CertsKept blake3 rows certDer legacySelfId)
    (hd : d ∈ rows) {cert : Bytes} (hcert : d.certDer = some cert) : certToDeviceId blake3 cert = d.id := by
  obtain ⟨hown, hlookup⟩ := hstays
  rw [hkept.lookup hnodup hown] at hlookup
  split_ifs at hlookup with hsame
  rwa [deviceOf_cert hnodup hd hown hcert] at hsame

theorem stays_iff (hnodup : (rows.map (·.id)).Nodup) (hkept : CertsKept blake3 rows certDer legacySelfId)
    (hd : d ∈ rows) {cert : Bytes} (hcert : d.certDer = some cert) :
    Stays blake3 certDer legacySelfId rows d ↔
      d.id ≠ certToDeviceId blake3 certDer ∧ certToDeviceId blake3 cert = d.id := by
  constructor
  · exact fun hstays => ⟨hstays.1, hstays.cert hnodup hkept hd hcert⟩
  · intro ⟨hown, hid⟩
    refine ⟨hown, ?_⟩
    rw [hkept.lookup hnodup hown, deviceOf_cert hnodup hd hown hcert, if_pos hid]

/-- Under a name there are this device, if it has the name, and the peers. -/
theorem After.certified_perm (h : After blake3 certDer legacySelfId ownName rows rows' own)
    (hnodup : (rows.map (·.id)).Nodup) (hkept : CertsKept blake3 rows certDer legacySelfId) :
    (certified rows' name).Perm ((if ownNameAfter blake3 certDer ownName rows = name then [own] else []) ++
      peersNamed blake3 certDer rows name) := by
  have hpeers : certified (rows.filter fun d => decide (Stays blake3 certDer legacySelfId rows d)) name =
      peersNamed blake3 certDer rows name := by
    unfold certified peersNamed
    rw [List.filter_filter]
    apply List.filter_congr
    intro d hd
    cases hcert : d.certDer with
    | none => simp
    | some cert =>
      have hstays := stays_iff hnodup hkept hd hcert
      rw [Bool.eq_iff_iff]
      simp only [Option.isSome_some, Bool.true_and, Option.any_some, Bool.and_eq_true,
        decide_eq_true_eq, hstays]
      exact (and_assoc).symm
  have hown : certified [own] name =
      if ownNameAfter blake3 certDer ownName rows = name then [own] else [] := by
    unfold certified
    rw [List.filter_singleton, h.cert_eq, h.name_eq]
    by_cases hname : ownNameAfter blake3 certDer ownName rows = name
    · simp [hname]
    · simp [hname]
  rw [← hpeers, ← hown]
  unfold certified
  rw [← List.filter_append]
  exact h.perm.filter _

/-- And it stays so. -/
theorem After.certsKept (h : After blake3 certDer legacySelfId ownName rows rows' own)
    (hnodup : (rows.map (·.id)).Nodup) (hkept : CertsKept blake3 rows certDer legacySelfId) :
    CertsKept blake3 rows' certDer legacySelfId := by
  intro d hd cert hcert
  obtain rfl | ⟨hd', hstays⟩ := h.mem_iff.mp hd
  · rw [h.cert_eq] at hcert
    exact .inl (Option.some.inj hcert).symm
  · have hid := hstays.cert hnodup hkept hd' hcert
    obtain rfl | ⟨hown, hlegacy, -⟩ := hkept d hd' cert hcert
    · exact .inl rfl
    · exact .inr ⟨hown, hlegacy, d, hd, hid.symm, hcert⟩

theorem After.ownNamesake_eq (h : After blake3 certDer legacySelfId ownName rows rows' own)
    (hnodup' : (rows'.map (·.id)).Nodup) : ownNamesake blake3 certDer rows' = none := by
  have hfind := find_device hnodup' (h.mem_iff.mpr (.inl rfl))
  rw [h.id_eq] at hfind
  unfold ownNamesake
  rw [hfind, Option.bind_some, h.cert_eq, if_neg (Option.some_ne_none certDer)]

/-- A row without a certificate would be merged by the next call, unless there are several devices of its
name, or none but this one. -/
theorem After.namesake_iff (h : After blake3 certDer legacySelfId ownName rows rows' own)
    (hnodup : (rows.map (·.id)).Nodup) (hkept : CertsKept blake3 rows certDer legacySelfId) :
    namesake blake3 rows' (certToDeviceId blake3 certDer) name = none ↔
      ((peersNamed blake3 certDer rows name).length = 1 →
        ownNameAfter blake3 certDer ownName rows = name) := by
  have hperm := @After.certified_perm _ _ _ _ name _ _ _ h hnodup hkept
  rw [namesake_eq_none_iff]
  constructor
  · intro hall hone
    by_contra hne
    rw [if_neg hne, List.nil_append] at hperm
    obtain ⟨p, hp⟩ := List.length_eq_one_iff.mp hone
    have hmem : p ∈ peersNamed blake3 certDer rows name := by rw [hp]; exact List.mem_singleton_self p
    rw [hp] at hperm
    obtain ⟨hpeer, hany⟩ := Bool.and_eq_true_iff.mp (List.mem_filter.mp hmem).2
    obtain ⟨cert, hcert, hid⟩ := (Option.any_eq_true _ _).mp hany
    have hcanonical := hall p (List.perm_singleton.mp hperm) cert hcert
    rw [of_decide_eq_true hid] at hcanonical
    exact (of_decide_eq_true hpeer).2 hcanonical
  · intro himp d hd cert hcert
    rw [hd] at hperm
    by_cases hname : ownNameAfter blake3 certDer ownName rows = name
    · rw [if_pos hname] at hperm
      have hown : own = d := List.mem_singleton.mp (hperm.mem_iff.mpr List.mem_cons_self)
      rw [← hown, h.cert_eq] at hcert
      rw [Option.some.inj hcert]
    · rw [if_neg hname, List.nil_append] at hperm
      exact absurd (himp hperm.length_eq.symm) hname

theorem Stays.deviceOf_eq (hstays : Stays blake3 certDer legacySelfId rows d)
    (hnodup : (rows.map (·.id)).Nodup) (hkept : CertsKept blake3 rows certDer legacySelfId) :
    deviceOf blake3 rows certDer legacySelfId d.id = d.id := by
  obtain ⟨hown, hlookup⟩ := hstays
  rw [hkept.lookup hnodup hown] at hlookup
  split_ifs at hlookup with hsame
  exact hsame

/-- The old identifier of this device stands for another one. -/
theorem legacy_ne (hnodup : (rows.map (·.id)).Nodup) (hkept : CertsKept blake3 rows certDer legacySelfId)
    (hown : id ≠ certToDeviceId blake3 certDer)
    (hself : deviceOf blake3 rows certDer legacySelfId id = id) : legacySelfId ≠ some id := by
  intro hlegacy
  by_cases hid : id ∈ rows.map (·.id)
  · obtain ⟨d, hd, rfl⟩ := List.mem_map.mp hid
    cases hcert : d.certDer with
    | some cert =>
      rw [deviceOf_cert hnodup hd hown hcert] at hself
      obtain rfl | ⟨-, hne, -⟩ := hkept d hd cert hcert
      · exact hown hself.symm
      · rw [hself] at hne
        exact hne hlegacy
    | none =>
      rw [deviceOf_stub hnodup hd hown hcert, if_pos hlegacy] at hself
      exact hown hself.symm
  · rw [deviceOf_of_notMem hid hown, if_pos hlegacy] at hself
    exact hown hself.symm

/-- **What is there after the call stands for itself.** -/
theorem After.deviceOf_eq (h : After blake3 certDer legacySelfId ownName rows rows' own)
    (hnodup : (rows.map (·.id)).Nodup) (hnodup' : (rows'.map (·.id)).Nodup)
    (hkept : CertsKept blake3 rows certDer legacySelfId)
    (hstubs : ∀ d ∈ rows, d.certDer = none → d.id ≠ certToDeviceId blake3 certDer →
      deviceOf blake3 rows certDer legacySelfId d.id = d.id →
      (peersNamed blake3 certDer rows d.name).length = 1 →
      ownNameAfter blake3 certDer ownName rows = d.name)
    (hid : id ∈ rows'.map (·.id) ∨ deviceOf blake3 rows certDer legacySelfId id = id) :
    deviceOf blake3 rows' certDer legacySelfId id = id := by
  by_cases hown : id = certToDeviceId blake3 certDer
  · rw [hown, deviceOf_own]
  by_cases hmem : id ∈ rows'.map (·.id)
  · obtain ⟨d, hd', rfl⟩ := List.mem_map.mp hmem
    obtain rfl | ⟨hd, hstays⟩ := h.mem_iff.mp hd'
    · exact absurd h.id_eq hown
    have hself := hstays.deviceOf_eq hnodup hkept
    cases hcert : d.certDer with
    | some cert => rw [deviceOf_cert hnodup' hd' hown hcert, hstays.cert hnodup hkept hd hcert]
    | none =>
      have hnone := (h.namesake_iff hnodup hkept).mpr (hstubs d hd hcert hown hself)
      rw [deviceOf_stub hnodup' hd' hown hcert, if_neg (legacy_ne hnodup hkept hown hself), hnone,
        Option.getD_none]
  · have hself := hid.resolve_left hmem
    rw [deviceOf_of_notMem hmem hown, if_neg (legacy_ne hnodup hkept hown hself)]

end

/-! ### A second call -/

/-- Where nothing in the tables is in the map, the call does nothing but write this device's row. -/
theorem reconcile_unchanged
    (hnone : ∀ id, id ∈ s.val.deviceIds ∨ (∃ c, id ∈ s.val.columnIds c) →
      (remapOf blake3 s.val.devices (certToDeviceId blake3 certDer) legacySelfId).lookup id = none)
    (hself : s.val.putSelf (certToDeviceId blake3 certDer) certDer ownName = s.val)
    (order : IterationOrder) :
    reconcileDevicesByCert blake3 order certDer legacySelfId ownName s = .ok () s := by
  let olds := oldNames blake3 order certDer legacySelfId s.val
  have hkey : ∀ id ∈ olds.map Prod.fst,
      (remapOf blake3 s.val.devices (certToDeviceId blake3 certDer) legacySelfId).lookup id ≠ none :=
    fun id hid => mem_order_keys.mp hid
  have hfixed : ∀ c, ∀ id ∈ s.val.columnIds c, ∀ j, renamed (olds.take j) id = id := by
    intro c id hid j
    apply renamed_of_notMem
    intro hold
    exact hkey id (List.map_subset _ (List.take_subset j olds) hold) (hnone id (.inr ⟨c, hid⟩))
  have hmap : s.val.mapColumns (allRenamed olds) = s.val := by
    rw [mapColumns_eq_self allRenamed_distinct]
    intro f hf id hid
    obtain ⟨c, -, rfl⟩ := List.mem_map.mp hf
    have hlast := hfixed c id hid olds.length
    rwa [List.take_length] at hlast
  refine reconcile_ok_iff.mpr ⟨?_, ?_, ?_⟩
  · intro c j
    apply (mapColumn_valid s.valid).mp
    rw [mapColumn_id fun id hid => hfixed c id hid j]
    exact s.valid
  · intro id hid hreferred
    rw [hmap] at hreferred
    exact hkey id hid (hnone id (.inr (referred_mentioned hreferred)))
  · rw [hmap]
    have hkeep : (s.val.deleteDevices fun d =>
        ((remapOf blake3 s.val.devices (certToDeviceId blake3 certDer) legacySelfId).lookup d.id).isSome) =
        s.val := by
      have hrows : (s.val.devices.filter fun d => !((remapOf blake3 s.val.devices
          (certToDeviceId blake3 certDer) legacySelfId).lookup d.id).isSome) = s.val.devices := by
        rw [List.filter_eq_self]
        intro d hd
        rw [hnone d.id (.inl (List.mem_map_of_mem hd))]
        rfl
      change ({ s.val with devices := _ } : Database) = s.val
      rw [hrows]
    rw [hkeep, hself]

/-- What has been written already is written again without a change. -/
theorem upsert_upsert {α : Type} {conflicts : α → Bool} {update : α → α} {row : α} (rows : List α)
    (hconflicts : ∀ r, conflicts r = true → conflicts (update r) = true)
    (hupdate : ∀ r, update (update r) = update r) (hrow : conflicts row = true) (hsame : update row = row) :
    upsert conflicts update row (upsert conflicts update row rows) = upsert conflicts update row rows := by
  by_cases hany : rows.any conflicts = true
  · have hfirst : upsert conflicts update row rows =
        rows.map fun r => if conflicts r then update r else r := if_pos hany
    have hagain : (rows.map fun r => if conflicts r then update r else r).any conflicts = true := by
      obtain ⟨r, hr, hc⟩ := List.any_eq_true.mp hany
      refine List.any_eq_true.mpr ⟨_, List.mem_map_of_mem hr, ?_⟩
      rw [if_pos hc]
      exact hconflicts r hc
    rw [hfirst, upsert, if_pos hagain, List.map_map]
    apply List.map_congr_left
    intro r _
    by_cases hc : conflicts r = true
    · simp only [Function.comp, if_pos hc, if_pos (hconflicts r hc), hupdate]
    · simp only [Function.comp, if_neg hc]
  · have hfirst : upsert conflicts update row rows = rows ++ [row] := if_neg hany
    have hagain : (rows ++ [row]).any conflicts = true :=
      List.any_eq_true.mpr ⟨row, List.mem_append_right _ List.mem_cons_self, hrow⟩
    have hothers : (rows.map fun r => if conflicts r then update r else r) = rows := by
      refine (List.map_congr_left ?_).trans (List.map_id rows)
      intro r hr
      exact if_neg fun hc => hany (List.any_eq_true.mpr ⟨r, hr, hc⟩)
    rw [hfirst, upsert, if_pos hagain, List.map_append, hothers, List.map_singleton, if_pos hrow, hsame]

theorem putSelf_putSelf (id : String) :
    (db.putSelf id certDer ownName).putSelf id certDer ownName = db.putSelf id certDer ownName := by
  unfold putSelf
  rw [upsert_upsert db.devices]
  · exact fun r hr => hr
  · intro r
    split_ifs
    · rfl
    · rfl
  · exact decide_eq_true rfl
  · simp

theorem columnIds_standing (c : DeviceColumn) : (standing blake3 certDer legacySelfId db).columnIds c =
    (db.columnIds c).map (deviceOf blake3 db.devices certDer legacySelfId) := by
  apply columnIds_mapColumns_mem
  · rw [List.map_map]
    exact (List.map_id _).symm ▸ by decide
  · exact List.mem_map_of_mem (by cases c <;> decide)

/-- **A second call changes nothing.** -/
theorem reconcile_again (h : Mergeable blake3 certDer legacySelfId ownName s.val)
    (hs' : s'.val = mergedTables blake3 certDer legacySelfId ownName s.val) (order : IterationOrder) :
    reconcileDevicesByCert blake3 order certDer legacySelfId ownName s' = .ok () s' := by
  have hnodup : s.val.deviceIds.Nodup := (violation_eq_none.mp s.valid).1.devices
  have hnodup' : s'.val.deviceIds.Nodup := (violation_eq_none.mp s'.valid).1.devices
  obtain ⟨own, hafter⟩ := @after_merged blake3 certDer legacySelfId ownName s.val hnodup
  rw [← hs'] at hafter
  apply reconcile_unchanged
  · intro id hid
    have hself : deviceOf blake3 s'.val.devices certDer legacySelfId id = id := by
      apply hafter.deviceOf_eq hnodup hnodup' h.certs h.stubs
      apply hid.imp_right
      intro ⟨c, hc⟩
      rw [hs'] at hc
      obtain ⟨id', -, rfl⟩ := List.mem_map.mp (columnIds_standing c ▸ hc)
      exact h.certs.deviceOf_deviceOf hnodup id'
    by_cases hown : id = certToDeviceId blake3 certDer
    · rw [hown, lookup_remapOf_own hnodup', hafter.ownNamesake_eq hnodup']
    · rw [(hafter.certsKept hnodup h.certs).lookup hnodup' hown, if_pos hself]
  · rw [hs']
    exact putSelf_putSelf _

/-- **Nothing is lost.** -/
theorem merged_of_mergeable (h : Mergeable blake3 certDer legacySelfId ownName s.val)
    (hs' : s'.val = mergedTables blake3 certDer legacySelfId ownName s.val) :
    Merged blake3 certDer legacySelfId s.val s'.val := by
  have hnodup : s.val.deviceIds.Nodup := (violation_eq_none.mp s.valid).1.devices
  obtain ⟨own, hafter⟩ := @after_merged blake3 certDer legacySelfId ownName s.val hnodup
  rw [← hs'] at hafter
  refine ⟨?_, ?_, ?_, ?_⟩
  · intro d hd cert hcert
    obtain rfl | ⟨hown, hlegacy, e, he, hid, hcarries⟩ := h.certs d hd cert hcert
    · -- our own certificate
      refine ⟨own, hafter.mem_iff.mpr (.inl rfl), hafter.id_eq, hafter.cert_eq, ?_⟩
      intro e' he' hcarries
      obtain rfl | ⟨he', hstays⟩ := hafter.mem_iff.mp he'
      · rfl
      · exact absurd (hstays.cert hnodup h.certs he' hcarries).symm hstays.1
    · have hstays : Stays blake3 certDer legacySelfId s.val.devices e := by
        refine (stays_iff hnodup h.certs he hcarries).mpr ⟨?_, hid.symm⟩
        rw [hid]
        exact hown
      refine ⟨e, hafter.mem_iff.mpr (.inr ⟨he, hstays⟩), hid, hcarries, ?_⟩
      intro e' he' hcarries'
      obtain rfl | ⟨he', hstays'⟩ := hafter.mem_iff.mp he'
      · rw [hafter.cert_eq] at hcarries'
        rw [Option.some.inj hcarries'] at hown
        exact absurd rfl hown
      · apply List.inj_on_of_nodup_map hnodup he' he
        rw [hid, hstays'.cert hnodup h.certs he' hcarries']
  · exact List.mem_map.mpr ⟨own, hafter.mem_iff.mpr (.inl rfl), hafter.id_eq⟩
  · have hdevices : (standing blake3 certDer legacySelfId s.val).devices = s.val.devices :=
      mapColumns_devices
    rw [hs']
    change ({ standing blake3 certDer legacySelfId s.val with devices := s.val.devices } : Database) = _
    rw [← hdevices]
  · intro id hid hgone
    have hmoved : deviceOf blake3 s.val.devices certDer legacySelfId id ≠ id := by
      intro hself
      apply hgone
      by_cases hown : id = certToDeviceId blake3 certDer
      · exact List.mem_map.mpr ⟨own, hafter.mem_iff.mpr (.inl rfl), hafter.id_eq.trans hown.symm⟩
      · obtain ⟨d, hd, rfl⟩ := List.mem_map.mp hid
        have hstays : Stays blake3 certDer legacySelfId s.val.devices d := by
          refine ⟨hown, ?_⟩
          rw [h.certs.lookup hnodup hown, if_pos hself]
        exact List.mem_map_of_mem (hafter.mem_iff.mpr (.inr ⟨hd, hstays⟩))
    refine ⟨?_, ?_⟩
    · intro c hc
      rw [hs'] at hc
      obtain ⟨id', -, rfl⟩ := List.mem_map.mp (columnIds_standing c ▸ hc)
      exact hmoved (h.certs.deviceOf_deviceOf hnodup id')
    · intro m hm heq
      rw [hs'] at hm
      rw [← heq] at hmoved hid
      exact hmoved (h.metadata m hm hid)

end

/-! ### What is merged without loss is mergeable -/

section

variable {blake3 : Bytes → FileHash} {certDer : Bytes} {legacySelfId : Option String} {ownName : String}
  {order : IterationOrder} {s s' : DbState} {db : Database} {id : String} {g : String → String}

/-- The devices after a call that succeeds. -/
theorem after_of_ok (hok : reconcileDevicesByCert blake3 order certDer legacySelfId ownName s = .ok () s') :
    ∃ own, After blake3 certDer legacySelfId ownName s.val.devices s'.val.devices own := by
  have hnodup : s.val.deviceIds.Nodup := (violation_eq_none.mp s.valid).1.devices
  obtain ⟨-, -, hval⟩ := reconcile_ok_iff.mp hok
  have hdevices : s'.val.devices = (mergedTables blake3 certDer legacySelfId ownName s.val).devices := by
    rw [hval]
    change upsert _ _ _ (List.filter _ (s.val.mapColumns _).devices) =
      upsert _ _ _ (List.filter _ (s.val.mapColumns _).devices)
    rw [mapColumns_devices, mapColumns_devices]
  rw [hdevices]
  exact after_merged hnodup

/-- And what was mentioned then is what it stands for. -/
theorem renamed_of_merged
    (hok : reconcileDevicesByCert blake3 order certDer legacySelfId ownName s = .ok () s')
    (hmerged : Merged blake3 certDer legacySelfId s.val s'.val) {c : DeviceColumn}
    (hid : id ∈ s.val.columnIds c) : renamed (oldNames blake3 order certDer legacySelfId s.val) id =
      deviceOf blake3 s.val.devices certDer legacySelfId id := by
  obtain ⟨-, -, hval⟩ := reconcile_ok_iff.mp hok
  have hcolumns : s'.val.columnIds c = (s.val.columnIds c).map
      (renamed (oldNames blake3 order certDer legacySelfId s.val)) := by
    rw [hval, ← columnIds_allRenamed]
    cases c <;> rfl
  have hstanding : s'.val.columnIds c = (standing blake3 certDer legacySelfId s.val).columnIds c := by
    rw [← hmerged.rows]
    cases c <;> rfl
  rw [hcolumns, columnIds_standing] at hstanding
  exact List.map_inj_left.mp hstanding id hid

theorem renamable_mem (hfits : ∀ c, db.Renamable g c) (h : db.Referred id) : g id ∈ db.deviceIds := by
  obtain h | h | h := h
  · obtain ⟨p, hp, rfl⟩ := List.mem_map.mp h
    exact (hfits .folderDevices).2 p hp
  · obtain ⟨r, hr, rfl⟩ := List.mem_map.mp h
    exact hfits .syncFolders r hr
  · obtain ⟨s, hs, rfl⟩ := List.mem_map.mp h
    exact (hfits .sharedFolders).2 s hs

/-- The order of the entries themselves. -/
def entryOrder : IterationOrder := ⟨fun m => m.entries.map fun e => (e.1, e.2), fun _ => List.Perm.refl _⟩

theorem certsKept_of_merged
    (hok : reconcileDevicesByCert blake3 order certDer legacySelfId ownName s = .ok () s')
    (hmerged : Merged blake3 certDer legacySelfId s.val s'.val) :
    CertsKept blake3 s.val.devices certDer legacySelfId := by
  have hnodup : s.val.deviceIds.Nodup := (violation_eq_none.mp s.valid).1.devices
  obtain ⟨own, hafter⟩ := after_of_ok hok
  intro d hd cert hcert
  obtain ⟨e, he, hid, hcarries, -⟩ := hmerged.certs d hd cert hcert
  obtain rfl | ⟨he, hown, hlookup⟩ := hafter.mem_iff.mp he
  · rw [hafter.cert_eq] at hcarries
    exact .inl (Option.some.inj hcarries).symm
  · rw [lookup_remapOf_cert hnodup he hcarries, if_neg hown, if_neg (not_ne_iff.mpr hid.symm)] at hlookup
    rw [hid] at hown
    refine .inr ⟨hown, ?_, e, he, hid, hcarries⟩
    intro hlegacy
    rw [hid, if_pos hlegacy] at hlookup
    cases hlookup

/-- **This device's row is not taken for another's**, where something is of this device. -/
theorem stays_of_reconcilesWell (h : ReconcilesWell blake3 certDer legacySelfId ownName s)
    (hkept : CertsKept blake3 s.val.devices certDer legacySelfId) :
    ownNamesake blake3 certDer s.val.devices = none ∨ ∀ c, ∀ id ∈ s.val.columnIds c,
      deviceOf blake3 s.val.devices certDer legacySelfId id ≠ certToDeviceId blake3 certDer := by
  have hnodup : s.val.deviceIds.Nodup := (violation_eq_none.mp s.valid).1.devices
  cases hnamesake : ownNamesake blake3 certDer s.val.devices with
  | none => exact .inl rfl
  | some canonical =>
    right
    have hlookup : (remapOf blake3 s.val.devices (certToDeviceId blake3 certDer) legacySelfId).lookup
        (certToDeviceId blake3 certDer) = some canonical := by
      rw [lookup_remapOf_own hnodup, hnamesake]
    obtain ⟨hne, hnone⟩ : canonical ≠ certToDeviceId blake3 certDer ∧
        (remapOf blake3 s.val.devices (certToDeviceId blake3 certDer) legacySelfId).lookup canonical =
          none := by
      obtain ⟨d, -, hname⟩ := Option.bind_eq_some_iff.mp hnamesake
      split_ifs at hname
      obtain ⟨hne, e, he, cert, hcert, rfl⟩ := namesake_eq_some hname
      exact ⟨hne, (hkept.row hnodup he hcert hne).2.2⟩
    intro c id hid hself
    by_cases hown : id = certToDeviceId blake3 certDer
    · obtain ⟨s', hok, hmerged, -⟩ := h entryOrder
      have hrenamed := renamed_of_merged hok hmerged hid
      unfold oldNames at hrenamed
      rw [hself, hown, renamed_of_mem order_nodup (mem_order.mpr hlookup)
        fun hkey => mem_order_keys.mp hkey hnone] at hrenamed
      exact hne hrenamed
    · -- the entry of the identifier comes before that of this device's row
      have hfirst : (remapOf blake3 s.val.devices (certToDeviceId blake3 certDer) legacySelfId).lookup id =
          some (certToDeviceId blake3 certDer) := by
        rw [hkept.lookup hnodup hown, hself, if_neg (Ne.symm hown)]
      obtain ⟨order, olds, horder⟩ := exists_order hfirst
      obtain ⟨s', hok, hmerged, -⟩ := h order
      have hrenamed := renamed_of_merged hok hmerged hid
      have hkeys : ((order.list (remapOf blake3 s.val.devices (certToDeviceId blake3 certDer)
          legacySelfId)).map Prod.fst).Nodup := order_nodup
      have hmem : (certToDeviceId blake3 certDer, canonical) ∈ order.list (remapOf blake3 s.val.devices
          (certToDeviceId blake3 certDer) legacySelfId) := mem_order.mpr hlookup
      have hlast : canonical ∉ (order.list (remapOf blake3 s.val.devices (certToDeviceId blake3 certDer)
          legacySelfId)).map Prod.fst := fun hkey => mem_order_keys.mp hkey hnone
      unfold oldNames at hrenamed
      rw [horder] at hrenamed hkeys hmem hlast
      have hlater : (certToDeviceId blake3 certDer, canonical) ∈ olds := by
        obtain heq | hlater := List.mem_cons.mp hmem
        · exact absurd (Prod.mk.inj heq).1.symm hown
        · exact hlater
      rw [hself, renamed_twice (List.nodup_cons.mp hkeys).2 hlater
        fun hkey => hlast (List.mem_cons_of_mem _ hkey)] at hrenamed
      exact hne hrenamed

theorem mergeable_of_reconcilesWell (h : ReconcilesWell blake3 certDer legacySelfId ownName s) :
    Mergeable blake3 certDer legacySelfId ownName s.val := by
  have hnodup : s.val.deviceIds.Nodup := (violation_eq_none.mp s.valid).1.devices
  obtain ⟨s', hok, hmerged, hagain⟩ := h entryOrder
  have hnodup' : s'.val.deviceIds.Nodup := (violation_eq_none.mp s'.valid).1.devices
  have hkept := certsKept_of_merged hok hmerged
  obtain ⟨own, hafter⟩ := after_of_ok hok
  obtain ⟨hfits, -, hval⟩ := reconcile_ok_iff.mp hok
  have hfit : ∀ c, s.val.Renamable (renamed (oldNames blake3 entryOrder certDer legacySelfId s.val)) c := by
    intro c
    have hlast := hfits c (oldNames blake3 entryOrder certDer legacySelfId s.val).length
    rwa [List.take_length] at hlast
  refine ⟨hkept, stays_of_reconcilesWell h hkept, ?_, ?_, ?_, ?_, ?_⟩
  · by_contra hnot
    rw [not_or] at hnot
    obtain ⟨hmissing, hsome⟩ := hnot
    push Not at hsome
    obtain ⟨id, hreferred, hself⟩ := hsome
    obtain ⟨c, hid⟩ := referred_mentioned hreferred
    have hmem := renamable_mem hfit hreferred
    rw [renamed_of_merged hok hmerged hid, hself] at hmem
    exact hmissing hmem
  · convert (hfit .folderDevices).1 using 1
    apply List.map_congr_left
    intro p hp
    have hid : p.deviceId ∈ s.val.columnIds .folderDevices := List.mem_map_of_mem hp
    rw [renamed_of_merged hok hmerged hid]
  · convert (hfit .sharedFolders).1 using 1
    apply List.map_congr_left
    intro share hshare
    have hid : share.deviceId ∈ s.val.columnIds .sharedFolders := List.mem_map_of_mem hshare
    rw [renamed_of_merged hok hmerged hid]
  · intro m hm hid
    by_contra hmoved
    have hown : m.deviceId ≠ certToDeviceId blake3 certDer := by
      intro hown
      rw [hown, deviceOf_own] at hmoved
      exact hmoved rfl
    have hgone : m.deviceId ∉ s'.val.deviceIds := by
      intro hthere
      obtain ⟨e, he, heq⟩ := List.mem_map.mp hthere
      obtain rfl | ⟨-, -, hlookup⟩ := hafter.mem_iff.mp he
      · exact hown (heq.symm.trans hafter.id_eq)
      · rw [heq, hkept.lookup hnodup hown, if_neg hmoved] at hlookup
        cases hlookup
    have hm' : m ∈ s'.val.fileMetadata := by
      rw [hval]
      exact hm
    exact (hmerged.gone _ hid hgone).2 m hm' rfl
  · intro d hd hcert hown hself hone
    by_contra hname
    have hstays : Stays blake3 certDer legacySelfId s.val.devices d := by
      refine ⟨hown, ?_⟩
      rw [hkept.lookup hnodup hown, if_pos hself]
    have hd' : d ∈ s'.val.devices := hafter.mem_iff.mpr (.inr ⟨hd, hstays⟩)
    obtain ⟨own', hafter'⟩ := after_of_ok (hagain entryOrder)
    obtain rfl | ⟨-, -, hlookup⟩ := hafter'.mem_iff.mp hd'
    · exact hown hafter'.id_eq
    · rw [lookup_remapOf_stub hnodup' hd' hcert] at hlookup
      split_ifs at hlookup
      exact hname ((hafter.namesake_iff hnodup hkept).mp hlookup hone)

end

end Database

open Database

/-- **`reconcile_devices_by_cert` merges without loss exactly if** the tables are mergeable. -/
theorem reconcile_merges_iff (blake3 : Bytes → FileHash) (certDer : Bytes) (legacySelfId : Option String)
    (ownName : String) (s : DbState) : ReconcilesWell blake3 certDer legacySelfId ownName s ↔
      Mergeable blake3 certDer legacySelfId ownName s.val := by
  constructor
  · exact mergeable_of_reconcilesWell
  · intro h order
    obtain ⟨s', hok, hval⟩ := reconcile_ok h order
    exact ⟨s', hok, merged_of_mergeable h hval, reconcile_again h hval⟩

/-- The folder of an install that had another identifier before. -/
def beforeMigration : Database :=
  { Database.empty with
    devices := [⟨"legacy-self", "Desk", none, none⟩]
    syncFolders := [⟨1, "/home/photos", some "photos", "legacy-self", "bidirectional", some "f-1"⟩]
    folderDevices := [⟨1, "legacy-self", "bidirectional", none, true⟩]
    folderSeq := 1 }

/-- There is no row yet to which its folder could go. -/
theorem migration_fails :
    (∃ s', reconcileDevicesByCert sampleBlake3 entryOrder [7] (some "legacy-self") "Desk"
      ⟨beforeMigration, by decide⟩ = .error .foreignKeyFailed s') ∧
    ¬ReconcilesWell sampleBlake3 [7] (some "legacy-self") "Desk" ⟨beforeMigration, by decide⟩ := by
  have hfails : ∃ s', reconcileDevicesByCert sampleBlake3 entryOrder [7] (some "legacy-self") "Desk"
      ⟨beforeMigration, by decide⟩ = .error .foreignKeyFailed s' := ⟨_, rfl⟩
  refine ⟨hfails, ?_⟩
  intro h
  obtain ⟨s', hfails⟩ := hfails
  obtain ⟨t, hok, -⟩ := h entryOrder
  rw [hfails] at hok
  cases hok

end FerriSync
