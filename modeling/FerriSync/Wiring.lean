/-
# Attaching a peer to a folder

What `wire_folder_pair` does to the tables: the folder at the path gets the shared
guid, and with it the own shares of its old one (`rebind`); or the folder of the guid is
taken; or one is inserted (`insertWired`). Then the peer is attached.

Key definitions: `rebind`, `insertWired`.
Key theorems: `rebind_valid`, `insertFolder_valid`, `putPair_valid`, `wiredFolder_eq_ok`,
`does_addSyncFolder`.
-/
import FerriSync.Database
import Mathlib.Data.List.MinMax

namespace FerriSync

open Transactions

namespace Database

/-- The device's shares of the old guid get the new one. -/
def rebindShares (oldGuid guid ownDeviceId : String) (db : Database) : Database := { db with
  sharedFolders := db.sharedFolders.map fun s =>
    if s.deviceId = ownDeviceId ∧ s.folderGuid = oldGuid then { s with folderGuid := guid } else s }

/-- The folder gets the guid, and its shares with it. -/
def rebind (wired : SyncFolderRow) (guid ownDeviceId : String) (db : Database) : Database :=
  let db := db.updateFolder wired.id fun f => { f with folderGuid := some guid }
  match wired.folderGuid with
  | some oldGuid => db.rebindShares oldGuid guid ownDeviceId
  | none => db

/-- A new folder, and the pair of the own device. -/
def insertWired (guid localPath name ownDeviceId : String) (db : Database) : Database :=
  let name := if name.toList.all isWhitespace then Storage.pathLabel localPath else name
  let db := db.insertFolder localPath (some name) ownDeviceId "bidirectional" (some guid)
  { db with folderDevices := db.folderDevices ++ [⟨db.folderSeq, ownDeviceId, "bidirectional", none, true⟩] }

section

variable {db : Database} {s t : DbState} {guid oldGuid localPath name ownDeviceId peerDeviceId : String}
  {wired f : SyncFolderRow}

/-! ### Constraints -/

theorem updateFolder_valid {folderId : ℕ} {update : SyncFolderRow → SyncFolderRow}
    (hid : ∀ f, (update f).id = f.id) (hdevice : ∀ f, (update f).deviceId = f.deviceId)
    (h : db.violation = none) : (db.updateFolder folderId update).violation = none := by
  refine violation_mapFolders (fun f => ?_) (fun f => ?_) h
  · split
    · exact hid f
    · rfl
  · split
    · exact hdevice f
    · rfl

/-- Shares of both guids stand in the way. -/
theorem rebindShares_valid (h : db.violation = none) (hne : oldGuid ≠ guid) :
    (db.rebindShares oldGuid guid ownDeviceId).violation = none ↔
      ¬((∃ s ∈ db.sharedFolders, s.deviceId = ownDeviceId ∧ s.folderGuid = oldGuid) ∧
        ∃ s ∈ db.sharedFolders, s.deviceId = ownDeviceId ∧ s.folderGuid = guid) := by
  obtain ⟨hkeys, hrefs⟩ := violation_eq_none.mp h
  let rekey : String × String → String × String := fun k =>
    if k.2 = ownDeviceId ∧ k.1 = oldGuid then (guid, k.2) else k
  have hrekeyed : (db.rebindShares oldGuid guid ownDeviceId).sharedFolders.map
      (fun s => (s.folderGuid, s.deviceId)) =
      (db.sharedFolders.map fun s => (s.folderGuid, s.deviceId)).map rekey := by
    unfold rebindShares
    rw [List.map_map, List.map_map]
    refine List.map_congr_left fun s _ => ?_
    show (fun s : SharedFolderRow => (s.folderGuid, s.deviceId)) (if _ then _ else _) =
      if _ then _ else _
    split <;> rfl
  have hmem : ∀ g, (g, ownDeviceId) ∈ db.sharedFolders.map (fun s => (s.folderGuid, s.deviceId)) ↔
      ∃ s ∈ db.sharedFolders, s.deviceId = ownDeviceId ∧ s.folderGuid = g := by
    intro g
    rw [List.mem_map]
    refine exists_congr fun s => and_congr_right fun _ => ?_
    rw [Prod.mk.injEq]
    exact and_comm
  rw [← hmem, ← hmem, violation_eq_none]
  constructor
  · rintro ⟨hkeys', _⟩ ⟨hold, hnew⟩
    have hnodup := hkeys'.sharedFolders
    rw [hrekeyed] at hnodup
    have hsame := List.inj_on_of_nodup_map hnodup hold hnew
      (by simp [rekey])
    exact hne (Prod.mk.inj hsame).1
  · intro hfree
    have hinj : ∀ k ∈ db.sharedFolders.map (fun s => (s.folderGuid, s.deviceId)),
        ∀ k' ∈ db.sharedFolders.map (fun s => (s.folderGuid, s.deviceId)),
          rekey k = rekey k' → k = k' := by
      rintro ⟨g, d⟩ hk ⟨g', d'⟩ hk' heq
      by_cases h1 : d = ownDeviceId ∧ g = oldGuid
      · by_cases h2 : d' = ownDeviceId ∧ g' = oldGuid
        · rw [h1.1, h1.2, h2.1, h2.2]
        · simp only [rekey, if_pos h1, if_neg h2, Prod.mk.injEq] at heq
          refine absurd ⟨?_, ?_⟩ hfree
          · rw [← h1.1, ← h1.2]
            exact hk
          · rw [← h1.1, heq.1, heq.2]
            exact hk'
      · by_cases h2 : d' = ownDeviceId ∧ g' = oldGuid
        · simp only [rekey, if_neg h1, if_pos h2, Prod.mk.injEq] at heq
          refine absurd ⟨?_, ?_⟩ hfree
          · rw [← h2.1, ← h2.2]
            exact hk'
          · rw [← h2.1, ← heq.1, ← heq.2]
            exact hk
        · simp only [rekey, if_neg h1, if_neg h2] at heq
          exact heq
    refine ⟨⟨hkeys.devices, hkeys.syncFolders, hkeys.folderDevices, hkeys.fileMetadata, ?_⟩,
      ⟨hrefs.folderOwner, hrefs.pairFolder, hrefs.pairDevice, hrefs.metadata, hrefs.history,
        fun s hs => ?_⟩⟩
    · rw [hrekeyed]
      exact List.Nodup.map_on hinj hkeys.sharedFolders
    · obtain ⟨s', hs', rfl⟩ := List.mem_map.mp hs
      split
      · exact hrefs.share s' hs'
      · exact hrefs.share s' hs'

theorem le_maxFolderId {id : ℕ} (h : id ∈ db.folderIds) : id ≤ db.maxFolderId :=
  List.le_max_of_le' 0 h le_rfl

/-- The number of a new folder is new. -/
theorem nextFolderId_fresh : db.nextFolderId ∉ db.folderIds := by
  intro h
  have hle := le_maxFolderId h
  unfold nextFolderId at hle
  omega

/-- A folder can be inserted if its device has a row. -/
theorem insertFolder_valid {name : Option String} {direction : String} {folderGuid : Option String}
    {deviceId : String} (h : db.violation = none) :
    (db.insertFolder localPath name deviceId direction folderGuid).violation = none ↔
      deviceId ∈ db.deviceIds := by
  obtain ⟨hkeys, hrefs⟩ := violation_eq_none.mp h
  have hids : (db.insertFolder localPath name deviceId direction folderGuid).folderIds =
      db.folderIds ++ [db.nextFolderId] := List.map_append
  rw [violation_eq_none]
  constructor
  · rintro ⟨_, hrefs'⟩
    exact hrefs'.folderOwner _ (List.mem_append_right _ (List.mem_singleton_self _))
  · intro hdevice
    refine ⟨⟨hkeys.devices, ?_, hkeys.folderDevices, hkeys.fileMetadata, hkeys.sharedFolders⟩,
      ⟨fun f hf => ?_, fun p hp => ?_, hrefs.pairDevice, fun m hm => ?_, fun r hr => ?_, hrefs.share⟩⟩
    · rw [hids]
      exact List.nodup_append.mpr ⟨hkeys.syncFolders, List.nodup_singleton _, fun a ha b hb heq =>
        nextFolderId_fresh (List.mem_singleton.mp hb ▸ heq ▸ ha)⟩
    · rcases List.mem_append.mp hf with hf | hf
      · exact hrefs.folderOwner f hf
      · rw [List.mem_singleton.mp hf]
        exact hdevice
    · rw [hids]
      exact List.mem_append_left _ (hrefs.pairFolder p hp)
    · rw [hids]
      exact List.mem_append_left _ (hrefs.metadata m hm)
    · rw [hids]
      exact List.mem_append_left _ (hrefs.history r hr)

/-- A pair can be put if there are such a folder and such a device. -/
theorem putPair_valid {folderId : ℕ} {deviceId mode : String} {remotePath : Option String}
    (h : db.violation = none) : (db.putPair folderId deviceId mode remotePath).violation = none ↔
      folderId ∈ db.folderIds ∧ deviceId ∈ db.deviceIds := by
  obtain ⟨hkeys, hrefs⟩ := violation_eq_none.mp h
  have hsame : ∀ p : Db.FolderDevice,
      (decide (p.folderId = folderId) && decide (p.deviceId = deviceId)) = true ↔
        (p.folderId, p.deviceId) = (folderId, deviceId) := fun p => by simp
  rw [violation_eq_none]
  constructor
  · rintro ⟨_, hrefs'⟩
    have hthere : (folderId, deviceId) ∈ (db.putPair folderId deviceId mode remotePath).folderDevices.map
        (fun p => (p.folderId, p.deviceId)) := mem_upsert_keys hsame fun _ => rfl
    obtain ⟨p, hp, heq⟩ := List.mem_map.mp hthere
    obtain ⟨rfl, rfl⟩ := Prod.mk.inj heq
    exact ⟨hrefs'.pairFolder p hp, hrefs'.pairDevice p hp⟩
  · rintro ⟨hfolder, hdevice⟩
    have hpairs : ∀ p ∈ (db.putPair folderId deviceId mode remotePath).folderDevices,
        p.folderId ∈ db.folderIds ∧ p.deviceId ∈ db.deviceIds := by
      intro p hp
      rcases mem_upsert hp with hp | ⟨q, hq, _, rfl⟩ | rfl
      · exact ⟨hrefs.pairFolder p hp, hrefs.pairDevice p hp⟩
      · exact ⟨hrefs.pairFolder q hq, hrefs.pairDevice q hq⟩
      · exact ⟨hfolder, hdevice⟩
    exact ⟨⟨hkeys.devices, hkeys.syncFolders, nodup_upsert hsame (fun _ => rfl) hkeys.folderDevices,
        hkeys.fileMetadata, hkeys.sharedFolders⟩,
      ⟨hrefs.folderOwner, fun p hp => (hpairs p hp).1, fun p hp => (hpairs p hp).2, hrefs.metadata,
        hrefs.history, hrefs.share⟩⟩

theorem addFolderDevice_ok {folderId : ℕ} {deviceId mode : String} {remotePath : Option String}
    (hfolder : folderId ∈ s.val.folderIds) (hdevice : deviceId ∈ s.val.deviceIds) :
    ∃ t, addFolderDevice folderId deviceId mode remotePath s = .ok () t :=
  ⟨_, execute_ok ((putPair_valid s.valid).mpr ⟨hfolder, hdevice⟩)⟩

/-! ### The folder -/

theorem insertSyncFolder_eq_ok {deviceId direction : String} {id : ℕ} :
    insertSyncFolder localPath name deviceId direction guid s = .ok id t ↔
      id = s.val.nextFolderId ∧
        t.val = s.val.insertFolder localPath (some name) deviceId direction (some guid) := by
  unfold insertSyncFolder
  rw [bind_eq_ok]
  constructor
  · rintro ⟨_, u, hu, h⟩
    cases h
    have hu := execute_eq_ok.mp hu
    exact ⟨by rw [hu]; rfl, hu⟩
  · rintro ⟨rfl, ht⟩
    refine ⟨(), t, execute_eq_ok.mpr ht, ?_⟩
    rw [query_apply, ht]
    rfl

/-- **The folder that is found or made.** -/
theorem wiredFolder_eq_ok {id : ℕ} : wiredFolder guid localPath name ownDeviceId s = .ok id t ↔
    match s.val.syncFolders.find? fun f => decide (f.localPath = localPath) with
    | some wired => id = wired.id ∧ t.val = s.val.rebind wired guid ownDeviceId
    | none =>
      match s.val.folderByGuid guid with
      | some f => id = f.id ∧ t = s
      | none => id = s.val.nextFolderId ∧ t.val = s.val.insertWired guid localPath name ownDeviceId := by
  unfold wiredFolder
  rw [Effects.bind_ok (query_apply _)]
  cases hwired : s.val.syncFolders.find? fun f => decide (f.localPath = localPath) with
  | some wired =>
    have hupdate : (s.val.updateFolder wired.id fun f => { f with folderGuid := some guid }).violation =
        none := updateFolder_valid (fun _ => rfl) (fun _ => rfl) s.valid
    simp only
    rw [Effects.bind_ok (execute_ok hupdate)]
    cases hold : wired.folderGuid with
    | none =>
      have hrebind : s.val.rebind wired guid ownDeviceId =
          s.val.updateFolder wired.id fun f => { f with folderGuid := some guid } := by
        unfold rebind
        rw [hold]
      rw [hrebind]
      constructor
      · intro h
        cases h
        exact ⟨rfl, rfl⟩
      · rintro ⟨rfl, ht⟩
        have hsame : t = ⟨_, hupdate⟩ := State.ext ht
        rw [hsame]
        rfl
    | some oldGuid =>
      have hrebind : s.val.rebind wired guid ownDeviceId = (s.val.updateFolder wired.id fun f =>
          { f with folderGuid := some guid }).rebindShares oldGuid guid ownDeviceId := by
        unfold rebind
        rw [hold]
      rw [hrebind]
      simp only
      rw [bind_eq_ok]
      constructor
      · rintro ⟨_, u, hu, h⟩
        cases h
        exact ⟨rfl, execute_eq_ok.mp hu⟩
      · rintro ⟨rfl, ht⟩
        exact ⟨(), t, execute_eq_ok.mpr ht, rfl⟩
  | none =>
    simp only
    rw [Effects.bind_ok (query_apply _)]
    cases hguid : s.val.folderByGuid guid with
    | some f =>
      constructor
      · intro h
        cases h
        exact ⟨rfl, rfl⟩
      · rintro ⟨rfl, rfl⟩
        rfl
    | none =>
      simp only
      rw [bind_eq_ok]
      constructor
      · rintro ⟨id', u, hu, h⟩
        obtain ⟨rfl, hinserted⟩ := insertSyncFolder_eq_ok.mp hu
        obtain ⟨_, v, hv, h⟩ := bind_eq_ok.mp h
        cases h
        refine ⟨rfl, ?_⟩
        rw [execute_eq_ok.mp hv, hinserted]
        rfl
      · rintro ⟨rfl, ht⟩
        have hown : ownDeviceId ∈ s.val.deviceIds := by
          have howner := t.references.pairDevice
          rw [ht] at howner
          exact howner _ (List.mem_append_right _ (List.mem_singleton_self _))
        have hinsert : (s.val.insertFolder localPath
            (some (if name.toList.all isWhitespace then Storage.pathLabel localPath else name))
            ownDeviceId "bidirectional" (some guid)).violation = none :=
          (insertFolder_valid s.valid).mpr hown
        exact ⟨s.val.nextFolderId, ⟨_, hinsert⟩, insertSyncFolder_eq_ok.mpr ⟨rfl, rfl⟩,
          bind_eq_ok.mpr ⟨(), t, execute_eq_ok.mpr ht, rfl⟩⟩

theorem insertWired_valid (h : db.violation = none) :
    (db.insertWired guid localPath name ownDeviceId).violation = none ↔ ownDeviceId ∈ db.deviceIds := by
  constructor
  · intro hvalid
    exact (violation_eq_none.mp hvalid).2.pairDevice _
      (List.mem_append_right _ (List.mem_singleton_self _))
  · intro hown
    have hinsert : (db.insertFolder localPath
        (some (if name.toList.all isWhitespace then Storage.pathLabel localPath else name))
        ownDeviceId "bidirectional" (some guid)).violation = none := (insertFolder_valid h).mpr hown
    obtain ⟨hkeys, hrefs⟩ := violation_eq_none.mp hinsert
    have hold := (violation_eq_none.mp h).2.pairFolder
    have hthere : db.nextFolderId ∈ (db.insertFolder localPath
        (some (if name.toList.all isWhitespace then Storage.pathLabel localPath else name))
        ownDeviceId "bidirectional" (some guid)).folderIds :=
      List.mem_map_of_mem (List.mem_append_right _ (List.mem_singleton_self _))
    refine violation_eq_none.mpr ⟨⟨hkeys.devices, hkeys.syncFolders, ?_, hkeys.fileMetadata,
      hkeys.sharedFolders⟩, ⟨hrefs.folderOwner, fun p hp => ?_, fun p hp => ?_, hrefs.metadata,
      hrefs.history, hrefs.share⟩⟩
    · show ((db.folderDevices ++ [_]).map fun p : Db.FolderDevice => (p.folderId, p.deviceId)).Nodup
      rw [List.map_append]
      refine List.nodup_append.mpr ⟨hkeys.folderDevices, List.nodup_singleton _, fun a ha b hb heq => ?_⟩
      obtain ⟨p, hp, rfl⟩ := List.mem_map.mp ha
      rw [List.mem_singleton.mp hb] at heq
      exact nextFolderId_fresh ((Prod.mk.inj heq).1 ▸ hold p hp)
    · rcases List.mem_append.mp hp with hp | hp
      · exact hrefs.pairFolder p hp
      · rw [List.mem_singleton.mp hp]
        exact hthere
    · rcases List.mem_append.mp hp with hp | hp
      · exact hrefs.pairDevice p hp
      · rw [List.mem_singleton.mp hp]
        exact hown

/-- A folder that has the guid stays as it is. -/
theorem rebind_self (h : db.violation = none) (hwired : wired ∈ db.syncFolders)
    (hguid : wired.folderGuid = some guid) : db.rebind wired guid ownDeviceId = db := by
  have hfolders : (db.syncFolders.map fun f =>
      if f.id = wired.id then { f with folderGuid := some guid } else f) = db.syncFolders := by
    refine (List.map_congr_left fun f hf => ?_).trans (List.map_id _)
    split
    · rename_i heq
      have hsame : f = wired :=
        List.inj_on_of_nodup_map (violation_eq_none.mp h).1.syncFolders hf hwired heq
      rw [hsame, ← hguid]
      rfl
    · rfl
  have hshares : (db.sharedFolders.map fun s =>
      if s.deviceId = ownDeviceId ∧ s.folderGuid = guid then { s with folderGuid := guid } else s) =
      db.sharedFolders := by
    refine (List.map_congr_left fun s _ => ?_).trans (List.map_id _)
    split
    · rename_i heq
      rw [← heq.2]
      rfl
    · rfl
  unfold rebind rebindShares updateFolder
  rw [hguid]
  simp only [hfolders, hshares]

/-- A folder that has another gets it. -/
theorem rebind_ne (hwired : wired ∈ db.syncFolders) (hguid : wired.folderGuid ≠ some guid) :
    db.rebind wired guid ownDeviceId ≠ db := by
  intro heq
  have hfolders : (db.syncFolders.map fun f =>
      if f.id = wired.id then { f with folderGuid := some guid } else f) = db.syncFolders := by
    have h := congrArg Database.syncFolders heq
    unfold rebind at h
    cases hold : wired.folderGuid with
    | none =>
      rw [hold] at h
      exact h
    | some oldGuid =>
      rw [hold] at h
      exact h
  have hsame := List.map_inj_left.mp (hfolders.trans (List.map_id _).symm) wired hwired
  rw [if_pos rfl] at hsame
  exact hguid (congrArg SyncFolderRow.folderGuid hsame).symm

/-- Whether the folder can get the guid. -/
theorem rebind_valid (h : db.violation = none) (hguid : wired.folderGuid ≠ some guid) :
    (db.rebind wired guid ownDeviceId).violation = none ↔ ∀ oldGuid, wired.folderGuid = some oldGuid →
      ¬((∃ s ∈ db.sharedFolders, s.deviceId = ownDeviceId ∧ s.folderGuid = oldGuid) ∧
        ∃ s ∈ db.sharedFolders, s.deviceId = ownDeviceId ∧ s.folderGuid = guid) := by
  have hupdate : (db.updateFolder wired.id fun f => { f with folderGuid := some guid }).violation =
      none := updateFolder_valid (fun _ => rfl) (fun _ => rfl) h
  unfold rebind
  cases hold : wired.folderGuid with
  | none => exact iff_of_true hupdate fun oldGuid heq => by cases heq
  | some old =>
    have hne : old ≠ guid := fun heq => hguid (by rw [hold, heq])
    simp only [Option.some.injEq, forall_eq']
    exact rebindShares_valid hupdate hne

theorem wiredFolder_there {id : ℕ} (h : wiredFolder guid localPath name ownDeviceId s = .ok id t) :
    id ∈ t.val.folderIds ∧ t.val.deviceIds = s.val.deviceIds := by
  have hcases := wiredFolder_eq_ok.mp h
  cases hwired : s.val.syncFolders.find? fun f => decide (f.localPath = localPath) with
  | some wired =>
    rw [hwired] at hcases
    obtain ⟨rfl, ht⟩ := hcases
    have hids : t.val.folderIds = s.val.folderIds := by
      have hmapped : (s.val.updateFolder wired.id fun f => { f with folderGuid := some guid }).folderIds =
          s.val.folderIds := by
        unfold folderIds updateFolder
        rw [List.map_map]
        refine List.map_congr_left fun f _ => ?_
        show (if f.id = wired.id then { f with folderGuid := some guid } else f).id = f.id
        split <;> rfl
      rw [ht, ← hmapped]
      unfold rebind
      cases wired.folderGuid <;> rfl
    refine ⟨?_, ?_⟩
    · rw [hids]
      exact List.mem_map_of_mem (List.mem_of_find?_eq_some hwired)
    · rw [ht]
      unfold rebind
      cases wired.folderGuid <;> rfl
  | none =>
    rw [hwired] at hcases
    cases hguid : s.val.folderByGuid guid with
    | some f =>
      rw [hguid] at hcases
      obtain ⟨rfl, rfl⟩ := hcases
      exact ⟨List.mem_map_of_mem (List.mem_of_find?_eq_some hguid), rfl⟩
    | none =>
      rw [hguid] at hcases
      obtain ⟨rfl, ht⟩ := hcases
      rw [ht]
      exact ⟨List.mem_map_of_mem (List.mem_append_right _ (List.mem_singleton_self _)), rfl⟩

end

/-! ### What registering a folder keeps -/

section

variable {R : DbState → DbState → Prop} (hR : Effects.Composes R)

include hR

/-- What an insertion keeps, is kept where a folder of the guid is looked for first. -/
theorem does_ensureFolderByGuid {guid localPath name deviceId : String}
    (hinsert : Effects.Does R (insertSyncFolder localPath name deviceId "bidirectional" guid)) :
    Effects.Does R (ensureFolderByGuid guid localPath name deviceId) := by
  refine .bind hR (Does.query hR _) fun found => ?_
  cases found with
  | some f => exact .pure hR _
  | none => exact hinsert

/-- What an insertion and a pair keep, is kept where a folder is added. -/
theorem does_addSyncFolder (blake3 : Bytes → FileHash) (processId : ℕ)
    {localPath deviceId direction : String}
    (hinsert : ∀ name guid, Effects.Does R (insertSyncFolder localPath name deviceId direction guid))
    (hput : ∀ folderId, Effects.Does R (addFolderDevice folderId deviceId direction none)) :
    Effects.Does R (addSyncFolder blake3 processId localPath deviceId direction) := by
  have hpair : ∀ folderId, Effects.Does R (do
      execute (putPair folderId deviceId direction none)
      return folderId : Sql ℕ) := fun folderId => .bind hR (hput folderId) fun _ => .pure hR _
  refine Does.transaction hR (.bind hR (Does.query hR _) fun found => ?_)
  cases found with
  | some f => exact hpair f.id
  | none => exact .bind hR (Does.query hR _) fun _ => .bind hR (hinsert _ _) hpair

end

end Database

end FerriSync
