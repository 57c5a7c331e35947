/-
# The folders that are paired with a device

What the database knows of the folders that are paired with one other device: the guid of
each, where it is, and where the device is said to have its copy (`pairedFolders`). Only an
approval and a wiring change it. Either has one folder paired, with the path that it is
given or else the one that is stored (`approvedFolder`, `wiredPair`), and leaves those at
other paths, and those with other devices, as they are (`approveFolderPair_pairs`,
`wireFolderPair_pairs`).

Key definitions: `pairedFolders`, `approvedFolder`, `wiredPair`, `Pairs`, `Attachable`, `Wirable`.
Key theorems: `mem_pairedFolders_putPair`, `approveFolderPair_pairs`,
`wireFolderPair_pairs`.
-/
import FerriSync.Bulk
import FerriSync.Guids
import FerriSync.Replicas

namespace FerriSync

open Transactions

section

variable {α κ : Type} [DecidableEq κ] {key : α → κ} {conflicts : α → Bool} {update : α → α}
  {row : α} {rows : List α}

/-- What is found after an upsert: under the row's key the row that was there, updated, or
the new one. -/
theorem find?_upsert (hsame : ∀ r, conflicts r = true ↔ key r = key row)
    (hupdate : ∀ r, key (update r) = key r) (k : κ) :
    ((upsert conflicts update row rows).find? fun r => decide (key r = k)) =
      if k = key row then some (((rows.find? fun r => decide (key r = k)).map update).getD row)
      else rows.find? fun r => decide (key r = k) := by
  unfold upsert
  by_cases hany : rows.any conflicts = true
  · have hkeys : ∀ r, key (if conflicts r then update r else r) = key r := fun r => by
      split
      · exact hupdate r
      · rfl
    rw [if_pos hany, List.find?_map]
    have hfind : ((fun r => decide (key r = k)) ∘ fun r => if conflicts r then update r else r) =
        fun r => decide (key r = k) := funext fun r => by simp [hkeys]
    rw [hfind]
    cases hfound : rows.find? fun r => decide (key r = k) with
    | none =>
      rw [if_neg]
      · rfl
      · rintro rfl
        obtain ⟨r, hr, hc⟩ := List.any_eq_true.mp hany
        exact List.find?_eq_none.mp hfound r hr (decide_eq_true ((hsame r).mp hc))
    | some r =>
      have hkey : key r = k := of_decide_eq_true (List.find?_some (p := fun r => decide (key r = k)) hfound)
      by_cases hk : k = key row
      · rw [if_pos hk, Option.map_some, if_pos ((hsame r).mpr (hkey.trans hk))]
        rfl
      · rw [if_neg hk, Option.map_some, if_neg fun hc => hk (hkey.symm.trans ((hsame r).mp hc))]
  · have hnone : ∀ r ∈ rows, key r ≠ key row := fun r hr heq =>
      hany (List.any_eq_true.mpr ⟨r, hr, (hsame r).mpr heq⟩)
    rw [if_neg hany, List.find?_append]
    by_cases hk : k = key row
    · have hmissing : (rows.find? fun r => decide (key r = k)) = none :=
        List.find?_eq_none.mpr fun r hr h => hnone r hr ((of_decide_eq_true h).trans hk)
      rw [if_pos hk, hmissing]
      simp [hk]
    · rw [if_neg hk]
      simp [Ne.symm hk]

end

/-- A folder that is paired with a device, and where the device's copy is said to be. -/
structure PairedFolder where
  guid : Option String
  path : String
  remotePath : Option String
deriving DecidableEq, Repr

namespace Database

/-- What is known of a folder's pair. -/
def pairedFolder (db : Database) (peerId : String) (f : SyncFolderRow) : PairedFolder :=
  ⟨f.folderGuid, f.localPath, db.folderPairRemotePath f.id peerId⟩

/-- The folders that are paired with a device. -/
def pairedFolders (db : Database) (peerId : String) : List PairedFolder :=
  (db.syncFolders.filter fun f => decide ((f.id, peerId) ∈ db.pairKeys)).map (db.pairedFolder peerId)

/-- The folder that an approval pairs: the first of the guid, or a new one. -/
def approvedFolder (db : Database) (peerId guid localPath : String) (remotePath : Option String) :
    PairedFolder :=
  match db.folderByGuid guid with
  | some f => ⟨some guid, f.localPath, remotePath.or (db.folderPairRemotePath f.id peerId)⟩
  | none => ⟨some guid, localPath, remotePath⟩

/-- The folder that a wiring pairs: the first at the path, and else that of an approval. -/
def wiredPair (db : Database) (peerId guid localPath : String) (remotePath : Option String) :
    PairedFolder :=
  match db.syncFolders.find? fun f => decide (f.localPath = localPath) with
  | some f => ⟨some guid, f.localPath, remotePath.or (db.folderPairRemotePath f.id peerId)⟩
  | none => db.approvedFolder peerId guid localPath remotePath

/-- The pairs with other devices are as they were, and there is no new one but of a new folder. -/
structure LeavesOthers (peerId : String) (db db' : Database) : Prop where
  folders : db.folderIds ⊆ db'.folderIds
  kept : ∀ r ∈ db.folderDevices, r.deviceId ≠ peerId → r ∈ db'.folderDevices
  new : ∀ r ∈ db'.folderDevices, r.deviceId ≠ peerId → r ∈ db.folderDevices ∨ r.folderId ∉ db.folderIds

/-- One folder is paired with the device. No other one is newly paired, those at other paths
are paired as they were, and so are all folders with other devices. -/
structure Pairs (peerId : String) (p : PairedFolder) (db db' : Database) : Prop where
  there : p ∈ db'.pairedFolders peerId
  others : ∀ q ∈ db'.pairedFolders peerId, q = p ∨ q ∈ db.pairedFolders peerId
  kept : ∀ q ∈ db.pairedFolders peerId, q.path ≠ p.path → q ∈ db'.pairedFolders peerId
  elsewhere : LeavesOthers peerId db db'

/-- The pairs with the device are as they were. -/
def SamePaired (peerId : String) (s s' : DbState) : Prop :=
  s'.val.pairedFolders peerId = s.val.pairedFolders peerId

section

variable {db db' : Database} {s s' : DbState} {peerId deviceId guid localPath name : String}
  {remotePath : Option String} {f : SyncFolderRow}

theorem mem_pairedFolders {p : PairedFolder} : p ∈ db.pairedFolders peerId ↔
    ∃ f ∈ db.syncFolders, (f.id, peerId) ∈ db.pairKeys ∧ p = db.pairedFolder peerId f := by
  simp [pairedFolders, and_assoc, eq_comm]

theorem pairedFolders_congr (hfolders : db'.syncFolders = db.syncFolders)
    (hpairs : db'.folderDevices = db.folderDevices) :
    db'.pairedFolders peerId = db.pairedFolders peerId := by
  unfold pairedFolders pairedFolder pairKeys folderPairRemotePath
  rw [hfolders, hpairs]

/-- A device without a row is paired with nothing. -/
theorem pairedFolders_eq_nil (s : DbState) (h : peerId ∉ s.val.deviceIds) :
    s.val.pairedFolders peerId = [] := by
  refine List.eq_nil_iff_forall_not_mem.mpr fun p hp => ?_
  obtain ⟨f, _, hpair, _⟩ := mem_pairedFolders.mp hp
  obtain ⟨q, hq, heq⟩ := List.mem_map.mp hpair
  exact h ((Prod.mk.inj heq).2 ▸ s.references.pairDevice q hq)

/-! ### A pair that is put -/

theorem folderPairRemotePath_eq (i : ℕ) (d : String) : db.folderPairRemotePath i d =
    (db.folderDevices.find? fun p => decide ((p.folderId, p.deviceId) = (i, d))).bind (·.remotePath) := by
  have hkey : ∀ p : Db.FolderDevice, (decide (p.folderId = i) && decide (p.deviceId = d)) =
      decide ((p.folderId, p.deviceId) = (i, d)) := fun p => by simp
  unfold folderPairRemotePath
  simp only [hkey]

/-- The remote path that is given is stored, or else stays. -/
theorem folderPairRemotePath_putPair {folderId : ℕ} {mode : String} (i : ℕ) (d : String) :
    (db.putPair folderId deviceId mode remotePath).folderPairRemotePath i d =
      if (i, d) = (folderId, deviceId) then
        remotePath.or (db.folderPairRemotePath folderId deviceId)
      else db.folderPairRemotePath i d := by
  have hsame : ∀ p : Db.FolderDevice,
      (decide (p.folderId = folderId) && decide (p.deviceId = deviceId)) = true ↔
        (p.folderId, p.deviceId) = (folderId, deviceId) := fun p => by simp
  have hfind := @find?_upsert Db.FolderDevice (ℕ × String) _ (fun p => (p.folderId, p.deviceId)) _
    (fun p => { p with mode := mode, remotePath := remotePath.or p.remotePath, enabled := true })
    ⟨folderId, deviceId, mode, remotePath, true⟩ db.folderDevices hsame (fun _ => rfl) (i, d)
  rw [folderPairRemotePath_eq, folderPairRemotePath_eq, folderPairRemotePath_eq]
  unfold putPair
  rw [hfind]
  split
  · rename_i heq
    rw [heq]
    cases db.folderDevices.find? fun p => decide ((p.folderId, p.deviceId) = (folderId, deviceId)) with
    | none => simp
    | some p => rfl
  · rfl

/-- What is known of a pair once it is put. -/
theorem pairedFolder_putPair {folderId : ℕ} {mode : String} (f : SyncFolderRow) :
    (db.putPair folderId deviceId mode remotePath).pairedFolder peerId f =
      if (f.id, peerId) = (folderId, deviceId) then
        ⟨f.folderGuid, f.localPath, remotePath.or (db.folderPairRemotePath folderId deviceId)⟩
      else db.pairedFolder peerId f := by
  unfold pairedFolder
  rw [folderPairRemotePath_putPair]
  split <;> rfl

/-- The folder is paired, the others stay as they are. -/
theorem mem_pairedFolders_putPair {mode : String} (hf : f ∈ s.val.syncFolders) {p : PairedFolder} :
    p ∈ (s.val.putPair f.id peerId mode remotePath).pairedFolders peerId ↔
      p = ⟨f.folderGuid, f.localPath, remotePath.or (s.val.folderPairRemotePath f.id peerId)⟩ ∨
        ∃ g ∈ s.val.syncFolders, g.id ≠ f.id ∧ (g.id, peerId) ∈ s.val.pairKeys ∧
          p = s.val.pairedFolder peerId g := by
  rw [mem_pairedFolders]
  constructor
  · rintro ⟨g, hg, hpair, rfl⟩
    by_cases hid : g.id = f.id
    · have hsame : g = f := List.inj_on_of_nodup_map s.keys.syncFolders hg hf hid
      left
      rw [hsame, pairedFolder_putPair, if_pos rfl]
    · have hother : (g.id, peerId) ≠ (f.id, peerId) := fun h => hid (Prod.mk.inj h).1
      right
      refine ⟨g, hg, hid, (mem_pairKeys_putPair.mp hpair).resolve_right hother, ?_⟩
      rw [pairedFolder_putPair, if_neg hother]
  · rintro (rfl | ⟨g, hg, hid, hpair, rfl⟩)
    · refine ⟨f, hf, mem_pairKeys_putPair.mpr (Or.inr rfl), ?_⟩
      rw [pairedFolder_putPair, if_pos rfl]
    · have hother : (g.id, peerId) ≠ (f.id, peerId) := fun h => hid (Prod.mk.inj h).1
      refine ⟨g, hg, mem_pairKeys_putPair.mpr (Or.inl hpair), ?_⟩
      rw [pairedFolder_putPair, if_neg hother]

/-! ### What leaves the pairs with a device alone -/

theorem samePaired_composes (peerId : String) : Effects.Composes (SamePaired peerId) where
  refl _ := rfl
  trans hfirst hsecond := hsecond.trans hfirst

theorem samePaired_execute {g : Database → Database} (hfolders : ∀ db, (g db).syncFolders = db.syncFolders)
    (hpairs : ∀ db, (g db).folderDevices = db.folderDevices) :
    Effects.Does (SamePaired peerId) (execute g : Sql Unit) := by
  refine Does.execute (samePaired_composes peerId) fun s s' hs' => ?_
  unfold SamePaired
  rw [hs']
  exact pairedFolders_congr (hfolders s.val) (hpairs s.val)

/-- A new folder has no pair. -/
theorem pairedFolders_insertFolder {folderName : Option String} {direction : String}
    {folderGuid : Option String} : (s.val.insertFolder localPath folderName deviceId direction
      folderGuid).pairedFolders peerId = s.val.pairedFolders peerId := by
  have hnew : (s.val.nextFolderId, peerId) ∉ s.val.pairKeys := by
    intro h
    obtain ⟨p, hp, heq⟩ := List.mem_map.mp h
    exact nextFolderId_fresh ((Prod.mk.inj heq).1 ▸ s.references.pairFolder p hp)
  have hnone : List.filter (fun f : SyncFolderRow => decide ((f.id, peerId) ∈ s.val.pairKeys))
      [⟨s.val.nextFolderId, localPath, folderName, deviceId, direction, folderGuid⟩] = [] := by
    simp [hnew]
  show List.map _ (List.filter _ (s.val.syncFolders ++ [_])) = _
  rw [List.filter_append]
  show List.map _ (_ ++ List.filter (fun f : SyncFolderRow => decide ((f.id, peerId) ∈ s.val.pairKeys))
    [_]) = _
  rw [hnone, List.append_nil]
  rfl

theorem folderIds_insertFolder {folderName : Option String} {direction : String}
    {folderGuid : Option String} :
    db.folderIds ⊆ (db.insertFolder localPath folderName deviceId direction folderGuid).folderIds := by
  intro id hid
  obtain ⟨f, hf, rfl⟩ := List.mem_map.mp hid
  exact List.mem_map_of_mem (List.mem_append_left _ hf)

theorem samePaired_insertSyncFolder (localPath name deviceId direction guid : String) :
    Effects.Does (SamePaired peerId) (insertSyncFolder localPath name deviceId direction guid) := by
  refine .bind (samePaired_composes peerId) ?_ fun _ => Does.query (samePaired_composes peerId) _
  refine Does.execute (samePaired_composes peerId) fun s s' hs' => ?_
  unfold SamePaired
  rw [hs']
  exact pairedFolders_insertFolder

theorem samePaired_ensureFolderByGuid (guid localPath name deviceId : String) :
    Effects.Does (SamePaired peerId) (ensureFolderByGuid guid localPath name deviceId) :=
  does_ensureFolderByGuid (samePaired_composes peerId) (samePaired_insertSyncFolder _ _ _ _ _)

/-- The pair of another device is put. -/
theorem samePaired_addFolderDevice (folderId : ℕ) (mode : String) (remotePath : Option String)
    (h : deviceId ≠ peerId) :
    Effects.Does (SamePaired peerId) (addFolderDevice folderId deviceId mode remotePath) := by
  refine Does.execute (samePaired_composes peerId) fun s s' hs' => ?_
  have hother : ∀ f : SyncFolderRow, (f.id, peerId) ≠ (folderId, deviceId) :=
    fun f heq => h (Prod.mk.inj heq).2.symm
  have hpaired : s'.val.pairedFolder peerId = s.val.pairedFolder peerId := by
    funext f
    rw [hs', pairedFolder_putPair, if_neg (hother f)]
  unfold SamePaired pairedFolders
  rw [hpaired, hs']
  congr 1
  refine List.filter_congr fun f _ => ?_
  rw [decide_eq_decide, mem_pairKeys_putPair, or_iff_left (hother f)]

theorem samePaired_addSyncFolder (blake3 : Bytes → FileHash) (processId : ℕ) (localPath direction : String)
    (h : deviceId ≠ peerId) :
    Effects.Does (SamePaired peerId) (addSyncFolder blake3 processId localPath deviceId direction) :=
  does_addSyncFolder (samePaired_composes peerId) blake3 processId
    (fun _ _ => samePaired_insertSyncFolder _ _ _ _ _)
    fun folderId => samePaired_addFolderDevice folderId direction none h

/-! ### An approval -/

theorem LeavesOthers.of_eq (hfolders : db.folderIds ⊆ db'.folderIds)
    (hpairs : db'.folderDevices = db.folderDevices) : LeavesOthers peerId db db' where
  folders := hfolders
  kept _ hr _ := hpairs ▸ hr
  new _ hr _ := Or.inl (hpairs ▸ hr)

theorem LeavesOthers.trans {db'' : Database} (h : LeavesOthers peerId db db')
    (h' : LeavesOthers peerId db' db'') : LeavesOthers peerId db db'' where
  folders := fun _ hid => h'.folders (h.folders hid)
  kept r hr hother := h'.kept r (h.kept r hr hother) hother
  new r hr hother := by
    rcases h'.new r hr hother with hold | hnew
    · exact h.new r hold hother
    · exact Or.inr fun hid => hnew (h.folders hid)

theorem leavesOthers_putPair (folderId : ℕ) (mode : String) (remotePath : Option String) :
    LeavesOthers peerId db (db.putPair folderId peerId mode remotePath) where
  folders := List.Subset.refl _
  kept _ hr hother := (mem_putPair_of_ne hother).mpr hr
  new _ hr hother := Or.inl ((mem_putPair_of_ne hother).mp hr)

theorem Pairs.of_same {p : PairedFolder} {t : DbState} (h : SamePaired peerId s s')
    (hothers : LeavesOthers peerId s.val s'.val) (hpairs : Pairs peerId p s'.val t.val) :
    Pairs peerId p s.val t.val where
  there := hpairs.there
  others q hq := (hpairs.others q hq).imp_right fun hold => h ▸ hold
  kept q hq hpath := hpairs.kept q (h ▸ hq) hpath
  elsewhere := hothers.trans hpairs.elsewhere

/-- A new folder is paired with nothing. -/
theorem folderPairRemotePath_new (s : DbState) (d : String) :
    s.val.folderPairRemotePath s.val.nextFolderId d = none := by
  have hnone : (s.val.folderDevices.find? fun p => decide ((p.folderId, p.deviceId) =
      (s.val.nextFolderId, d))) = none := by
    refine List.find?_eq_none.mpr fun p hp h => ?_
    have hid : p.folderId = s.val.nextFolderId := (Prod.mk.inj (of_decide_eq_true h)).1
    exact nextFolderId_fresh (hid ▸ s.references.pairFolder p hp)
  rw [folderPairRemotePath_eq, hnone]
  rfl

theorem pairs_putPair {t : DbState} {mode : String} (hf : f ∈ s.val.syncFolders)
    (ht : t.val = s.val.putPair f.id peerId mode remotePath) :
    Pairs peerId ⟨f.folderGuid, f.localPath, remotePath.or (s.val.folderPairRemotePath f.id peerId)⟩
      s.val t.val := by
  rw [ht]
  refine ⟨(mem_pairedFolders_putPair hf).mpr (Or.inl rfl), fun q hq => ?_, fun q hq hpath => ?_,
    leavesOthers_putPair _ _ _⟩
  · refine ((mem_pairedFolders_putPair hf).mp hq).imp_right ?_
    rintro ⟨g, hg, _, hpair, rfl⟩
    exact mem_pairedFolders.mpr ⟨g, hg, hpair, rfl⟩
  · obtain ⟨g, hg, hpair, rfl⟩ := mem_pairedFolders.mp hq
    have hother : g.id ≠ f.id := by
      intro hid
      rw [List.inj_on_of_nodup_map s.keys.syncFolders hg hf hid] at hpath
      exact hpath rfl
    exact (mem_pairedFolders_putPair hf).mpr (Or.inr ⟨g, hg, hother, hpair, rfl⟩)

/-- An approval can be stored: there is a folder of the guid, or one can be made. -/
def Attachable (db : Database) (ownerId guid : String) : Prop :=
  (db.folderByGuid guid).isSome = true ∨ ownerId ∈ db.deviceIds

/-- The folder that is found or made for an approval. -/
theorem ensureFolderByGuid_finds {ownerId : String} (name localPath : String)
    (h : s.val.Attachable ownerId guid) :
    ∃ f t, ensureFolderByGuid guid localPath name ownerId s = .ok f.id t ∧ f ∈ t.val.syncFolders ∧
      t.val.devices = s.val.devices ∧ SamePaired peerId s t ∧ LeavesOthers peerId s.val t.val ∧
      ∀ remotePath : Option String,
        PairedFolder.mk f.folderGuid f.localPath (remotePath.or (t.val.folderPairRemotePath f.id peerId)) =
          s.val.approvedFolder peerId guid localPath remotePath := by
  unfold ensureFolderByGuid approvedFolder
  rw [Effects.bind_ok (query_apply _)]
  cases hfound : s.val.folderByGuid guid with
  | some f =>
    have hguid : f.folderGuid = some guid := by simpa using List.find?_some hfound
    refine ⟨f, s, rfl, List.mem_of_find?_eq_some hfound, rfl, rfl, .of_eq (List.Subset.refl _) rfl,
      fun remotePath => ?_⟩
    rw [hguid]
  | none =>
    have howner : ownerId ∈ s.val.deviceIds := h.resolve_left (by rw [hfound]; exact Bool.false_ne_true)
    have hinsert : (s.val.insertFolder localPath (some name) ownerId "bidirectional" (some guid)).violation =
        none := (insertFolder_valid s.valid).mpr howner
    refine ⟨⟨s.val.nextFolderId, localPath, some name, ownerId, "bidirectional", some guid⟩,
      ⟨_, hinsert⟩, insertSyncFolder_eq_ok.mpr ⟨rfl, rfl⟩,
      List.mem_append_right _ (List.mem_singleton_self _), rfl,
      pairedFolders_insertFolder, .of_eq folderIds_insertFolder rfl, fun remotePath => ?_⟩
    have hnew : (s.val.insertFolder localPath (some name) ownerId "bidirectional"
        (some guid)).folderPairRemotePath s.val.nextFolderId peerId = none :=
      folderPairRemotePath_new s peerId
    rw [hnew, Option.or_none]

/-- **What an approval pairs.** -/
theorem approveFolderPair_pairs {ownerId : String} (name localPath : String) (remotePath : Option String)
    (h : s.val.Attachable ownerId guid) :
    ∃ t, approveFolderPair ownerId peerId guid name localPath remotePath s = .ok () t ∧
      Pairs peerId (s.val.approvedFolder peerId guid localPath remotePath) s.val t.val := by
  obtain ⟨t, ht, htval⟩ := @upsertDevice_ok s peerId name none none
  have hsame : SamePaired peerId s t := by
    unfold SamePaired
    rw [htval]
    rfl
  have happroved : t.val.approvedFolder peerId guid localPath remotePath =
      s.val.approvedFolder peerId guid localPath remotePath := by
    rw [htval]
    rfl
  have hready : t.val.Attachable ownerId guid := by
    refine h.imp (fun hfound => ?_) fun howner => ?_
    · rw [htval]
      exact hfound
    · rw [htval, mem_deviceIds_putDevice_iff]
      exact Or.inl howner
  obtain ⟨f, u, hu, hf, hdevices, hsame', hothers, hpaired⟩ :=
    @ensureFolderByGuid_finds t peerId guid ownerId name localPath hready
  have hpeer : peerId ∈ u.val.deviceIds := by
    unfold deviceIds
    rw [hdevices, htval]
    exact mem_deviceIds_putDevice peerId name none none
  obtain ⟨v, hv⟩ := @addFolderDevice_ok u f.id peerId "bidirectional" remotePath
    (List.mem_map_of_mem hf) hpeer
  have hpairs := pairs_putPair hf (execute_eq_ok.mp hv)
  refine ⟨v, ?_, ?_⟩
  · unfold approveFolderPair
    rw [Effects.bind_ok ht, Effects.bind_ok hu]
    exact hv
  · rw [hpaired, happroved] at hpairs
    have hdevice : LeavesOthers peerId s.val t.val := by
      rw [htval]
      exact .of_eq (List.Subset.refl _) rfl
    exact .of_same ((samePaired_composes peerId).trans hsame hsame') (hdevice.trans hothers) hpairs

/-- An approval of another device. -/
theorem samePaired_approveFolderPair (ownerId guid name localPath : String) (remotePath : Option String)
    (h : deviceId ≠ peerId) : Effects.Does (SamePaired peerId)
      (approveFolderPair ownerId deviceId guid name localPath remotePath) :=
  .bind (samePaired_composes peerId) (samePaired_execute (fun _ => rfl) fun _ => rfl) fun _ =>
    .bind (samePaired_composes peerId) (samePaired_ensureFolderByGuid guid localPath name ownerId)
      fun folderId => samePaired_addFolderDevice folderId "bidirectional" remotePath h

/-- An approval that cannot be stored. -/
theorem approveFolderPair_fails {ownerId : String} (name localPath : String) (remotePath : Option String)
    (howner : ownerId ≠ peerId) (h : ¬s.val.Attachable ownerId guid) :
    ∃ e t, approveFolderPair ownerId peerId guid name localPath remotePath s = .error e t ∧
      SamePaired peerId s t := by
  obtain ⟨t, ht, htval⟩ := @upsertDevice_ok s peerId name none none
  obtain ⟨hmissing, hnone⟩ := not_or.mp h
  have hguids : ∀ f ∈ t.val.syncFolders, f.folderGuid ≠ some guid := by
    intro f hf hguid
    rw [htval] at hf
    exact hmissing (folderByGuid_isSome.mpr ⟨f, hf, hguid⟩)
  have hrow : ownerId ∉ t.val.deviceIds := by
    rw [htval, mem_deviceIds_putDevice_iff, not_or]
    exact ⟨hnone, howner⟩
  obtain ⟨e, u, hu⟩ := ensureFolderByGuid_error localPath name hguids hrow
  have hfirst : SamePaired peerId s t := by
    unfold SamePaired
    rw [htval]
    rfl
  have hsecond := @samePaired_ensureFolderByGuid peerId guid localPath name ownerId t
  rw [Effects.after_error hu] at hsecond
  refine ⟨e, u, ?_, (samePaired_composes peerId).trans hfirst hsecond⟩
  unfold approveFolderPair
  rw [Effects.bind_ok ht, Effects.bind_error hu]

/-! ### A wiring -/

/-- A wiring can be stored: the peer has a row; and the folder at the path can have the guid,
or else there is a folder of the guid, or one can be made. -/
def Wirable (db : Database) (ownId peerId guid localPath : String) : Prop :=
  peerId ∈ db.deviceIds ∧
    match db.syncFolders.find? fun f => decide (f.localPath = localPath) with
    | some wired => wired.folderGuid = some guid ∨ ¬db.SharesClash wired guid ownId
    | none => db.Attachable ownId guid

theorem rebind_pairs (wired : SyncFolderRow) (ownId : String) :
    (db.rebind wired guid ownId).folderDevices = db.folderDevices := by
  unfold rebind
  cases wired.folderGuid with
  | none => rfl
  | some oldGuid => rfl

/-- The folder at the path gets the guid and is paired. -/
theorem pairs_rebind {ownId : String} {t : DbState} {wired : SyncFolderRow} {mode : String}
    (hwired : wired ∈ s.val.syncFolders) (hs' : s'.val = s.val.rebind wired guid ownId)
    (ht : t.val = s'.val.putPair wired.id peerId mode remotePath) :
    Pairs peerId ⟨some guid, wired.localPath,
      remotePath.or (s.val.folderPairRemotePath wired.id peerId)⟩ s.val t.val := by
  have hfolders : s'.val.syncFolders = s.val.syncFolders.map fun f =>
      if f.id = wired.id then { f with folderGuid := some guid } else f := by
    rw [hs', rebind_folders]
  have hdevices : s'.val.folderDevices = s.val.folderDevices := by
    rw [hs', rebind_pairs]
  have hremote : s'.val.folderPairRemotePath wired.id peerId =
      s.val.folderPairRemotePath wired.id peerId := by
    unfold folderPairRemotePath
    rw [hdevices]
  have hrow : { wired with folderGuid := some guid } ∈ s'.val.syncFolders := by
    rw [hfolders]
    exact List.mem_map.mpr ⟨wired, hwired, if_pos rfl⟩
  have hmem := fun p => @mem_pairedFolders_putPair s' peerId remotePath _ mode hrow p
  have hothers : LeavesOthers peerId s.val t.val := by
    rw [ht]
    refine .trans (.of_eq (fun id hid => ?_) hdevices) (leavesOthers_putPair _ _ _)
    unfold folderIds at hid ⊢
    rw [hfolders, List.map_map]
    obtain ⟨f, hf, rfl⟩ := List.mem_map.mp hid
    refine List.mem_map.mpr ⟨f, hf, ?_⟩
    dsimp only [Function.comp]
    split <;> rfl
  refine ⟨?_, fun q hq => ?_, fun q hq hpath => ?_, hothers⟩
  · rw [ht, hmem]
    left
    rw [← hremote]
  · rw [ht, hmem] at hq
    refine hq.imp (fun h => by rw [h, ← hremote]) ?_
    rintro ⟨g, hg, hid, hpair, rfl⟩
    rw [hfolders] at hg
    obtain ⟨g', hg', rfl⟩ := List.mem_map.mp hg
    by_cases hsame : g'.id = wired.id
    · rw [if_pos hsame] at hid
      exact absurd hsame hid
    · rw [if_neg hsame] at hpair ⊢
      refine mem_pairedFolders.mpr ⟨g', hg', ?_, ?_⟩
      · unfold pairKeys at hpair ⊢
        rwa [hdevices] at hpair
      · unfold pairedFolder folderPairRemotePath
        rw [hdevices]
  · obtain ⟨g, hg, hpair, rfl⟩ := mem_pairedFolders.mp hq
    have hother : g.id ≠ wired.id := by
      intro hid
      rw [List.inj_on_of_nodup_map s.keys.syncFolders hg hwired hid] at hpath
      exact hpath rfl
    rw [ht, hmem]
    refine Or.inr ⟨g, ?_, hother, ?_, ?_⟩
    · rw [hfolders]
      exact List.mem_map.mpr ⟨g, hg, if_neg hother⟩
    · unfold pairKeys at hpair ⊢
      rwa [hdevices]
    · unfold pairedFolder folderPairRemotePath
      rw [hdevices]

theorem folderPairRemotePath_addPair {p : Db.FolderDevice} (h : p.deviceId ≠ peerId) (i : ℕ) :
    ({ db with folderDevices := db.folderDevices ++ [p] } : Database).folderPairRemotePath i peerId =
      db.folderPairRemotePath i peerId := by
  unfold folderPairRemotePath
  rw [List.find?_append]
  simp [h]

theorem pairedFolders_addPair {p : Db.FolderDevice} (h : p.deviceId ≠ peerId) :
    ({ db with folderDevices := db.folderDevices ++ [p] } : Database).pairedFolders peerId =
      db.pairedFolders peerId := by
  have hpaired : ({ db with folderDevices := db.folderDevices ++ [p] } : Database).pairedFolder peerId =
      db.pairedFolder peerId := by
    funext f
    unfold pairedFolder
    rw [folderPairRemotePath_addPair h]
  unfold pairedFolders
  rw [hpaired]
  congr 1
  refine List.filter_congr fun f _ => ?_
  rw [decide_eq_decide]
  unfold pairKeys
  simp [Ne.symm h]

/-- The pair of a new folder with the own device is all that is new. -/
theorem leavesOthers_insertWired {ownId : String} :
    LeavesOthers peerId s.val (s.val.insertWired guid localPath name ownId) where
  folders := folderIds_insertFolder
  kept _ hr _ := List.mem_append_left _ hr
  new r hr _ := by
    refine (List.mem_append.mp hr).imp_right fun hnew => ?_
    rw [List.mem_singleton.mp hnew]
    exact nextFolderId_fresh

/-- The folder that is found or made for a wiring. -/
theorem wiredFolder_finds {ownId : String} (name : String) (mode : String) (remotePath : Option String)
    (hne : ownId ≠ peerId) (h : s.val.Wirable ownId peerId guid localPath) :
    ∃ id u, wiredFolder guid localPath name ownId s = .ok id u ∧ ∀ t : DbState,
      t.val = u.val.putPair id peerId mode remotePath →
        Pairs peerId (s.val.wiredPair peerId guid localPath remotePath) s.val t.val := by
  have hfolder := h.2
  unfold wiredPair
  cases hfound : s.val.syncFolders.find? fun f => decide (f.localPath = localPath) with
  | some wired =>
    rw [hfound] at hfolder
    have hwired : wired ∈ s.val.syncFolders := List.mem_of_find?_eq_some hfound
    have hvalid : (s.val.rebind wired guid ownId).violation = none := by
      by_cases hguid : wired.folderGuid = some guid
      · rw [rebind_self s.valid hwired hguid]
        exact s.valid
      · exact (rebind_valid s.valid hguid).mpr
          (not_not.mp (mt clash_iff.mpr (hfolder.resolve_left hguid)))
    refine ⟨wired.id, ⟨_, hvalid⟩, wiredFolder_eq_ok.mpr ?_, fun t ht => pairs_rebind hwired rfl ht⟩
    rw [hfound]
    exact ⟨rfl, rfl⟩
  | none =>
    rw [hfound] at hfolder
    unfold approvedFolder
    cases hguid : s.val.folderByGuid guid with
    | some f =>
      have hrow : f.folderGuid = some guid := by simpa using List.find?_some hguid
      refine ⟨f.id, s, wiredFolder_eq_ok.mpr ?_, fun t ht => ?_⟩
      · rw [hfound, hguid]
        exact ⟨rfl, rfl⟩
      · rw [← hrow]
        exact pairs_putPair (List.mem_of_find?_eq_some hguid) ht
    | none =>
      have hown : ownId ∈ s.val.deviceIds :=
        hfolder.resolve_left (by rw [hguid]; exact Bool.false_ne_true)
      let u : DbState := ⟨s.val.insertWired guid localPath name ownId, (insertWired_valid s.valid).mpr hown⟩
      have hsame : SamePaired peerId s u :=
        (pairedFolders_addPair hne).trans pairedFolders_insertFolder
      have hnew : u.val.folderPairRemotePath s.val.nextFolderId peerId = none :=
        (folderPairRemotePath_addPair hne _).trans (folderPairRemotePath_new s peerId)
      obtain ⟨f, hf, hid, hrow, hpath⟩ : ∃ f ∈ u.val.syncFolders, f.id = s.val.nextFolderId ∧
          f.folderGuid = some guid ∧ f.localPath = localPath :=
        ⟨_, List.mem_append_right s.val.syncFolders (List.mem_singleton_self _), rfl, rfl, rfl⟩
      refine ⟨f.id, u, wiredFolder_eq_ok.mpr ?_, fun t ht => ?_⟩
      · rw [hfound, hguid]
        exact ⟨hid, rfl⟩
      · have hpairs := pairs_putPair hf ht
        rw [hid, hnew, Option.or_none, hrow, hpath] at hpairs
        exact .of_same hsame leavesOthers_insertWired hpairs

/-- **What a wiring pairs.** -/
theorem wireFolderPair_pairs {ownId : String} (name : String) (remotePath : Option String)
    (hne : ownId ≠ peerId) (h : s.val.Wirable ownId peerId guid localPath) :
    ∃ id t, wireFolderPair guid localPath name ownId peerId remotePath s = .ok id t ∧
      Pairs peerId (s.val.wiredPair peerId guid localPath remotePath) s.val t.val := by
  obtain ⟨id, u, hu, hpairs⟩ := wiredFolder_finds name "bidirectional" remotePath hne h
  obtain ⟨hid, hdevices⟩ := wiredFolder_there hu
  obtain ⟨t, ht⟩ := @addFolderDevice_ok u id peerId "bidirectional" remotePath hid (hdevices ▸ h.1)
  refine ⟨id, t, ?_, hpairs t (execute_eq_ok.mp ht)⟩
  unfold wireFolderPair
  rw [Effects.bind_ok (transaction_eq_ok.mpr hu), Effects.bind_ok ht]
  rfl

/-- A wiring that finds its folder, to a peer that has a row, can be stored. -/
theorem wirable_of_ok {ownId : String} {id : ℕ} {t : DbState} (hpeer : peerId ∈ s.val.deviceIds)
    (h : wiredFolder guid localPath name ownId s = .ok id t) : s.val.Wirable ownId peerId guid localPath := by
  refine ⟨hpeer, ?_⟩
  have hcases := wiredFolder_eq_ok.mp h
  cases hfound : s.val.syncFolders.find? fun f => decide (f.localPath = localPath) with
  | some wired =>
    rw [hfound] at hcases
    have hvalid := t.valid
    rw [hcases.2] at hvalid
    refine or_iff_not_imp_left.mpr fun hguid hclash => ?_
    exact clash_iff.mp hclash ((rebind_valid s.valid hguid).mp hvalid)
  | none =>
    rw [hfound] at hcases
    unfold Attachable
    cases hguid : s.val.folderByGuid guid with
    | some f => exact Or.inl rfl
    | none =>
      dsimp only at hcases
      rw [hguid] at hcases
      have hvalid := t.valid
      rw [hcases.2] at hvalid
      exact Or.inr ((insertWired_valid s.valid).mp hvalid)

/-- A wiring that cannot be stored. -/
theorem samePaired_wireFolderPair {ownId : String} (name : String) (remotePath : Option String)
    (h : ¬s.val.Wirable ownId peerId guid localPath) : SamePaired peerId s
      (Effects.after (wireFolderPair guid localPath name ownId peerId remotePath) s) := by
  unfold wireFolderPair
  cases hrun : transaction (wiredFolder guid localPath name ownId) s with
  | error e t =>
    rw [Effects.after_error (Effects.bind_error hrun), (transaction_eq_error.mp hrun).1]
    rfl
  | ok id t =>
    have hwired := transaction_eq_ok.mp hrun
    have hpeer : peerId ∉ s.val.deviceIds := fun hpeer => h (wirable_of_ok hpeer hwired)
    -- a device without a row was paired with nothing, and still has none
    have hdevices : (Effects.after (transaction (wiredFolder guid localPath name ownId) >>= fun id => do
        addFolderDevice id peerId "bidirectional" remotePath
        return id) s).val.deviceIds = s.val.deviceIds := by
      have hpair : SameDevices t (Effects.after (do
          addFolderDevice id peerId "bidirectional" remotePath
          return id) t) :=
        Effects.Does.bind sameDevices_composes (sameDevices_addFolderDevice id peerId _ remotePath)
          (fun _ => .pure sameDevices_composes _) t
      rw [← (wiredFolder_there hwired).2]
      unfold Effects.after at hpair ⊢
      rw [Effects.bind_ok hrun]
      exact congrArg (List.map (·.id)) hpair
    exact (pairedFolders_eq_nil _ (hdevices ▸ hpeer)).trans (pairedFolders_eq_nil s hpeer).symm

end

end Database

end FerriSync
