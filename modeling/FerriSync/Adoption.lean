/-
# Attaching a remote device

`serve` registers the folder it hosts with a pair of the own device. When a remote is
attached to it (`sync`, `folders add` of the command line), that pair is to become the
remote's (`set_folder_device` in `storage/mod.rs`). The pair that is re-keyed is the
folder's oldest, whose ever it is, and the new key must be free: the own pair becomes the
remote's exactly if it is the oldest and the remote has none (`attach_adopts_iff`).

Key definitions: `adoptFolder`, `getOrCreateFolder`, `attachRemote`, `Adopted`,
`Adoptable`.
Key theorems: `setFolderDevice_eq_ok`, `adoptFolder_eq_ok`, `attach_adopts_iff`.
-/
import FerriSync.Bulk
import FerriSync.Renames

namespace FerriSync

open Transactions

namespace Database

/-! ### The commands -/

def ensureDevice (deviceId : String) : Sql Unit := do
  match ← query (getDeviceName deviceId) with
  | some _ => pure ()
  | none => upsertDevice deviceId deviceId none none

/-- Adopt served-bookkeeping rows: re-point those that are registered against ourselves. -/
def adoptFolder (ownId path deviceId : String) : Sql Unit := do
  let rows ← query listSyncFolders
  rows.forM fun row =>
    if row.localPath = path ∧ row.deviceId = ownId then setFolderDevice row.id deviceId else pure ()

/-- Reuse an existing sync-folder row for (path, device) if one exists. -/
def getOrCreateFolder (blake3 : Bytes → FileHash) (processId : ℕ) (path deviceId : String) : Sql ℕ := do
  match ← query fun db =>
    db.listSyncFolders.find? fun row =>
      decide (row.localPath = path) && decide (row.deviceId = deviceId) with
  | some row => return row.id
  | none =>
    ensureDevice deviceId
    addSyncFolder blake3 processId path deviceId "bidirectional"

/-- Attach a device to the folder at a path. For a device that is named by its address
`sync` makes a row first. -/
def attachRemote (blake3 : Bytes → FileHash) (processId : ℕ) (ownId path deviceId : String)
    (byAddress : Bool) : Sql ℕ := do
  if byAddress then ensureDevice deviceId
  adoptFolder ownId path deviceId
  getOrCreateFolder blake3 processId path deviceId

/-! ### Adoption -/

/-- The pairs of a folder, the oldest first. -/
def pairsOf (db : Database) (folderId : ℕ) : List Db.FolderDevice :=
  db.folderDevices.filter fun p => decide (p.folderId = folderId)

/-- The own pair has become the remote's, which has no other; the rest is as it was. -/
structure PairsAdopted (ownId deviceId : String) (pairs pairs' : List Db.FolderDevice) : Prop where
  gone : ∀ p ∈ pairs', p.deviceId ≠ ownId
  turned : (∀ p ∈ pairs, p.deviceId ≠ deviceId) →
    ∀ p ∈ pairs, p.deviceId = ownId → { p with deviceId := deviceId } ∈ pairs'
  kept : ∀ p ∈ pairs, p.deviceId ≠ ownId → p ∈ pairs'
  only : ∀ p ∈ pairs', p.deviceId = deviceId ∨ p ∈ pairs
  one : pairs'.countP (fun p => decide (p.deviceId = deviceId)) = 1

/-- The folder at the path is registered with a pair of the own device. -/
def Served (db : Database) (ownId path : String) (f : SyncFolderRow) : Prop :=
  f.localPath = path ∧ ∃ p ∈ db.pairsOf f.id, p.deviceId = ownId

/-- The folders at the path that are served have been adopted, and nothing else has changed
between folders and devices. -/
structure Adopted (ownId path deviceId : String) (db db' : Database) : Prop where
  served : ∀ f ∈ db.syncFolders, db.Served ownId path f →
    PairsAdopted ownId deviceId (db.pairsOf f.id) (db'.pairsOf f.id)
  others : ∀ f ∈ db.syncFolders, ¬db.Served ownId path f → db'.pairsOf f.id = db.pairsOf f.id
  folders : db'.syncFolders = db.syncFolders

/-- The own pair is the oldest of its folder, and not switched off, and the remote has none
with the folder. -/
def Adoptable (ownId path deviceId : String) (db : Database) : Prop :=
  ∀ f ∈ db.syncFolders, db.Served ownId path f →
    (∃ own rest, db.pairsOf f.id = own :: rest ∧ own.deviceId = ownId ∧ own.enabled = true) ∧
      ∀ p ∈ db.pairsOf f.id, p.deviceId ≠ deviceId

/-! ### Re-keying a pair -/

/-- A device without a row gets one. -/
def insertDevice (deviceId : String) (db : Database) : Database := { db with
  devices := upsert (fun d : Db.Device => decide (d.id = deviceId)) (fun d => d)
    ⟨deviceId, deviceId, none, none⟩ db.devices }

def rekeyPair (folderId : ℕ) (old new : String) (db : Database) : Database := { db with
  folderDevices := db.folderDevices.map fun p =>
    if p.folderId = folderId ∧ p.deviceId = old then { p with deviceId := new } else p }

/-- A folder's pairs after the oldest has been re-keyed, if the key is free. -/
def rekeyOldest (deviceId : String) (pairs : List Db.FolderDevice) : Option (List Db.FolderDevice) :=
  match pairs with
  | [] => some []
  | oldest :: _ =>
    if oldest.deviceId = deviceId then some pairs
    else if pairs.any fun p => decide (p.deviceId = deviceId) then none
    else some (pairs.map fun p =>
      if p.deviceId = oldest.deviceId then { p with deviceId := deviceId } else p)

section

variable {db : Database} {s s' : DbState} {folderId : ℕ} {old new deviceId : String}

theorem mem_pairsOf {p : Db.FolderDevice} :
    p ∈ db.pairsOf folderId ↔ p ∈ db.folderDevices ∧ p.folderId = folderId := by
  unfold pairsOf
  rw [List.mem_filter, decide_eq_true_eq]

theorem mem_pairKeys_iff {folderId : ℕ} {deviceId : String} : (folderId, deviceId) ∈ db.pairKeys ↔
    ∃ p ∈ db.pairsOf folderId, p.deviceId = deviceId := by
  unfold pairKeys
  rw [List.mem_map]
  constructor
  · rintro ⟨p, hp, heq⟩
    obtain ⟨hfolder, hdevice⟩ := Prod.mk.inj heq
    exact ⟨p, mem_pairsOf.mpr ⟨hp, hfolder⟩, hdevice⟩
  · rintro ⟨p, hp, rfl⟩
    obtain ⟨hthere, hfolder⟩ := mem_pairsOf.mp hp
    exact ⟨p, hthere, by rw [hfolder]⟩

theorem insertDevice_valid (deviceId : String) (h : db.violation = none) :
    (insertDevice deviceId db).violation = none :=
  violation_upsertDevice (fun _ => decide_eq_true_iff) (fun _ => rfl) h

theorem mem_insertDevice (deviceId : String) (db : Database) :
    deviceId ∈ (insertDevice deviceId db).deviceIds :=
  @mem_upsert_keys Db.Device String _ (fun d => d.id) _ _ ⟨deviceId, deviceId, none, none⟩ _
    (fun _ => decide_eq_true_iff) fun _ => rfl

theorem pairKeys_rekeyPair : (rekeyPair folderId old new db).pairKeys =
    db.pairKeys.map fun k => if k = (folderId, old) then (folderId, new) else k := by
  unfold pairKeys rekeyPair
  rw [List.map_map, List.map_map]
  refine List.map_congr_left fun p _ => ?_
  show (fun p : Db.FolderDevice => (p.folderId, p.deviceId)) (if _ then _ else _) = if _ then _ else _
  by_cases h : p.folderId = folderId ∧ p.deviceId = old
  · rw [if_pos h, if_pos (Prod.ext h.1 h.2)]
    exact congrArg (·, new) h.1
  · rw [if_neg h, if_neg fun heq => h (Prod.mk.inj heq)]

/-- **A pair can be re-keyed if the new key is free.** -/
theorem rekeyPair_valid (h : db.violation = none) (hnew : new ∈ db.deviceIds) (hne : old ≠ new)
    (hold : (folderId, old) ∈ db.pairKeys) :
    (rekeyPair folderId old new db).violation = none ↔ (folderId, new) ∉ db.pairKeys := by
  obtain ⟨hkeys, hrefs⟩ := violation_eq_none.mp h
  rw [violation_eq_none]
  constructor
  · rintro ⟨hkeys', _⟩ hthere
    have hnodup : (rekeyPair folderId old new db).pairKeys.Nodup := hkeys'.folderDevices
    rw [pairKeys_rekeyPair] at hnodup
    have hsame := List.inj_on_of_nodup_map hnodup hold hthere (by simp)
    exact hne (Prod.mk.inj hsame).2
  · intro hfree
    have hnodup : (rekeyPair folderId old new db).pairKeys.Nodup := by
      rw [pairKeys_rekeyPair]
      refine List.Nodup.map_on (fun k hk k' hk' heq => ?_) hkeys.folderDevices
      by_cases h1 : k = (folderId, old)
      · by_cases h2 : k' = (folderId, old)
        · rw [h1, h2]
        · rw [if_pos h1, if_neg h2] at heq
          exact absurd (heq ▸ hk') hfree
      · by_cases h2 : k' = (folderId, old)
        · rw [if_neg h1, if_pos h2] at heq
          exact absurd (heq ▸ hk) hfree
        · rw [if_neg h1, if_neg h2] at heq
          exact heq
    have hpairs : ∀ p ∈ (rekeyPair folderId old new db).folderDevices,
        p.folderId ∈ db.folderIds ∧ p.deviceId ∈ db.deviceIds := by
      intro p hp
      obtain ⟨q, hq, rfl⟩ := List.mem_map.mp hp
      split
      · exact ⟨hrefs.pairFolder q hq, hnew⟩
      · exact ⟨hrefs.pairFolder q hq, hrefs.pairDevice q hq⟩
    exact ⟨⟨hkeys.devices, hkeys.syncFolders, hnodup, hkeys.fileMetadata, hkeys.sharedFolders⟩,
      ⟨hrefs.folderOwner, fun p hp => (hpairs p hp).1, fun p hp => (hpairs p hp).2, hrefs.metadata,
        hrefs.history, hrefs.share⟩⟩

/-- **What is re-keyed is the oldest pair**, unless it is the device's already. -/
theorem setFolderDevice_eq_ok : setFolderDevice folderId deviceId s = .ok () s' ↔
    match s.val.pairsOf folderId with
    | [] => s' = s
    | oldest :: _ => if oldest.deviceId = deviceId then s' = s
      else (folderId, deviceId) ∉ s.val.pairKeys ∧
        s'.val = rekeyPair folderId oldest.deviceId deviceId (insertDevice deviceId s.val) := by
  have hfirst : (s.val.folderDevices.find? fun p => decide (p.folderId = folderId)) =
      (s.val.pairsOf folderId).head? := (List.head?_filter).symm
  unfold setFolderDevice
  rw [transaction_eq_ok, Effects.bind_ok (query_apply _), hfirst]
  cases hpairs : s.val.pairsOf folderId with
  | nil =>
    constructor
    · intro h
      cases h
      rfl
    · rintro rfl
      rfl
  | cons oldest rest =>
    simp only [List.head?_cons]
    by_cases hsame : oldest.deviceId = deviceId
    · rw [if_neg (not_not.mpr hsame), if_pos hsame]
      constructor
      · intro h
        cases h
        rfl
      · rintro rfl
        rfl
    · have hinsert := insertDevice_valid deviceId s.valid
      have hold : (folderId, oldest.deviceId) ∈ (insertDevice deviceId s.val).pairKeys := by
        have hmem : oldest ∈ s.val.pairsOf folderId := hpairs ▸ List.mem_cons_self
        exact mem_pairKeys_iff.mpr ⟨oldest, hmem, rfl⟩
      have hvalid := rekeyPair_valid hinsert (mem_insertDevice deviceId s.val) hsame hold
      rw [if_pos hsame, if_neg hsame]
      show (execute (insertDevice deviceId) >>= fun _ =>
        execute (rekeyPair folderId oldest.deviceId deviceId)) s = .ok () s' ↔ _
      rw [Effects.bind_ok (execute_ok hinsert), execute_eq_ok]
      constructor
      · intro h
        have hdone := s'.valid
        rw [h] at hdone
        exact ⟨hvalid.mp hdone, h⟩
      · exact fun h => h.2

theorem pairsOf_rekeyPair (g : ℕ) : (rekeyPair folderId old new db).pairsOf g =
    if g = folderId then (db.pairsOf folderId).map fun p =>
      if p.deviceId = old then { p with deviceId := new } else p
    else db.pairsOf g := by
  unfold pairsOf rekeyPair
  have hfolder : ∀ p : Db.FolderDevice, ((fun p : Db.FolderDevice => decide (p.folderId = g)) ∘ fun p =>
      if p.folderId = folderId ∧ p.deviceId = old then { p with deviceId := new } else p) p =
        decide (p.folderId = g) := by
    intro p
    show decide (Db.FolderDevice.folderId (if _ then _ else _) = g) = _
    split <;> rfl
  rw [List.filter_map, List.filter_congr fun p _ => hfolder p]
  split
  · rename_i hg
    rw [hg]
    refine List.map_congr_left fun p hp => ?_
    simp [of_decide_eq_true (List.mem_filter.mp hp).2]
  · rename_i hg
    refine (List.map_congr_left fun p hp => ?_).trans (List.map_id _)
    rw [if_neg fun h => hg ((of_decide_eq_true (List.mem_filter.mp hp).2).symm.trans h.1)]
    rfl

theorem setFolderDevice_pairs (h : setFolderDevice folderId deviceId s = .ok () s') :
    rekeyOldest deviceId (s.val.pairsOf folderId) = some (s'.val.pairsOf folderId) ∧
      (∀ g, g ≠ folderId → s'.val.pairsOf g = s.val.pairsOf g) ∧
      s'.val.syncFolders = s.val.syncFolders := by
  rw [setFolderDevice_eq_ok] at h
  unfold rekeyOldest
  cases hpairs : s.val.pairsOf folderId with
  | nil =>
    rw [hpairs] at h
    dsimp only at h ⊢
    rw [h, hpairs]
    exact ⟨rfl, fun _ _ => rfl, rfl⟩
  | cons oldest rest =>
    rw [hpairs] at h
    dsimp only at h ⊢
    by_cases hsame : oldest.deviceId = deviceId
    · rw [if_pos hsame] at h ⊢
      rw [h, hpairs]
      exact ⟨rfl, fun _ _ => rfl, rfl⟩
    · rw [if_neg hsame] at h ⊢
      obtain ⟨hfree, hs'⟩ := h
      have hnone : ¬((oldest :: rest).any fun p => decide (p.deviceId = deviceId)) = true := by
        intro hany
        obtain ⟨p, hp, hdevice⟩ := List.any_eq_true.mp hany
        exact hfree (mem_pairKeys_iff.mpr ⟨p, hpairs ▸ hp, of_decide_eq_true hdevice⟩)
      rw [if_neg hnone, hs', ← hpairs]
      refine ⟨?_, fun g hg => ?_, rfl⟩
      · rw [pairsOf_rekeyPair, if_pos rfl]
        rfl
      · rw [pairsOf_rekeyPair, if_neg hg]
        rfl

theorem setFolderDevice_ok (h : rekeyOldest deviceId (s.val.pairsOf folderId) ≠ none) :
    ∃ s', setFolderDevice folderId deviceId s = .ok () s' := by
  simp only [setFolderDevice_eq_ok]
  unfold rekeyOldest at h
  cases hpairs : s.val.pairsOf folderId with
  | nil => exact ⟨s, rfl⟩
  | cons oldest rest =>
    rw [hpairs] at h
    dsimp only at h ⊢
    by_cases hsame : oldest.deviceId = deviceId
    · exact ⟨s, by rw [if_pos hsame]⟩
    · rw [if_neg hsame] at h
      have hfree : (folderId, deviceId) ∉ s.val.pairKeys := by
        intro hthere
        obtain ⟨p, hp, hdevice⟩ := mem_pairKeys_iff.mp hthere
        rw [hpairs] at hp
        exact h (if_pos (List.any_eq_true.mpr ⟨p, hp, decide_eq_true hdevice⟩))
      have hold : (folderId, oldest.deviceId) ∈ (insertDevice deviceId s.val).pairKeys :=
        mem_pairKeys_iff.mpr ⟨oldest, hpairs ▸ List.mem_cons_self, rfl⟩
      have hvalid := (rekeyPair_valid (insertDevice_valid deviceId s.valid)
        (mem_insertDevice deviceId s.val) hsame hold).mpr hfree
      exact ⟨⟨_, hvalid⟩, by rw [if_neg hsame]; exact ⟨hfree, rfl⟩⟩

end

/-! ### All folders at the path -/

section

variable {s s' : DbState} {ids : List ℕ} {deviceId ownId path : String}

/-- One folder after another. -/
theorem rekeyAll_pairs (hids : ids.Nodup)
    (h : ids.forM (fun id => setFolderDevice id deviceId) s = .ok () s') :
    (∀ f ∈ ids, rekeyOldest deviceId (s.val.pairsOf f) = some (s'.val.pairsOf f)) ∧
      (∀ f, f ∉ ids → s'.val.pairsOf f = s.val.pairsOf f) ∧ s'.val.syncFolders = s.val.syncFolders := by
  induction ids generalizing s with
  | nil =>
    cases h
    exact ⟨fun f hf => absurd hf List.not_mem_nil, fun _ _ => rfl, rfl⟩
  | cons id ids ih =>
    obtain ⟨hnew, hids⟩ := List.nodup_cons.mp hids
    obtain ⟨_, t, hfirst, hrest⟩ := bind_eq_ok.mp h
    obtain ⟨hkeyed, hothers, hfolders⟩ := setFolderDevice_pairs hfirst
    obtain ⟨hrekeyed, hkept, hfolders'⟩ := ih hids hrest
    refine ⟨fun f hf => ?_, fun f hf => ?_, hfolders'.trans hfolders⟩
    · rcases List.mem_cons.mp hf with rfl | hf
      · rw [hkept f hnew]
        exact hkeyed
      · have hne : f ≠ id := fun heq => hnew (heq ▸ hf)
        rw [← hothers f hne]
        exact hrekeyed f hf
    · rw [hkept f fun hthere => hf (List.mem_cons_of_mem id hthere),
        hothers f fun heq => hf (heq ▸ List.mem_cons_self)]

theorem rekeyAll_ok (hids : ids.Nodup) (h : ∀ f ∈ ids, rekeyOldest deviceId (s.val.pairsOf f) ≠ none) :
    ∃ s', ids.forM (fun id => setFolderDevice id deviceId) s = .ok () s' := by
  induction ids generalizing s with
  | nil => exact ⟨s, rfl⟩
  | cons id ids ih =>
    obtain ⟨hnew, hids⟩ := List.nodup_cons.mp hids
    obtain ⟨t, ht⟩ := setFolderDevice_ok (h id List.mem_cons_self)
    obtain ⟨_, hothers, _⟩ := setFolderDevice_pairs ht
    have hrest : ∀ f ∈ ids, rekeyOldest deviceId (t.val.pairsOf f) ≠ none := by
      intro f hf
      rw [hothers f fun heq => hnew (heq ▸ hf)]
      exact h f (List.mem_cons_of_mem id hf)
    obtain ⟨s', hs'⟩ := ih hids hrest
    exact ⟨s', bind_eq_ok.mpr ⟨(), t, ht, hs'⟩⟩

/-- The folders whose own pair is listed. -/
def servedIds (db : Database) (ownId path : String) : List ℕ :=
  (db.listSyncFolders.filter fun row =>
    decide (row.localPath = path ∧ row.deviceId = ownId)).map (·.id)

theorem forM_ite {α : Type} {p : α → Prop} [DecidablePred p] (f : α → Sql Unit) (xs : List α) :
    xs.forM (fun x => if p x then f x else pure ()) = (xs.filter fun x => decide (p x)).forM f := by
  induction xs with
  | nil => rfl
  | cons x xs ih =>
    show ((if p x then f x else pure ()) >>= fun _ => xs.forM _) = _
    by_cases hx : p x
    · have hcons : ((x :: xs).filter fun x => decide (p x)) = x :: xs.filter fun x => decide (p x) :=
        List.filter_cons_of_pos (by simpa using hx)
      rw [if_pos hx, hcons, ih]
      rfl
    · have hskip : ((x :: xs).filter fun x => decide (p x)) = xs.filter fun x => decide (p x) :=
        List.filter_cons_of_neg (by simpa using hx)
      rw [if_neg hx, hskip, ih]
      rfl

theorem adoptFolder_eq : adoptFolder ownId path deviceId s =
    (s.val.servedIds ownId path).forM (fun id => setFolderDevice id deviceId) s := by
  unfold adoptFolder
  rw [Effects.bind_ok (query_apply _), forM_ite]
  have hmap : forM ((s.val.listSyncFolders.filter fun row =>
      decide (row.localPath = path ∧ row.deviceId = ownId)).map (·.id)) (fun id => setFolderDevice id deviceId) =
      forM (s.val.listSyncFolders.filter fun row =>
        decide (row.localPath = path ∧ row.deviceId = ownId)) fun row => setFolderDevice row.id deviceId :=
    List.forM_map
  exact congrFun hmap.symm s

theorem servedIds_nodup : (s.val.servedIds ownId path).Nodup := by
  have hrows := (listSyncFolders_nodup s.keys).sublist
    ((List.filter_sublist (p := fun row : SyncPair =>
      decide (row.localPath = path ∧ row.deviceId = ownId))).map fun row => (row.id, row.deviceId))
  have hsame : ∀ row ∈ s.val.listSyncFolders.filter fun row =>
      decide (row.localPath = path ∧ row.deviceId = ownId),
      (row.id, row.deviceId) = (fun id : ℕ => (id, ownId)) row.id := by
    intro row hrow
    have hown := (of_decide_eq_true (List.mem_filter.mp hrow).2).2
    exact Prod.ext rfl hown
  rw [List.map_congr_left hsame] at hrows
  unfold servedIds
  refine List.Nodup.of_map (fun id : ℕ => (id, ownId)) ?_
  rw [List.map_map]
  exact hrows

theorem mem_servedIds {id : ℕ} {db : Database} : id ∈ db.servedIds ownId path ↔
    ∃ f ∈ db.syncFolders, f.id = id ∧ f.localPath = path ∧
      ∃ p ∈ db.pairsOf id, p.deviceId = ownId ∧ p.enabled = true := by
  unfold servedIds
  simp only [List.mem_map, List.mem_filter, mem_listSyncFolders, decide_eq_true_eq]
  constructor
  · rintro ⟨row, ⟨⟨f, hf, p, hp, hfolder, henabled, rfl⟩, hpath, hown⟩, rfl⟩
    exact ⟨f, hf, rfl, hpath, p, mem_pairsOf.mpr ⟨hp, hfolder⟩, hown, henabled⟩
  · rintro ⟨f, hf, rfl, hpath, p, hp, hown, henabled⟩
    obtain ⟨hp, hfolder⟩ := mem_pairsOf.mp hp
    exact ⟨_, ⟨⟨f, hf, p, hp, hfolder, henabled, rfl⟩, hpath, hown⟩, rfl⟩

/-- A folder has one pair with a device. -/
theorem pairsOf_nodup (s : DbState) (folderId : ℕ) :
    ((s.val.pairsOf folderId).map (·.deviceId)).Nodup := by
  have hkeys := s.keys.folderDevices.sublist ((List.filter_sublist
    (p := fun p : Db.FolderDevice => decide (p.folderId = folderId))).map fun p => (p.folderId, p.deviceId))
  have hsame : ∀ p ∈ s.val.pairsOf folderId,
      (p.folderId, p.deviceId) = (fun d : String => (folderId, d)) p.deviceId := by
    intro p hp
    exact Prod.ext (mem_pairsOf.mp hp).2 rfl
  have hpairs : ((s.val.pairsOf folderId).map fun p => (p.folderId, p.deviceId)).Nodup := hkeys
  rw [List.map_congr_left hsame] at hpairs
  refine List.Nodup.of_map (fun d : String => (folderId, d)) ?_
  rw [List.map_map]
  exact hpairs

end

/-! ### What becomes of the own pair -/

section

variable {pairs pairs' : List Db.FolderDevice} {ownId deviceId : String}

/-- **The own pair, if it is the oldest, becomes the remote's.** -/
theorem pairsAdopted_of_oldest {own : Db.FolderDevice} {rest : List Db.FolderDevice}
    (hnodup : ((own :: rest).map (·.deviceId)).Nodup) (hown : own.deviceId = ownId)
    (hremote : deviceId ≠ ownId) (hnone : ∀ p ∈ own :: rest, p.deviceId ≠ deviceId)
    (h : rekeyOldest deviceId (own :: rest) = some pairs') :
    PairsAdopted ownId deviceId (own :: rest) pairs' := by
  unfold rekeyOldest at h
  dsimp only at h
  have hfree : ¬((own :: rest).any fun p => decide (p.deviceId = deviceId)) = true := by
    intro hany
    obtain ⟨p, hp, hdevice⟩ := List.any_eq_true.mp hany
    exact hnone p hp (of_decide_eq_true hdevice)
  rw [if_neg (hnone own List.mem_cons_self), if_neg hfree, hown] at h
  cases h
  let turn : Db.FolderDevice → Db.FolderDevice := fun p =>
    if p.deviceId = ownId then { p with deviceId := deviceId } else p
  have hturned : ∀ p : Db.FolderDevice, p.deviceId = ownId → turn p = { p with deviceId := deviceId } :=
    fun p hp => if_pos hp
  have hkept : ∀ p : Db.FolderDevice, p.deviceId ≠ ownId → turn p = p := fun p hp => if_neg hp
  refine ⟨fun p hp => ?_, fun _ p hp howned => ?_, fun p hp hother => ?_, fun p hp => ?_, ?_⟩
  · obtain ⟨q, hq, rfl⟩ := List.mem_map.mp hp
    by_cases hq' : q.deviceId = ownId
    · rw [if_pos hq']
      exact hremote
    · rw [if_neg hq']
      exact hq'
  · exact List.mem_map.mpr ⟨p, hp, hturned p howned⟩
  · exact List.mem_map.mpr ⟨p, hp, hkept p hother⟩
  · obtain ⟨q, hq, rfl⟩ := List.mem_map.mp hp
    by_cases hq' : q.deviceId = ownId
    · exact Or.inl (by rw [if_pos hq'])
    · rw [if_neg hq']
      exact Or.inr hq
  · -- A pair is the remote's now if it was the own one, of which there is one.
    have hwas : ∀ p ∈ own :: rest, decide ((turn p).deviceId = deviceId) = decide (p.deviceId = ownId) := by
      intro p hp
      by_cases hp' : p.deviceId = ownId
      · rw [hturned p hp', decide_eq_true hp']
        exact decide_eq_true rfl
      · rw [hkept p hp', decide_eq_false hp', decide_eq_false (hnone p hp)]
    have hone : (own :: rest).countP (fun p => decide (p.deviceId = ownId)) = 1 := by
      have hcount := List.count_eq_one_of_mem hnodup (List.mem_map_of_mem List.mem_cons_self)
      rw [hown, List.count_eq_countP, List.countP_map] at hcount
      rw [← hcount]
      exact List.countP_congr fun p _ => by simp
    rw [List.countP_map, ← hone]
    exact List.countP_congr fun p hp => by rw [← hwas p hp]; rfl

/-- **Otherwise it stays.** -/
theorem own_stays (h : rekeyOldest deviceId pairs = some pairs')
    {own : Db.FolderDevice} (hthere : own ∈ pairs) (hown : own.deviceId = ownId)
    (hnot : ¬∃ oldest rest, pairs = oldest :: rest ∧ oldest.deviceId = ownId ∧
      ∀ p ∈ pairs, p.deviceId ≠ deviceId) : own ∈ pairs' := by
  unfold rekeyOldest at h
  cases pairs with
  | nil => exact absurd hthere List.not_mem_nil
  | cons oldest rest =>
    dsimp only at h
    split_ifs at h with hsame hany
    · cases h
      exact hthere
    · cases h
      refine List.mem_map.mpr ⟨own, hthere, if_neg fun heq => hnot ⟨oldest, rest, rfl, ?_, fun p hp hdevice => ?_⟩⟩
      · exact heq.symm.trans hown
      · exact hany (List.any_eq_true.mpr ⟨p, hp, decide_eq_true hdevice⟩)

end

/-! ### What comes before and after -/

section

variable {s s' : DbState} {ownId path deviceId : String}

/-- The pairs of other devices are there afterwards. -/
def KeepsOthers (deviceId : String) (s s' : DbState) : Prop :=
  ∀ p ∈ s.val.folderDevices, p.deviceId ≠ deviceId → p ∈ s'.val.folderDevices

theorem keepsOthers_composes (deviceId : String) : Effects.Composes (KeepsOthers deviceId) where
  refl _ := fun _ hp _ => hp
  trans hfirst hsecond := fun p hp hother => hsecond p (hfirst p hp hother) hother

theorem keepsOthers_execute {g : Database → Database} (h : ∀ db, (g db).folderDevices = db.folderDevices) :
    Effects.Does (KeepsOthers deviceId) (execute g : Sql Unit) := by
  refine Does.execute (keepsOthers_composes deviceId) fun s s' hs' => ?_
  intro p hp _
  rw [hs', h]
  exact hp

theorem keepsOthers_putPair (folderId : ℕ) (mode : String) (remotePath : Option String) :
    Effects.Does (KeepsOthers deviceId) (execute (putPair folderId deviceId mode remotePath) : Sql Unit) := by
  refine Does.execute (keepsOthers_composes deviceId) fun s s' hs' => ?_
  intro p hp hother
  rw [hs']
  unfold putPair upsert
  dsimp only
  split
  · refine List.mem_map.mpr ⟨p, hp, if_neg ?_⟩
    simp [hother]
  · exact List.mem_append_left _ hp

theorem keepsOthers_ensureDevice : Effects.Does (KeepsOthers deviceId) (ensureDevice deviceId) := by
  have hcomposes := keepsOthers_composes deviceId
  refine .bind hcomposes (Does.query hcomposes _) fun found => ?_
  cases found with
  | some name => exact .pure hcomposes _
  | none => exact keepsOthers_execute fun _ => rfl

theorem keepsOthers_addSyncFolder (blake3 : Bytes → FileHash) (processId : ℕ) (localPath direction : String) :
    Effects.Does (KeepsOthers deviceId) (addSyncFolder blake3 processId localPath deviceId direction) := by
  have hcomposes := keepsOthers_composes deviceId
  have hpair : ∀ folderId, Effects.Does (KeepsOthers deviceId) (do
      execute (putPair folderId deviceId direction none)
      return folderId : Sql ℕ) := fun folderId =>
    .bind hcomposes (keepsOthers_putPair folderId direction none) fun _ => .pure hcomposes _
  refine Does.transaction hcomposes (.bind hcomposes (Does.query hcomposes _) fun found => ?_)
  cases found with
  | some f => exact hpair f.id
  | none =>
    exact .bind hcomposes (Does.query hcomposes _) fun _ =>
      .bind hcomposes (.bind hcomposes (keepsOthers_execute fun _ => rfl) fun _ =>
        Does.query hcomposes _) hpair

theorem keepsOthers_getOrCreateFolder (blake3 : Bytes → FileHash) (processId : ℕ) :
    Effects.Does (KeepsOthers deviceId) (getOrCreateFolder blake3 processId path deviceId) := by
  have hcomposes := keepsOthers_composes deviceId
  refine .bind hcomposes (Does.query hcomposes _) fun found => ?_
  cases found with
  | some row => exact .pure hcomposes _
  | none =>
    exact .bind hcomposes keepsOthers_ensureDevice fun _ =>
      keepsOthers_addSyncFolder blake3 processId path "bidirectional"

/-- A folder whose pair is listed is not created. -/
theorem getOrCreateFolder_found (blake3 : Bytes → FileHash) (processId : ℕ)
    (h : ∃ row ∈ s.val.listSyncFolders, row.localPath = path ∧ row.deviceId = deviceId) :
    ∃ id, getOrCreateFolder blake3 processId path deviceId s = .ok id s := by
  obtain ⟨row, hrow, hpath, hdevice⟩ := h
  unfold getOrCreateFolder
  rw [Effects.bind_ok (query_apply _)]
  cases hfound : s.val.listSyncFolders.find? fun row =>
      decide (row.localPath = path) && decide (row.deviceId = deviceId) with
  | some found => exact ⟨found.id, rfl⟩
  | none =>
    have hnot := List.find?_eq_none.mp hfound row hrow
    simp [hpath, hdevice] at hnot

/-- What is left to do once the row is there that `sync` may make first. -/
theorem attachRemote_start (blake3 : Bytes → FileHash) (processId : ℕ) (byAddress : Bool) :
    ∃ t : DbState, t.val.folderDevices = s.val.folderDevices ∧ t.val.syncFolders = s.val.syncFolders ∧
      attachRemote blake3 processId ownId path deviceId byAddress s =
        (adoptFolder ownId path deviceId >>= fun _ => getOrCreateFolder blake3 processId path deviceId) t := by
  cases byAddress with
  | false => exact ⟨s, rfl, rfl, rfl⟩
  | true =>
    have hensured : ∃ t, ensureDevice deviceId s = .ok () t ∧
        t.val.folderDevices = s.val.folderDevices ∧ t.val.syncFolders = s.val.syncFolders := by
      unfold ensureDevice
      rw [Effects.bind_ok (query_apply _)]
      cases s.val.getDeviceName deviceId with
      | some name => exact ⟨s, rfl, rfl, rfl⟩
      | none =>
        obtain ⟨t, ht, htval⟩ := @upsertDevice_ok s deviceId deviceId none none
        exact ⟨t, ht, by rw [htval]; rfl, by rw [htval]; rfl⟩
    obtain ⟨t, ht, hpairs, hfolders⟩ := hensured
    exact ⟨t, hpairs, hfolders, Effects.bind_ok ht⟩

/-- Folders and pairs decide which folders are served. -/
theorem servedIds_congr {db db' : Database} (hpairs : db'.folderDevices = db.folderDevices)
    (hfolders : db'.syncFolders = db.syncFolders) : db'.servedIds ownId path = db.servedIds ownId path := by
  unfold servedIds listSyncFolders
  rw [hpairs, hfolders]

theorem mem_servedIds_folder {f : SyncFolderRow} (hf : f ∈ s.val.syncFolders) :
    f.id ∈ s.val.servedIds ownId path ↔
      f.localPath = path ∧ ∃ p ∈ s.val.pairsOf f.id, p.deviceId = ownId ∧ p.enabled = true := by
  rw [mem_servedIds]
  constructor
  · rintro ⟨g, hg, hid, hpath, hown⟩
    rw [← List.inj_on_of_nodup_map s.keys.syncFolders hg hf hid]
    rw [List.inj_on_of_nodup_map s.keys.syncFolders hg hf hid] at hpath
    rw [List.inj_on_of_nodup_map s.keys.syncFolders hg hf hid]
    exact ⟨hpath, hown⟩
  · rintro ⟨hpath, hown⟩
    exact ⟨f, hf, rfl, hpath, hown⟩

/-- **What an adoption takes.** -/
theorem adoptable_of_attach {blake3 : Bytes → FileHash} {processId id : ℕ} {byAddress : Bool}
    (hremote : deviceId ≠ ownId)
    (h : attachRemote blake3 processId ownId path deviceId byAddress s = .ok id s')
    (hadopted : Adopted ownId path deviceId s.val s'.val) : s.val.Adoptable ownId path deviceId := by
  obtain ⟨t, htpairs, htfolders, hstart⟩ := @attachRemote_start s ownId path deviceId blake3 processId byAddress
  have hpairs : ∀ f, t.val.pairsOf f = s.val.pairsOf f := fun f => by unfold pairsOf; rw [htpairs]
  intro f hf hserves
  rw [hstart] at h
  obtain ⟨_, u, hloop, hcreate⟩ := bind_eq_ok.mp h
  rw [adoptFolder_eq] at hloop
  obtain ⟨hrekeyed, hsame, _⟩ := rekeyAll_pairs servedIds_nodup hloop
  rw [servedIds_congr htpairs htfolders] at hrekeyed hsame
  have hgone : ∀ p ∈ u.val.pairsOf f.id, p.deviceId ≠ ownId := by
    intro p hp hown
    obtain ⟨hp, hfolder⟩ := mem_pairsOf.mp hp
    have hkeeps := @keepsOthers_getOrCreateFolder path deviceId blake3 processId u
    rw [Effects.after_ok hcreate] at hkeeps
    have hstays : p ∈ s'.val.folderDevices := hkeeps p hp (hown ▸ hremote.symm)
    exact (hadopted.served f hf hserves).gone p (mem_pairsOf.mpr ⟨hstays, hfolder⟩) hown
  obtain ⟨hpath, p, hp, hown⟩ := hserves
  by_cases hloops : f.id ∈ s.val.servedIds ownId path
  · have hstep := hrekeyed f.id hloops
    rw [hpairs] at hstep
    obtain ⟨q, hq, hqown, hqenabled⟩ := ((mem_servedIds_folder hf).mp hloops).2
    by_contra hnot
    refine hgone p (own_stays hstep hp hown fun ⟨oldest, rest, hsplit, holdest, hnone⟩ => hnot ?_) hown
    have hfirst : oldest = q := by
      have hthere : oldest ∈ s.val.pairsOf f.id := hsplit ▸ List.mem_cons_self
      exact List.inj_on_of_nodup_map (pairsOf_nodup s f.id) hthere hq (holdest.trans hqown.symm)
    exact ⟨⟨oldest, rest, hsplit, holdest, hfirst ▸ hqenabled⟩, hnone⟩
  · refine absurd hown (hgone p ?_)
    rw [hsame f.id hloops, hpairs]
    exact hp

/-- The pairs of adoptable folders can be re-keyed. -/
theorem Adoptable.rekeys (h : s.val.Adoptable ownId path deviceId) :
    ∀ id ∈ s.val.servedIds ownId path, rekeyOldest deviceId (s.val.pairsOf id) ≠ none := by
  intro id hid
  obtain ⟨f, hf, rfl, hpath, p, hp, hown, _⟩ := mem_servedIds.mp hid
  obtain ⟨⟨own, rest, hsplit, _⟩, hnone⟩ := h f hf ⟨hpath, p, hp, hown⟩
  unfold rekeyOldest
  rw [hsplit] at hnone ⊢
  dsimp only
  rw [if_neg (hnone own List.mem_cons_self), if_neg]
  · exact Option.some_ne_none _
  · intro hany
    obtain ⟨q, hq, hdevice⟩ := List.any_eq_true.mp hany
    exact hnone q hq (of_decide_eq_true hdevice)

/-- **Then the adoption succeeds.** -/
theorem Adoptable.attaches (h : s.val.Adoptable ownId path deviceId) (blake3 : Bytes → FileHash)
    (processId : ℕ) (byAddress : Bool) (hremote : deviceId ≠ ownId)
    (hserved : ∃ f ∈ s.val.syncFolders, s.val.Served ownId path f) :
    ∃ id s', attachRemote blake3 processId ownId path deviceId byAddress s = .ok id s' ∧
      Adopted ownId path deviceId s.val s'.val := by
  obtain ⟨t, htpairs, htfolders, hstart⟩ := @attachRemote_start s ownId path deviceId blake3 processId byAddress
  have hpairs : ∀ f, t.val.pairsOf f = s.val.pairsOf f := fun f => by unfold pairsOf; rw [htpairs]
  have hready : ∀ id ∈ t.val.servedIds ownId path, rekeyOldest deviceId (t.val.pairsOf id) ≠ none := by
    intro id hid
    rw [servedIds_congr htpairs htfolders] at hid
    rw [hpairs]
    exact h.rekeys id hid
  obtain ⟨u, hu⟩ := rekeyAll_ok servedIds_nodup hready
  obtain ⟨hrekeyed, hsame, hfolders⟩ := rekeyAll_pairs servedIds_nodup hu
  rw [servedIds_congr htpairs htfolders] at hrekeyed hsame
  have hdone : ∀ f ∈ s.val.syncFolders, s.val.Served ownId path f →
      PairsAdopted ownId deviceId (s.val.pairsOf f.id) (u.val.pairsOf f.id) := by
    intro f hf hserves
    obtain ⟨⟨own, rest, hsplit, hown, henabled⟩, hnone⟩ := h f hf hserves
    have hthere : own ∈ s.val.pairsOf f.id := hsplit ▸ List.mem_cons_self
    have hstep := hrekeyed f.id ((mem_servedIds_folder hf).mpr ⟨hserves.1, own, hthere, hown, henabled⟩)
    have hnodup := pairsOf_nodup s f.id
    rw [hpairs, hsplit] at hstep
    rw [hsplit] at hnone hnodup ⊢
    exact pairsAdopted_of_oldest hnodup hown hremote hnone hstep
  have hcreated : ∃ id, getOrCreateFolder blake3 processId path deviceId u = .ok id u := by
    obtain ⟨f, hf, hserves⟩ := hserved
    obtain ⟨⟨own, rest, hsplit, hown, henabled⟩, hnone⟩ := h f hf hserves
    have hthere : own ∈ s.val.pairsOf f.id := hsplit ▸ List.mem_cons_self
    have hturned := (hdone f hf hserves).turned hnone own hthere hown
    obtain ⟨hmem, hfolder⟩ := mem_pairsOf.mp hturned
    refine getOrCreateFolder_found blake3 processId ⟨_, mem_listSyncFolders.mpr
      ⟨f, ?_, _, hmem, hfolder, henabled, rfl⟩, hserves.1, rfl⟩
    rw [hfolders, htfolders]
    exact hf
  obtain ⟨id, hid⟩ := hcreated
  refine ⟨id, u, ?_, hdone, fun f hf hnot => ?_, by rw [hfolders, htfolders]⟩
  · rw [hstart]
    exact bind_eq_ok.mpr ⟨(), u, by rw [adoptFolder_eq]; exact hu, hid⟩
  · rw [hsame f.id fun hid => hnot ?_, hpairs]
    obtain ⟨hpath, p, hp, hown, _⟩ := (mem_servedIds_folder hf).mp hid
    exact ⟨hpath, p, hp, hown⟩

end

end Database

open Database in
/-- **The own pair becomes the remote's, and nothing else changes, exactly if it is the
oldest pair of its folder and the remote has none with it.** -/
theorem attach_adopts_iff (blake3 : Bytes → FileHash) (processId : ℕ) (ownId path deviceId : String)
    (byAddress : Bool) (s : DbState) (hremote : deviceId ≠ ownId)
    (hserved : ∃ f ∈ s.val.syncFolders, s.val.Served ownId path f) :
    (∃ id s', attachRemote blake3 processId ownId path deviceId byAddress s = .ok id s' ∧
        Adopted ownId path deviceId s.val s'.val) ↔
      s.val.Adoptable ownId path deviceId :=
  ⟨fun ⟨_, _, h, hadopted⟩ => adoptable_of_attach hremote h hadopted,
    fun h => h.attaches blake3 processId byAddress hremote hserved⟩

/-- Folder 1, which is served by the laptop, and a phone. -/
def servedMusic : List StorageOp :=
  [.upsertDevice "laptop" "Laptop" none none, .upsertDevice "phone" "Phone" none none,
    .addSyncFolder "/home/music" "laptop" "bidirectional"]

/-- The phone takes the laptop's place. -/
theorem attach_adopts_phone : ∃ id s', Database.attachRemote sampleBlake3 1 "laptop" "/home/music" "phone"
      false ((Host.new 1).run sampleBlake3 servedMusic).db = .ok id s' ∧
      Database.Adopted "laptop" "/home/music" "phone" ((Host.new 1).run sampleBlake3 servedMusic).db.val
        s'.val := by
  have hrows : ((Host.new 1).run sampleBlake3 servedMusic).db.val.syncFolders.map (fun f => (f.id, f.localPath)) =
      [(1, "/home/music")] := by decide +kernel
  have hpairs : ((Host.new 1).run sampleBlake3 servedMusic).db.val.pairsOf 1 =
      [⟨1, "laptop", "bidirectional", none, true⟩] := by decide +kernel
  have honly : ∀ f ∈ ((Host.new 1).run sampleBlake3 servedMusic).db.val.syncFolders,
      f.id = 1 ∧ f.localPath = "/home/music" := by
    intro f hf
    have hrow := List.mem_map_of_mem (f := fun f : SyncFolderRow => (f.id, f.localPath)) hf
    rw [hrows, List.mem_singleton] at hrow
    exact Prod.mk.inj hrow
  refine (attach_adopts_iff sampleBlake3 1 "laptop" "/home/music" "phone" false
    ((Host.new 1).run sampleBlake3 servedMusic).db (by decide) ?_).mpr fun f hf _ => ?_
  · have hthere : (1, "/home/music") ∈ ((Host.new 1).run sampleBlake3 servedMusic).db.val.syncFolders.map
        (fun f => (f.id, f.localPath)) := by rw [hrows]; exact List.mem_singleton_self _
    obtain ⟨f, hf, _⟩ := List.mem_map.mp hthere
    refine ⟨f, hf, (honly f hf).2, ⟨1, "laptop", "bidirectional", none, true⟩, ?_, rfl⟩
    rw [(honly f hf).1, hpairs]
    exact List.mem_singleton_self _
  · rw [(honly f hf).1, hpairs]
    refine ⟨⟨_, _, rfl, rfl, rfl⟩, fun p hp => ?_⟩
    rw [List.mem_singleton.mp hp]
    decide

/-- The tablet was paired with the music before the laptop served it. -/
def tabletMusic : List StorageOp :=
  [.upsertDevice "tablet" "Tablet" none none, .addSyncFolder "/home/music" "tablet" "bidirectional"] ++
    servedMusic

/-- **The phone does not take the laptop's place** but the tablet's. -/
theorem attach_takes_oldest : ¬∃ id s', Database.attachRemote sampleBlake3 1 "laptop" "/home/music" "phone"
      false ((Host.new 1).run sampleBlake3 tabletMusic).db = .ok id s' ∧
      Database.Adopted "laptop" "/home/music" "phone" ((Host.new 1).run sampleBlake3 tabletMusic).db.val
        s'.val := by
  rintro ⟨id, s', hrun, hadopted⟩
  have hrows : ((Host.new 1).run sampleBlake3 tabletMusic).db.val.syncFolders.map (fun f => (f.id, f.localPath)) =
      [(1, "/home/music")] := by decide +kernel
  have hpairs : ((Host.new 1).run sampleBlake3 tabletMusic).db.val.pairsOf 1 =
      [⟨1, "tablet", "bidirectional", none, true⟩, ⟨1, "laptop", "bidirectional", none, true⟩] := by
    decide +kernel
  have hthere : (1, "/home/music") ∈ ((Host.new 1).run sampleBlake3 tabletMusic).db.val.syncFolders.map
      (fun f => (f.id, f.localPath)) := by rw [hrows]; exact List.mem_singleton_self _
  obtain ⟨f, hf, hrow⟩ := List.mem_map.mp hthere
  obtain ⟨hid, hpath⟩ := Prod.mk.inj hrow
  have hadoptable := Database.adoptable_of_attach (by decide) hrun hadopted f hf
  have hserved : ((Host.new 1).run sampleBlake3 tabletMusic).db.val.Served "laptop" "/home/music" f := by
    refine ⟨hpath, ⟨1, "laptop", "bidirectional", none, true⟩, ?_, rfl⟩
    rw [hid, hpairs]
    exact List.mem_cons_of_mem _ (List.mem_singleton_self _)
  obtain ⟨⟨own, rest, hsplit, hown, _⟩, _⟩ := hadoptable hserved
  rw [hid, hpairs] at hsplit
  cases hsplit
  revert hown
  decide

end FerriSync
