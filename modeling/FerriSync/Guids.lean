/-
# Identifiers of folders

A new folder's identifier (`new_folder_guid` in `storage/mod.rs`) is made from the number of
the process and a row number, `MAX(id) + 1`, which is not that of the row to come: SQLite
gives no number twice, but the largest there is goes down when its folder is removed. So the
next folder of the same process has the identifier of the one that is gone, as folders of two
devices have the same one if their processes have the same number; and a folder that is
wired or ensured gets whatever identifier it is told. No identifier ever means two folders
exactly if none of that happens (`guids_unique_iff`).

Key definitions: `guidKey`, `GuidSource`, `GuidRecord`, `Fleet`, `Fleet.perform`,
`Fleet.GuidsUnique`, `Comes`, `Fleet.KeepsGuids`.
Key theorems: `newFolderGuid_inj`, `mem_newRows_iff`, `guids_unique_iff`.
-/
import FerriSync.Announced
import FerriSync.Approvals
import FerriSync.Renames

namespace FerriSync

open Transactions

/-! ### What an identifier is made from -/

/-- The row number and the process number, as they are hashed. -/
def guidKey (folderId processId : ℕ) : Bytes := leBytes 8 folderId ++ leBytes 4 processId

def guidInput (key : Bytes) : Bytes := "ferrisync-folder-guid-v1".toUTF8.toList ++ key

/-- What is hashed for any folder of any process. -/
def guidInputs : Set Bytes := {input | ∃ folderId processId, input = guidInput (guidKey folderId processId)}

/-- How a folder has come by its identifier. -/
inductive GuidSource
  | minted (folderId processId : ℕ)
  | given (guid : String)
deriving DecidableEq, Repr

namespace GuidSource

variable (blake3 : Bytes → FileHash)

def guid : GuidSource → String
  | minted folderId processId => newFolderGuid blake3 processId folderId
  | given guid => guid

/-- Two identifiers made from the same numbers; otherwise the same identifier. -/
def Same : GuidSource → GuidSource → Prop
  | minted n p, minted n' p' => guidKey n p = guidKey n' p'
  | a, b => a.guid blake3 = b.guid blake3

end GuidSource

/-! ### Devices and the folders that they have had -/

/-- A folder that a device has or has had, under an identifier. -/
structure GuidRecord where
  folderId : ℕ
  source : GuidSource
  /-- It was made by `add_sync_folder`. -/
  added : Bool
deriving DecidableEq, Repr

/-- The folders, as far as their identifiers go. -/
def Database.guidRows (db : Database) : List (ℕ × Option String) :=
  db.syncFolders.map fun f => (f.id, f.folderGuid)

/-- The rows that have come. -/
def newRows (db db' : Database) : List (ℕ × Option String) :=
  db'.guidRows.filter fun r => decide (r ∉ db.guidRows)

/-- The record of a row that has come with an operation. -/
def recordOf (h : Host) (op : StorageOp) (row : ℕ × Option String) : GuidRecord :=
  match op with
  | .addSyncFolder _ _ _ => ⟨row.1, .minted (h.db.val.maxFolderId + 1) h.processId, true⟩
  | .reopen processId => ⟨row.1, .minted row.1 processId, false⟩
  | _ => ⟨row.1, .given (row.2.getD ""), false⟩

/-- Devices, and for each the folders that it has had so far, which nothing reads. -/
structure Fleet (D : Type) where
  host : D → Host
  carried : D → List GuidRecord

/-- The folder's guid is missing. -/
def SyncFolderRow.lacksGuid (f : SyncFolderRow) : Prop := f.folderGuid = none ∨ f.folderGuid = some ""

/-- Own shares of the folder's guid and of the other stand in each other's way. -/
def Database.SharesClash (db : Database) (wired : SyncFolderRow) (guid ownId : String) : Prop :=
  ∃ oldGuid, wired.folderGuid = some oldGuid ∧
    (∃ r ∈ db.sharedFolders, r.deviceId = ownId ∧ r.folderGuid = oldGuid) ∧
    ∃ r ∈ db.sharedFolders, r.deviceId = ownId ∧ r.folderGuid = guid

/-- A folder comes by a guid with the operation: one that is added at a free path, or ensured
or wired while none has the guid; one that is wired at its path; or one without a guid when
the database is opened. -/
def Comes (h : Host) (op : StorageOp) (r : GuidRecord) : Prop :=
  match op with
  | .addSyncFolder localPath deviceId _ =>
    (∀ f ∈ h.db.val.syncFolders, f.localPath ≠ localPath) ∧ deviceId ∈ h.db.val.deviceIds ∧
      r = ⟨h.db.val.nextFolderId, .minted (h.db.val.maxFolderId + 1) h.processId, true⟩
  | .ensureFolderByGuid guid _ _ deviceId =>
    ¬h.db.val.Live guid ∧ deviceId ∈ h.db.val.deviceIds ∧ r = ⟨h.db.val.nextFolderId, .given guid, false⟩
  | .wireFolderPair guid localPath _ ownId _ _ =>
    match h.db.val.syncFolders.find? fun f => decide (f.localPath = localPath) with
    | some wired => wired.folderGuid ≠ some guid ∧ ¬h.db.val.SharesClash wired guid ownId ∧
        r = ⟨wired.id, .given guid, false⟩
    | none => ¬h.db.val.Live guid ∧ ownId ∈ h.db.val.deviceIds ∧
        r = ⟨h.db.val.nextFolderId, .given guid, false⟩
  | .reopen processId =>
    ∃ f ∈ h.db.val.syncFolders, f.lacksGuid ∧ r = ⟨f.id, .minted f.id processId, false⟩
  | _ => False

namespace Fleet

variable {D : Type} [DecidableEq D] (blake3 : Bytes → FileHash)

def new (processId : D → ℕ) : Fleet D := ⟨fun d => Host.new (processId d), fun _ => []⟩

/-- An operation on a device. -/
def perform (s : Fleet D) (op : D × StorageOp) : Fleet D :=
  let h := s.host op.1
  let h' := h.perform blake3 op.2
  { host := Function.update s.host op.1 h'
    carried := Function.update s.carried op.1
      (s.carried op.1 ++ (newRows h.db.val h'.db.val).map (recordOf h op.2)) }

/-- No guid means two folders: neither two that a device has, nor one that it has and one that
it has had, as no number is given twice, nor two that were added on different devices. -/
structure GuidsUnique (s : Fleet D) : Prop where
  live : ∀ d, ∀ f ∈ (s.host d).db.val.syncFolders, ∀ f' ∈ (s.host d).db.val.syncFolders,
    f.folderGuid = f'.folderGuid → f.folderGuid ≠ none → f.id = f'.id
  fresh : ∀ d, ∀ r ∈ s.carried d, ∀ r' ∈ s.carried d, r.folderId ≠ r'.folderId →
    r.source.guid blake3 ≠ r'.source.guid blake3
  numbered : ∀ d, ∀ r ∈ s.carried d, r.folderId < (s.host d).db.val.nextFolderId
  apart : ∀ d d', d ≠ d' → ∀ r ∈ s.carried d, ∀ r' ∈ s.carried d', r.added = true → r'.added = true →
    r.source.guid blake3 ≠ r'.source.guid blake3

/-- No folder that comes has its guid from where another folder of the device, or one that was
added on another device like itself, has or has had its own. -/
def KeepsGuids (s : Fleet D) (op : D × StorageOp) : Prop :=
  ∀ r, Comes (s.host op.1) op.2 r →
    (∀ r', r' ∈ s.carried op.1 ∨ Comes (s.host op.1) op.2 r' → r'.folderId ≠ r.folderId →
      ¬r'.source.Same blake3 r.source) ∧
    (r.added = true → ∀ d ≠ op.1, ∀ r' ∈ s.carried d, r'.added = true → ¬r'.source.Same blake3 r.source)

end Fleet

/-! ### The hash keeps apart -/

theorem digitChar_inj {m n : ℕ} (hm : m < 16) (hn : n < 16) (h : Nat.digitChar m = Nat.digitChar n) :
    m = n := by
  have hall : ∀ m < 16, ∀ n < 16, Nat.digitChar m = Nat.digitChar n → m = n := by decide
  exact hall m hm n hn h

theorem hexBytes_inj : ∀ {as bs : Bytes}, hexBytes as = hexBytes bs → as = bs
  | [], [], _ => rfl
  | [], b :: bs, h => by simp [hexBytes, hexByte] at h
  | a :: as, [], h => by simp [hexBytes, hexByte] at h
  | a :: as, b :: bs, h => by
    have hcons : hexByte a ++ hexBytes as = hexByte b ++ hexBytes bs := h
    simp only [hexByte, List.cons_append, List.nil_append, List.cons.injEq] at hcons
    obtain ⟨hhigh, hlow, hrest⟩ := hcons
    have ha := a.toNat_lt
    have hb := b.toNat_lt
    have hdiv : a.toNat / 16 = b.toNat / 16 := digitChar_inj (by omega) (by omega) hhigh
    have hmod : a.toNat % 16 = b.toNat % 16 :=
      digitChar_inj (Nat.mod_lt _ (by decide)) (Nat.mod_lt _ (by decide)) hlow
    have heq : a = b := UInt8.toNat_inj.mp (by omega)
    rw [heq, hexBytes_inj hrest]

/-- **Identifiers of different numbers are different** if their hashes are. -/
theorem newFolderGuid_inj {blake3 : Bytes → FileHash} (hinj : Set.InjOn blake3 guidInputs)
    {n p n' p' : ℕ} : newFolderGuid blake3 p n = newFolderGuid blake3 p' n' ↔ guidKey n p = guidKey n' p' := by
  have hguid : ∀ m q, newFolderGuid blake3 q m =
      "f-" ++ String.ofList (hexBytes (blake3 (guidInput (guidKey m q))).bytes) := by
    intro m q
    rw [newFolderGuid, guidInput, guidKey, List.append_assoc]
  rw [hguid, hguid]
  constructor
  · intro h
    have hlist := congrArg String.toList h
    simp only [String.toList_append, String.toList_ofList] at hlist
    have hbytes := hexBytes_inj (List.append_cancel_left hlist)
    have hhash : blake3 (guidInput (guidKey n p)) = blake3 (guidInput (guidKey n' p')) := by
      cases h1 : blake3 (guidInput (guidKey n p))
      cases h2 : blake3 (guidInput (guidKey n' p'))
      rw [h1, h2] at hbytes
      cases hbytes
      rfl
    exact List.append_cancel_left (hinj ⟨n, p, rfl⟩ ⟨n', p', rfl⟩ hhash)
  · intro h
    rw [h]

theorem GuidSource.same_iff {blake3 : Bytes → FileHash} (hinj : Set.InjOn blake3 guidInputs)
    (a b : GuidSource) : a.Same blake3 b ↔ a.guid blake3 = b.guid blake3 := by
  cases a with
  | minted n p =>
    cases b with
    | minted n' p' => exact (newFolderGuid_inj hinj).symm
    | given g => exact Iff.rfl
  | given g => exact Iff.rfl

/-! ### The folders after an operation -/

namespace Database

variable {s t : DbState} {db db' : Database} {guid localPath name ownId deviceId : String}

/-- The folders are the same before and after. -/
def SameGuids (s s' : DbState) : Prop :=
  s'.val.guidRows = s.val.guidRows ∧ s'.val.folderSeq = s.val.folderSeq

theorem sameGuids_composes : Effects.Composes SameGuids where
  refl _ := ⟨rfl, rfl⟩
  trans hfirst hsecond := ⟨hsecond.1.trans hfirst.1, hsecond.2.trans hfirst.2⟩

theorem sameGuids_addFolderDevice (folderId : ℕ) (deviceId mode : String) (remotePath : Option String) :
    Effects.Does SameGuids (addFolderDevice folderId deviceId mode remotePath) := by
  refine Does.execute sameGuids_composes fun s s' hs' => ?_
  unfold SameGuids
  rw [hs']
  exact ⟨rfl, rfl⟩

/-- A folder with the guid has come, under the next number. -/
def Inserted (guid : String) (s s' : DbState) : Prop :=
  s'.val.guidRows = s.val.guidRows ++ [(s.val.nextFolderId, some guid)] ∧
    s'.val.folderSeq = s.val.nextFolderId

theorem Inserted.congr {s' s'' : DbState} (h : Inserted guid s s') (hsame : SameGuids s' s'') :
    Inserted guid s s'' :=
  ⟨hsame.1.trans h.1, hsame.2.trans h.2⟩

theorem inserted_of_eq {f : SyncFolderRow} (hid : f.id = s.val.nextFolderId) (hguid : f.folderGuid = some guid)
    (hfolders : t.val.syncFolders = s.val.syncFolders ++ [f]) (hseq : t.val.folderSeq = s.val.nextFolderId) :
    Inserted guid s t := by
  refine ⟨?_, hseq⟩
  unfold guidRows
  rw [hfolders, List.map_append, List.map_singleton, hid, hguid]

theorem inserted_insertSyncFolder {direction : String} {id : ℕ}
    (h : insertSyncFolder localPath name deviceId direction guid s = .ok id t) : Inserted guid s t := by
  obtain ⟨_, ht⟩ := insertSyncFolder_eq_ok.mp h
  refine inserted_of_eq (f := ⟨s.val.nextFolderId, localPath, some name, deviceId, direction, some guid⟩)
    rfl rfl ?_ ?_
  · rw [ht]
    rfl
  · rw [ht]
    rfl

/-- A device that has no row cannot have a folder. -/
theorem insertSyncFolder_error {direction : String} (hmissing : deviceId ∉ s.val.deviceIds) :
    ∃ e, insertSyncFolder localPath name deviceId direction guid s = .error e s := by
  have hinvalid : (s.val.insertFolder localPath (some name) deviceId direction (some guid)).violation ≠ none :=
    fun hvalid => hmissing ((insertFolder_valid s.valid).mp hvalid)
  obtain ⟨e, he⟩ := Option.ne_none_iff_exists'.mp hinvalid
  exact ⟨e, Effects.bind_error (execute_error he)⟩

/-! The folder is added, or the pair only, or nothing. -/

theorem sameGuids_addSyncFolder (blake3 : Bytes → FileHash) (processId : ℕ) (direction : String)
    (h : (∃ f ∈ s.val.syncFolders, f.localPath = localPath) ∨ deviceId ∉ s.val.deviceIds) :
    SameGuids s (Effects.after (addSyncFolder blake3 processId localPath deviceId direction) s) := by
  have hpair : ∀ folderId, Effects.Does SameGuids (do
      execute (putPair folderId deviceId direction none)
      return folderId : Sql ℕ) := fun folderId =>
    .bind sameGuids_composes (sameGuids_addFolderDevice folderId deviceId direction none) fun _ =>
      .pure sameGuids_composes _
  cases hfound : s.val.syncFolders.find? fun f => decide (f.localPath = localPath) with
  | some f =>
    have hrun : addSyncFolder blake3 processId localPath deviceId direction s = transaction (do
        execute (putPair f.id deviceId direction none)
        return f.id : Sql ℕ) s := by
      unfold addSyncFolder transaction
      dsimp only
      rw [Effects.bind_ok (query_apply _), hfound]
      rfl
    have hdoes := Does.transaction sameGuids_composes (hpair f.id) s
    unfold Effects.after at hdoes ⊢
    rw [hrun]
    exact hdoes
  | none =>
    have hmissing : deviceId ∉ s.val.deviceIds := by
      refine h.resolve_left ?_
      rintro ⟨f, hf, hpath⟩
      exact absurd (decide_eq_true hpath) (List.find?_eq_none.mp hfound f hf)
    obtain ⟨e, he⟩ := @insertSyncFolder_error s (newFolderGuid blake3 processId (s.val.maxFolderId + 1))
      localPath (Storage.pathLabel localPath) deviceId direction hmissing
    have hrun : addSyncFolder blake3 processId localPath deviceId direction s = .error e s := by
      refine transaction_eq_error.mpr ⟨rfl, s, ?_⟩
      rw [Effects.bind_ok (query_apply _), hfound]
      dsimp only
      rw [Effects.bind_ok (query_apply _), Effects.bind_error he]
    rw [Effects.after_error hrun]
    exact ⟨rfl, rfl⟩

theorem inserted_addSyncFolder (blake3 : Bytes → FileHash) (processId : ℕ) (direction : String)
    (hfree : ∀ f ∈ s.val.syncFolders, f.localPath ≠ localPath) (hdevice : deviceId ∈ s.val.deviceIds) :
    Inserted (newFolderGuid blake3 processId (s.val.maxFolderId + 1)) s
      (Effects.after (addSyncFolder blake3 processId localPath deviceId direction) s) := by
  obtain ⟨id, t, hok, _⟩ := @addSyncFolder_ok s blake3 processId localPath deviceId direction hdevice
  have hnone : (s.val.syncFolders.find? fun f => decide (f.localPath = localPath)) = none :=
    List.find?_eq_none.mpr fun f hf => by simpa using hfree f hf
  rw [Effects.after_ok hok]
  have hinner := transaction_eq_ok.mp hok
  rw [Effects.bind_ok (query_apply _), hnone] at hinner
  dsimp only at hinner
  rw [Effects.bind_ok (query_apply _)] at hinner
  obtain ⟨_, u, hu, hput⟩ := bind_eq_ok.mp hinner
  obtain ⟨_, v, hv, hret⟩ := bind_eq_ok.mp hput
  cases hret
  have hsame := sameGuids_addFolderDevice id deviceId direction none u
  have hput : addFolderDevice id deviceId direction none u = .ok () t := hv
  rw [Effects.after_ok hput] at hsame
  exact (inserted_insertSyncFolder hu).congr hsame

theorem folderByGuid_eq_none : db.folderByGuid guid = none ↔ ¬db.Live guid := by
  rw [← Option.not_isSome_iff_eq_none, folderByGuid_isSome]
  rfl

theorem sameGuids_ensureFolderByGuid (localPath name : String)
    (h : s.val.Live guid ∨ deviceId ∉ s.val.deviceIds) :
    SameGuids s (Effects.after (ensureFolderByGuid guid localPath name deviceId) s) := by
  cases hfound : s.val.folderByGuid guid with
  | some f =>
    have hrun : ensureFolderByGuid guid localPath name deviceId s = .ok f.id s := by
      rw [ensureFolderByGuid, Effects.bind_ok (query_apply _), hfound]
      rfl
    rw [Effects.after_ok hrun]
    exact ⟨rfl, rfl⟩
  | none =>
    obtain ⟨e, he⟩ := @insertSyncFolder_error s guid localPath name deviceId "bidirectional"
      (h.resolve_left (folderByGuid_eq_none.mp hfound))
    have hrun : ensureFolderByGuid guid localPath name deviceId s = .error e s := by
      rw [ensureFolderByGuid, Effects.bind_ok (query_apply _), hfound]
      exact he
    rw [Effects.after_error hrun]
    exact ⟨rfl, rfl⟩

theorem inserted_ensureFolderByGuid (localPath name : String) (hnew : ¬s.val.Live guid)
    (hdevice : deviceId ∈ s.val.deviceIds) :
    Inserted guid s (Effects.after (ensureFolderByGuid guid localPath name deviceId) s) := by
  obtain ⟨id, t, hok, _⟩ := @ensureFolderByGuid_ok s guid deviceId localPath name (Or.inr hdevice)
  rw [Effects.after_ok hok]
  rw [ensureFolderByGuid, Effects.bind_ok (query_apply _), folderByGuid_eq_none.mpr hnew] at hok
  exact inserted_insertSyncFolder hok

/-! ### Wiring -/

/-- The folder at the path has got the guid. -/
def Rebound (wired : SyncFolderRow) (guid : String) (s s' : DbState) : Prop :=
  s'.val.guidRows = s.val.guidRows.map (fun r => if r.1 = wired.id then (r.1, some guid) else r) ∧
    s'.val.folderSeq = s.val.folderSeq

/-- What becomes of the folders is decided before the peer is attached. -/
theorem after_wireFolderPair (name : String) (peerDeviceId : String) (peerPath : Option String) :
    ∃ t, SameGuids t (Effects.after
        (wireFolderPair guid localPath name ownId peerDeviceId peerPath) s) ∧
      ((∃ id, wiredFolder guid localPath name ownId s = .ok id t) ∨
        t = s ∧ ∀ id u, wiredFolder guid localPath name ownId s ≠ .ok id u) := by
  unfold wireFolderPair
  cases hwired : transaction (wiredFolder guid localPath name ownId) s with
  | error e t =>
    obtain ⟨hsame, u, hu⟩ := transaction_eq_error.mp hwired
    rw [Effects.after_error (Effects.bind_error hwired), hsame]
    refine ⟨s, ⟨rfl, rfl⟩, Or.inr ⟨rfl, fun id v hv => ?_⟩⟩
    rw [hu] at hv
    cases hv
  | ok id t =>
    refine ⟨t, ?_, Or.inl ⟨id, transaction_eq_ok.mp hwired⟩⟩
    have hpair : SameGuids t (Effects.after (do
        addFolderDevice id peerDeviceId "bidirectional" peerPath
        return id) t) :=
      Effects.Does.bind sameGuids_composes (sameGuids_addFolderDevice id peerDeviceId _ peerPath)
        (fun _ => .pure sameGuids_composes _) t
    unfold Effects.after at hpair ⊢
    rw [Effects.bind_ok hwired]
    exact hpair

theorem rebound_rebind {wired : SyncFolderRow} (ht : t.val = s.val.rebind wired guid ownId) :
    Rebound wired guid s t := by
  have hseq : (s.val.rebind wired guid ownId).folderSeq = s.val.folderSeq := by
    unfold rebind
    cases wired.folderGuid with
    | none => rfl
    | some oldGuid => rfl
  refine ⟨?_, by rw [ht, hseq]⟩
  unfold guidRows
  rw [ht, rebind_folders, List.map_map, List.map_map]
  refine List.map_congr_left fun f _ => ?_
  simp only [Function.comp_apply]
  split_ifs
  · rfl
  · rfl

theorem clash_iff {wired : SyncFolderRow} : s.val.SharesClash wired guid ownId ↔
    ¬∀ oldGuid, wired.folderGuid = some oldGuid →
      ¬((∃ r ∈ s.val.sharedFolders, r.deviceId = ownId ∧ r.folderGuid = oldGuid) ∧
        ∃ r ∈ s.val.sharedFolders, r.deviceId = ownId ∧ r.folderGuid = guid) := by
  unfold SharesClash
  simp only [not_forall, not_not, exists_prop]

/-- **The folder at the path** gets the guid unless it has it or its shares clash. -/
theorem wireFolderPair_wired {wired : SyncFolderRow} (name peerDeviceId : String)
    (peerPath : Option String)
    (hfound : (s.val.syncFolders.find? fun f => decide (f.localPath = localPath)) = some wired) :
    (wired.folderGuid ≠ some guid ∧ ¬s.val.SharesClash wired guid ownId →
      Rebound wired guid s (Effects.after
        (wireFolderPair guid localPath name ownId peerDeviceId peerPath) s)) ∧
    (¬(wired.folderGuid ≠ some guid ∧ ¬s.val.SharesClash wired guid ownId) →
      SameGuids s (Effects.after (wireFolderPair guid localPath name ownId peerDeviceId peerPath) s)) := by
  have hmem : wired ∈ s.val.syncFolders := List.mem_of_find?_eq_some hfound
  obtain ⟨t, hsame, hwired⟩ := @after_wireFolderPair s guid localPath ownId name peerDeviceId peerPath
  have hok : ∀ id u, wiredFolder guid localPath name ownId s = .ok id u ↔
      id = wired.id ∧ u.val = s.val.rebind wired guid ownId := by
    intro id u
    rw [wiredFolder_eq_ok, hfound]
  constructor
  · rintro ⟨hguid, hclash⟩
    have hvalid : (s.val.rebind wired guid ownId).violation = none :=
      (rebind_valid s.valid hguid).mpr (by rwa [clash_iff, not_not] at hclash)
    rcases hwired with ⟨id, hid⟩ | ⟨_, hnot⟩
    · obtain ⟨hrows, hseq⟩ := rebound_rebind ((hok id t).mp hid).2
      exact ⟨hsame.1.trans hrows, hsame.2.trans hseq⟩
    · exact absurd ((hok wired.id ⟨_, hvalid⟩).mpr ⟨rfl, rfl⟩) (hnot _ _)
  · intro hstays
    have hkept : t.val = s.val := by
      rcases hwired with ⟨id, hid⟩ | ⟨hsame, _⟩
      · have ht := ((hok id t).mp hid).2
        by_cases hguid : wired.folderGuid = some guid
        · rw [ht, rebind_self s.valid hmem hguid]
        · have hclash : s.val.SharesClash wired guid ownId := by
            by_contra hclash
            exact hstays ⟨hguid, hclash⟩
          have hvalid := t.valid
          rw [ht] at hvalid
          exact absurd ((rebind_valid s.valid hguid).mp hvalid) (clash_iff.mp hclash)
      · rw [hsame]
    unfold SameGuids at hsame ⊢
    rw [hkept] at hsame
    exact hsame

/-- **No folder is at the path**: that of the guid is taken, or one is made. -/
theorem wireFolderPair_unwired (name peerDeviceId : String) (peerPath : Option String)
    (hfound : (s.val.syncFolders.find? fun f => decide (f.localPath = localPath)) = none) :
    (¬s.val.Live guid ∧ ownId ∈ s.val.deviceIds →
      Inserted guid s (Effects.after
        (wireFolderPair guid localPath name ownId peerDeviceId peerPath) s)) ∧
    (¬(¬s.val.Live guid ∧ ownId ∈ s.val.deviceIds) →
      SameGuids s (Effects.after (wireFolderPair guid localPath name ownId peerDeviceId peerPath) s)) := by
  obtain ⟨t, hsame, hwired⟩ := @after_wireFolderPair s guid localPath ownId name peerDeviceId peerPath
  cases hguid : s.val.folderByGuid guid with
  | some f =>
    have hlive : s.val.Live guid := folderByGuid_isSome.mp (by rw [hguid]; rfl)
    refine ⟨fun hnew => absurd hlive hnew.1, fun _ => ?_⟩
    have ht : t = s := by
      rcases hwired with ⟨id, hid⟩ | ⟨hsame, _⟩
      · rw [wiredFolder_eq_ok, hfound] at hid
        dsimp only at hid
        rw [hguid] at hid
        exact hid.2
      · exact hsame
    rw [ht] at hsame
    exact hsame
  | none =>
    have hnew := folderByGuid_eq_none.mp hguid
    have hok : ∀ id u, wiredFolder guid localPath name ownId s = .ok id u ↔
        id = s.val.nextFolderId ∧ u.val = s.val.insertWired guid localPath name ownId := by
      intro id u
      rw [wiredFolder_eq_ok, hfound]
      dsimp only
      rw [hguid]
    constructor
    · rintro ⟨_, hown⟩
      rcases hwired with ⟨id, hid⟩ | ⟨_, hnot⟩
      · have ht := ((hok id t).mp hid).2
        refine Inserted.congr (inserted_of_eq (f := ⟨s.val.nextFolderId, localPath,
          some (if name.toList.all isWhitespace then Storage.pathLabel localPath else name), ownId,
          "bidirectional", some guid⟩) rfl rfl ?_ ?_) hsame
        · rw [ht]
          rfl
        · rw [ht]
          rfl
      · have hvalid := (@insertWired_valid s.val guid localPath name ownId s.valid).mpr hown
        exact absurd ((hok _ ⟨_, hvalid⟩).mpr ⟨rfl, rfl⟩) (hnot _ _)
    · intro hstays
      have hmissing : ownId ∉ s.val.deviceIds := fun hown => hstays ⟨hnew, hown⟩
      have ht : t = s := by
        rcases hwired with ⟨id, hid⟩ | ⟨hsame, _⟩
        · have hvalid := t.valid
          rw [((hok id t).mp hid).2] at hvalid
          exact absurd ((insertWired_valid s.valid).mp hvalid) hmissing
        · exact hsame
      rw [ht] at hsame
      exact hsame

/-! ### Operations that bring no folder -/

/-- No folder comes, and none gets another guid. -/
def Settles (s s' : DbState) : Prop :=
  s'.val.guidRows ⊆ s.val.guidRows ∧ s.val.folderSeq ≤ s'.val.folderSeq

theorem settles_composes : Effects.Composes Settles where
  refl _ := ⟨List.Subset.refl _, Nat.le_refl _⟩
  trans hfirst hsecond := ⟨List.Subset.trans hsecond.1 hfirst.1, hfirst.2.trans hsecond.2⟩

theorem settles_execute {g : Database → Database} (hrows : ∀ db, (g db).guidRows ⊆ db.guidRows)
    (hseq : ∀ db, (g db).folderSeq = db.folderSeq) : Effects.Does Settles (execute g : Sql Unit) := by
  refine Does.execute settles_composes fun s s' hs' => ?_
  unfold Settles
  rw [hs', hseq]
  exact ⟨hrows _, Nat.le_refl _⟩

/-- The folders are not touched. -/
theorem settles_elsewhere {g : Database → Database} (hrows : ∀ db, (g db).syncFolders = db.syncFolders)
    (hseq : ∀ db, (g db).folderSeq = db.folderSeq) : Effects.Does Settles (execute g : Sql Unit) := by
  refine settles_execute (fun db => ?_) hseq
  unfold guidRows
  rw [hrows]
  exact List.Subset.refl _

theorem settles_deleteFolders (doomed : SyncFolderRow → Bool) :
    Effects.Does Settles (execute fun db => db.deleteFolders doomed : Sql Unit) :=
  settles_execute (fun _ => List.map_subset _ List.filter_sublist.subset) fun _ => rfl

/-- Folders that keep their number and guid. -/
theorem settles_updateFolder {folderId : ℕ} {update : SyncFolderRow → SyncFolderRow}
    (hid : ∀ f, (update f).id = f.id) (hguid : ∀ f, (update f).folderGuid = f.folderGuid) :
    Effects.Does Settles (execute (updateFolder folderId update) : Sql Unit) := by
  refine settles_execute (fun db => ?_) fun _ => rfl
  have hsame : (updateFolder folderId update db).guidRows = db.guidRows := by
    unfold guidRows updateFolder
    rw [List.map_map]
    refine List.map_congr_left fun f _ => ?_
    simp only [Function.comp_apply]
    split_ifs
    · rw [hid, hguid]
    · rfl
  rw [hsame]
  exact List.Subset.refl _

theorem settles_mapColumn (rename : String → String) (column : DeviceColumn) :
    Effects.Does Settles (execute fun db => db.mapColumn rename column : Sql Unit) := by
  refine settles_execute (fun db => ?_) fun db => ?_
  · cases column with
    | syncFolders =>
      have hsame : (db.mapColumn rename .syncFolders).guidRows = db.guidRows := by
        unfold guidRows mapColumn
        rw [List.map_map]
        rfl
      rw [hsame]
      exact List.Subset.refl _
    | _ => exact List.Subset.refl _
  · cases column with
    | _ => rfl

theorem settles_dropIfUnpaired (folderId : ℕ) : Effects.Does Settles (dropIfUnpaired folderId) := by
  refine .bind settles_composes (Does.query settles_composes _) fun remaining => ?_
  split_ifs
  · exact settles_deleteFolders _
  · exact .pure settles_composes _

theorem settles_removeDevice (id : String) : Effects.Does Settles (removeDevice id) := by
  have hc := settles_composes
  have hfolders : Effects.Does Settles
      (execute fun db => db.deleteFolders fun f => !db.isPaired f : Sql Unit) :=
    settles_execute (fun _ => List.map_subset _ List.filter_sublist.subset) fun _ => rfl
  refine Does.transaction hc (.bind hc (Does.query hc _) fun _ => .bind hc ?_ fun _ =>
    .bind hc (Does.query hc _) fun _ => .bind hc ?_ fun _ => .bind hc (Does.query hc _) fun _ =>
    .bind hc ?_ fun _ => .bind hc ?_ fun _ => .bind hc (Does.query hc _) fun _ =>
    .bind hc hfolders fun _ => .bind hc (Does.query hc _) fun _ => .bind hc ?_ fun _ => .pure hc _)
  all_goals exact settles_elsewhere (fun _ => rfl) fun _ => rfl

theorem settles_clearAll : Effects.Does Settles clearAllSyncState := by
  have hc := settles_composes
  refine Does.transaction hc (.bind hc ?_ fun _ => .bind hc ?_ fun _ => .bind hc ?_ fun _ =>
    .bind hc (Does.query hc _) fun _ => .bind hc (settles_deleteFolders _) fun _ =>
    .bind hc (Does.query hc _) fun _ => .bind hc ?_ fun _ => .pure hc _)
  all_goals exact settles_elsewhere (fun _ => rfl) fun _ => rfl

theorem settles_removeSyncFolders (localPath : String) (deviceId : Option String) :
    Effects.Does Settles (removeSyncFolders localPath deviceId) := by
  have hc := settles_composes
  refine Does.transaction hc (.bind hc (Does.query hc _) fun folderIds =>
    .foldlM hc (fun deleted folderId _ => ?_) 0)
  refine .bind hc (Does.query hc _) fun _ => .bind hc ?_ fun _ =>
    .bind hc (settles_dropIfUnpaired folderId) fun _ => .pure hc _
  exact settles_elsewhere (fun _ => rfl) fun _ => rfl

theorem settles_removeFolderDevice (folderId : ℕ) (deviceId : String) :
    Effects.Does Settles (removeFolderDevice folderId deviceId) := by
  have hc := settles_composes
  refine Does.transaction hc (.bind hc (Does.query hc _) fun n => .bind hc ?_ fun _ => ?_)
  · exact settles_elsewhere (fun _ => rfl) fun _ => rfl
  · split_ifs
    · exact .pure hc _
    · exact .bind hc (settles_dropIfUnpaired folderId) fun _ => .pure hc _

theorem settles_setFolderDevice (folderId : ℕ) (deviceId : String) :
    Effects.Does Settles (setFolderDevice folderId deviceId) := by
  have hc := settles_composes
  refine Does.transaction hc (.bind hc (Does.query hc _) fun own => ?_)
  cases own with
  | none => exact .pure hc _
  | some own =>
    dsimp only
    split_ifs
    · refine .bind hc ?_ fun _ => ?_
      all_goals exact settles_elsewhere (fun _ => rfl) fun _ => rfl
    · exact .pure hc _

theorem settles_reconcile (blake3 : Bytes → FileHash) (order : IterationOrder) (certDer : Bytes)
    (legacySelfId : Option String) (ownName : String) :
    Effects.Does Settles (reconcileDevicesByCert blake3 order certDer legacySelfId ownName) := by
  have hc := settles_composes
  refine .bind hc (Does.query hc _) fun rows => .bind hc (.forM hc fun column _ =>
    .forM hc fun old _ => settles_mapColumn _ column) fun _ => .bind hc (.forM hc fun old _ => ?_) fun _ => ?_
  · exact settles_elsewhere (fun _ => rfl) fun _ => rfl
  · exact settles_elsewhere (fun _ => rfl) fun _ => rfl

end Database

/-! ### What an operation brings -/

theorem settles_statements (blake3 : Bytes → FileHash) (h : Host) {op : StorageOp}
    (hadd : ∀ localPath deviceId direction, op ≠ .addSyncFolder localPath deviceId direction)
    (hensure : ∀ guid localPath name deviceId, op ≠ .ensureFolderByGuid guid localPath name deviceId)
    (hwire : ∀ guid localPath name ownId peerDeviceId peerPath,
      op ≠ .wireFolderPair guid localPath name ownId peerDeviceId peerPath) :
    Effects.Does Database.Settles (h.statements blake3 op) := by
  have hc := Database.settles_composes
  have helse : ∀ {g : Database → Database}, (∀ db, (g db).syncFolders = db.syncFolders) →
      (∀ db, (g db).folderSeq = db.folderSeq) → Effects.Does Database.Settles (execute g : Sql Unit) :=
    Database.settles_elsewhere
  cases op with
  | addSyncFolder localPath deviceId direction => exact absurd rfl (hadd localPath deviceId direction)
  | ensureFolderByGuid guid localPath name deviceId => exact absurd rfl (hensure guid localPath name deviceId)
  | wireFolderPair guid localPath name ownId peerDeviceId peerPath =>
    exact absurd rfl (hwire guid localPath name ownId peerDeviceId peerPath)
  | reopen => exact .pure hc _
  | setFolderName | setFolderLocalPath =>
    exact Database.settles_updateFolder (fun _ => rfl) fun _ => rfl
  | removeSyncFolders localPath deviceId =>
    exact Does.discard hc (Database.settles_removeSyncFolders localPath deviceId)
  | removeFolderDevice folderId deviceId =>
    exact Does.discard hc (Database.settles_removeFolderDevice folderId deviceId)
  | clearAllSyncState => exact Does.discard hc Database.settles_clearAll
  | removeDevice id => exact Does.discard hc (Database.settles_removeDevice id)
  | setFolderDevice folderId deviceId => exact Database.settles_setFolderDevice folderId deviceId
  | reconcileDevicesByCert order certDer legacySelfId ownName =>
    exact Database.settles_reconcile blake3 order certDer legacySelfId ownName
  | removeSyncFolderById folderId =>
    exact .bind hc (helse (fun _ => rfl) fun _ => rfl) fun _ => Database.settles_deleteFolders _
  | recordSession row =>
    exact .bind hc (helse (fun _ => rfl) fun _ => rfl) fun _ => helse (fun _ => rfl) fun _ => rfl
  | shareFolder folderGuid deviceId name localPath =>
    show Effects.Does Database.Settles (Database.shareFolder folderGuid deviceId name localPath)
    refine helse (fun db => ?_) fun db => ?_
    all_goals split_ifs <;> rfl
  | upsertFileMetadata row =>
    show Effects.Does Database.Settles (Database.upsertFileMetadata row)
    exact helse (fun _ => rfl) fun _ => rfl
  | recordHistory row =>
    show Effects.Does Database.Settles (Database.recordHistory row)
    exact helse (fun _ => rfl) fun _ => rfl
  | setSharedDiscoverable id discoverable =>
    show Effects.Does Database.Settles (Database.setSharedDiscoverable id discoverable)
    exact helse (fun _ => rfl) fun _ => rfl
  | unshareFolder id =>
    show Effects.Does Database.Settles (Database.unshareFolder id)
    exact helse (fun _ => rfl) fun _ => rfl
  | ensureSelfRow id certDer name =>
    show Effects.Does Database.Settles (Database.ensureSelfRow id certDer name)
    exact helse (fun _ => rfl) fun _ => rfl
  | setDeviceLastAddr id addr =>
    show Effects.Does Database.Settles (Database.setDeviceLastAddr id addr)
    exact helse (fun _ => rfl) fun _ => rfl
  | setDeviceCert id certDer =>
    show Effects.Does Database.Settles (Database.setDeviceCert id certDer)
    exact helse (fun _ => rfl) fun _ => rfl
  | upsertDevice | addFolderDevice => exact helse (fun _ => rfl) fun _ => rfl

/-- What an operation does to the folders: the rows that come are those of the records that
come, and they have numbers that were given. -/
structure Brings (blake3 : Bytes → FileHash) (h : Host) (op : StorageOp) (db' : Database) : Prop where
  rows : ∀ row ∈ db'.guidRows, row ∈ h.db.val.guidRows ∨
    ∃ r, Comes h op r ∧ row = (r.folderId, some (r.source.guid blake3))
  comes : ∀ r, Comes h op r → (r.folderId, some (r.source.guid blake3)) ∈ db'.guidRows ∧
    (r.folderId, some (r.source.guid blake3)) ∉ h.db.val.guidRows ∧
    recordOf h op (r.folderId, some (r.source.guid blake3)) = r
  seq : h.db.val.folderSeq ≤ db'.folderSeq
  number : ∀ r, Comes h op r → r.folderId ∈ h.db.val.folderIds ∨ r.folderId ≤ db'.folderSeq

section

variable {blake3 : Bytes → FileHash} {h : Host} {op : StorageOp} {db' : Database} {s' : DbState}

theorem Database.mem_folderIds_of_row {db : Database} {row : ℕ × Option String} (hrow : row ∈ db.guidRows) :
    row.1 ∈ db.folderIds := by
  obtain ⟨f, hf, rfl⟩ := List.mem_map.mp hrow
  exact List.mem_map_of_mem hf

theorem brings_nothing (hsettles : Database.Settles h.db s') (hnone : ∀ r, ¬Comes h op r) :
    Brings blake3 h op s'.val where
  rows _ hrow := Or.inl (hsettles.1 hrow)
  comes r hr := absurd hr (hnone r)
  seq := hsettles.2
  number r hr := absurd hr (hnone r)

theorem brings_same (hsame : Database.SameGuids h.db s') (hnone : ∀ r, ¬Comes h op r) :
    Brings blake3 h op s'.val := by
  refine brings_nothing ⟨?_, ?_⟩ hnone
  · rw [hsame.1]
    exact List.Subset.refl _
  · exact Nat.le_of_eq hsame.2.symm

theorem brings_inserted {guid : String} {r₀ : GuidRecord} (hins : Database.Inserted guid h.db s')
    (hcomes : ∀ r, Comes h op r ↔ r = r₀) (hid : r₀.folderId = h.db.val.nextFolderId)
    (hguid : r₀.source.guid blake3 = guid) (hrecord : recordOf h op (r₀.folderId, some guid) = r₀) :
    Brings blake3 h op s'.val where
  rows row hrow := by
    rw [hins.1, List.mem_append, List.mem_singleton] at hrow
    refine hrow.imp_right fun hrow => ⟨r₀, (hcomes r₀).mpr rfl, ?_⟩
    rw [hrow, hid, hguid]
  comes r hr := by
    rw [(hcomes r).mp hr, hguid, hins.1, hid]
    refine ⟨List.mem_append_right _ (List.mem_singleton.mpr rfl), fun hmem => ?_, ?_⟩
    · exact Database.nextFolderId_fresh (Database.mem_folderIds_of_row hmem)
    · rw [← hid]
      exact hrecord
  seq := by
    rw [hins.2]
    exact (Nat.le_max_left _ _).trans (Nat.le_succ _)
  number r hr := by
    rw [(hcomes r).mp hr, hid, hins.2]
    exact Or.inr (Nat.le_refl _)

theorem brings_rebound {guid : String} {wired : SyncFolderRow} {r₀ : GuidRecord}
    (hmem : wired ∈ h.db.val.syncFolders) (hold : wired.folderGuid ≠ some guid)
    (hbound : Database.Rebound wired guid h.db s') (hcomes : ∀ r, Comes h op r ↔ r = r₀)
    (hid : r₀.folderId = wired.id) (hguid : r₀.source.guid blake3 = guid)
    (hrecord : recordOf h op (r₀.folderId, some guid) = r₀) : Brings blake3 h op s'.val where
  rows row hrow := by
    rw [hbound.1] at hrow
    obtain ⟨old, hmem, rfl⟩ := List.mem_map.mp hrow
    split_ifs with hwired
    · refine Or.inr ⟨r₀, (hcomes r₀).mpr rfl, ?_⟩
      rw [hwired, hid, hguid]
    · exact Or.inl hmem
  comes r hr := by
    have hrow : (wired.id, wired.folderGuid) ∈ h.db.val.guidRows := List.mem_map_of_mem hmem
    rw [(hcomes r).mp hr, hguid]
    refine ⟨?_, fun hthere => ?_, hrecord⟩
    · rw [hbound.1, hid]
      exact List.mem_map.mpr ⟨_, hrow, if_pos rfl⟩
    · obtain ⟨f, hf, heq⟩ := List.mem_map.mp hthere
      obtain ⟨hfid, hfguid⟩ := Prod.mk.inj heq
      have hsame : f = wired := List.inj_on_of_nodup_map h.db.keys.syncFolders hf hmem (hfid.trans hid)
      rw [hsame] at hfguid
      exact hold hfguid
  seq := Nat.le_of_eq hbound.2.symm
  number r hr := by
    rw [(hcomes r).mp hr, hid]
    exact Or.inl (List.mem_map_of_mem hmem)

theorem guidRows_reopen (processId : ℕ) (hvalid : db'.violation = none) :
    (db'.reopen blake3 processId).guidRows = db'.syncFolders.map (fun f =>
        (f.id, (Database.mintGuid blake3 processId f).folderGuid)) ∧
      (db'.reopen blake3 processId).folderSeq = db'.folderSeq := by
  obtain ⟨_, ⟨pairs, heq⟩, _⟩ := Database.backfill_spec (List.Subset.refl db'.syncFolders) hvalid
  have hreopen : db'.reopen blake3 processId = { db' with
      folderDevices := pairs
      syncFolders := db'.syncFolders.map fun f =>
        Database.deriveName (Database.mintGuid blake3 processId f) } := by
    show ({ db'.syncFolders.foldl Database.backfillPair db' with syncFolders := _ } : Database) = _
    unfold Database.backfillPairs
    rw [heq]
  rw [hreopen]
  refine ⟨?_, rfl⟩
  unfold Database.guidRows
  rw [List.map_map]
  refine List.map_congr_left fun f _ => ?_
  simp only [Function.comp_apply, Prod.mk.injEq]
  unfold Database.deriveName Database.mintGuid
  constructor
  · split_ifs <;> rfl
  · split_ifs <;> rfl

theorem mintGuid_lacking {processId : ℕ} {f : SyncFolderRow} (hlacks : f.lacksGuid) :
    (Database.mintGuid blake3 processId f).folderGuid = some (newFolderGuid blake3 processId f.id) := by
  unfold Database.mintGuid
  rw [if_pos (show f.folderGuid = none ∨ f.folderGuid = some "" from hlacks)]

/-- What is minted is neither missing nor empty. -/
theorem folderGuid_ne_minted {processId n : ℕ} {f : SyncFolderRow} (hlacks : f.lacksGuid) :
    f.folderGuid ≠ some (newFolderGuid blake3 processId n) := by
  rcases hlacks with hnone | hempty
  · rw [hnone]
    exact fun h => by cases h
  · intro hminted
    have heq : "" = newFolderGuid blake3 processId n := Option.some.inj (hempty.symm.trans hminted)
    have hlist := congrArg String.toList heq
    unfold newFolderGuid at hlist
    simp at hlist

theorem brings_reopen (h : Host) (processId : ℕ) :
    Brings blake3 h (.reopen processId) (h.db.val.reopen blake3 processId) := by
  obtain ⟨hrows, hseq⟩ := @guidRows_reopen blake3 h.db.val processId h.db.valid
  constructor
  case rows =>
    intro row hrow
    rw [hrows] at hrow
    obtain ⟨f, hf, rfl⟩ := List.mem_map.mp hrow
    by_cases hlacks : f.lacksGuid
    · refine Or.inr ⟨⟨f.id, .minted f.id processId, false⟩, ⟨f, hf, hlacks, rfl⟩, ?_⟩
      rw [mintGuid_lacking hlacks]
      rfl
    · have hsame : Database.mintGuid blake3 processId f = f := if_neg hlacks
      rw [hsame]
      exact Or.inl (List.mem_map_of_mem hf)
  case comes =>
    rintro r ⟨f, hf, hlacks, rfl⟩
    refine ⟨?_, fun hthere => ?_, rfl⟩
    · rw [hrows]
      refine List.mem_map.mpr ⟨f, hf, ?_⟩
      rw [mintGuid_lacking hlacks]
      rfl
    · obtain ⟨g, hg, heq⟩ := List.mem_map.mp hthere
      obtain ⟨hid, hguid⟩ := Prod.mk.inj heq
      have hsame : g = f := List.inj_on_of_nodup_map h.db.keys.syncFolders hg hf hid
      rw [hsame] at hguid
      exact folderGuid_ne_minted hlacks hguid
  case seq => exact Nat.le_of_eq hseq.symm
  case number =>
    rintro r ⟨f, hf, _, rfl⟩
    exact Or.inl (List.mem_map_of_mem hf)

/-- **What any operation brings.** -/
theorem brings_perform (blake3 : Bytes → FileHash) (h : Host) (op : StorageOp) :
    Brings blake3 h op (h.perform blake3 op).db.val := by
  have hafter : ∀ {α : Type} (x : Sql α), Effects.after (discard x) h.db = Effects.after x h.db :=
    fun x => after_discard x h.db
  cases op with
  | addSyncFolder localPath deviceId direction =>
    by_cases hnew : (∀ f ∈ h.db.val.syncFolders, f.localPath ≠ localPath) ∧ deviceId ∈ h.db.val.deviceIds
    · have hins := Database.inserted_addSyncFolder blake3 h.processId direction hnew.1 hnew.2
      rw [← hafter] at hins
      exact brings_inserted hins (fun r => ⟨fun hr => hr.2.2, fun hr => ⟨hnew.1, hnew.2, hr⟩⟩) rfl rfl rfl
    · have hrefused : (∃ f ∈ h.db.val.syncFolders, f.localPath = localPath) ∨
          deviceId ∉ h.db.val.deviceIds := by
        by_cases hdevice : deviceId ∈ h.db.val.deviceIds
        · refine Or.inl ?_
          by_contra hfree
          exact hnew ⟨fun f hf hpath => hfree ⟨f, hf, hpath⟩, hdevice⟩
        · exact Or.inr hdevice
      have hsame := Database.sameGuids_addSyncFolder blake3 h.processId direction hrefused
      rw [← hafter] at hsame
      exact brings_same hsame fun r hr => hnew ⟨hr.1, hr.2.1⟩
  | ensureFolderByGuid guid localPath name deviceId =>
    by_cases hnew : ¬h.db.val.Live guid ∧ deviceId ∈ h.db.val.deviceIds
    · have hins := Database.inserted_ensureFolderByGuid localPath name hnew.1 hnew.2
      rw [← hafter] at hins
      exact brings_inserted hins (fun r => ⟨fun hr => hr.2.2, fun hr => ⟨hnew.1, hnew.2, hr⟩⟩) rfl rfl rfl
    · have hor : h.db.val.Live guid ∨ deviceId ∉ h.db.val.deviceIds := by
        rwa [not_and_or, not_not] at hnew
      have hsame := Database.sameGuids_ensureFolderByGuid localPath name hor
      rw [← hafter] at hsame
      exact brings_same hsame fun r hr => hnew ⟨hr.1, hr.2.1⟩
  | wireFolderPair guid localPath name ownId peerDeviceId peerPath =>
    cases hfound : h.db.val.syncFolders.find? fun f => decide (f.localPath = localPath) with
    | some wired =>
      have hcomes : ∀ r, Comes h (.wireFolderPair guid localPath name ownId peerDeviceId peerPath) r ↔
          wired.folderGuid ≠ some guid ∧ ¬h.db.val.SharesClash wired guid ownId ∧
            r = ⟨wired.id, .given guid, false⟩ := by
        intro r
        unfold Comes
        dsimp only
        rw [hfound]
      obtain ⟨hrebound, hstays⟩ := Database.wireFolderPair_wired name peerDeviceId peerPath hfound
      by_cases hnew : wired.folderGuid ≠ some guid ∧ ¬h.db.val.SharesClash wired guid ownId
      · have hbound := hrebound hnew
        rw [← hafter] at hbound
        have honly : ∀ r, Comes h (.wireFolderPair guid localPath name ownId peerDeviceId peerPath) r ↔
            r = ⟨wired.id, .given guid, false⟩ := by
          intro r
          rw [hcomes]
          exact ⟨fun hr => hr.2.2, fun hr => ⟨hnew.1, hnew.2, hr⟩⟩
        exact brings_rebound (List.mem_of_find?_eq_some hfound) hnew.1 hbound honly rfl rfl rfl
      · have hsame := hstays hnew
        rw [← hafter] at hsame
        refine brings_same hsame fun r hr => ?_
        rw [hcomes] at hr
        exact hnew ⟨hr.1, hr.2.1⟩
    | none =>
      have hcomes : ∀ r, Comes h (.wireFolderPair guid localPath name ownId peerDeviceId peerPath) r ↔
          ¬h.db.val.Live guid ∧ ownId ∈ h.db.val.deviceIds ∧
            r = ⟨h.db.val.nextFolderId, .given guid, false⟩ := by
        intro r
        unfold Comes
        dsimp only
        rw [hfound]
      obtain ⟨hinserted, hstays⟩ := Database.wireFolderPair_unwired name peerDeviceId peerPath hfound
      by_cases hnew : ¬h.db.val.Live guid ∧ ownId ∈ h.db.val.deviceIds
      · have hins := hinserted hnew
        rw [← hafter] at hins
        have honly : ∀ r, Comes h (.wireFolderPair guid localPath name ownId peerDeviceId peerPath) r ↔
            r = ⟨h.db.val.nextFolderId, .given guid, false⟩ := by
          intro r
          rw [hcomes]
          exact ⟨fun hr => hr.2.2, fun hr => ⟨hnew.1, hnew.2, hr⟩⟩
        exact brings_inserted hins honly rfl rfl rfl
      · have hsame := hstays hnew
        rw [← hafter] at hsame
        refine brings_same hsame fun r hr => ?_
        rw [hcomes] at hr
        exact hnew ⟨hr.1, hr.2.1⟩
  | reopen processId => exact brings_reopen h processId
  | _ =>
    exact brings_nothing (settles_statements blake3 h (fun _ _ _ => fun heq => (by cases heq))
      (fun _ _ _ _ => fun heq => (by cases heq)) (fun _ _ _ _ _ _ => fun heq => (by cases heq)) h.db)
      fun r hr => hr

theorem mem_newRows_iff {r : GuidRecord} (hbrings : Brings blake3 h op db') :
    r ∈ (newRows h.db.val db').map (recordOf h op) ↔ Comes h op r := by
  have hnew : ∀ row, row ∈ newRows h.db.val db' ↔ row ∈ db'.guidRows ∧ row ∉ h.db.val.guidRows := by
    intro row
    unfold newRows
    rw [List.mem_filter, decide_eq_true_iff]
  constructor
  · intro hr
    obtain ⟨row, hrow, rfl⟩ := List.mem_map.mp hr
    obtain ⟨hafter, hbefore⟩ := (hnew row).mp hrow
    obtain ⟨r', hcomes, rfl⟩ := (hbrings.rows row hafter).resolve_left hbefore
    rw [(hbrings.comes r' hcomes).2.2]
    exact hcomes
  · intro hcomes
    obtain ⟨hafter, hbefore, hrecord⟩ := hbrings.comes r hcomes
    exact List.mem_map.mpr ⟨_, (hnew _).mpr ⟨hafter, hbefore⟩, hrecord⟩

end

/-! ### Runs -/

namespace Fleet

variable {D : Type} {blake3 : Bytes → FileHash} {s : Fleet D} {op : D × StorageOp}

/-- The guid of every folder has been recorded, and every number has been given. -/
structure Recorded (blake3 : Bytes → FileHash) (s : Fleet D) : Prop where
  live : ∀ d, ∀ row ∈ (s.host d).db.val.guidRows, ∀ g, row.2 = some g →
    ∃ r ∈ s.carried d, r.folderId = row.1 ∧ r.source.guid blake3 = g
  given : ∀ d, ∀ folderId ∈ (s.host d).db.val.folderIds, folderId ≤ (s.host d).db.val.folderSeq
  numbered : ∀ d, ∀ r ∈ s.carried d, r.folderId ≤ (s.host d).db.val.folderSeq

/-- What else is asked of the folders follows from what is asked of the records. -/
theorem guidsUnique_iff (h : s.Recorded blake3) : s.GuidsUnique blake3 ↔
    (∀ d, ∀ r ∈ s.carried d, ∀ r' ∈ s.carried d, r.folderId ≠ r'.folderId →
      r.source.guid blake3 ≠ r'.source.guid blake3) ∧
    ∀ d d', d ≠ d' → ∀ r ∈ s.carried d, ∀ r' ∈ s.carried d', r.added = true → r'.added = true →
      r.source.guid blake3 ≠ r'.source.guid blake3 := by
  constructor
  · exact fun hunique => ⟨hunique.fresh, hunique.apart⟩
  · rintro ⟨hfresh, hapart⟩
    refine ⟨fun d f hf f' hf' hguid hsome => ?_, hfresh, fun d r hr => ?_, hapart⟩
    · obtain ⟨g, hg⟩ := Option.ne_none_iff_exists'.mp hsome
      obtain ⟨r, hr, hrow, hrg⟩ := h.live d (f.id, f.folderGuid) (List.mem_map_of_mem hf) g hg
      obtain ⟨r', hr', hrow', hrg'⟩ :=
        h.live d (f'.id, f'.folderGuid) (List.mem_map_of_mem hf') g (hguid.symm.trans hg)
      by_contra hne
      refine hfresh d r hr r' hr' ?_ (hrg.trans hrg'.symm)
      rw [hrow, hrow']
      exact hne
    · exact Nat.lt_succ_of_le ((h.numbered d r hr).trans (Nat.le_max_left _ _))

theorem recorded_new (processId : D → ℕ) : (Fleet.new processId).Recorded blake3 where
  live _ _ hrow := absurd hrow List.not_mem_nil
  given _ _ hid := absurd hid List.not_mem_nil
  numbered _ _ hr := absurd hr List.not_mem_nil

theorem guidsUnique_new (processId : D → ℕ) : (Fleet.new processId).GuidsUnique blake3 where
  live _ _ hf := absurd hf List.not_mem_nil
  fresh _ _ hr := absurd hr List.not_mem_nil
  numbered _ _ hr := absurd hr List.not_mem_nil
  apart _ _ _ _ hr := absurd hr List.not_mem_nil

variable [DecidableEq D]

theorem mem_carried {d : D} {r : GuidRecord} : r ∈ (s.perform blake3 op).carried d ↔
    r ∈ s.carried d ∨ d = op.1 ∧ Comes (s.host op.1) op.2 r := by
  unfold perform
  dsimp only
  by_cases hd : d = op.1
  · rw [hd, Function.update_self, List.mem_append, mem_newRows_iff (brings_perform blake3 _ _)]
    exact or_congr_right ⟨fun h => ⟨rfl, h⟩, fun h => h.2⟩
  · rw [Function.update_of_ne hd]
    exact ⟨Or.inl, fun h => h.resolve_right fun h => hd h.1⟩

theorem recorded_perform (h : s.Recorded blake3) : (s.perform blake3 op).Recorded blake3 := by
  have hbrings := brings_perform blake3 (s.host op.1) op.2
  have hother : ∀ d ≠ op.1, (s.perform blake3 op).host d = s.host d := fun d hd => Function.update_of_ne hd _ _
  have hhost : (s.perform blake3 op).host op.1 = (s.host op.1).perform blake3 op.2 := Function.update_self _ _ _
  have hcomes : ∀ {r}, Comes (s.host op.1) op.2 r →
      r.folderId ≤ ((s.host op.1).perform blake3 op.2).db.val.folderSeq := fun hr =>
    (hbrings.number _ hr).elim (fun hold => (h.given _ _ hold).trans hbrings.seq) id
  constructor
  case live =>
    intro d row hrow g hg
    by_cases hd : d = op.1
    · rw [hd, hhost] at hrow
      rcases hbrings.rows row hrow with hold | ⟨r, hr, hnew⟩
      · obtain ⟨r, hr, hrow⟩ := h.live op.1 row hold g hg
        rw [hd]
        exact ⟨r, mem_carried.mpr (Or.inl hr), hrow⟩
      · rw [hnew] at hg ⊢
        exact ⟨r, mem_carried.mpr (Or.inr ⟨hd, hr⟩), rfl, Option.some.inj hg⟩
    · rw [hother d hd] at hrow
      obtain ⟨r, hr, hrow⟩ := h.live d row hrow g hg
      exact ⟨r, mem_carried.mpr (Or.inl hr), hrow⟩
  case given =>
    intro d folderId hid
    by_cases hd : d = op.1
    · rw [hd, hhost] at hid ⊢
      obtain ⟨f, hf, rfl⟩ := List.mem_map.mp hid
      have hrow : (f.id, f.folderGuid) ∈ ((s.host op.1).perform blake3 op.2).db.val.guidRows :=
        List.mem_map_of_mem hf
      rcases hbrings.rows _ hrow with hold | ⟨r, hr, hnew⟩
      · exact (h.given op.1 _ (Database.mem_folderIds_of_row hold)).trans hbrings.seq
      · rw [(Prod.mk.inj hnew).1]
        exact hcomes hr
    · rw [hother d hd] at hid ⊢
      exact h.given d folderId hid
  case numbered =>
    intro d r hr
    rcases mem_carried.mp hr with hold | ⟨hd, hnew⟩
    · by_cases hd : d = op.1
      · rw [hd] at hold ⊢
        rw [hhost]
        exact (h.numbered op.1 r hold).trans hbrings.seq
      · rw [hother d hd]
        exact h.numbered d r hold
    · rw [hd, hhost]
      exact hcomes hnew

/-- **One operation.** -/
theorem perform_unique_iff (hinj : Set.InjOn blake3 guidInputs) (h : s.Recorded blake3)
    (hunique : s.GuidsUnique blake3) :
    (s.perform blake3 op).GuidsUnique blake3 ↔ s.KeepsGuids blake3 op := by
  rw [guidsUnique_iff (recorded_perform h)]
  constructor
  · rintro ⟨hfresh, hapart⟩ r hr
    have hthere : r ∈ (s.perform blake3 op).carried op.1 := mem_carried.mpr (Or.inr ⟨rfl, hr⟩)
    refine ⟨fun r' hr' hne hsame => ?_, fun hadded d hd r' hr' hadded' hsame => ?_⟩
    · have hthere' : r' ∈ (s.perform blake3 op).carried op.1 :=
        mem_carried.mpr (hr'.imp_right fun hr' => ⟨rfl, hr'⟩)
      exact hfresh op.1 r' hthere' r hthere hne ((GuidSource.same_iff hinj _ _).mp hsame)
    · exact hapart d op.1 hd r' (mem_carried.mpr (Or.inl hr')) r hthere hadded' hadded
        ((GuidSource.same_iff hinj _ _).mp hsame)
  · intro hkeeps
    have hnew : ∀ {r r'}, Comes (s.host op.1) op.2 r →
        r' ∈ s.carried op.1 ∨ Comes (s.host op.1) op.2 r' → r'.folderId ≠ r.folderId →
        r'.source.guid blake3 ≠ r.source.guid blake3 := fun hr hr' hne hguid =>
      (hkeeps _ hr).1 _ hr' hne ((GuidSource.same_iff hinj _ _).mpr hguid)
    have hfar : ∀ {d r r'}, Comes (s.host op.1) op.2 r → r.added = true → d ≠ op.1 → r' ∈ s.carried d →
        r'.added = true → r'.source.guid blake3 ≠ r.source.guid blake3 :=
      fun hr hadded hd hr' hadded' hguid =>
        (hkeeps _ hr).2 hadded _ hd _ hr' hadded' ((GuidSource.same_iff hinj _ _).mpr hguid)
    constructor
    · intro d r hr r' hr' hne
      rcases mem_carried.mp hr with hold | ⟨hd, hr⟩
      · rcases mem_carried.mp hr' with hold' | ⟨hd, hr'⟩
        · exact hunique.fresh d r hold r' hold' hne
        · rw [hd] at hold
          exact hnew hr' (Or.inl hold) hne
      · have hr' : r' ∈ s.carried op.1 ∨ Comes (s.host op.1) op.2 r' := by
          have hthere := mem_carried.mp hr'
          rw [hd] at hthere
          exact hthere.imp_right fun h => h.2
        exact (hnew hr hr' hne.symm).symm
    · intro d d' hd r hr r' hr' hadded hadded'
      rcases mem_carried.mp hr with hold | ⟨hown, hr⟩
      · rcases mem_carried.mp hr' with hold' | ⟨hown', hr'⟩
        · exact hunique.apart d d' hd r hold r' hold' hadded hadded'
        · exact hfar hr' hadded' (hown' ▸ hd) hold hadded
      · have hother : d' ≠ op.1 := fun hown' => hd (hown.trans hown'.symm)
        have hold' : r' ∈ s.carried d' := (mem_carried.mp hr').resolve_right fun h => hother h.1
        exact (hfar hr hadded hother hold' hadded').symm

end Fleet

/-- **No guid ever means two folders exactly if none comes from where another has its own.** -/
theorem guids_unique_iff {D : Type} [DecidableEq D] (blake3 : Bytes → FileHash)
    (hinj : Set.InjOn blake3 guidInputs) (processId : D → ℕ) (ops : List (D × StorageOp)) :
    Runs.Always (Fleet.perform blake3) (Fleet.GuidsUnique blake3) (Fleet.new processId) ops ↔
      Runs.Meets (Fleet.perform blake3) (Fleet.KeepsGuids blake3) (Fleet.new processId) ops :=
  Runs.always_iff_meets (J := Fleet.Recorded blake3) (fun _ _ => Fleet.recorded_perform)
    (fun _ _ => Fleet.perform_unique_iff hinj) (Fleet.recorded_new processId)
    (Fleet.guidsUnique_new processId)

/-- A hash that keeps keys apart, and is BLAKE3 for the first folder of process 7. -/
def sampleGuidHash (input : Bytes) : FileHash :=
  if input = guidInput (guidKey 1 7) then
    ⟨[104, 104, 166, 131, 201, 194, 30, 36, 30, 209, 40, 223, 166, 15, 191, 169, 66, 179, 134, 198, 70, 76,
      129, 115, 137, 160, 125, 19, 206, 38, 74, 203], rfl⟩
  else ⟨(input.drop 24 ++ List.replicate 32 0).take 32, by simp⟩

theorem length_guidKey (n p : ℕ) : (guidKey n p).length = 12 := rfl

theorem drop_guidInput (key : Bytes) : (guidInput key).drop 24 = key := by
  have hlength : "ferrisync-folder-guid-v1".toUTF8.toList.length = 24 := by decide +kernel
  exact List.drop_left' hlength

theorem sampleGuidHash_injOn : Set.InjOn sampleGuidHash guidInputs := by
  have hkey : ∀ n p, ((guidKey n p ++ List.replicate 32 0).take 32).take 12 = guidKey n p := by
    intro n p
    rw [List.take_take, List.take_append_of_le_length (by rw [length_guidKey]; decide)]
    exact List.take_of_length_le (by rw [length_guidKey]; decide)
  have hlast : ∀ n p, ((guidKey n p ++ List.replicate 32 0).take 32)[31]? = some 0 := by
    intro n p
    rw [List.getElem?_take, if_pos (by decide), List.getElem?_append_right (by rw [length_guidKey]; decide),
      length_guidKey]
    rfl
  rintro a ⟨n, p, rfl⟩ b ⟨n', p', rfl⟩ heq
  unfold sampleGuidHash at heq
  split_ifs at heq with ha hb hb
  · rw [ha, hb]
  · have hbytes := congrArg (fun x : FileHash => x.bytes[31]?) heq
    simp only [drop_guidInput, hlast] at hbytes
    exact absurd hbytes (by decide)
  · have hbytes := congrArg (fun x : FileHash => x.bytes[31]?) heq
    simp only [drop_guidInput, hlast] at hbytes
    exact absurd hbytes (by decide)
  · have hbytes := congrArg (fun x : FileHash => x.bytes.take 12) heq
    simp only [drop_guidInput, hkey] at hbytes
    rw [hbytes]

/-- Music is added, removed, and another folder is added by the same process. -/
def replacedFolder : List (Unit × StorageOp) :=
  [((), .upsertDevice "laptop" "Laptop" none none), ((), .addSyncFolder "/home/music" "laptop" "bidirectional"),
    ((), .removeSyncFolderById 1), ((), .addSyncFolder "/home/photos" "laptop" "bidirectional")]

theorem guids_unique_replaced : Set.InjOn sampleGuidHash guidInputs ∧
    (Runs.Always (Fleet.perform sampleGuidHash) (Fleet.GuidsUnique sampleGuidHash) (Fleet.new fun _ => 7)
        replacedFolder ↔
      Runs.Meets (Fleet.perform sampleGuidHash) (Fleet.KeepsGuids sampleGuidHash) (Fleet.new fun _ => 7)
        replacedFolder) :=
  ⟨sampleGuidHash_injOn, guids_unique_iff _ sampleGuidHash_injOn _ _⟩

/-- **The folder that is added has the guid of the one that was removed.** -/
theorem removed_guid_again : Set.InjOn sampleGuidHash guidInputs ∧
    ¬Runs.Always (Fleet.perform sampleGuidHash) (Fleet.GuidsUnique sampleGuidHash) (Fleet.new fun _ => 7)
      replacedFolder := by
  refine ⟨sampleGuidHash_injOn, fun halways => ?_⟩
  have hfresh := (halways replacedFolder [] rfl).fresh ()
  have hold : ⟨1, .minted 1 7, true⟩ ∈
      ((replacedFolder.foldl (Fleet.perform sampleGuidHash) (Fleet.new fun _ => 7)).carried ()) := by
    decide +kernel
  have hnew : ⟨2, .minted 1 7, true⟩ ∈
      ((replacedFolder.foldl (Fleet.perform sampleGuidHash) (Fleet.new fun _ => 7)).carried ()) := by
    decide +kernel
  exact hfresh _ hold _ hnew (by decide) rfl

end FerriSync
