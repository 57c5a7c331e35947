/-
# Syncing all folders

`sync_all_folders_with` (`bulk.rs`): one session after the other for the enabled
pairs, in the order in which the database lists them (`listSyncFolders`). A pair of
this device stands for the folder and every other device. What the addresses resolve
to and what comes of the sessions may be anything.

Which sessions are started, and where their results are reported, is settled before
the first of them (`bulkSlots`), so none has an influence on another
(`syncAllFoldersWith_eq`). But a folder that this device serves and that has a pair
with a peer is synced with the peer twice: as one of all, and as the pair
(`eachPairOnce_iff`).

Key definitions: `Resolution`, `syncAllFoldersWith`, `bulkSlots`, `EachPairOnce`.
Key theorems: `syncAllFoldersWith_eq`, `targets_nodup_iff`, `eachPairOnce_iff`.
-/
import FerriSync.Database
import FerriSync.Outbound
import Mathlib.Data.Set.Pairwise.List

namespace FerriSync

open Transactions

namespace Database

variable (db : Database)

/-- The enabled pairs, by folder and then by device. -/
def listSyncFolders : List SyncPair :=
  (db.syncFolders.flatMap fun f =>
    (db.folderDevices.filter fun p => decide (p.folderId = f.id) && p.enabled).map fun p =>
      ⟨f.id, f.localPath, p.deviceId, p.mode⟩).mergeSort fun a b =>
    decide (a.id < b.id) || decide (a.id = b.id) && decide (a.deviceId ≤ b.deviceId)

/-- Where the device keeps its copy of the folder, if that is stored. -/
def folderPairRemotePath (folderId : ℕ) (deviceId : String) : Option String :=
  (db.folderDevices.find? fun p =>
    decide (p.folderId = folderId) && decide (p.deviceId = deviceId)).bind (·.remotePath)

/-- An order in which the devices are listed. -/
structure DeviceListing where
  ids : List String
  perm : ids.Perm db.deviceIds

end Database

/-- What the addresses come to, after both passes: that of the n-th row and that of the
n-th peer. -/
structure Resolution where
  row : ℕ → Option String
  peer : ℕ → Option String
  isOwnAddress : String → Bool

/-- The address of another machine. -/
def Resolution.foreign (res : Resolution) (addr : Option String) : Option String :=
  addr.filter fun a => !res.isOwnAddress a

section

variable (res : Resolution) {addr : String}

@[simp] theorem Resolution.foreign_none : res.foreign none = none := rfl

theorem Resolution.foreign_own (h : res.isOwnAddress addr = true) :
    res.foreign (some addr) = none := by
  simp [Resolution.foreign, h]

theorem Resolution.foreign_other (h : res.isOwnAddress addr = false) :
    res.foreign (some addr) = some addr := by
  simp [Resolution.foreign, h]

end

/-- Result of one folder inside a bulk sync. -/
structure FolderOutcome where
  path : String
  deviceId : String
  /-- `none` if no address could be resolved. -/
  addr : Option String
  /-- `none` if the folder was skipped. -/
  result : Option (Except String SyncResult)

/-- What the n-th session comes to, and the database it leaves. -/
abbrev Sessions := ℕ → SessionCall → DbState → Except String SyncResult × DbState

/-- A bulk sync so far: the sessions it has run, with their results, and what it has to
report. -/
structure BulkRun where
  db : DbState
  ran : List (SessionCall × Except String SyncResult)
  outcomes : List FolderOutcome

/-! ### The loops -/

section

variable (own : String) (res : Resolution) (sessions : Sessions)

/-- Run a session; the address is kept if it succeeds. -/
def runBulkSession (row : SyncPair) (deviceId addr : String) (r : BulkRun) : BulkRun :=
  let call : SessionCall := ⟨row.localPath, addr, row.id, deviceId, false,
    r.db.val.folderPairRemotePath row.id deviceId⟩
  let (result, db) := sessions r.ran.length call r.db
  let db := match result with
    | .ok _ => Effects.after (Database.setDeviceLastAddr deviceId addr) db
    | .error _ => db
  ⟨db, r.ran ++ [(call, result)], r.outcomes ++ [⟨row.localPath, deviceId, some addr, some result⟩]⟩

def BulkRun.report (r : BulkRun) (outcome : FolderOutcome) : BulkRun :=
  { r with outcomes := r.outcomes ++ [outcome] }

/-- Sync a folder that we serve with every peer; says whether there was one. -/
def fanOut (row : SyncPair) : List (String × Option String) → Bool → BulkRun → Bool × BulkRun
  | [], contacted, r => (contacted, r)
  | (peerId, peerAddr) :: peers, contacted, r =>
    match peerAddr with
    | none => fanOut row peers contacted r
    | some addr =>
      if res.isOwnAddress addr then fanOut row peers contacted r
      else fanOut row peers true (runBulkSession sessions row peerId addr r)

def noPeers (path : String) : String :=
  s!"no connected peers to sync served folder '{path}' with — pair or discover a device first"

def syncRow (peers : List (String × Option String)) (r : BulkRun)
    (x : SyncPair × Option String) : BulkRun :=
  let (row, addr) := x
  if row.deviceId = own then
    let (contacted, r) := fanOut res sessions row peers false r
    if contacted then r
    else r.report ⟨row.localPath, row.deviceId, none, some (.error (noPeers row.localPath))⟩
  else match addr with
  | none => r.report ⟨row.localPath, row.deviceId, none, none⟩
  | some addr =>
    if res.isOwnAddress addr then r.report ⟨row.localPath, row.deviceId, some addr,
      some (.error s!"{addr} is this machine — the device row points at us")⟩
    else runBulkSession sessions row row.deviceId addr r

/-- The devices other than ourselves, with their addresses. -/
def bulkPeers (ids : List String) : List (String × Option String) :=
  (ids.filter fun id => decide (id ≠ own)).zipIdx.map fun x => (x.1, res.peer x.2)

/-- The rows, with their addresses. -/
def bulkRows (db : Database) : List (SyncPair × Option String) :=
  db.listSyncFolders.zipIdx.map fun x => (x.1, res.row x.2)

/-- Sync every configured folder sequentially. -/
def syncAllFoldersWith (s : DbState) (listing : s.val.DeviceListing) : BulkRun :=
  (bulkRows res s.val).foldl (syncRow own res sessions (bulkPeers own res listing.ids)) ⟨s, [], []⟩

end

/-! ### What is settled beforehand -/

/-- A place in what is reported: for the result of a session, or filled already. -/
inductive Slot
  | session (row : SyncPair) (deviceId addr : String)
  | skipped (outcome : FolderOutcome)

/-- The folder and the device of a session. -/
def Slot.pair : Slot → Option (ℕ × String)
  | session row deviceId _ => some (row.id, deviceId)
  | skipped _ => none

/-- The results of the sessions in their places. -/
def fillSlots : List Slot → List (Except String SyncResult) → List FolderOutcome
  | .skipped outcome :: slots, results => outcome :: fillSlots slots results
  | .session row deviceId addr :: slots, result :: results =>
    ⟨row.localPath, deviceId, some addr, some result⟩ :: fillSlots slots results
  | _, _ => []

section

variable (own : String) (res : Resolution)

/-- The devices that a row stands for, with their addresses. -/
def rowTargets (peers : List (String × Option String)) (x : SyncPair × Option String) :
    List (String × String) :=
  if x.1.deviceId = own then
    peers.filterMap fun p => (res.foreign p.2).map fun addr => (p.1, addr)
  else (res.foreign x.2).toList.map fun addr => (x.1.deviceId, addr)

/-- What is reported of a row without a session. -/
def skippedOutcome (x : SyncPair × Option String) : FolderOutcome :=
  if x.1.deviceId = own then
    ⟨x.1.localPath, x.1.deviceId, none, some (.error (noPeers x.1.localPath))⟩
  else match x.2 with
  | none => ⟨x.1.localPath, x.1.deviceId, none, none⟩
  | some addr => ⟨x.1.localPath, x.1.deviceId, some addr,
      some (.error s!"{addr} is this machine — the device row points at us")⟩

def rowSlots (peers : List (String × Option String)) (x : SyncPair × Option String) : List Slot :=
  match rowTargets own res peers x with
  | [] => [.skipped (skippedOutcome own x)]
  | targets => targets.map fun t => .session x.1 t.1 t.2

def bulkSlots (db : Database) (listing : db.DeviceListing) : List Slot :=
  (bulkRows res db).flatMap (rowSlots own res (bulkPeers own res listing.ids))

end

section

variable {own : String} {res : Resolution} {sessions : Sessions}

/-- Work off a place. -/
def playSlot (sessions : Sessions) (r : BulkRun) : Slot → BulkRun
  | .session row deviceId addr => runBulkSession sessions row deviceId addr r
  | .skipped outcome => r.report outcome

theorem fanOut_eq (row : SyncPair) (peers : List (String × Option String)) :
    ∀ (contacted : Bool) (r : BulkRun), fanOut res sessions row peers contacted r =
      (contacted || !(peers.filterMap fun p => (res.foreign p.2).map fun addr => (p.1, addr)).isEmpty,
        ((peers.filterMap fun p => (res.foreign p.2).map fun addr => (p.1, addr)).map fun t =>
          Slot.session row t.1 t.2).foldl (playSlot sessions) r) := by
  induction peers with
  | nil =>
    intro contacted r
    simp [fanOut]
  | cons p peers ih =>
    intro contacted r
    obtain ⟨peerId, peerAddr⟩ := p
    cases peerAddr with
    | none =>
      rw [fanOut, ih, List.filterMap_cons_none]
      rfl
    | some addr =>
      rw [fanOut]
      cases hown : res.isOwnAddress addr with
      | true =>
        rw [if_pos rfl, ih]
        simp [res.foreign_own hown]
      | false =>
        rw [if_neg (by simp), ih]
        simp [res.foreign_other hown, playSlot]

/-- A row is worked off place by place. -/
theorem syncRow_eq (peers : List (String × Option String)) (r : BulkRun)
    (x : SyncPair × Option String) :
    syncRow own res sessions peers r x = (rowSlots own res peers x).foldl (playSlot sessions) r := by
  obtain ⟨row, addr⟩ := x
  unfold syncRow rowSlots rowTargets skippedOutcome
  dsimp only
  by_cases hown : row.deviceId = own
  · simp only [if_pos hown]
    rw [fanOut_eq]
    generalize peers.filterMap _ = targets
    cases targets with
    | nil => rfl
    | cons t targets => rfl
  · simp only [if_neg hown]
    cases addr with
    | none => rfl
    | some addr =>
      dsimp only
      cases hthis : res.isOwnAddress addr with
      | true =>
        rw [if_pos rfl, res.foreign_own hthis]
        rfl
      | false =>
        rw [if_neg (by simp), res.foreign_other hthis]
        rfl

theorem syncAllFoldersWith_play (s : DbState) (listing : s.val.DeviceListing) :
    syncAllFoldersWith own res sessions s listing =
      (bulkSlots own res s.val listing).foldl (playSlot sessions) ⟨s, [], []⟩ := by
  have hrows : ∀ (xs : List (SyncPair × Option String)) (r : BulkRun),
      xs.foldl (syncRow own res sessions (bulkPeers own res listing.ids)) r =
        (xs.flatMap (rowSlots own res (bulkPeers own res listing.ids))).foldl (playSlot sessions) r := by
    intro xs
    induction xs with
    | nil => exact fun r => rfl
    | cons x xs ih =>
      intro r
      rw [List.foldl_cons, ih, syncRow_eq, List.flatMap_cons, List.foldl_append]
  exact hrows _ _

/-- Places worked off: each session is one of them, and its result stands there. -/
theorem foldl_playSlot (slots : List Slot) : ∀ r : BulkRun, ∃ ran,
    (slots.foldl (playSlot sessions) r).ran = r.ran ++ ran ∧
    ran.map (fun x => (x.1.folderId, x.1.deviceId)) = slots.filterMap Slot.pair ∧
    (slots.foldl (playSlot sessions) r).outcomes =
      r.outcomes ++ fillSlots slots (ran.map (·.2)) := by
  induction slots with
  | nil => exact fun r => ⟨[], by simp [fillSlots]⟩
  | cons slot slots ih =>
    intro r
    obtain ⟨ran, hran, hpairs, hout⟩ := ih (playSlot sessions r slot)
    cases slot with
    | skipped outcome =>
      refine ⟨ran, hran, hpairs, ?_⟩
      rw [List.foldl_cons, hout]
      simp [playSlot, BulkRun.report, fillSlots]
    | session row deviceId addr =>
      have hplay : ∃ result, (playSlot sessions r (.session row deviceId addr)).ran =
          r.ran ++ [(⟨row.localPath, addr, row.id, deviceId, false,
            r.db.val.folderPairRemotePath row.id deviceId⟩, result)] ∧
          (playSlot sessions r (.session row deviceId addr)).outcomes =
            r.outcomes ++ [⟨row.localPath, deviceId, some addr, some result⟩] := ⟨_, rfl, rfl⟩
      obtain ⟨result, hnew, hreport⟩ := hplay
      refine ⟨(⟨row.localPath, addr, row.id, deviceId, false,
        r.db.val.folderPairRemotePath row.id deviceId⟩, result) :: ran, ?_, ?_, ?_⟩
      · rw [List.foldl_cons, hran, hnew, List.append_assoc]
        rfl
      · rw [List.map_cons, hpairs]
        rfl
      · rw [List.foldl_cons, hout, hreport, List.append_assoc]
        rfl

/-- **What a bulk sync does.** Its sessions are those of the places, and their results
are reported there. -/
theorem syncAllFoldersWith_eq (s : DbState) (listing : s.val.DeviceListing) :
    let run := syncAllFoldersWith own res sessions s listing
    run.ran.map (fun x => (x.1.folderId, x.1.deviceId)) =
      (bulkSlots own res s.val listing).filterMap Slot.pair ∧
    run.outcomes = fillSlots (bulkSlots own res s.val listing) (run.ran.map (·.2)) := by
  intro run
  obtain ⟨ran, hran, hpairs, hout⟩ := @foldl_playSlot sessions
    (bulkSlots own res s.val listing) ⟨s, [], []⟩
  rw [← syncAllFoldersWith_play] at hran hout
  have hsame : run.ran = ran := hran
  rw [hsame]
  exact ⟨hpairs, hout⟩

end

/-! ### Rows and peers -/

theorem Database.mem_listSyncFolders {db : Database} {row : SyncPair} :
    row ∈ db.listSyncFolders ↔ ∃ f ∈ db.syncFolders, ∃ p ∈ db.folderDevices,
      p.folderId = f.id ∧ p.enabled = true ∧ row = ⟨f.id, f.localPath, p.deviceId, p.mode⟩ := by
  unfold Database.listSyncFolders
  rw [(List.mergeSort_perm _ _).mem_iff]
  simp only [List.mem_flatMap, List.mem_map, List.mem_filter, Bool.and_eq_true, decide_eq_true_eq]
  constructor
  · rintro ⟨f, hf, p, ⟨hp, hfolder, henabled⟩, rfl⟩
    exact ⟨f, hf, p, hp, hfolder, henabled, rfl⟩
  · rintro ⟨f, hf, p, hp, hfolder, henabled, rfl⟩
    exact ⟨f, hf, p, ⟨hp, hfolder, henabled⟩, rfl⟩

/-- Folder and device tell the rows apart. -/
theorem Database.listSyncFolders_nodup {db : Database} (hkeys : db.Keys) :
    (db.listSyncFolders.map fun row => (row.id, row.deviceId)).Nodup := by
  unfold Database.listSyncFolders
  rw [((List.mergeSort_perm _ _).map _).nodup_iff, List.map_flatMap]
  apply List.pairwise_flatMap.mpr
  constructor
  · intro f hf
    have hpairs := hkeys.folderDevices.sublist
      ((List.filter_sublist (p := fun p : Db.FolderDevice =>
        decide (p.folderId = f.id) && p.enabled)).map fun p => (p.folderId, p.deviceId))
    have hsame : ∀ p ∈ db.folderDevices.filter fun p => decide (p.folderId = f.id) && p.enabled,
        (p.folderId, p.deviceId) = (f.id, p.deviceId) := by
      intro p hp
      have hfolder := (List.mem_filter.mp hp).2
      rw [Bool.and_eq_true, decide_eq_true_eq] at hfolder
      rw [hfolder.1]
    rw [List.map_congr_left hsame] at hpairs
    rw [List.map_map]
    exact hpairs
  · have hids : db.syncFolders.Pairwise fun f g => f.id ≠ g.id := List.pairwise_map.mp hkeys.syncFolders
    refine hids.imp ?_
    intro f g hne x hx y hy heq
    simp only [List.map_map, List.mem_map, Function.comp_apply] at hx hy
    obtain ⟨p, _, rfl⟩ := hx
    obtain ⟨q, _, rfl⟩ := hy
    exact hne (congrArg Prod.fst heq)

theorem map_zipIdx_fst {α β : Type} (f : ℕ → β) (xs : List α) (k : ℕ) :
    ((xs.zipIdx k).map fun x => (x.1, f x.2)).map Prod.fst = xs := by
  rw [List.map_map]
  exact List.zipIdx_map_fst k xs

theorem bulkRows_nodup {db : Database} (hkeys : db.Keys) (res : Resolution) :
    ((bulkRows res db).map fun x => (x.1.id, x.1.deviceId)).Nodup := by
  have hrows : (bulkRows res db).map Prod.fst = db.listSyncFolders := map_zipIdx_fst res.row _ 0
  have hkeep := db.listSyncFolders_nodup hkeys
  rw [← hrows, List.map_map] at hkeep
  exact hkeep

theorem bulkPeers_nodup {db : Database} (hkeys : db.Keys) (own : String) (res : Resolution)
    (listing : db.DeviceListing) : ((bulkPeers own res listing.ids).map Prod.fst).Nodup := by
  have hpeers : (bulkPeers own res listing.ids).map Prod.fst =
      listing.ids.filter fun id => decide (id ≠ own) := map_zipIdx_fst res.peer _ 0
  rw [hpeers]
  exact (listing.perm.nodup_iff.mpr hkeys.devices).filter _

/-! ### Once for each pair -/

section

variable (own : String) (res : Resolution)

/-- A folder that this device serves has no pair with a peer that it reaches both ways. -/
def NoOverlap (db : Database) (listing : db.DeviceListing) : Prop :=
  ∀ x ∈ bulkRows res db, ∀ y ∈ bulkRows res db, x.1.deviceId = own → y.1.deviceId ≠ own →
    x.1.id = y.1.id → (res.foreign y.2).isSome →
      ∀ p ∈ bulkPeers own res listing.ids, p.1 = y.1.deviceId → res.foreign p.2 = none

/-- The folder has an enabled pair with the device, or is served by us while the device is a
peer; and the address is that of another machine. -/
def Wanted (db : Database) (listing : db.DeviceListing) (folderId : ℕ) (deviceId : String) : Prop :=
  ∃ x ∈ bulkRows res db, x.1.id = folderId ∧
    ((x.1.deviceId ≠ own ∧ x.1.deviceId = deviceId ∧ (res.foreign x.2).isSome) ∨
      (x.1.deviceId = own ∧ ∃ p ∈ bulkPeers own res listing.ids, p.1 = deviceId ∧
        (res.foreign p.2).isSome))

def BulkRun.pairs (run : BulkRun) : List (ℕ × String) :=
  run.ran.map fun x => (x.1.folderId, x.1.deviceId)

/-- Every pair is synced once, whatever becomes of the others. -/
structure EachPairOnce (s : DbState) (listing : s.val.DeviceListing) (sessions : Sessions) :
    Prop where
  once : (syncAllFoldersWith own res sessions s listing).pairs.Nodup
  every : ∀ folderId deviceId, Wanted own res s.val listing folderId deviceId ↔
    (folderId, deviceId) ∈ (syncAllFoldersWith own res sessions s listing).pairs
  /-- The pairs and the places of their results are the same for all results. -/
  separate : ∃ slots : List Slot, ∀ results : Sessions,
    (syncAllFoldersWith own res results s listing).pairs = slots.filterMap Slot.pair ∧
    (syncAllFoldersWith own res results s listing).outcomes =
      fillSlots slots ((syncAllFoldersWith own res results s listing).ran.map (·.2))

end

section

variable {own : String} {res : Resolution}

theorem filterMap_pair_rowSlots (peers : List (String × Option String))
    (x : SyncPair × Option String) :
    (rowSlots own res peers x).filterMap Slot.pair =
      (rowTargets own res peers x).map fun t => (x.1.id, t.1) := by
  unfold rowSlots
  cases rowTargets own res peers x with
  | nil => rfl
  | cons t targets =>
    rw [List.filterMap_map]
    exact congrFun (List.filterMap_eq_map (f := fun t : String × String => (x.1.id, t.1))) _

theorem filterMap_pair_bulkSlots (db : Database) (listing : db.DeviceListing) :
    (bulkSlots own res db listing).filterMap Slot.pair = (bulkRows res db).flatMap fun x =>
      (rowTargets own res (bulkPeers own res listing.ids) x).map fun t => (x.1.id, t.1) := by
  unfold bulkSlots
  rw [List.filterMap_flatMap]
  exact List.flatMap_congr fun x _ => filterMap_pair_rowSlots _ x

/-- The devices that a row stands for. -/
theorem mem_rowTargets {peers : List (String × Option String)} {x : SyncPair × Option String}
    {deviceId : String} : (∃ t ∈ rowTargets own res peers x, t.1 = deviceId) ↔
      ((x.1.deviceId ≠ own ∧ x.1.deviceId = deviceId ∧ (res.foreign x.2).isSome) ∨
        (x.1.deviceId = own ∧ ∃ p ∈ peers, p.1 = deviceId ∧ (res.foreign p.2).isSome)) := by
  unfold rowTargets
  by_cases hown : x.1.deviceId = own
  · simp only [if_pos hown, List.mem_filterMap, Option.map_eq_some_iff, Option.isSome_iff_exists]
    constructor
    · rintro ⟨_, ⟨p, hp, addr, haddr, rfl⟩, rfl⟩
      exact Or.inr ⟨hown, p, hp, rfl, addr, haddr⟩
    · rintro (⟨hne, _⟩ | ⟨_, p, hp, rfl, addr, haddr⟩)
      · exact absurd hown hne
      · exact ⟨_, ⟨p, hp, addr, haddr, rfl⟩, rfl⟩
  · simp only [if_neg hown, List.mem_map, Option.mem_toList, Option.isSome_iff_exists]
    constructor
    · rintro ⟨_, ⟨addr, haddr, rfl⟩, hsame⟩
      exact Or.inl ⟨hown, hsame, addr, haddr⟩
    · rintro (⟨_, hsame, addr, haddr⟩ | ⟨h, _⟩)
      · exact ⟨_, ⟨addr, haddr, rfl⟩, hsame⟩
      · exact absurd h hown

theorem rowTargets_nodup {peers : List (String × Option String)}
    (hpeers : (peers.map Prod.fst).Nodup) (x : SyncPair × Option String) :
    ((rowTargets own res peers x).map Prod.fst).Nodup := by
  unfold rowTargets
  split
  · have hsub : ((peers.filterMap fun p => (res.foreign p.2).map fun addr => (p.1, addr)).map
        Prod.fst).Sublist (peers.map Prod.fst) := by
      induction peers with
      | nil => exact List.Sublist.refl _
      | cons p peers ih =>
        have hrest := ih (List.nodup_cons.mp hpeers).2
        cases haddr : res.foreign p.2 with
        | none =>
          rw [List.filterMap_cons_none (by rw [haddr]; rfl)]
          exact hrest.cons _
        | some addr =>
          rw [List.filterMap_cons_some (by rw [haddr]; rfl)]
          exact hrest.cons_cons _
    exact hpeers.sublist hsub
  · cases res.foreign x.2 with
    | none => exact List.nodup_nil
    | some addr => exact List.nodup_singleton _

/-- Two rows stand for a common pair only if one is ours and the other is the pair. -/
theorem targets_nodup_iff {db : Database} (hkeys : db.Keys) (listing : db.DeviceListing) :
    ((bulkSlots own res db listing).filterMap Slot.pair).Nodup ↔ NoOverlap own res db listing := by
  rw [filterMap_pair_bulkSlots, List.nodup_flatMap]
  have hrows := bulkRows_nodup hkeys res
  have hwithin : ∀ x ∈ bulkRows res db, ((rowTargets own res (bulkPeers own res listing.ids) x).map
      fun t => (x.1.id, t.1)).Nodup := by
    intro x _
    have hdevices : ((rowTargets own res (bulkPeers own res listing.ids) x).map Prod.fst).Nodup :=
      rowTargets_nodup (bulkPeers_nodup hkeys own res listing) x
    have hpaired := hdevices.map (Prod.mk_right_injective x.1.id)
    rw [List.map_map] at hpaired
    exact hpaired
  have hmem : ∀ (x : SyncPair × Option String) (pair : ℕ × String),
      pair ∈ (rowTargets own res (bulkPeers own res listing.ids) x).map (fun t => (x.1.id, t.1)) ↔
        x.1.id = pair.1 ∧
          ∃ t ∈ rowTargets own res (bulkPeers own res listing.ids) x, t.1 = pair.2 := by
    intro x pair
    rw [List.mem_map]
    constructor
    · rintro ⟨t, ht, rfl⟩
      exact ⟨rfl, t, ht, rfl⟩
    · rintro ⟨hid, t, ht, hdevice⟩
      exact ⟨t, ht, Prod.ext hid hdevice⟩
  constructor
  · rintro ⟨_, hapart⟩ x hx y hy hown hne hid haddr p hp hdevice
    have hxy : x ≠ y := fun h => hne (h ▸ hown)
    by_contra hpeer
    have hsymm : Std.Symm (Function.onFun List.Disjoint fun x : SyncPair × Option String =>
        (rowTargets own res (bulkPeers own res listing.ids) x).map fun t => (x.1.id, t.1)) :=
      ⟨fun _ _ h => List.Disjoint.symm h⟩
    have hboth := hapart.forall hx hy hxy
    refine hboth ((hmem x (x.1.id, y.1.deviceId)).mpr ⟨rfl, ?_⟩)
      ((hmem y (x.1.id, y.1.deviceId)).mpr ⟨hid.symm, ?_⟩)
    · exact mem_rowTargets.mpr (Or.inr ⟨hown, p, hp, hdevice, Option.isSome_iff_ne_none.mpr hpeer⟩)
    · exact mem_rowTargets.mpr (Or.inl ⟨hne, rfl, haddr⟩)
  · intro hno
    have hone : ∀ x ∈ bulkRows res db, ∀ y ∈ bulkRows res db, x.1.deviceId = own →
        y.1.deviceId ≠ own → x.1.id = y.1.id → ∀ deviceId, y.1.deviceId = deviceId →
        (res.foreign y.2).isSome → ∀ p ∈ bulkPeers own res listing.ids, p.1 = deviceId →
          ¬(res.foreign p.2).isSome := by
      rintro x hx y hy hown hne hid deviceId rfl haddr p hp hdevice hpeer
      rw [hno x hx y hy hown hne hid haddr p hp hdevice] at hpeer
      exact Bool.false_ne_true hpeer
    refine ⟨hwithin, (List.pairwise_map.mp hrows).imp_of_mem ?_⟩
    intro x y hx hy hkey pair hpx hpy
    obtain ⟨hidx, htx⟩ := (hmem x pair).mp hpx
    obtain ⟨hidy, hty⟩ := (hmem y pair).mp hpy
    have hid := hidx.trans hidy.symm
    rcases mem_rowTargets.mp htx with ⟨hnex, hdx, hax⟩ | ⟨hownx, p, hp, hpd, hpa⟩
    · rcases mem_rowTargets.mp hty with ⟨_, hdy, _⟩ | ⟨howny, p, hp, hpd, hpa⟩
      · exact hkey (Prod.ext hid (hdx.trans hdy.symm))
      · exact hone y hy x hx howny hnex hid.symm _ hdx hax p hp hpd hpa
    · rcases mem_rowTargets.mp hty with ⟨hney, hdy, hay⟩ | ⟨howny, _⟩
      · exact hone x hx y hy hownx hney hid _ hdy hay p hp hpd hpa
      · exact hkey (Prod.ext hid (hownx.trans howny.symm))

theorem mem_pairs_iff_wanted (db : Database) (listing : db.DeviceListing) (folderId : ℕ)
    (deviceId : String) : Wanted own res db listing folderId deviceId ↔
      (folderId, deviceId) ∈ (bulkSlots own res db listing).filterMap Slot.pair := by
  rw [filterMap_pair_bulkSlots, List.mem_flatMap]
  unfold Wanted
  constructor
  · rintro ⟨x, hx, rfl, htarget⟩
    obtain ⟨t, ht, rfl⟩ := mem_rowTargets.mpr htarget
    exact ⟨x, hx, List.mem_map.mpr ⟨t, ht, rfl⟩⟩
  · rintro ⟨x, hx, hpair⟩
    obtain ⟨t, ht, heq⟩ := List.mem_map.mp hpair
    have hid : x.1.id = folderId := congrArg Prod.fst heq
    have hdevice : t.1 = deviceId := congrArg Prod.snd heq
    exact ⟨x, hx, hid, mem_rowTargets.mp ⟨t, ht, hdevice⟩⟩

end

/-- **Once for each pair.** Every pair that can be reached has a session, and none has
two unless its folder is also served by us. -/
theorem eachPairOnce_iff (own : String) (res : Resolution) (s : DbState)
    (listing : s.val.DeviceListing) (sessions : Sessions) :
    EachPairOnce own res s listing sessions ↔ NoOverlap own res s.val listing := by
  have hkeys : s.val.Keys := DbState.keys s
  have hpairs : (syncAllFoldersWith own res sessions s listing).pairs =
      (bulkSlots own res s.val listing).filterMap Slot.pair := (syncAllFoldersWith_eq s listing).1
  rw [← targets_nodup_iff hkeys listing, ← hpairs]
  constructor
  · exact fun h => h.once
  · intro honce
    refine ⟨honce, ?_, bulkSlots own res s.val listing, fun results => syncAllFoldersWith_eq s listing⟩
    intro folderId deviceId
    rw [hpairs]
    exact mem_pairs_iff_wanted s.val listing folderId deviceId

/-- A folder that is served, and has a pair with the phone. -/
def servedAndPaired : Database :=
  { Database.empty with
    devices := [⟨"laptop", "Laptop", none, none⟩, ⟨"phone", "Phone", none, none⟩]
    syncFolders := [⟨1, "/photos", none, "laptop", "sync", none⟩]
    folderDevices := [⟨1, "laptop", "sync", none, true⟩, ⟨1, "phone", "sync", none, true⟩]
    folderSeq := 1 }

theorem synced_twice : ¬EachPairOnce "laptop"
    ⟨fun _ => some "192.168.1.20:9847", fun _ => some "192.168.1.20:9847", fun _ => false⟩
    ⟨servedAndPaired, by decide⟩ ⟨["laptop", "phone"], List.Perm.refl _⟩
    (fun _ _ s => (.error "connection refused", s)) := by
  intro h
  have honce := h.once
  have hsorted : servedAndPaired.listSyncFolders =
      [⟨1, "/photos", "laptop", "sync"⟩, ⟨1, "/photos", "phone", "sync"⟩] := by
    unfold Database.listSyncFolders
    apply List.mergeSort_of_pairwise
    decide
  unfold BulkRun.pairs at honce
  rw [(syncAllFoldersWith_eq _ _).1, filterMap_pair_bulkSlots] at honce
  unfold bulkRows at honce
  rw [hsorted] at honce
  exact absurd honce (by decide)

end FerriSync
