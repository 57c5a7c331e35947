/-
# The summary of folders and conflicts

`snapshot` (`health.rs`) derives the status of the devices and of the folders, a row for each
enabled pair, and sums the rows up. So a folder is counted once for each device that it is
paired with, and so are the backups in it that are listed; a backup that is not listed is not
counted (`summary_counts_once_iff`).

Key definitions: `Presence`, `folderHealth`, `computeFolderStatuses`, `summarize`, `snapshot`,
`backupFiles`, `CountsOnce`, `EvensOut`.
Key theorems: `foldersTotal_eq`, `conflictsTotal_eq`, `summary_counts_once_iff`.
-/
import FerriSync.Conflicts
import FerriSync.Health
import FerriSync.Replicas

namespace FerriSync

open Keyed Transactions

/-! ### The status of devices and folders -/

def connectedWindowSecs : ℤ := 300
def recentlySeenWindowSecs : ℤ := 24 * 60 * 60

/-- How recently a paired device was last heard from. -/
inductive Presence
  | connected
  | recentlySeen
  | offline
deriving DecidableEq, Repr

def Presence.fromLastSeen (nowSecs : ℤ) (lastSeen : Option ℤ) : Presence :=
  match lastSeen with
  | none => .offline
  | some ts =>
    if nowSecs - ts ≤ connectedWindowSecs then .connected
    else if nowSecs - ts ≤ recentlySeenWindowSecs then .recentlySeen
    else .offline

/-- The healths that need attention. -/
def FolderHealth.needsAttention : FolderHealth → Bool
  | conflict | error | offline => true
  | healthy | syncing | waiting | notConfigured => false

structure DeviceStatus where
  id : String
  name : String
  presence : Presence
  folderCount : ℕ
deriving DecidableEq

/-- What only the caller knows: the paths of folders that are transferring, and of those
whose last sync failed. -/
structure LiveState where
  syncing : List String
  errored : List String

/-- The time, what is known at it besides the tables, and the order in which the devices are
listed. -/
structure Moment (db : Database) where
  devices : db.DeviceOrder
  lastSeen : String → Option ℤ
  lastSync : ℕ → WithBot ℤ
  now : ℤ
  live : LiveState

/-- An unresolved conflict wins over a folder that is transferring. -/
def folderHealth (deviceId ownDeviceId : String) (devPresence : Presence) (lastSync : WithBot ℤ)
    (conflicts : ℕ) (isSyncing isErrored : Bool) : FolderHealth :=
  if deviceId = ownDeviceId then .notConfigured
  else if 0 < conflicts then .conflict
  else if isSyncing then .syncing
  else if isErrored then .error
  else match devPresence with
    | .connected => if lastSync ≠ ⊥ then .healthy else .waiting
    | .recentlySeen => .waiting
    | .offline => if lastSync = ⊥ then .offline else .waiting

structure HealthSummary where
  deviceTotal : ℕ
  deviceConnected : ℕ
  deviceRecentlySeen : ℕ
  foldersTotal : ℕ
  foldersHealthy : ℕ
  foldersNeedingAttention : ℕ
  conflictsTotal : ℕ
  lastSyncSecs : WithBot ℤ

/-- Aggregate counts for summaries and banners. -/
def summarize (devices : List DeviceStatus) (folders : List FolderStatus) : HealthSummary where
  deviceTotal := devices.length
  deviceConnected := devices.countP fun d => decide (d.presence = .connected)
  deviceRecentlySeen := devices.countP fun d => decide (d.presence = .recentlySeen)
  foldersTotal := folders.length
  foldersHealthy := folders.countP fun f => decide (f.health = .healthy) || decide (f.health = .syncing)
  foldersNeedingAttention := folders.countP fun f => f.health.needsAttention
  conflictsTotal := (folders.map (·.conflicts)).sum
  lastSyncSecs := (folders.map (·.lastSync)).foldl max ⊥

structure HealthSnapshot where
  devices : List DeviceStatus
  folders : List FolderStatus
  summary : HealthSummary

section

variable (metadata : Folder → String → Option FileMeta) (roots : String → Option Folder)
  (ownDeviceId : String)

/-- The presence and the folders of every paired device but the own one. -/
def computeDeviceStatuses {db : Database} (m : Moment db) : List DeviceStatus :=
  ((m.devices.rows.filter fun d => decide (d.id ≠ ownDeviceId)).map fun d =>
    { id := d.id
      name := d.name
      presence := .fromLastSeen m.now (m.lastSeen d.id)
      folderCount := db.listSyncFolders.countP fun row => decide (row.deviceId = d.id) }).mergeSort
    fun a b => !decide (a.presence ≠ .connected) && decide (b.presence ≠ .connected) ||
      decide (decide (a.presence ≠ .connected) = decide (b.presence ≠ .connected)) && decide (a.name ≤ b.name)

/-- The status of a folder and a device that it is paired with. -/
def folderStatus {db : Database} (m : Moment db) (row : SyncPair) : FolderStatus :=
  let count := ((folderConflictCounts metadata db roots).lookup row.id).getD 0
  let device := m.devices.rows.find? fun d => decide (d.id = row.deviceId)
  { id := row.id
    path := row.localPath
    deviceId := row.deviceId
    deviceName := device.map (·.name)
    health := folderHealth row.deviceId ownDeviceId
      ((device.map fun d => .fromLastSeen m.now (m.lastSeen d.id)).getD .offline)
      (m.lastSync row.id) count (m.live.syncing.contains row.localPath) (m.live.errored.contains row.localPath)
    lastSync := m.lastSync row.id
    conflicts := count }

/-- Every configured folder with its peer label and derived health. -/
def computeFolderStatuses {db : Database} (m : Moment db) : List FolderStatus :=
  (db.listSyncFolders.map (folderStatus metadata roots ownDeviceId m)).mergeSort fun a b =>
    decide (a.path ≤ b.path)

/-- Everything derived in a single snapshot. -/
def snapshot {db : Database} (m : Moment db) : HealthSnapshot where
  devices := computeDeviceStatuses ownDeviceId m
  folders := computeFolderStatuses metadata roots ownDeviceId m
  summary := summarize (computeDeviceStatuses ownDeviceId m) (computeFolderStatuses metadata roots ownDeviceId m)

end

/-! ### What it should count -/

/-- The files that are backups, each with the path of its folder and its own in it. -/
def backupFiles (db : Database) (roots : String → Option Folder) : List (String × RelPath) :=
  (db.syncFolders.map (·.localPath)).dedup.flatMap fun path =>
    match roots path with
    | none => []
    | some f => (f.files.keys.filter isConflict).map fun p => (path, p)

/-- The totals are the numbers of folders and of backup files, also after `t`, and a device
that is attached changes neither. -/
structure CountsOnce (metadata : Folder → String → Option FileMeta) (roots : String → Option Folder)
    (ownDeviceId : String) (s t : DbState) : Prop where
  folders : ∀ m : Moment s.val,
    (snapshot metadata roots ownDeviceId m).summary.foldersTotal = s.val.syncFolders.length
  conflicts : ∀ m : Moment s.val,
    (snapshot metadata roots ownDeviceId m).summary.conflictsTotal = (backupFiles s.val roots).length
  attached : ∀ (m : Moment s.val) (m' : Moment t.val),
    (snapshot metadata roots ownDeviceId m').summary.foldersTotal =
        (snapshot metadata roots ownDeviceId m).summary.foldersTotal ∧
      (snapshot metadata roots ownDeviceId m').summary.conflictsTotal =
        (snapshot metadata roots ownDeviceId m).summary.conflictsTotal

/-- What is counted several times makes up for what is not counted. -/
def EvensOut {α : Type} (times : α → ℕ) (xs : List α) : Prop :=
  (xs.map fun x => times x - 1).sum = xs.countP fun x => decide (times x = 0)

namespace Database

variable (db : Database)

/-- The enabled pairs of the folder. -/
def enabledPairs (folderId : ℕ) : ℕ :=
  db.folderDevices.countP fun p => decide (p.folderId = folderId) && p.enabled

def EnabledPair (folderId : ℕ) (deviceId : String) : Prop :=
  ∃ p ∈ db.folderDevices, p.folderId = folderId ∧ p.deviceId = deviceId ∧ p.enabled = true

end Database

/-- The folder is that of the smallest number that has a backup of this path. -/
def FirstBackup (db : Database) (roots : String → Option Folder) (folderId : ℕ) (p : RelPath) : Prop :=
  HasBackup db roots folderId p ∧ ∀ id < folderId, ¬HasBackup db roots id p

open Classical in
/-- The enabled pairs of the folder at the path of the file, if it is the first with a backup
of the file's path. -/
noncomputable def timesCounted (db : Database) (roots : String → Option Folder) (x : String × RelPath) : ℕ :=
  db.listSyncFolders.countP fun row => decide (row.localPath = x.1 ∧ FirstBackup db roots row.id x.2)

/-! ### Sums -/

theorem sum_map_eq_length_iff {α : Type} {times : α → ℕ} : ∀ {xs : List α},
    (xs.map times).sum + xs.countP (fun x => decide (times x = 0)) =
      xs.length + (xs.map fun x => times x - 1).sum
  | [] => rfl
  | x :: xs => by
    have ih := @sum_map_eq_length_iff α times xs
    rw [List.map_cons, List.map_cons, List.sum_cons, List.sum_cons, List.countP_cons, List.length_cons]
    by_cases h : times x = 0
    · rw [if_pos (decide_eq_true h)]
      omega
    · rw [if_neg (by simpa using h)]
      omega

theorem evensOut_iff {α : Type} {times : α → ℕ} {xs : List α} :
    EvensOut times xs ↔ (xs.map times).sum = xs.length := by
  have h := @sum_map_eq_length_iff α times xs
  unfold EvensOut
  omega

/-- What is related is counted from either side. -/
theorem sum_countP_comm {α β : Type} (related : α → β → Bool) (ys : List β) : ∀ xs : List α,
    (xs.map fun x => ys.countP (related x)).sum = (ys.map fun y => xs.countP fun x => related x y).sum
  | [] => by simp
  | x :: xs => by
    have hx : ∀ ys : List β, (ys.map fun y => xs.countP (fun x => related x y) + if related x y then 1 else 0).sum =
        (ys.map fun y => xs.countP fun x => related x y).sum + ys.countP (related x) := by
      intro ys
      induction ys with
      | nil => rfl
      | cons y ys ih =>
        rw [List.map_cons, List.map_cons, List.sum_cons, List.sum_cons, List.countP_cons, ih]
        omega
    simp only [List.map_cons, List.sum_cons, List.countP_cons, hx]
    rw [sum_countP_comm related ys xs]
    omega

/-! ### The rows that are summed up -/

section

variable {db db' : Database} {roots : String → Option Folder} {folderId : ℕ} {deviceId : String}

/-- What of a row tells which backups it counts. -/
def SyncPair.place (row : SyncPair) : ℕ × String × String := (row.id, row.localPath, row.deviceId)

theorem mem_places {x : ℕ × String × String} : x ∈ db.listSyncFolders.map SyncPair.place ↔
    (∃ f ∈ db.syncFolders, f.id = x.1 ∧ f.localPath = x.2.1) ∧ db.EnabledPair x.1 x.2.2 := by
  rw [List.mem_map]
  constructor
  · rintro ⟨row, hrow, rfl⟩
    obtain ⟨f, hf, p, hp, hfolder, henabled, rfl⟩ := Database.mem_listSyncFolders.mp hrow
    exact ⟨⟨f, hf, rfl, rfl⟩, p, hp, hfolder, rfl, henabled⟩
  · rintro ⟨⟨f, hf, hid, hpath⟩, p, hp, hfolder, hdevice, henabled⟩
    refine ⟨⟨f.id, f.localPath, p.deviceId, p.mode⟩, ?_, ?_⟩
    · exact Database.mem_listSyncFolders.mpr ⟨f, hf, p, hp, hfolder.trans hid.symm, henabled, rfl⟩
    · unfold SyncPair.place
      rw [hid, hpath, hdevice]

theorem places_nodup (hkeys : db.Keys) : (db.listSyncFolders.map SyncPair.place).Nodup := by
  have h := db.listSyncFolders_nodup hkeys
  have hmap : db.listSyncFolders.map (fun row => (row.id, row.deviceId)) =
      (db.listSyncFolders.map SyncPair.place).map fun x => (x.1, x.2.2) := by
    rw [List.map_map]
    rfl
  rw [hmap] at h
  exact h.of_map

/-- The same folders and enabled pairs give the same rows, but for the modes. -/
theorem places_perm (hkeys : db.Keys) (hkeys' : db'.Keys) (hfolders : db'.syncFolders = db.syncFolders)
    (hpairs : ∀ id device, db'.EnabledPair id device ↔ db.EnabledPair id device) :
    (db'.listSyncFolders.map SyncPair.place).Perm (db.listSyncFolders.map SyncPair.place) := by
  refine (List.perm_ext_iff_of_nodup (places_nodup hkeys') (places_nodup hkeys)).mpr fun x => ?_
  rw [mem_places, mem_places, hfolders, hpairs]

theorem hasBackup_iff_places {p : RelPath} : HasBackup db roots folderId p ↔
    isConflict p = true ∧ ∃ x ∈ db.listSyncFolders.map SyncPair.place, x.1 = folderId ∧
      ∃ f, roots x.2.1 = some f ∧ (f.entry p).isSome = true := by
  unfold HasBackup
  refine and_congr_right fun _ => ?_
  simp only [List.mem_map, exists_exists_and_eq_and, SyncPair.place]

theorem firstBackup_congr (h : (db'.listSyncFolders.map SyncPair.place).Perm
    (db.listSyncFolders.map SyncPair.place)) (folderId : ℕ) (p : RelPath) :
    FirstBackup db' roots folderId p ↔ FirstBackup db roots folderId p := by
  unfold FirstBackup
  simp only [hasBackup_iff_places, h.mem_iff]

open Classical in
theorem timesCounted_eq_places (x : String × RelPath) : timesCounted db roots x =
    (db.listSyncFolders.map SyncPair.place).countP fun y =>
      decide (y.2.1 = x.1 ∧ FirstBackup db roots y.1 x.2) := by
  rw [List.countP_map]
  rfl

open Classical in
theorem timesCounted_congr (h : (db'.listSyncFolders.map SyncPair.place).Perm
    (db.listSyncFolders.map SyncPair.place)) (x : String × RelPath) :
    timesCounted db' roots x = timesCounted db roots x := by
  rw [timesCounted_eq_places, timesCounted_eq_places, h.countP_eq]
  apply List.countP_congr
  intro y _
  rw [decide_eq_true_iff, decide_eq_true_iff, firstBackup_congr h]

/-! ### The total of the folders -/

variable {metadata : Folder → String → Option FileMeta} {ownDeviceId : String}

theorem foldersTotal_length (m : Moment db) :
    (snapshot metadata roots ownDeviceId m).summary.foldersTotal = db.listSyncFolders.length := by
  calc (computeFolderStatuses metadata roots ownDeviceId m).length
      = (db.listSyncFolders.map (folderStatus metadata roots ownDeviceId m)).length :=
        (List.mergeSort_perm _ _).length_eq
    _ = db.listSyncFolders.length := List.length_map _

/-- **A folder is counted once for each of its enabled pairs.** -/
theorem foldersTotal_eq (m : Moment db) : (snapshot metadata roots ownDeviceId m).summary.foldersTotal =
    (db.syncFolders.map fun f => db.enabledPairs f.id).sum := by
  rw [foldersTotal_length]
  unfold Database.listSyncFolders Database.enabledPairs
  rw [(List.mergeSort_perm _ _).length_eq, List.length_flatMap]
  simp only [List.length_map, List.countP_eq_length_filter]

/-! ### The total of the conflicts -/

theorem mem_backupFiles {path : String} {p : RelPath} : (path, p) ∈ backupFiles db roots ↔
    (∃ f ∈ db.syncFolders, f.localPath = path) ∧ isConflict p = true ∧
      ∃ f, roots path = some f ∧ (f.entry p).isSome = true := by
  unfold backupFiles
  rw [List.mem_flatMap]
  constructor
  · rintro ⟨path', hpath, hmem⟩
    cases hroot : roots path' with
    | none =>
      rw [hroot] at hmem
      cases hmem
    | some f =>
      rw [hroot] at hmem
      obtain ⟨q, hq, heq⟩ := List.mem_map.mp hmem
      obtain ⟨rfl, rfl⟩ := Prod.mk.inj heq
      obtain ⟨hkey, hconflict⟩ := List.mem_filter.mp hq
      exact ⟨List.mem_map.mp (List.mem_dedup.mp hpath), hconflict, f, hroot, AList.lookup_isSome.mpr hkey⟩
  · rintro ⟨hfolder, hconflict, f, hroot, hentry⟩
    refine ⟨path, List.mem_dedup.mpr (List.mem_map.mpr hfolder), ?_⟩
    rw [hroot]
    exact List.mem_map_of_mem (List.mem_filter.mpr ⟨AList.lookup_isSome.mp hentry, hconflict⟩)

theorem backupFiles_nodup : (backupFiles db roots).Nodup := by
  unfold backupFiles
  have hfst : ∀ (path : String) (x : String × RelPath), x ∈ (match roots path with
      | none => []
      | some f => (f.files.keys.filter isConflict).map fun p => (path, p)) → x.1 = path := by
    intro path x hx
    cases hroot : roots path with
    | none =>
      rw [hroot] at hx
      cases hx
    | some f =>
      rw [hroot] at hx
      obtain ⟨q, _, rfl⟩ := List.mem_map.mp hx
      rfl
  apply List.nodup_flatMap.mpr
  constructor
  · intro path _
    cases roots path with
    | none => exact List.nodup_nil
    | some f => exact (f.files.nodupKeys.filter _).map fun p q heq => (Prod.mk.inj heq).2
  · refine (List.nodup_dedup _).imp fun hne => ?_
    intro x hx hx'
    exact hne ((hfst _ x hx).symm.trans (hfst _ x hx'))

theorem localPath_of_id (hkeys : db.Keys) {row row' : SyncPair} (hrow : row ∈ db.listSyncFolders)
    (hrow' : row' ∈ db.listSyncFolders) (h : row'.id = row.id) : row'.localPath = row.localPath := by
  obtain ⟨f, hf, p, _, _, _, rfl⟩ := Database.mem_listSyncFolders.mp hrow
  obtain ⟨f', hf', p', _, _, _, rfl⟩ := Database.mem_listSyncFolders.mp hrow'
  exact congrArg SyncFolderRow.localPath (List.inj_on_of_nodup_map hkeys.syncFolders hf' hf h)

/-- The file of a folder's backup. -/
theorem mem_backupFiles_of_hasBackup (hkeys : db.Keys) {row : SyncPair} (hrow : row ∈ db.listSyncFolders)
    {p : RelPath} (h : HasBackup db roots row.id p) : (row.localPath, p) ∈ backupFiles db roots := by
  obtain ⟨hconflict, row', hrow', hid, f, hroot, hentry⟩ := h
  rw [localPath_of_id hkeys hrow hrow' hid] at hroot
  obtain ⟨g, hg, _, _, _, _, rfl⟩ := Database.mem_listSyncFolders.mp hrow
  exact mem_backupFiles.mpr ⟨⟨g, hg, rfl⟩, hconflict, f, hroot, hentry⟩

open Classical in
/-- A folder's backups in the list are its files that no folder before has. -/
theorem count_listConflicts (hkeys : db.Keys) {row : SyncPair} (hrow : row ∈ db.listSyncFolders) :
    ((listConflicts metadata db roots).countP fun c => decide (c.folderId = row.id)) =
      (backupFiles db roots).countP fun x =>
        decide (row.localPath = x.1 ∧ FirstBackup db roots row.id x.2) := by
  -- both are told apart by the paths of the backups
  have hlisted : (((listConflicts metadata db roots).filter fun c => decide (c.folderId = row.id)).map
      ConflictEntry.backupPath).Nodup := by
    have hnodup : ((listConflicts metadata db roots).map ConflictEntry.backupPath).Nodup := by
      rw [listConflicts_eq]
      exact keepFirst_nodup _
    exact hnodup.sublist (List.filter_sublist.map _)
  have hfiles : (((backupFiles db roots).filter fun x =>
      decide (row.localPath = x.1 ∧ FirstBackup db roots row.id x.2)).map fun x => render x.2).Nodup := by
    refine List.Nodup.map_on ?_ (backupFiles_nodup.filter _)
    rintro ⟨path, p⟩ hx ⟨path', p'⟩ hx' heq
    obtain ⟨hmem, hfirst⟩ := List.mem_filter.mp hx
    obtain ⟨hmem', hfirst'⟩ := List.mem_filter.mp hx'
    have hpath : row.localPath = path := (of_decide_eq_true hfirst).1
    have hpath' : row.localPath = path' := (of_decide_eq_true hfirst').1
    have hp : p = p' := render_injective (isConflict_ne_nil (mem_backupFiles.mp hmem).2.1)
      (isConflict_ne_nil (mem_backupFiles.mp hmem').2.1) heq
    rw [hp, ← hpath, ← hpath']
  have hsame : (((listConflicts metadata db roots).filter fun c => decide (c.folderId = row.id)).map
      ConflictEntry.backupPath).Perm (((backupFiles db roots).filter fun x =>
        decide (row.localPath = x.1 ∧ FirstBackup db roots row.id x.2)).map fun x => render x.2) := by
    refine (List.perm_ext_iff_of_nodup hlisted hfiles).mpr fun path => ?_
    simp only [List.mem_map, List.mem_filter, decide_eq_true_eq]
    constructor
    · rintro ⟨c, ⟨hc, hid⟩, rfl⟩
      have hfound : c ∈ found metadata db roots := by
        rw [listConflicts_eq] at hc
        exact mem_of_mem_keepFirst hc
      obtain ⟨_, _, _, _, p, _, _, hentry⟩ := mem_found.mp hfound
      have hback : c.backupPath = render p := (conflictEntry_eq hentry).2.2
      have hfirst : FirstBackup db roots row.id p := mem_listConflicts.mp ⟨c, hc, hid, hback⟩
      exact ⟨(row.localPath, p), ⟨mem_backupFiles_of_hasBackup hkeys hrow hfirst.1, rfl, hfirst⟩, hback.symm⟩
    · rintro ⟨⟨_, p⟩, ⟨_, rfl, hfirst⟩, rfl⟩
      obtain ⟨c, hc, hid, hpath⟩ := (@mem_listConflicts metadata db roots row.id p).mpr hfirst
      exact ⟨c, ⟨hc, hid⟩, hpath⟩
  rw [List.countP_eq_length_filter, List.countP_eq_length_filter]
  simpa only [List.length_map] using hsame.length_eq

/-- **A backup is counted once for each enabled pair of the folder that it is listed for.** -/
theorem conflictsTotal_eq (hkeys : db.Keys) (m : Moment db) :
    (snapshot metadata roots ownDeviceId m).summary.conflictsTotal =
      ((backupFiles db roots).map (timesCounted db roots)).sum := by
  classical
  calc ((computeFolderStatuses metadata roots ownDeviceId m).map (·.conflicts)).sum
      = ((db.listSyncFolders.map (folderStatus metadata roots ownDeviceId m)).map (·.conflicts)).sum :=
        ((List.mergeSort_perm _ _).map _).sum_nat
    _ = (db.listSyncFolders.map fun row =>
          (listConflicts metadata db roots).countP fun c => decide (c.folderId = row.id)).sum := by
        rw [List.map_map]
        refine congrArg List.sum (List.map_congr_left fun row _ => ?_)
        exact lookup_folderConflictCounts row.id
    _ = (db.listSyncFolders.map fun row => (backupFiles db roots).countP fun x =>
          decide (row.localPath = x.1 ∧ FirstBackup db roots row.id x.2)).sum :=
        congrArg List.sum (List.map_congr_left fun row hrow => count_listConflicts hkeys hrow)
    _ = ((backupFiles db roots).map (timesCounted db roots)).sum := sum_countP_comm _ _ _

/-! ### A further device -/

theorem enabledPair_putPair {mode : String} {remotePath : Option String} {id : ℕ} {device : String} :
    (db.putPair folderId deviceId mode remotePath).EnabledPair id device ↔
      db.EnabledPair id device ∨ id = folderId ∧ device = deviceId := by
  -- a row of the pair is changed, or one is added
  have hput : (db.putPair folderId deviceId mode remotePath).EnabledPair folderId deviceId := by
    unfold Database.EnabledPair Database.putPair upsert
    dsimp only
    by_cases hany : db.folderDevices.any (fun p => decide (p.folderId = folderId) && decide (p.deviceId = deviceId))
    · obtain ⟨p, hp, hsame⟩ := List.any_eq_true.mp hany
      rw [if_pos hany]
      refine ⟨_, List.mem_map_of_mem hp, ?_⟩
      rw [if_pos hsame]
      simpa using hsame
    · rw [if_neg hany]
      exact ⟨_, List.mem_append_right _ (List.mem_singleton_self _), rfl, rfl, rfl⟩
  constructor
  · rintro ⟨p, hp, rfl, rfl, henabled⟩
    rcases mem_upsert hp with hp | ⟨q, _, hsame, rfl⟩ | rfl
    · exact Or.inl ⟨p, hp, rfl, rfl, henabled⟩
    · exact Or.inr (by simpa using hsame)
    · exact Or.inr ⟨rfl, rfl⟩
  · rintro (⟨p, hp, rfl, rfl, henabled⟩ | ⟨rfl, rfl⟩)
    · by_cases hsame : p.folderId = folderId ∧ p.deviceId = deviceId
      · rw [hsame.1, hsame.2]
        exact hput
      · have hother : ¬(decide (p.folderId = folderId) && decide (p.deviceId = deviceId)) = true := by
          simpa using hsame
        refine ⟨p, ?_, rfl, rfl, henabled⟩
        unfold Database.putPair upsert
        dsimp only
        split
        · exact List.mem_map.mpr ⟨p, hp, if_neg hother⟩
        · exact List.mem_append_left _ hp
    · exact hput

variable {s : DbState}

/-- What attaching a device leaves. -/
theorem after_addFolderDevice (folderId : ℕ) (deviceId mode : String) (remotePath : Option String) :
    (Effects.after (Api.addFolderDevice folderId deviceId mode remotePath) s).val.syncFolders =
        s.val.syncFolders ∧
      ∀ id device, (Effects.after (Api.addFolderDevice folderId deviceId mode remotePath) s).val.EnabledPair
        id device ↔ s.val.EnabledPair id device ∨
          folderId ∈ s.val.folderIds ∧ id = folderId ∧ device = deviceId := by
  obtain ⟨t, hok, ht⟩ := @Database.upsertDevice_ok s deviceId deviceId none none
  have hafter : Effects.after (Api.addFolderDevice folderId deviceId mode remotePath) s =
      Effects.after (Database.addFolderDevice folderId deviceId mode remotePath) t := by
    unfold Api.addFolderDevice
    rw [Effects.after, Effects.bind_ok hok, Effects.after]
  have hfolders : t.val.syncFolders = s.val.syncFolders := by rw [ht]; rfl
  have hpairs : ∀ id device, t.val.EnabledPair id device ↔ s.val.EnabledPair id device := by
    intro id device
    rw [ht]
    rfl
  have hids : t.val.folderIds = s.val.folderIds :=
    congrArg (List.map fun f : SyncFolderRow => f.id) hfolders
  have hdevice : deviceId ∈ t.val.deviceIds := by
    rw [ht]
    exact Database.mem_deviceIds_putDevice deviceId deviceId none none
  rw [hafter, ← hids]
  by_cases hfolder : folderId ∈ t.val.folderIds
  · rcases @Database.addFolderDevice_cases t deviceId folderId mode remotePath hfolder with
      ⟨_, t', hput, ht'⟩ | ⟨hmissing, _⟩
    · rw [Effects.after_ok hput, ht']
      refine ⟨hfolders, fun id device => ?_⟩
      rw [enabledPair_putPair, hpairs, and_iff_right hfolder]
    · exact absurd hdevice hmissing
  · obtain ⟨e, he⟩ := Option.ne_none_iff_exists'.mp fun h =>
      hfolder ((@Database.putPair_valid t.val folderId deviceId mode remotePath t.valid).mp h).1
    have hfails : Database.addFolderDevice folderId deviceId mode remotePath t = .error e t :=
      execute_error he
    rw [Effects.after_error hfails]
    refine ⟨hfolders, fun id device => ?_⟩
    rw [hpairs]
    exact (or_iff_left fun h => hfolder h.1).symm

/-- A pair more is a row more. -/
theorem length_lt_of_pair (hkeys : db.Keys) (hfolders : db'.syncFolders = db.syncFolders)
    (hfolder : folderId ∈ db.folderIds) (hnew : ¬db.EnabledPair folderId deviceId)
    (hpairs : ∀ id device, db'.EnabledPair id device ↔
      db.EnabledPair id device ∨ id = folderId ∧ device = deviceId) :
    db.listSyncFolders.length < db'.listSyncFolders.length := by
  obtain ⟨f, hf, rfl⟩ := List.mem_map.mp hfolder
  have hnodup : ((f.id, f.localPath, deviceId) :: db.listSyncFolders.map SyncPair.place).Nodup :=
    List.nodup_cons.mpr ⟨fun hmem => hnew (mem_places.mp hmem).2, places_nodup hkeys⟩
  have hsubset : (f.id, f.localPath, deviceId) :: db.listSyncFolders.map SyncPair.place ⊆
      db'.listSyncFolders.map SyncPair.place := by
    intro x hx
    rw [mem_places, hfolders, hpairs]
    rcases List.mem_cons.mp hx with rfl | hx
    · exact ⟨⟨f, hf, rfl, rfl⟩, Or.inr ⟨rfl, rfl⟩⟩
    · obtain ⟨hplace, hpair⟩ := mem_places.mp hx
      exact ⟨hplace, Or.inl hpair⟩
  have hle := (List.subperm_of_subset hnodup hsubset).length_le
  rw [List.length_cons, List.length_map, List.length_map] at hle
  omega

end

/-- Any moment. -/
def Moment.zero (db : Database) : Moment db :=
  ⟨⟨db.devices, List.Perm.refl _⟩, fun _ => none, fun _ => ⊥, 0, ⟨[], []⟩⟩

open Transactions in
/-- **The summary counts each thing once** exactly if the further pairs make up for what has
none and the repeated backups for what is not listed, and the device that is attached is
attached already, if the folder exists. -/
theorem summary_counts_once_iff (metadata : Folder → String → Option FileMeta)
    (roots : String → Option Folder) (ownDeviceId : String) (s : DbState) (folderId : ℕ)
    (deviceId mode : String) (remotePath : Option String) :
    CountsOnce metadata roots ownDeviceId s
        (Effects.after (Api.addFolderDevice folderId deviceId mode remotePath) s) ↔
      EvensOut (fun f => s.val.enabledPairs f.id) s.val.syncFolders ∧
      EvensOut (timesCounted s.val roots) (backupFiles s.val roots) ∧
      (folderId ∈ s.val.folderIds → s.val.EnabledPair folderId deviceId) := by
  obtain ⟨hfolders, hpairs⟩ := @after_addFolderDevice s folderId deviceId mode remotePath
  have hkeys : s.val.Keys := s.keys
  have hkeys' := DbState.keys (Effects.after (Api.addFolderDevice folderId deviceId mode remotePath) s)
  constructor
  · intro h
    refine ⟨evensOut_iff.mpr ?_, evensOut_iff.mpr ?_, fun hfolder => ?_⟩
    · rw [← foldersTotal_eq (Moment.zero s.val)]
      exact h.folders (Moment.zero s.val)
    · rw [← conflictsTotal_eq hkeys (Moment.zero s.val)]
      exact h.conflicts (Moment.zero s.val)
    · by_contra hnew
      have hlt := length_lt_of_pair hkeys hfolders hfolder hnew fun id device =>
        (hpairs id device).trans (or_congr_right (and_iff_right hfolder))
      have heq := (h.attached (Moment.zero s.val) (Moment.zero _)).1
      rw [foldersTotal_length, foldersTotal_length] at heq
      exact absurd heq (Nat.ne_of_gt hlt)
  · rintro ⟨hbalanced, hconflicts, hattached⟩
    have hsame : ∀ id device,
        (Effects.after (Api.addFolderDevice folderId deviceId mode remotePath) s).val.EnabledPair id device ↔
          s.val.EnabledPair id device := by
      intro id device
      rw [hpairs]
      refine or_iff_left_of_imp ?_
      rintro ⟨hfolder, rfl, rfl⟩
      exact hattached hfolder
    have hplaces := places_perm hkeys hkeys' hfolders hsame
    refine ⟨fun m => ?_, fun m => ?_, fun m m' => ⟨?_, ?_⟩⟩
    · rw [foldersTotal_eq]
      exact evensOut_iff.mp hbalanced
    · rw [conflictsTotal_eq hkeys]
      exact evensOut_iff.mp hconflicts
    · rw [foldersTotal_length, foldersTotal_length]
      simpa only [List.length_map] using hplaces.length_eq
    · have hfiles : backupFiles (Effects.after (Api.addFolderDevice folderId deviceId mode remotePath) s).val
          roots = backupFiles s.val roots := by
        unfold backupFiles
        rw [hfolders]
      rw [conflictsTotal_eq hkeys, conflictsTotal_eq hkeys', hfiles]
      exact congrArg List.sum (List.map_congr_left fun x _ => timesCounted_congr hplaces x)

/-- A folder that is paired with a phone and a tablet. -/
def musicForTwo : List StorageOp :=
  [.upsertDevice "laptop" "Laptop" none none, .upsertDevice "phone" "Phone" none none,
    .upsertDevice "tablet" "Tablet" none none, .addSyncFolder "/home/music" "phone" "bidirectional",
    .addFolderDevice 1 "tablet" "bidirectional" none]

open Transactions in
/-- **A folder of two devices is counted twice.** -/
theorem folder_counted_twice : ¬CountsOnce (fun _ _ => none) (fun _ => none) "laptop"
    ((Host.new 1).run sampleBlake3 musicForTwo).db
    (Effects.after (Api.addFolderDevice 1 "tablet" "bidirectional" none)
      ((Host.new 1).run sampleBlake3 musicForTwo).db) := by
  intro h
  have hfolders := h.folders (Moment.zero _)
  rw [foldersTotal_eq] at hfolders
  revert hfolders
  decide +kernel

end FerriSync
