/-
# Runs of both stores

The calls that are several statements: what SQLite does in one transaction is one
change of the tables, possible or not. Then the stores agree in a run exactly if SQLite
takes every call as the maps do (`stores_agree_iff`).

Key definitions: `Sqlite.withoutDevice`, `Both.Plain`.
Key theorems: `Sqlite.removeDevice_eq`, `agrees_iff`, `stores_agree_iff`.
-/
import FerriSync.Stores

namespace FerriSync

namespace Persistence

open Transactions

/-! ### Calls with several statements -/

namespace Sqlite

section

variable {α : Type} {rows : Tables → List α} {doomed : Tables → α → Bool} {erase : Tables → Tables}
  {s : SqliteStateStore}

theorem delete_ok (hvalid : violation (erase s.val) = none) :
    delete rows doomed erase s = .ok ((rows s.val).filter (doomed s.val)).length ⟨erase s.val, hvalid⟩ := by
  unfold delete
  rw [Effects.bind_ok (query_apply _), Effects.bind_ok (execute_ok hvalid)]
  rfl

theorem delete_error {e : StoreError} (hfails : violation (erase s.val) = some e) :
    delete rows doomed erase s = .error e s := by
  unfold delete
  rw [Effects.bind_ok (query_apply _), Effects.bind_error (execute_error hfails)]

/-- A device's sessions, history and files gone. -/
def withoutRecords (id : DeviceId) (t : Tables) : Tables := { t with
  syncSessions := t.syncSessions.filter fun r => !decide (r.peerDevice = id.val)
  fileHistory := t.fileHistory.filter fun h => !historyOf id t h
  fileMetadata := t.fileMetadata.filter fun m => !metadataOf id t m }

/-- And its folders. -/
def withoutFolders (id : DeviceId) (t : Tables) : Tables :=
  deleteFolders (fun f => decide (f.deviceId = id)) (withoutRecords id t)

/-- And its row. -/
def withoutDevice (id : DeviceId) (t : Tables) : Tables := { withoutFolders id t with
  devices := t.devices.filter fun d => !decide (d.id = id) }

theorem mem_ownedIds {id : DeviceId} {t : Tables} {folderId : FolderId} :
    folderId ∈ ownedIds id t ↔ ∃ f ∈ t.syncFolders.rows, f.deviceId = id ∧ f.id = folderId := by
  unfold ownedIds Keyed.keys Keyed.filter
  simp [and_assoc]

theorem withoutFolders_references {id : DeviceId} {t : Tables} (h : t.References) :
    (withoutFolders id t).References ↔ ∀ r ∈ t.tombstones, r.folderId ∉ ownedIds id t := by
  have hrecords : (withoutRecords id t).References :=
    ⟨h.folder, fun m hm => h.metadata m (List.mem_filter.mp hm).1,
      fun e he => h.history e (List.mem_filter.mp he).1, h.tombstone⟩
  unfold withoutFolders
  rw [deleteFolders_references hrecords]
  constructor
  · intro hfree r hr howned
    obtain ⟨f, hf, hdevice, hid⟩ := mem_ownedIds.mp howned
    exact (hfree f hf (decide_eq_true hdevice)).tombstone r hr hid.symm
  · intro hnone f hf hdevice
    have howned : f.id ∈ ownedIds id t := mem_ownedIds.mpr ⟨f, hf, of_decide_eq_true hdevice, rfl⟩
    refine ⟨fun m hm heq => ?_, fun e he heq => ?_, fun r hr heq => hnone r hr (heq ▸ howned)⟩
    · have hkept := (List.mem_filter.mp hm).2
      unfold metadataOf at hkept
      rw [heq, decide_eq_true howned] at hkept
      cases hkept
    · have hkept := (List.mem_filter.mp he).2
      unfold historyOf at hkept
      rw [heq, decide_eq_true howned, Bool.or_true] at hkept
      cases hkept

theorem withoutDevice_references {id : DeviceId} {t : Tables} (h : (withoutFolders id t).References) :
    (withoutDevice id t).References := by
  refine ⟨fun f hf => ?_, h.metadata, h.history, h.tombstone⟩
  obtain ⟨d, hd, heq⟩ := List.mem_map.mp (h.folder f hf)
  have howner : f.deviceId ≠ id := by simpa using (List.mem_filter.mp hf).2
  refine List.mem_map.mpr ⟨d, List.mem_filter.mpr ⟨hd, ?_⟩, heq⟩
  have hne : d.id ≠ id := fun hid => howner (heq ▸ hid)
  simpa using hne

/-- What a removal that succeeds returns. -/
def cleanupOf (id : DeviceId) (t : Tables) : DeviceCleanup where
  sessionsRemoved := (t.syncSessions.filter fun r => decide (r.peerDevice = id.val)).length
  historyRemoved := (t.fileHistory.filter (historyOf id t)).length
  metadataRemoved := (t.fileMetadata.rows.filter (metadataOf id t)).length
  foldersRemoved := (t.syncFolders.rows.filter fun f => decide (f.deviceId = id)).length
  deviceRemoved := (t.devices.rows.filter fun d => decide (d.id = id)).length

/-- **A device can be removed unless one of its folders has a tombstone.** -/
theorem removeDevice_eq (id : DeviceId) (s : SqliteStateStore) : removeDevice id s =
    (do execute (withoutDevice id); return cleanupOf id s.val : Sql _) s := by
  have hreferences := violation_eq_none.mp s.valid
  have hsessions : violation { s.val with
      syncSessions := s.val.syncSessions.filter fun r => !decide (r.peerDevice = id.val) } = none :=
    violation_eq_none.mpr ⟨hreferences.folder, hreferences.metadata, hreferences.history, hreferences.tombstone⟩
  have hhistory : violation { s.val with
      syncSessions := s.val.syncSessions.filter fun r => !decide (r.peerDevice = id.val)
      fileHistory := s.val.fileHistory.filter fun h => !historyOf id s.val h } = none :=
    violation_eq_none.mpr ⟨hreferences.folder, hreferences.metadata,
      fun e he => hreferences.history e (List.mem_filter.mp he).1, hreferences.tombstone⟩
  have hmetadata : violation (withoutRecords id s.val) = none :=
    violation_eq_none.mpr ⟨hreferences.folder, fun m hm => hreferences.metadata m (List.mem_filter.mp hm).1,
      fun e he => hreferences.history e (List.mem_filter.mp he).1, hreferences.tombstone⟩
  have hrecords : ∀ f : ℕ → ℕ → ℕ → Sql DeviceCleanup, (do
      let sessions ← delete (·.syncSessions) (fun _ r => decide (r.peerDevice = id.val))
        fun t => { t with syncSessions := t.syncSessions.filter fun r => !decide (r.peerDevice = id.val) }
      let history ← delete (·.fileHistory) (historyOf id)
        fun t => { t with fileHistory := t.fileHistory.filter fun h => !historyOf id t h }
      let metadata ← delete (·.fileMetadata.rows) (metadataOf id)
        fun t => { t with fileMetadata := t.fileMetadata.filter fun m => !metadataOf id t m }
      f sessions history metadata) s = f (cleanupOf id s.val).sessionsRemoved
        (cleanupOf id s.val).historyRemoved (cleanupOf id s.val).metadataRemoved ⟨_, hmetadata⟩ := by
    intro f
    have hfirst := @delete_ok _ (·.syncSessions) (fun _ r => decide (r.peerDevice = id.val))
      (fun t => { t with syncSessions := t.syncSessions.filter fun r => !decide (r.peerDevice = id.val) })
      s hsessions
    have hsecond := @delete_ok _ (·.fileHistory) (historyOf id)
      (fun t => { t with fileHistory := t.fileHistory.filter fun h => !historyOf id t h }) ⟨_, hsessions⟩ hhistory
    have hthird := @delete_ok _ (·.fileMetadata.rows) (metadataOf id)
      (fun t => { t with fileMetadata := t.fileMetadata.filter fun m => !metadataOf id t m })
      ⟨_, hhistory⟩ hmetadata
    exact (Effects.bind_ok hfirst).trans ((Effects.bind_ok hsecond).trans (Effects.bind_ok hthird))
  let t : SqliteStateStore := ⟨_, hmetadata⟩
  have hrest : ∀ sessions history metadata, (do
      let folders ← delete (·.syncFolders.rows) (fun _ f => decide (f.deviceId = id))
        (deleteFolders fun f => decide (f.deviceId = id))
      let device ← delete (·.devices.rows) (fun _ d => decide (d.id = id))
        fun t => { t with devices := t.devices.filter fun d => !decide (d.id = id) }
      return ⟨sessions, history, metadata, folders, device⟩ : Sql DeviceCleanup) t =
      if hvalid : violation (withoutDevice id s.val) = none then
        .ok ⟨sessions, history, metadata, (cleanupOf id s.val).foldersRemoved,
          (cleanupOf id s.val).deviceRemoved⟩ ⟨_, hvalid⟩
      else .error .foreignKeyFailed t := by
    intro sessions history metadata
    by_cases hfolders : (withoutFolders id s.val).References
    · have hdevice : violation (withoutDevice id s.val) = none :=
        violation_eq_none.mpr (withoutDevice_references hfolders)
      have hfirst := @delete_ok _ (·.syncFolders.rows) (fun _ f => decide (f.deviceId = id))
        (deleteFolders fun f => decide (f.deviceId = id)) t (violation_eq_none.mpr hfolders)
      have hsecond := @delete_ok _ (·.devices.rows) (fun _ d => decide (d.id = id))
        (fun t => { t with devices := t.devices.filter fun d => !decide (d.id = id) })
        ⟨_, violation_eq_none.mpr hfolders⟩ hdevice
      rw [dif_pos hdevice]
      exact (Effects.bind_ok hfirst).trans (Effects.bind_ok hsecond)
    · have hfails : ¬violation (withoutDevice id s.val) = none := fun hdevice =>
        hfolders (references_of_devices (violation_eq_none.mp hdevice) (List.filter_sublist.map _).subset)
      have hfirst := @delete_error _ (·.syncFolders.rows) (fun _ f => decide (f.deviceId = id))
        (deleteFolders fun f => decide (f.deviceId = id)) t _ (if_neg hfolders)
      rw [dif_neg hfails]
      exact Effects.bind_error hfirst
  unfold removeDevice transaction
  rw [hrecords, hrest]
  by_cases hdevice : violation (withoutDevice id s.val) = none
  · rw [dif_pos hdevice, Effects.bind_ok (execute_ok hdevice)]
    rfl
  · have hfails : violation (withoutDevice id s.val) = some .foreignKeyFailed :=
      if_neg (mt violation_eq_none.mpr hdevice)
    rw [dif_neg hdevice, Effects.bind_error (execute_error hfails)]

theorem clearAllSyncState_eq (s : SqliteStateStore) : clearAllSyncState s = (do
    execute fun t => { t with
      fileHistory := [], fileMetadata := .empty, syncFolders := .empty, devices := .empty }
    return (s.val.syncFolders.rows.length, s.val.devices.rows.length) : Sql _) s := by
  have hreferences := violation_eq_none.mp s.valid
  have hhistory : violation { s.val with fileHistory := [] } = none :=
    violation_eq_none.mpr ⟨hreferences.folder, hreferences.metadata, nofun, hreferences.tombstone⟩
  have hmetadata : violation { s.val with fileHistory := [], fileMetadata := .empty } = none :=
    violation_eq_none.mpr ⟨hreferences.folder, nofun, nofun, hreferences.tombstone⟩
  let g : Tables → Tables := fun t => { t with
    fileHistory := [], fileMetadata := .empty, syncFolders := .empty, devices := .empty }
  let t : SqliteStateStore := ⟨_, hmetadata⟩
  have hall : ∀ rows : List FolderRow, rows.filter (fun _ => true) = rows := fun rows => by simp
  have hall' : ∀ rows : List DeviceRow, rows.filter (fun _ => true) = rows := fun rows => by simp
  unfold clearAllSyncState transaction
  rw [Effects.bind_ok (execute_ok hhistory), Effects.bind_ok (execute_ok hmetadata)]
  by_cases htombstones : (g s.val).References
  · have hfolders : violation { t.val with syncFolders := .empty } = none :=
      violation_eq_none.mpr ⟨nofun, nofun, nofun, htombstones.tombstone⟩
    have hcleared : violation (g s.val) = none := violation_eq_none.mpr htombstones
    have hfirst := @delete_ok _ (·.syncFolders.rows) (fun _ _ => true)
      (fun t => { t with syncFolders := .empty }) t hfolders
    have hsecond := @delete_ok _ (·.devices.rows) (fun _ _ => true)
      (fun t => { t with devices := .empty }) ⟨_, hfolders⟩ hcleared
    rw [hall] at hfirst
    rw [hall'] at hsecond
    rw [Effects.bind_ok hfirst, Effects.bind_ok hsecond, Effects.bind_ok (execute_ok hcleared)]
    rfl
  · have hfails : violation { t.val with syncFolders := .empty } = some .foreignKeyFailed :=
      if_neg fun h => htombstones ⟨nofun, nofun, nofun, h.tombstone⟩
    have hcleared : violation (g s.val) = some .foreignKeyFailed := if_neg htombstones
    have hfirst := @delete_error _ (·.syncFolders.rows) (fun _ _ => true)
      (fun t => { t with syncFolders := .empty }) t _ hfails
    rw [Effects.bind_error hfirst, Effects.bind_error (execute_error hcleared)]

end

end Sqlite

namespace Both

section

/-- A first part that does what another does. -/
theorem bind_congr_at {ε σ α β : Type} {x x' : EStateM ε σ α} {s : σ} (h : x s = x' s)
    {f : α → EStateM ε σ β} :
    (x >>= f) s = (x' >>= f) s := by
  show EStateM.bind x f s = EStateM.bind x' f s
  rw [EStateM.bind, EStateM.bind, h]

/-- How many rows go. -/
theorem length_sub_filter {α : Type} (rows : List α) (gone : α → Bool) :
    rows.length - (rows.filter fun a => !gone a).length = (rows.filter gone).length := by
  have hsplit := (List.filter_append_perm gone rows).length_eq
  rw [List.length_append] at hsplit
  omega

variable {blake3 : Bytes → FileHash} {b : Both} (h : Alike b.memory b.sqlite.val)

include h

/-- A folder of a device that is there, if there is a number for it. -/
theorem agrees_addFolder (localPath : String) (deviceId : DeviceId) (direction : String) :
    b.Agrees blake3 (.addFolder localPath deviceId direction) ↔
      Sqlite.AsInMemory blake3 b.sqlite.val (.addFolder localPath deviceId direction) := by
  have hreferences := Sqlite.violation_eq_none.mp b.sqlite.valid
  let seq := b.sqlite.val.folderSeq
  let row : Sqlite.FolderRow := ⟨folderNumber (seq + 1), localPath, deviceId, direction, none⟩
  let g : Sqlite.Tables → Sqlite.Tables := fun t =>
    { t with folderSeq := seq + 1, syncFolders := t.syncFolders.put row }
  let m : InMemoryStateStore := { b.memory with
    nextFolderId := b.memory.nextFolderId + 1
    folders := b.memory.folders.put ⟨folderNumber (b.memory.nextFolderId + 1), localPath, deviceId,
      parseDirection direction, none⟩ }
  have hmemory : ∀ order, InMemoryStateStore.perform blake3 order (.addFolder localPath deviceId direction)
      b.memory = (.ok (.folderId (folderNumber (seq + 1))), m) := by
    intro order
    show (Except.ok (StoreReply.folderId (folderNumber (b.memory.nextFolderId + 1))), m) = _
    rw [h.nextFolderId]
  have hadd : Sqlite.statement blake3 (.addFolder localPath deviceId direction) =
      (do return .folderId (← Sqlite.addFolder localPath deviceId direction)) := rfl
  show _ ↔ deviceId ∈ b.sqlite.val.devices.keys ∧ seq < Sqlite.maxNumber
  by_cases hfull : Sqlite.maxNumber ≤ seq
  · refine iff_of_false (fun hagrees => ?_) fun hboth => absurd hboth.2 (Nat.not_lt.mpr hfull)
    have hrefused : Sqlite.addFolder localPath deviceId direction b.sqlite = .error .full b.sqlite := by
      unfold Sqlite.addFolder
      rw [Effects.bind_ok (query_apply _), if_pos hfull]
      rfl
    have hanswers := hagrees.answers (.inserted Device) (.inserted Device)
    rw [hmemory, SqliteStateStore.perform, hadd, Effects.bind_error hrefused] at hanswers
    cases hanswers
  · rw [and_iff_left (Nat.not_le.mp hfull)]
    have hstatement : Sqlite.statement blake3 (.addFolder localPath deviceId direction) b.sqlite =
        (do execute g; return .folderId (folderNumber (seq + 1)) : Sqlite.Sql _) b.sqlite := by
      have hdone : Sqlite.addFolder localPath deviceId direction b.sqlite =
          (do execute g; return folderNumber (seq + 1) : Sqlite.Sql _) b.sqlite := by
        unfold Sqlite.addFolder
        rw [Effects.bind_ok (query_apply _), if_neg hfull]
      rw [hadd, bind_congr_at hdone, bind_assoc]
      rfl
    have hrows : Alike m (g b.sqlite.val) := by
      refine ⟨h.devices, ?_, h.metadata, h.history, h.tombstones, h.sessions, congrArg (· + 1) h.nextFolderId⟩
      have hput := Keyed.rows_put_map b.sqlite.val.syncFolders b.memory.folders (fun _ => rfl) h.folders row
      show (b.memory.folders.put ⟨folderNumber (b.memory.nextFolderId + 1), localPath, deviceId,
        parseDirection direction, none⟩).rows = _
      rw [h.nextFolderId]
      exact hput
    refine (agrees_execute hmemory hstatement).trans ((and_iff_left hrows).trans ?_)
    have hmore : b.sqlite.val.syncFolders.keys ⊆ (b.sqlite.val.syncFolders.put row).keys := by
      rw [Keyed.keys_put]
      split_ifs
      · exact List.Subset.refl _
      · exact List.subset_append_left _ _
    constructor
    · exact fun hafter => hafter.folder row ((Keyed.mem_put _).mpr (Or.inl rfl))
    · intro hdevice
      refine ⟨fun f hf => ?_, fun r hr => hmore (hreferences.metadata r hr),
        fun e he => hmore (hreferences.history e he), fun r hr => hmore (hreferences.tombstone r hr)⟩
      rcases (Keyed.mem_put _).mp hf with rfl | ⟨hf, -⟩
      · exact hdevice
      · exact hreferences.folder f hf

theorem Alike.ownedIds (id : DeviceId) :
    (b.memory.folders.filter fun f => decide (f.deviceId = id)).keys = Sqlite.ownedIds id b.sqlite.val :=
  Keyed.keys_map _ _ (fun _ => rfl) (Keyed.rows_filter_map _ _ h.folders fun _ => rfl)

theorem Alike.history_filter (id : DeviceId) :
    (b.memory.history.filter fun e => !decide (e.deviceId = id) &&
      !decide (e.folderId ∈ (b.memory.folders.filter fun f => decide (f.deviceId = id)).keys)) =
      b.sqlite.val.fileHistory.filter fun e => !Sqlite.historyOf id b.sqlite.val e := by
  rw [h.ownedIds, h.history]
  refine List.filter_congr fun e _ => ?_
  unfold Sqlite.historyOf
  rw [Bool.not_or]

theorem Alike.metadata_filter (id : DeviceId) :
    (b.memory.fileMetadata.filter fun r =>
      !decide (r.folderId ∈ (b.memory.folders.filter fun f => decide (f.deviceId = id)).keys)).rows =
      (b.sqlite.val.fileMetadata.filter fun r => !Sqlite.metadataOf id b.sqlite.val r).rows.map
        Sqlite.MetadataRow.metadata := by
  rw [h.ownedIds]
  exact Keyed.rows_filter_map _ _ h.metadata fun _ => rfl

theorem Alike.sessions_filter (id : DeviceId) :
    (b.sqlite.val.syncSessions.filter fun r => !decide (r.peerDevice = id.val)) =
      (b.memory.sessions.filter fun r => !decide (r.peerDevice = id.val)).map Sqlite.sessionRow := by
  rw [h.sessions, List.filter_map]
  rfl

/-- The maps count what they have deleted by what is left. -/
theorem Alike.cleanup (id : DeviceId) : (b.memory.removeDevice id).1 = Sqlite.cleanupOf id b.sqlite.val := by
  have hsessions := congrArg List.length (h.sessions_filter id)
  have hmetadata := congrArg List.length (h.metadata_filter id)
  have hfolders : (b.memory.folders.filter fun f => !decide (f.deviceId = id)).rows.length =
      ((b.sqlite.val.syncFolders.filter fun f => !decide (f.deviceId = id)).rows.map
        Sqlite.FolderRow.folder).length :=
    congrArg List.length (Keyed.rows_filter_map _ _ h.folders fun _ => rfl)
  have hdevices : (b.memory.devices.filter fun d => !decide (d.id = id)).rows.length =
      ((b.sqlite.val.devices.filter fun d => !decide (d.id = id)).rows.map Sqlite.DeviceRow.device).length :=
    congrArg List.length (Keyed.rows_filter_map _ _ h.devices fun _ => rfl)
  rw [List.length_map] at hsessions hmetadata hfolders hdevices
  unfold InMemoryStateStore.removeDevice Sqlite.cleanupOf
  rw [DeviceCleanup.mk.injEq]
  refine ⟨?_, ?_, ?_, ?_, ?_⟩
  · refine Eq.trans ?_ (length_sub_filter _ _)
    rw [hsessions, h.sessions, List.length_map]
  · refine Eq.trans ?_ (length_sub_filter _ _)
    rw [h.history_filter, h.history]
  · refine Eq.trans ?_ (length_sub_filter _ _)
    rw [hmetadata, h.metadata, List.length_map]
    rfl
  · refine Eq.trans ?_ (length_sub_filter _ _)
    rw [hfolders, h.folders, List.length_map]
    rfl
  · refine Eq.trans ?_ (length_sub_filter _ _)
    rw [hdevices, h.devices, List.length_map]
    rfl

theorem agrees_removeDevice (id : DeviceId) : b.Agrees blake3 (.removeDevice id) ↔
    Sqlite.AsInMemory blake3 b.sqlite.val (.removeDevice id) := by
  have hreferences := Sqlite.violation_eq_none.mp b.sqlite.valid
  have hstatement : Sqlite.statement blake3 (.removeDevice id) b.sqlite = (do
      execute (Sqlite.withoutDevice id)
      return .cleanup (Sqlite.cleanupOf id b.sqlite.val) : Sqlite.Sql _) b.sqlite := by
    have hremove : Sqlite.statement blake3 (.removeDevice id) =
        (do return .cleanup (← Sqlite.removeDevice id)) := rfl
    rw [hremove, bind_congr_at (Sqlite.removeDevice_eq id b.sqlite), bind_assoc]
    rfl
  have hmemory : ∀ order, InMemoryStateStore.perform blake3 order (.removeDevice id) b.memory =
      (.ok (.cleanup (Sqlite.cleanupOf id b.sqlite.val)), (b.memory.removeDevice id).2) := by
    intro order
    rw [← h.cleanup id]
    rfl
  have hrows : Alike (b.memory.removeDevice id).2 (Sqlite.withoutDevice id b.sqlite.val) := {
    devices := Keyed.rows_filter_map _ _ h.devices fun _ => rfl
    folders := Keyed.rows_filter_map _ _ h.folders fun _ => rfl
    metadata := h.metadata_filter id
    history := h.history_filter id
    tombstones := h.tombstones
    sessions := h.sessions_filter id
    nextFolderId := h.nextFolderId }
  refine (agrees_execute hmemory hstatement).trans ((and_iff_left hrows).trans ?_)
  refine Iff.trans ⟨fun hafter => ?_, Sqlite.withoutDevice_references⟩
    (Sqlite.withoutFolders_references hreferences)
  exact Sqlite.references_of_devices hafter (List.filter_sublist.map _).subset

theorem agrees_clearAllSyncState : b.Agrees blake3 .clearAllSyncState ↔
    Sqlite.AsInMemory blake3 b.sqlite.val .clearAllSyncState := by
  let g : Sqlite.Tables → Sqlite.Tables := fun t => { t with
    fileHistory := [], fileMetadata := .empty, syncFolders := .empty, devices := .empty }
  have hlengths : b.memory.folders.rows.length = b.sqlite.val.syncFolders.rows.length ∧
      b.memory.devices.rows.length = b.sqlite.val.devices.rows.length := by
    rw [h.folders, h.devices, List.length_map, List.length_map]
    exact ⟨rfl, rfl⟩
  have hstatement : Sqlite.statement blake3 .clearAllSyncState b.sqlite = (do
      execute g
      return .cleared b.sqlite.val.syncFolders.rows.length b.sqlite.val.devices.rows.length : Sqlite.Sql _)
        b.sqlite := by
    refine (bind_congr_at (Sqlite.clearAllSyncState_eq b.sqlite)).trans ?_
    rw [bind_assoc]
    rfl
  have hmemory : ∀ order, InMemoryStateStore.perform blake3 order .clearAllSyncState b.memory =
      (.ok (.cleared b.sqlite.val.syncFolders.rows.length b.sqlite.val.devices.rows.length),
        { b.memory with folders := .empty, devices := .empty, fileMetadata := .empty, history := [] }) := by
    intro order
    rw [← hlengths.1, ← hlengths.2]
    rfl
  have hrows : Alike { b.memory with folders := .empty, devices := .empty, fileMetadata := .empty, history := [] }
      (g b.sqlite.val) := ⟨rfl, rfl, rfl, rfl, h.tombstones, h.sessions, h.nextFolderId⟩
  refine (agrees_execute hmemory hstatement).trans ((and_iff_left hrows).trans ?_)
  show _ ↔ b.sqlite.val.tombstones = []
  rw [List.eq_nil_iff_forall_not_mem]
  constructor
  · exact fun hafter r hr => absurd (hafter.tombstone r hr) List.not_mem_nil
  · exact fun hnone => ⟨fun _ hf => absurd hf List.not_mem_nil, fun _ hm => absurd hm List.not_mem_nil,
      fun _ he => absurd he List.not_mem_nil, fun r hr => absurd hr (hnone r)⟩

theorem agrees_removeSyncFolders (localPath : String) (deviceId : Option DeviceId) :
    b.Agrees blake3 (.removeSyncFolders localPath deviceId) ↔
      Sqlite.AsInMemory blake3 b.sqlite.val (.removeSyncFolders localPath deviceId) := by
  have hreferences := Sqlite.violation_eq_none.mp b.sqlite.valid
  let gone : Sqlite.FolderRow → Bool := Sqlite.doomed localPath deviceId
  let n := (b.sqlite.val.syncFolders.rows.filter gone).length
  have hspared : ∀ f : Sqlite.FolderRow,
      InMemoryStateStore.spared localPath deviceId f.folder = !Sqlite.doomed localPath deviceId f := by
    intro f
    have hsame : f.folder.localPath = f.localPath := rfl
    unfold InMemoryStateStore.spared Sqlite.doomed
    rw [hsame]
    by_cases hpath : f.localPath = localPath
    · rw [if_neg (not_not.mpr hpath), decide_eq_true hpath, Bool.true_and]
      cases deviceId with
      | none => rfl
      | some dev => rfl
    · rw [if_pos hpath, decide_eq_false hpath, Bool.false_and, Bool.not_false]
  have hfolders := Keyed.rows_filter_map b.sqlite.val.syncFolders b.memory.folders h.folders hspared
  have hstatement : Sqlite.statement blake3 (.removeSyncFolders localPath deviceId) b.sqlite = (do
      execute (Sqlite.deleteFolders gone)
      return .removed n : Sqlite.Sql _) b.sqlite := by
    have hremove : Sqlite.statement blake3 (.removeSyncFolders localPath deviceId) = (do
        return .removed (← Sqlite.delete (·.syncFolders.rows) (fun _ => gone) (Sqlite.deleteFolders gone))) :=
      rfl
    have hdelete : Sqlite.delete (·.syncFolders.rows) (fun _ => gone) (Sqlite.deleteFolders gone) b.sqlite =
        (do execute (Sqlite.deleteFolders gone); return n : Sqlite.Sql _) b.sqlite := rfl
    rw [hremove, bind_congr_at hdelete, bind_assoc]
    rfl
  have hmemory : ∀ order, InMemoryStateStore.perform blake3 order (.removeSyncFolders localPath deviceId)
      b.memory = (.ok (.removed n),
        { b.memory with folders := b.memory.folders.filter (InMemoryStateStore.spared localPath deviceId) }) := by
    intro order
    have hcount : b.memory.folders.rows.length -
        (b.memory.folders.filter (InMemoryStateStore.spared localPath deviceId)).rows.length = n := by
      refine Eq.trans ?_ (length_sub_filter b.sqlite.val.syncFolders.rows gone)
      rw [hfolders, h.folders, List.length_map, List.length_map]
      rfl
    rw [← hcount]
    rfl
  refine (agrees_execute hmemory hstatement).trans ((and_iff_left (h.with_folders.mpr hfolders)).trans ?_)
  exact Sqlite.deleteFolders_references hreferences gone

end

end Both

/-! ### Any calls -/

namespace Both

section

variable {blake3 : Bytes → FileHash} {b : Both}

/-- The maps hold the metadata that the tables can. -/
def Plain (b : Both) : Prop := ∀ row ∈ b.memory.fileMetadata.rows, row.IsPlain

/-- **Stores that hold the same rows agree on a call exactly if SQLite takes it as the maps do.** -/
theorem agrees_iff (h : Alike b.memory b.sqlite.val) (hplain : b.Plain) (op : StoreOp) :
    b.Agrees blake3 op ↔ Sqlite.AsInMemory blake3 b.sqlite.val op := by
  cases op with
  | getDevice id => exact iff_of_true (agrees_getDevice h id) trivial
  | upsertDevice device => exact agrees_upsertDevice h device
  | listDevices => exact iff_of_true (agrees_listDevices h) trivial
  | removeDevice id => exact agrees_removeDevice h id
  | getDeviceCert id => exact iff_of_true (agrees_getDeviceCert h id) trivial
  | setDeviceCert id certDer => exact agrees_setDeviceCert h id certDer
  | getDeviceByCertFingerprint fp => exact agrees_getDeviceByCertFingerprint h fp
  | deviceLastAddr id => exact iff_of_true (agrees_deviceLastAddr h id) trivial
  | setDeviceLastAddr id addr => exact iff_of_true (agrees_setDeviceLastAddr h id addr) trivial
  | getFolder id => exact iff_of_true (agrees_getFolder h id) trivial
  | listFolders => exact iff_of_true (agrees_listFolders h) trivial
  | addFolder localPath deviceId direction => exact agrees_addFolder h localPath deviceId direction
  | removeFolder id => exact agrees_removeFolder h id
  | setFolderLastSync id ts => exact iff_of_true (agrees_setFolderLastSync h id ts) trivial
  | setFolderDevice id deviceId => exact agrees_setFolderDevice h id deviceId
  | getFileMetadata folderId path => exact iff_of_true (agrees_getFileMetadata h folderId path) trivial
  | upsertFileMetadata row => exact agrees_upsertFileMetadata h hplain row
  | recordHistory entry => exact agrees_recordHistory h entry
  | getTombstones folderId since => exact agrees_getTombstones h folderId since
  | addTombstone tomb => exact agrees_addTombstone h tomb
  | recordSession session => exact iff_of_true (agrees_recordSession h session) trivial
  | listRecentSessions limit => exact agrees_listRecentSessions h limit
  | clearAllSyncState => exact agrees_clearAllSyncState h
  | removeSyncFolders localPath deviceId => exact agrees_removeSyncFolders h localPath deviceId

/-- Metadata that is put is such as the tables can hold. -/
theorem plain_perform (hplain : b.Plain) {op : StoreOp} (hop : Sqlite.AsInMemory blake3 b.sqlite.val op) :
    (b.perform blake3 op).Plain := by
  cases op with
  | upsertFileMetadata row =>
    intro r hr
    rcases (Keyed.mem_put _).mp hr with rfl | ⟨hr, -⟩
    · exact hop.2
    · exact hplain r hr
  | removeDevice id => exact fun r hr => hplain r (List.mem_filter.mp hr).1
  | clearAllSyncState => exact fun r hr => absurd hr List.not_mem_nil
  | setDeviceCert id certDer =>
    have hsame : (b.memory.setDeviceCert blake3 id certDer).fileMetadata = b.memory.fileMetadata := by
      unfold InMemoryStateStore.setDeviceCert
      dsimp only
      split <;> rfl
    intro r hr
    exact hplain r (hsame ▸ hr)
  | _ => exact hplain

end

/-- **The stores agree in a run exactly if SQLite takes every call as the maps do.** -/
theorem stores_agree_iff (blake3 : Bytes → FileHash) (ops : List StoreOp) :
    Runs.Meets (perform blake3) (Agrees blake3) new ops ↔
      Runs.Meets (perform blake3) (fun b op => Sqlite.AsInMemory blake3 b.sqlite.val op) new ops := by
  refine Runs.meets_iff_meets (P := fun b => Alike b.memory b.sqlite.val ∧ b.Plain)
    (fun b op h => agrees_iff h.1 h.2 op) (fun b op h hagrees => ⟨hagrees.rows, ?_⟩) ⟨?_, ?_⟩
  · exact plain_perform h.2 ((agrees_iff h.1 h.2 op).mp hagrees)
  · exact ⟨rfl, rfl, rfl, rfl, rfl, rfl, rfl⟩
  · exact fun r hr => absurd hr List.not_mem_nil

/-- **A folder of a device that is not there** is taken by the maps only. -/
theorem folder_refused : ¬Runs.Meets (perform sampleBlake3)
    (fun b op => ∀ order order', SameResult (InMemoryStateStore.perform sampleBlake3 order op b.memory).1
      (SqliteStateStore.perform sampleBlake3 order' op b.sqlite).1)
    new [.addFolder "/home/music" ⟨"laptop"⟩ "bidirectional"] := by
  intro hmeets
  have hanswers := hmeets [] _ [] rfl (.inserted Device) (.inserted Device)
  have hmemory : (InMemoryStateStore.perform sampleBlake3 (.inserted Device)
      (.addFolder "/home/music" ⟨"laptop"⟩ "bidirectional") new.memory).1 = .ok (.folderId ⟨1⟩) := rfl
  have hsqlite : (SqliteStateStore.perform sampleBlake3 (.inserted Device)
      (.addFolder "/home/music" ⟨"laptop"⟩ "bidirectional") new.sqlite).1 = .error .foreignKeyFailed := by
    decide +kernel
  rw [List.foldl_nil, hmemory, hsqlite] at hanswers
  cases hanswers

end Both

end Persistence

end FerriSync
