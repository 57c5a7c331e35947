/-
# When a device was last seen

From `devices.last_seen` (`storage/mod.rs`) comes what is shown of a device's presence
(`health.rs`). The column is set in passing: by every upsert of a row, for whatever reason the
row is written, and by no session, but for the row that a session inserts with the
certificate of a device that it meets for the first time. So it tells when the device was
last in contact exactly if, but in the second of the latest contact, no session with a
known device completes and nothing but a pairing writes a row
(`presence_tracks_contact_iff`).

A device goes by the identifier under which it is recorded. That rows are merged at startup
(`reconcile_devices_by_cert`) is left out.

Key definitions: `SeenTables`, `Timed`, `Watch`, `ContactOp`, `Watch.perform`,
`Watch.PresenceTracks`, `Watch.KeepsTrack`.
Key theorems: `Timed.upsertDevice_ok`, `Timed.noMoreDevices_statements`, `tracks_iff_of_frame`,
`presence_tracks_contact_iff`.
-/
import FerriSync.Adoption
import FerriSync.Lib.Runs
import FerriSync.Listeners
import FerriSync.Summary

namespace FerriSync

open Transactions

/-! ### The column -/

/-- The tables, and the column `last_seen` of `devices`. -/
structure SeenTables where
  db : DbState
  lastSeen : String → Option ℤ

namespace SeenTables

/-- The row of a device, as far as its time goes. -/
def entry (s : SeenTables) (id : String) : Option (Option ℤ) :=
  if id ∈ s.db.val.deviceIds then some (s.lastSeen id) else none

/-- Other tables, in which rows keep their times and new ones have none. -/
def into (s : SeenTables) (t : DbState) : SeenTables where
  db := t
  lastSeen id := if id ∈ s.db.val.deviceIds ∧ id ∈ t.val.deviceIds then s.lastSeen id else none

end SeenTables

/-- A computation that knows the times. -/
abbrev Timed (α : Type) := EStateM Db.Error SeenTables α

namespace Timed

/-- Statements that do not mention the column. -/
def untimed {α : Type} (x : Sql α) : Timed α := fun s =>
  match x s.db with
  | .ok a t => .ok a (s.into t)
  | .error e t => .error e (s.into t)

/-- `last_seen = unixepoch()`. -/
def stamp (now : ℤ) (id : String) : Timed Unit :=
  modify fun s => { s with lastSeen := Function.update s.lastSeen id (some now) }

section

variable (blake3 : Bytes → FileHash) (processId : ℕ) (own : DeviceInfo) (now : ℤ)

/-! ### What sets it -/

def upsertDevice (id name : String) (certDer : Option Bytes) (lastAddr : Option String) : Timed Unit := do
  untimed (Database.upsertDevice id name certDer lastAddr)
  stamp now id

def ensureSelfRow (id : String) (certDer : Bytes) (name : String) : Timed Unit := do
  untimed (Database.ensureSelfRow id certDer name)
  stamp now id

/-- A row that is there keeps its time. -/
def setDeviceCert (id : String) (certDer : Bytes) : Timed Unit := do
  let known ← untimed (query fun db => decide (id ∈ db.deviceIds))
  untimed (Database.setDeviceCert id certDer)
  if known then pure () else stamp now id

/-! ### Pairings -/

/-- The authoritative identity comes from the certificate, the claimed one is the fallback. -/
def peerId (cert : Option Bytes) (deviceId : String) : String :=
  (cert.map (certToDeviceId blake3)).getD deviceId

/-- The peer at an address has accepted our request. -/
def pairAttempt (cert : Option Bytes) (deviceId name addr : String) : Timed Unit :=
  upsertDevice now (peerId blake3 cert deviceId) name cert (some addr)

/-- A peer's request is accepted; its address is recorded if it is known. -/
def acceptPairing (cert : Option Bytes) (req : PairRequest) (peerAddr : Option String) : Timed Unit := do
  upsertDevice now (peerId blake3 cert req.deviceId) req.deviceName cert none
  match peerAddr with
  | some addr => untimed (Database.setDeviceLastAddr (peerId blake3 cert req.deviceId) addr)
  | none => pure ()

/-! ### Approvals and attachments -/

/-- The operator approves a held pairing. -/
def approvePairing (deviceId deviceName : String) (certDer : Option Bytes) : Timed Unit :=
  upsertDevice now deviceId deviceName certDer none

/-- A folder request is approved, by the operator or because the device is trusted. -/
def approveFolderPair (deviceId folderGuid name localPath : String) (remotePath : Option String) :
    Timed Unit := do
  upsertDevice now deviceId name none none
  let folderId ← untimed (Database.ensureFolderByGuid folderGuid localPath name own.id)
  untimed (Database.addFolderDevice folderId deviceId "bidirectional" remotePath)

/-- Attach an additional device to an existing folder. -/
def addFolderDevice (folderId : ℕ) (deviceId mode : String) (remotePath : Option String) : Timed Unit := do
  upsertDevice now deviceId deviceId none none
  untimed (Database.addFolderDevice folderId deviceId mode remotePath)

/-- A device that has no row gets one. -/
def ensureDevice (deviceId name : String) : Timed Unit := do
  match ← untimed (query (Database.getDeviceName deviceId)) with
  | some _ => pure ()
  | none => upsertDevice now deviceId name none none

/-- Register a local folder to sync with a single device. -/
def addSyncFolder (localPath deviceId direction : String) : Timed Unit := do
  ensureDevice now deviceId (if deviceId = own.id then own.name else deviceId)
  untimed (discard (Database.addSyncFolder blake3 processId localPath deviceId direction))

/-- Register the folder with one of the peers. -/
def addPeer (localPath : String) (p : FolderPeerRequest) : Timed ℕ := do
  upsertDevice now p.deviceId p.deviceId none none
  let id ← untimed (Database.addSyncFolder blake3 processId localPath p.deviceId (p.mode.getD "bidirectional"))
  untimed (Database.addFolderDevice id p.deviceId (p.mode.getD "bidirectional") p.remotePath)
  return id

/-- Create (or extend) a folder with several peers. -/
def addSyncFolderWithPeers (localPath name : String) (peers : List FolderPeerRequest) : Timed Unit := do
  let folderId ← peers.foldlM (fun _ p => some <$> addPeer blake3 processId now localPath p) none
  untimed (discard (Api.nameFolder name folderId))

/-- Any operation of the storage, called for any reason. -/
def perform : StorageOp → Timed Unit
  | .upsertDevice id name certDer lastAddr => upsertDevice now id name certDer lastAddr
  | .ensureSelfRow id certDer name => ensureSelfRow now id certDer name
  | .setDeviceCert id certDer => setDeviceCert now id certDer
  | op => fun s => untimed (Host.statements blake3 ⟨processId, s.db⟩ op) s

end

end Timed

/-! ### A device and its contacts -/

structure Watch where
  tables : SeenTables
  processId : ℕ
  /-- The devices with which a session is under way. -/
  underWay : List String
  /-- The time of the latest authenticated exchange with a device, which nothing reads. -/
  lastContact : String → Option ℤ

/-- It merges rows, or ends the process. -/
def StorageOp.isStartup : StorageOp → Bool
  | reconcileDevicesByCert _ _ _ _ => true
  | reopen _ => true
  | _ => false

/-- Pairings in both directions, the beginnings and ends of sessions, and what is written for
other reasons. -/
inductive ContactOp
  | pairWith (cert : Option Bytes) (deviceId name addr : String)
  | acceptPairing (cert : Option Bytes) (req : PairRequest) (peerAddr : Option String)
  /-- A session is started; whoever answers, if anyone, presents a certificate. -/
  | runSession (deviceId : String) (peer : Option Bytes)
  /-- A peer starts a session. -/
  | serveSession (peer : Option Bytes)
  | complete (deviceId : String) (row : Db.SyncSession)
  | fail (deviceId : String)
  | approvePairing (deviceId deviceName : String) (certDer : Option Bytes)
  | approveFolderPair (deviceId folderGuid name localPath : String) (remotePath : Option String)
  | addFolderDevice (folderId : ℕ) (deviceId mode : String) (remotePath : Option String)
  | ensureDevice (deviceId : String)
  | addSyncFolder (localPath deviceId direction : String)
  | addSyncFolderWithPeers (localPath name : String) (peers : List FolderPeerRequest)
  | edit (op : StorageOp) (h : op.isStartup = false)
  /-- The process ends, and another opens the database. -/
  | restart (processId : ℕ)

namespace Watch

def new (processId : ℕ) : Watch := ⟨⟨(Host.new processId).db, fun _ => none⟩, processId, [], fun _ => none⟩

variable (blake3 : Bytes → FileHash) (own : DeviceInfo) (ownCert : Bytes) (w : Watch)

def after (x : Timed Unit) : Watch := { w with tables := Effects.after x w.tables }

/-- There is an exchange with the device. -/
def contacted (id : String) (now : ℤ) : Watch :=
  { w with lastContact := Function.update w.lastContact id (some now) }

/-- A session gets under way unless the peer is this machine, or its certificate is not the
stored one; if none is stored it is stored now. -/
def runSession (now : ℤ) (deviceId : String) : Option Bytes → Watch
  | none => w
  | some peer =>
    if peer = ownCert then w
    else match w.tables.db.val.getDeviceCert deviceId with
      | some stored => if peer ≠ stored then w else { w with underWay := deviceId :: w.underWay }
      | none => { w.after (Timed.setDeviceCert now deviceId peer) with underWay := deviceId :: w.underWay }

/-- A peer is served if its certificate is that of a device. -/
def serveSession : Option Bytes → Watch
  | none => w
  | some peer => match w.tables.db.val.getDeviceByCertFingerprint blake3 (blake3 peer) with
    | some deviceId => { w with underWay := deviceId :: w.underWay }
    | none => w

/-- The session is recorded. -/
def complete (now : ℤ) (deviceId : String) (row : Db.SyncSession) : Watch :=
  if deviceId ∈ w.underWay then
    { (w.after (Timed.untimed (Database.recordSession row))).contacted deviceId now with
      underWay := w.underWay.erase deviceId }
  else w

def restart (processId : ℕ) : Watch := { w with
  tables := w.tables.into ⟨w.tables.db.val.reopen blake3 processId,
    Database.reopen_valid blake3 processId w.tables.db.valid⟩
  processId := processId
  underWay := [] }

/-- An operation at a time. -/
def perform (w : Watch) (op : ℤ × ContactOp) : Watch :=
  match op.2 with
  | .pairWith cert deviceId name addr =>
    (w.after (Timed.pairAttempt blake3 op.1 cert deviceId name addr)).contacted
      (Timed.peerId blake3 cert deviceId) op.1
  | .acceptPairing cert req peerAddr =>
    (w.after (Timed.acceptPairing blake3 op.1 cert req peerAddr)).contacted
      (Timed.peerId blake3 cert req.deviceId) op.1
  | .runSession deviceId peer => w.runSession ownCert op.1 deviceId peer
  | .serveSession peer => w.serveSession blake3 peer
  | .complete deviceId row => w.complete op.1 deviceId row
  | .fail deviceId => { w with underWay := w.underWay.erase deviceId }
  | .approvePairing deviceId deviceName certDer =>
    w.after (Timed.approvePairing op.1 deviceId deviceName certDer)
  | .approveFolderPair deviceId folderGuid name localPath remotePath =>
    w.after (Timed.approveFolderPair own op.1 deviceId folderGuid name localPath remotePath)
  | .addFolderDevice folderId deviceId mode remotePath =>
    w.after (Timed.addFolderDevice op.1 folderId deviceId mode remotePath)
  | .ensureDevice deviceId => w.after (Timed.ensureDevice op.1 deviceId deviceId)
  | .addSyncFolder localPath deviceId direction =>
    w.after (Timed.addSyncFolder blake3 w.processId own op.1 localPath deviceId direction)
  | .addSyncFolderWithPeers localPath name peers =>
    w.after (Timed.addSyncFolderWithPeers blake3 w.processId op.1 localPath name peers)
  | .edit op' _ => w.after (Timed.perform blake3 w.processId op.1 op')
  | .restart processId => w.restart blake3 processId

/-- Every other device was last seen when it was last in contact, and is shown to be connected
exactly if that is at most 300 seconds ago. -/
structure PresenceTracks (w : Watch) : Prop where
  seen : ∀ i ∈ w.tables.db.val.deviceIds, i ≠ own.id → w.tables.lastSeen i = w.lastContact i
  shown : ∀ m : Moment w.tables.db.val, m.lastSeen = w.tables.lastSeen →
    ∀ d ∈ computeDeviceStatuses own.id m, d.presence = .connected ↔
      ∃ t, w.lastContact d.id = some t ∧ m.now - t ≤ connectedWindowSecs

/-- The device may be stamped: it is our own, or was in contact at this very time. -/
def Due (now : ℤ) (id : String) : Prop := id = own.id ∨ w.lastContact id = some now

/-- Rows are stamped only when that is due, and so they must be when a session completes; a
row is inserted without a time only if there has not been a contact. -/
def KeepsTrack (w : Watch) (op : ℤ × ContactOp) : Prop :=
  match op.2 with
  | .runSession deviceId peer => peer.any (fun c => decide (c ≠ ownCert)) = true →
      deviceId ∉ w.tables.db.val.deviceIds → w.Due own op.1 deviceId
  | .complete deviceId _ => deviceId ∈ w.underWay → deviceId ∈ w.tables.db.val.deviceIds →
      w.Due own op.1 deviceId
  | .approvePairing deviceId _ _ => w.Due own op.1 deviceId
  | .approveFolderPair deviceId _ _ _ _ => w.Due own op.1 deviceId
  | .addFolderDevice _ deviceId _ _ => w.Due own op.1 deviceId
  | .ensureDevice deviceId => deviceId ∉ w.tables.db.val.deviceIds → w.Due own op.1 deviceId
  | .addSyncFolder _ deviceId _ => deviceId ∉ w.tables.db.val.deviceIds → w.Due own op.1 deviceId
  | .addSyncFolderWithPeers _ _ peers => ∀ p ∈ peers, w.Due own op.1 p.deviceId
  | .edit (.upsertDevice id _ _ _) _ => w.Due own op.1 id
  | .edit (.ensureSelfRow id _ _) _ => w.Due own op.1 id
  | .edit (.setDeviceCert id _) _ => id ∉ w.tables.db.val.deviceIds → w.Due own op.1 id
  | .edit (.setFolderDevice folderId id) _ => id ∉ w.tables.db.val.deviceIds →
      w.tables.db.val.pairsOf folderId ≠ [] → id = own.id ∨ w.lastContact id = none
  | _ => True

end Watch

/-! ### Rows and their times -/

namespace SeenTables

variable {s s' : SeenTables} {t : DbState} {i : String}

theorem entry_into : (s.into t).entry i =
    if i ∈ t.val.deviceIds then some (if i ∈ s.db.val.deviceIds then s.lastSeen i else none) else none := by
  show (if i ∈ t.val.deviceIds then some _ else none) = _
  by_cases ht : i ∈ t.val.deviceIds
  · simp [into, ht]
  · rw [if_neg ht, if_neg ht]

/-- The same devices keep their times. -/
theorem entry_into_same (h : i ∈ t.val.deviceIds ↔ i ∈ s.db.val.deviceIds) :
    (s.into t).entry i = s.entry i := by
  rw [entry_into, entry]
  by_cases hi : i ∈ s.db.val.deviceIds
  · rw [if_pos (h.mpr hi), if_pos hi, if_pos hi]
  · rw [if_neg (mt h.mp hi), if_neg hi]

/-- A device that goes takes its time with it, the others keep theirs. -/
theorem entry_into_fewer (h : t.val.deviceIds ⊆ s.db.val.deviceIds) :
    (s.into t).entry i = s.entry i ∨ (s.into t).entry i = none := by
  rw [entry_into, entry]
  by_cases ht : i ∈ t.val.deviceIds
  · left
    rw [if_pos ht, if_pos (h ht), if_pos (h ht)]
  · right
    rw [if_neg ht]

theorem entry_eq_none : s.entry i = none ↔ i ∉ s.db.val.deviceIds := by
  unfold entry
  by_cases h : i ∈ s.db.val.deviceIds
  · simp [h]
  · simp [h]

end SeenTables

namespace Timed

variable {α : Type} {x : Sql α} {s s' : SeenTables} {i : String} {now : ℤ}

theorem untimed_ok {a : α} {t : DbState} (h : x s.db = .ok a t) : untimed x s = .ok a (s.into t) := by
  rw [untimed, h]

theorem after_untimed (x : Sql α) (s : SeenTables) :
    Effects.after (untimed x) s = s.into (Effects.after x s.db) := by
  unfold untimed Effects.after
  dsimp only
  cases hx : x s.db with
  | ok a t => simp
  | error e t => simp

theorem untimed_query {f : Database → α} : untimed (query f) s = .ok (f s.db.val) (s.into s.db) :=
  untimed_ok (query_apply f)

/-- All rows keep their times. -/
def SameEntries (s s' : SeenTables) : Prop := ∀ i, s'.entry i = s.entry i

theorem sameEntries_composes : Effects.Composes SameEntries where
  refl _ _ := rfl
  trans hfirst hsecond i := (hsecond i).trans (hfirst i)

theorem sameEntries_of_ids (h : ∀ t : DbState, (Effects.after x t).val.deviceIds = t.val.deviceIds) :
    Effects.Does SameEntries (untimed x) := by
  intro s i
  rw [after_untimed]
  exact SeenTables.entry_into_same (by rw [h])

theorem sameEntries_untimed (h : Effects.Does Database.SameDevices x) :
    Effects.Does SameEntries (untimed x) := by
  refine sameEntries_of_ids fun t => ?_
  unfold Database.deviceIds
  rw [h t]

theorem ids_setDeviceLastAddr (id addr : String) (t : DbState) :
    (Effects.after (Database.setDeviceLastAddr id addr) t).val.deviceIds = t.val.deviceIds := by
  cases hrun : Database.setDeviceLastAddr id addr t with
  | ok u t' =>
    rw [Effects.after_ok hrun]
    unfold Database.deviceIds
    rw [execute_eq_ok.mp hrun, List.map_map]
    refine List.map_congr_left fun d _ => ?_
    show (if d.id = id then { d with lastAddr := some addr } else d).id = d.id
    split_ifs
    · rfl
    · rfl
  | error e t' => rw [Effects.after_error hrun, (execute_eq_error.mp hrun).2]

theorem entry_stamp (id : String) : (Effects.after (stamp now id) s).entry i =
    if i ∈ s.db.val.deviceIds then some (if i = id then some now else s.lastSeen i) else none := by
  show (if i ∈ s.db.val.deviceIds then some (Function.update s.lastSeen id (some now) i) else none) = _
  rw [Function.update_apply]

/-- A row that has just been written, and is stamped. -/
theorem entry_written {id : String} {t : DbState}
    (hids : ∀ i, i ∈ t.val.deviceIds ↔ i ∈ s.db.val.deviceIds ∨ i = id) :
    (Effects.after (stamp now id) (s.into t)).entry i = if i = id then some (some now) else s.entry i := by
  rw [entry_stamp]
  show (if i ∈ t.val.deviceIds then _ else none) = _
  by_cases hi : i = id
  · rw [if_pos ((hids i).mpr (Or.inr hi)), if_pos hi, if_pos hi]
  · rw [if_neg hi, if_neg hi, SeenTables.entry]
    by_cases hthere : i ∈ s.db.val.deviceIds
    · have ht := (hids i).mpr (Or.inl hthere)
      simp [SeenTables.into, ht, hthere]
    · have ht : i ∉ t.val.deviceIds := fun ht => ((hids i).mp ht).elim hthere hi
      rw [if_neg ht, if_neg hthere]

theorem mem_ids_upsert {conflicts : Db.Device → Bool} {update : Db.Device → Db.Device} {row : Db.Device}
    (hsame : ∀ d, conflicts d = true ↔ d.id = row.id) (hupdate : ∀ d, (update d).id = d.id)
    (rows : List Db.Device) : i ∈ (upsert conflicts update row rows).map (fun d => d.id) ↔
      i ∈ rows.map (fun d => d.id) ∨ i = row.id := by
  rw [@upsert_keys _ _ _ (fun d : Db.Device => d.id) conflicts update row rows hsame hupdate]
  split_ifs with hthere
  · exact ⟨Or.inl, fun h => h.elim (fun h => h) fun h => h ▸ hthere⟩
  · rw [List.mem_append, List.mem_singleton]

/-- A device's row can be written, and then it is there. -/
theorem writeDevice_ok {conflicts : Db.Device → Bool} {update : Db.Device → Db.Device} {row : Db.Device}
    (hsame : ∀ d, conflicts d = true ↔ d.id = row.id) (hupdate : ∀ d, (update d).id = d.id) (s : DbState) :
    ∃ t : DbState, (execute (fun db : Database => { db with
        devices := upsert conflicts update row db.devices }) : Sql Unit) s = .ok () t ∧
      ∀ i, i ∈ t.val.deviceIds ↔ i ∈ s.val.deviceIds ∨ i = row.id :=
  ⟨_, execute_ok (violation_upsertDevice hsame hupdate s.valid), fun _ =>
    mem_ids_upsert hsame hupdate s.val.devices⟩

/-- Statements that write a row, which is stamped then. -/
theorem writes_ok {x : Sql Unit} {t : DbState} {id : String} (hok : x s.db = .ok () t)
    (hids : ∀ i, i ∈ t.val.deviceIds ↔ i ∈ s.db.val.deviceIds ∨ i = id) (now : ℤ) :
    ∃ s', (do untimed x; stamp now id : Timed Unit) s = .ok () s' ∧ id ∈ s'.db.val.deviceIds ∧
      ∀ i, s'.entry i = if i = id then some (some now) else s.entry i := by
  refine ⟨Effects.after (stamp now id) (s.into t), ?_, (hids id).mpr (Or.inr rfl), fun i => entry_written hids⟩
  rw [Effects.bind_ok (untimed_ok hok)]
  rfl

/-- **An upsert stamps the row.** -/
theorem upsertDevice_ok (now : ℤ) (id name : String) (certDer : Option Bytes) (lastAddr : Option String)
    (s : SeenTables) : ∃ s', upsertDevice now id name certDer lastAddr s = .ok () s' ∧
      id ∈ s'.db.val.deviceIds ∧ ∀ i, s'.entry i = if i = id then some (some now) else s.entry i := by
  obtain ⟨t, hok, hids⟩ := @writeDevice_ok (fun d => decide (d.id = id))
    (fun d => ⟨d.id, name, certDer.or d.certDer, lastAddr.or d.lastAddr⟩) ⟨id, name, certDer, lastAddr⟩
    (fun _ => decide_eq_true_iff) (fun _ => rfl) s.db
  exact writes_ok hok hids now

/-- Once the row is written, nothing more happens to the times. -/
theorem entry_upsert {rest : Unit → Timed α} (id name : String) (certDer : Option Bytes)
    (lastAddr : Option String) (hrest : ∀ u, Effects.Does SameEntries (rest u)) :
    (Effects.after (upsertDevice now id name certDer lastAddr >>= rest) s).entry i =
      if i = id then some (some now) else s.entry i := by
  obtain ⟨t, hok, _, ht⟩ := upsertDevice_ok now id name certDer lastAddr s
  have hafter : Effects.after (upsertDevice now id name certDer lastAddr >>= rest) s =
      Effects.after (rest ()) t := by
    rw [Effects.after, Effects.bind_ok hok, Effects.after]
  rw [hafter, hrest () t, ht]

theorem entry_upsertDevice (id name : String) (certDer : Option Bytes) (lastAddr : Option String) :
    (Effects.after (upsertDevice now id name certDer lastAddr) s).entry i =
      if i = id then some (some now) else s.entry i := by
  obtain ⟨t, hok, _, ht⟩ := upsertDevice_ok now id name certDer lastAddr s
  rw [Effects.after_ok hok, ht]

theorem entry_ensureSelfRow (id : String) (certDer : Bytes) (name : String) :
    (Effects.after (ensureSelfRow now id certDer name) s).entry i =
      if i = id then some (some now) else s.entry i := by
  obtain ⟨t, hok, hids⟩ := @writeDevice_ok (fun d => decide (d.id = id))
    (fun d => ⟨d.id, if name = "" then d.name else name, some certDer, d.lastAddr⟩)
    ⟨id, name, some certDer, none⟩ (fun _ => decide_eq_true_iff) (fun _ => rfl) s.db
  obtain ⟨s', hs', _, hentry⟩ := writes_ok hok hids now
  have hdone : ensureSelfRow now id certDer name s = .ok () s' := hs'
  rw [Effects.after_ok hdone, hentry]

/-- **A certificate stamps the row only if it makes it.** -/
theorem entry_setDeviceCert (id : String) (certDer : Bytes) :
    (Effects.after (setDeviceCert now id certDer) s).entry i =
      if i = id ∧ id ∉ s.db.val.deviceIds then some (some now) else s.entry i := by
  let u : SeenTables := s.into s.db
  have hsame : ∀ j, u.entry j = s.entry j := fun j => SeenTables.entry_into_same Iff.rfl
  obtain ⟨t, hok, hids⟩ := @writeDevice_ok (fun d => decide (d.id = id))
    (fun d => { d with certDer := some certDer }) ⟨id, id, some certDer, none⟩
    (fun _ => decide_eq_true_iff) (fun _ => rfl) u.db
  have hstored : Database.setDeviceCert id certDer u.db = .ok () t := hok
  have hread : Effects.after (setDeviceCert now id certDer) s = Effects.after (do
      untimed (Database.setDeviceCert id certDer)
      if decide (id ∈ s.db.val.deviceIds) = true then pure () else stamp now id : Timed Unit) u := by
    rw [Effects.after, setDeviceCert, Effects.bind_ok untimed_query, Effects.after]
  rw [hread]
  by_cases hthere : id ∈ s.db.val.deviceIds
  · have hdone : Effects.after (do
        untimed (Database.setDeviceCert id certDer)
        if decide (id ∈ s.db.val.deviceIds) = true then pure () else stamp now id : Timed Unit) u = u.into t := by
      rw [Effects.after, Effects.bind_ok (untimed_ok hstored), if_pos (decide_eq_true hthere)]
      rfl
    have hkept : i ∈ t.val.deviceIds ↔ i ∈ u.db.val.deviceIds :=
      (hids i).trans (or_iff_left_of_imp fun hi => hi ▸ hthere)
    rw [hdone, if_neg (fun h => h.2 hthere), SeenTables.entry_into_same hkept, hsame]
  · obtain ⟨s', hs', _, hentry⟩ := writes_ok hstored hids now
    have hdone : Effects.after (do
        untimed (Database.setDeviceCert id certDer)
        if decide (id ∈ s.db.val.deviceIds) = true then pure () else stamp now id : Timed Unit) u = s' := by
      rw [if_neg (by simpa using hthere)]
      exact Effects.after_ok hs'
    rw [hdone, hentry, hsame]
    exact if_congr (and_iff_left hthere).symm rfl rfl

/-- **A row is stamped if it has to be made.** -/
theorem ensureDevice_ok (now : ℤ) (id name : String) (s : SeenTables) :
    ∃ s', ensureDevice now id name s = .ok () s' ∧
      ∀ i, s'.entry i = if i = id ∧ id ∉ s.db.val.deviceIds then some (some now) else s.entry i := by
  let u : SeenTables := s.into s.db
  have hsame : ∀ j, u.entry j = s.entry j := fun j => SeenTables.entry_into_same Iff.rfl
  have hread : ensureDevice now id name s = (do
      match s.db.val.getDeviceName id with
      | some _ => pure ()
      | none => upsertDevice now id name none none : Timed Unit) u := by
    rw [ensureDevice, Effects.bind_ok untimed_query]
  cases hname : s.db.val.getDeviceName id with
  | some n =>
    have hthere : id ∈ s.db.val.deviceIds := by
      obtain ⟨d, hfind, _⟩ := Option.map_eq_some_iff.mp hname
      exact List.mem_map.mpr ⟨d, List.mem_of_find?_eq_some hfind, by simpa using List.find?_some hfind⟩
    refine ⟨u, ?_, fun i => ?_⟩
    · rw [hread, hname]
      rfl
    · rw [if_neg fun h => h.2 hthere, hsame]
  | none =>
    have hmissing : id ∉ s.db.val.deviceIds := by
      intro hthere
      obtain ⟨d, hd, hid⟩ := List.mem_map.mp hthere
      have hnone := List.find?_eq_none.mp (Option.map_eq_none_iff.mp hname) d hd
      exact absurd (decide_eq_true hid) hnone
    obtain ⟨s', hok, _, hentry⟩ := upsertDevice_ok now id name none none u
    refine ⟨s', ?_, fun i => ?_⟩
    · rw [hread, hname]
      exact hok
    · rw [hentry, hsame]
      exact if_congr (and_iff_left hmissing).symm rfl rfl

theorem entry_addSyncFolder (blake3 : Bytes → FileHash) (processId : ℕ) (own : DeviceInfo)
    (localPath deviceId direction : String) :
    (Effects.after (addSyncFolder blake3 processId own now localPath deviceId direction) s).entry i =
      if i = deviceId ∧ deviceId ∉ s.db.val.deviceIds then some (some now) else s.entry i := by
  obtain ⟨t, hok, hentry⟩ :=
    ensureDevice_ok now deviceId (if deviceId = own.id then own.name else deviceId) s
  have hrest : Effects.Does SameEntries
      (untimed (discard (Database.addSyncFolder blake3 processId localPath deviceId direction))) :=
    sameEntries_untimed (Does.discard Database.sameDevices_composes
      (Database.sameDevices_addSyncFolder blake3 processId localPath deviceId direction))
  have hafter : Effects.after (addSyncFolder blake3 processId own now localPath deviceId direction) s =
      Effects.after (untimed (discard
        (Database.addSyncFolder blake3 processId localPath deviceId direction))) t := by
    rw [Effects.after, addSyncFolder, Effects.bind_ok hok, Effects.after]
  rw [hafter, hrest t, hentry]

/-! ### Peers -/

/-- A peer can be registered, and is stamped. -/
theorem addPeer_ok (blake3 : Bytes → FileHash) (processId : ℕ) (now : ℤ) (localPath : String)
    (p : FolderPeerRequest) (s : SeenTables) :
    ∃ id s', addPeer blake3 processId now localPath p s = .ok id s' ∧
      ∀ i, s'.entry i = if i = p.deviceId then some (some now) else s.entry i := by
  obtain ⟨u, hu, hthere, hentry⟩ := upsertDevice_ok now p.deviceId p.deviceId none none s
  obtain ⟨id, v, hv, hfolder, hdevice⟩ := @Database.addSyncFolder_ok u.db blake3 processId localPath
    p.deviceId (p.mode.getD "bidirectional") hthere
  obtain ⟨t, ht⟩ := @Database.addFolderDevice_ok v id p.deviceId (p.mode.getD "bidirectional")
    p.remotePath hfolder hdevice
  have hv' : untimed (Database.addSyncFolder blake3 processId localPath p.deviceId
      (p.mode.getD "bidirectional")) u = .ok id (u.into v) := untimed_ok hv
  have ht' : untimed (Database.addFolderDevice id p.deviceId (p.mode.getD "bidirectional") p.remotePath)
      (u.into v) = .ok () ((u.into v).into t) := untimed_ok ht
  refine ⟨id, (u.into v).into t, ?_, fun i => ?_⟩
  · rw [addPeer, Effects.bind_ok hu, Effects.bind_ok hv', Effects.bind_ok ht']
    rfl
  · have hadd := sameEntries_untimed
      (Database.sameDevices_addSyncFolder blake3 processId localPath p.deviceId (p.mode.getD "bidirectional")) u i
    have hattach := sameEntries_untimed (Database.sameDevices_addFolderDevice id p.deviceId
      (p.mode.getD "bidirectional") p.remotePath) (u.into v) i
    rw [Effects.after_ok hv'] at hadd
    rw [Effects.after_ok ht'] at hattach
    rw [hattach, hadd, hentry]

/-- **All peers are stamped.** -/
theorem addPeers_ok (blake3 : Bytes → FileHash) (processId : ℕ) (now : ℤ) (localPath : String)
    (peers : List FolderPeerRequest) (a : Option ℕ) (s : SeenTables) :
    ∃ r s', peers.foldlM (fun _ p => some <$> addPeer blake3 processId now localPath p) a s = .ok r s' ∧
      ∀ i, s'.entry i = if i ∈ peers.map (·.deviceId) then some (some now) else s.entry i := by
  induction peers generalizing a s with
  | nil => exact ⟨a, s, rfl, fun i => by simp⟩
  | cons p peers ih =>
    obtain ⟨id, u, hu, hfirst⟩ := addPeer_ok blake3 processId now localPath p s
    obtain ⟨r, t, ht, hrest⟩ := ih (some id) u
    have hstep : (some <$> addPeer blake3 processId now localPath p) s = .ok (some id) u := by
      rw [map_eq_pure_bind, Effects.bind_ok hu]
      rfl
    refine ⟨r, t, ?_, fun i => ?_⟩
    · rw [List.foldlM_cons, Effects.bind_ok hstep]
      exact ht
    · rw [hrest, hfirst, List.map_cons]
      by_cases hlater : i ∈ peers.map (·.deviceId)
      · rw [if_pos hlater, if_pos (List.mem_cons_of_mem _ hlater)]
      · rw [if_neg hlater]
        exact if_congr (by rw [List.mem_cons, or_iff_left hlater]) rfl rfl

theorem entry_addSyncFolderWithPeers (blake3 : Bytes → FileHash) (processId : ℕ) (localPath name : String)
    (peers : List FolderPeerRequest) :
    (Effects.after (addSyncFolderWithPeers blake3 processId now localPath name peers) s).entry i =
      if i ∈ peers.map (·.deviceId) then some (some now) else s.entry i := by
  obtain ⟨r, t, ht, hentry⟩ := addPeers_ok blake3 processId now localPath peers none s
  have hrest : Effects.Does SameEntries (untimed (discard (Api.nameFolder name r))) :=
    sameEntries_untimed (Does.discard Database.sameDevices_composes (Database.sameDevices_nameFolder name r))
  have hafter : Effects.after (addSyncFolderWithPeers blake3 processId now localPath name peers) s =
      Effects.after (untimed (discard (Api.nameFolder name r))) t := by
    rw [Effects.after, addSyncFolderWithPeers, Effects.bind_ok ht, Effects.after]
  rw [hafter, hrest t, hentry]

/-! ### A pair that is re-keyed -/

/-- A pair's device has a row. -/
theorem mem_deviceIds_of_pair {t : DbState} {folderId : ℕ} {p : Db.FolderDevice}
    (hp : p ∈ t.val.pairsOf folderId) : p.deviceId ∈ t.val.deviceIds :=
  t.references.pairDevice p (Database.mem_pairsOf.mp hp).1

theorem mem_deviceIds_setFolderDevice (folderId : ℕ) (id : String) (t : DbState) :
    i ∈ (Effects.after (Database.setFolderDevice folderId id) t).val.deviceIds ↔
      i ∈ t.val.deviceIds ∨ i = id ∧ t.val.pairsOf folderId ≠ [] := by
  cases hrun : Database.setFolderDevice folderId id t with
  | ok u t' =>
    rw [Effects.after_ok hrun]
    have hdone := Database.setFolderDevice_eq_ok.mp hrun
    cases hpairs : t.val.pairsOf folderId with
    | nil =>
      rw [hpairs] at hdone
      rw [show t' = t from hdone]
      simp
    | cons oldest rest =>
      have hmem : oldest ∈ t.val.pairsOf folderId := hpairs ▸ List.mem_cons_self
      rw [hpairs] at hdone
      dsimp only at hdone
      by_cases hsame : oldest.deviceId = id
      · rw [if_pos hsame] at hdone
        have hthere : id ∈ t.val.deviceIds := hsame ▸ mem_deviceIds_of_pair hmem
        rw [hdone]
        exact (or_iff_left_of_imp fun h => h.1 ▸ hthere).symm
      · rw [if_neg hsame] at hdone
        have hids : i ∈ t'.val.deviceIds ↔ i ∈ t.val.deviceIds ∨ i = id := by
          rw [hdone.2]
          exact @mem_ids_upsert i (fun d => decide (d.id = id)) (fun d => d) ⟨id, id, none, none⟩
            (fun _ => decide_eq_true_iff) (fun _ => rfl) t.val.devices
        rw [hids]
        exact or_congr_right (and_iff_left (List.cons_ne_nil oldest rest)).symm
  | error e t' =>
    rw [Effects.after_error hrun]
    have hkept : t' = t := (transaction_eq_error.mp hrun).1
    rw [hkept]
    refine (or_iff_left_of_imp ?_).symm
    rintro ⟨rfl, _⟩
    by_contra hmissing
    have hfree : Database.rekeyOldest i (t.val.pairsOf folderId) ≠ none := by
      unfold Database.rekeyOldest
      cases hpairs : t.val.pairsOf folderId with
      | nil => simp
      | cons oldest rest =>
        have hother : ∀ p ∈ oldest :: rest, p.deviceId ≠ i := by
          intro p hp heq
          exact hmissing (heq ▸ mem_deviceIds_of_pair (hpairs ▸ hp))
        have hnone : ¬((oldest :: rest).any fun p => decide (p.deviceId = i)) = true := by
          intro hany
          obtain ⟨p, hp, heq⟩ := List.any_eq_true.mp hany
          exact hother p hp (of_decide_eq_true heq)
        dsimp only
        rw [if_neg (hother oldest List.mem_cons_self), if_neg hnone]
        simp
    obtain ⟨t'', hok⟩ := Database.setFolderDevice_ok hfree
    rw [hrun] at hok
    cases hok

/-- **A device that is attached without a row gets one without a time.** -/
theorem entry_setFolderDevice (folderId : ℕ) (id : String) :
    (Effects.after (untimed (Database.setFolderDevice folderId id)) s).entry i =
      if i = id ∧ id ∉ s.db.val.deviceIds ∧ s.db.val.pairsOf folderId ≠ [] then some none else s.entry i := by
  have hids := @mem_deviceIds_setFolderDevice i folderId id s.db
  rw [after_untimed]
  by_cases hnew : i = id ∧ id ∉ s.db.val.deviceIds ∧ s.db.val.pairsOf folderId ≠ []
  · obtain ⟨rfl, hmissing, hpairs⟩ := hnew
    rw [SeenTables.entry_into, if_pos (hids.mpr (Or.inr ⟨rfl, hpairs⟩)), if_neg hmissing,
      if_pos ⟨rfl, hmissing, hpairs⟩]
  · rw [if_neg hnew]
    refine SeenTables.entry_into_same (hids.trans (or_iff_left_of_imp ?_))
    rintro ⟨rfl, hpairs⟩
    by_contra hmissing
    exact hnew ⟨rfl, hmissing, hpairs⟩

/-! ### What makes no row -/

/-- No device gets a row. -/
def NoMoreDevices (t t' : DbState) : Prop := t'.val.deviceIds ⊆ t.val.deviceIds

theorem noMoreDevices_composes : Effects.Composes NoMoreDevices where
  refl _ := List.Subset.refl _
  trans hfirst hsecond := List.Subset.trans hsecond hfirst

theorem noMoreDevices_execute {g : Database → Database} (h : ∀ db, (g db).devices = db.devices) :
    Effects.Does NoMoreDevices (execute g : Sql Unit) := by
  refine Does.execute noMoreDevices_composes fun t t' ht' => ?_
  unfold NoMoreDevices Database.deviceIds
  rw [ht', h]
  exact List.Subset.refl _

theorem noMoreDevices_of_same {α : Type} {x : Sql α} (h : Effects.Does Database.SameDevices x) :
    Effects.Does NoMoreDevices x := by
  intro t
  unfold NoMoreDevices Database.deviceIds
  rw [h t]
  exact List.Subset.refl _

theorem noMoreDevices_deleteDevices (doomed : Db.Device → Bool) :
    Effects.Does NoMoreDevices (execute fun db => db.deleteDevices doomed : Sql Unit) := by
  refine Does.execute noMoreDevices_composes fun t t' ht' => ?_
  unfold NoMoreDevices Database.deviceIds
  rw [ht']
  exact List.map_subset _ (List.filter_sublist.subset)

theorem entry_fewer {α : Type} {x : Sql α} (h : Effects.Does NoMoreDevices x) :
    (Effects.after (untimed x) s).entry i = s.entry i ∨ (Effects.after (untimed x) s).entry i = none := by
  rw [after_untimed]
  exact SeenTables.entry_into_fewer (h s.db)

theorem noMoreDevices_removeDevice (id : String) :
    Effects.Does NoMoreDevices (Database.removeDevice id) :=
  have hc := noMoreDevices_composes
  Does.transaction hc
    (.bind hc (Does.query hc _) fun _ => .bind hc (noMoreDevices_execute fun _ => rfl) fun _ =>
      .bind hc (Does.query hc _) fun _ => .bind hc (noMoreDevices_execute fun _ => rfl) fun _ =>
      .bind hc (Does.query hc _) fun _ => .bind hc (noMoreDevices_execute fun _ => rfl) fun _ =>
      .bind hc (noMoreDevices_execute fun _ => rfl) fun _ =>
      .bind hc (Does.query hc _) fun _ => .bind hc (noMoreDevices_execute fun _ => rfl) fun _ =>
      .bind hc (Does.query hc _) fun _ => .bind hc (noMoreDevices_deleteDevices _) fun _ => .pure hc _)

theorem noMoreDevices_clearAll : Effects.Does NoMoreDevices Database.clearAllSyncState :=
  have hc := noMoreDevices_composes
  Does.transaction hc
    (.bind hc (noMoreDevices_execute fun _ => rfl) fun _ => .bind hc (noMoreDevices_execute fun _ => rfl) fun _ =>
      .bind hc (noMoreDevices_execute fun _ => rfl) fun _ => .bind hc (Does.query hc _) fun _ =>
      .bind hc (noMoreDevices_execute fun _ => rfl) fun _ => .bind hc (Does.query hc _) fun _ =>
      .bind hc (noMoreDevices_deleteDevices _) fun _ => .pure hc _)

theorem noMoreDevices_dropIfUnpaired (folderId : ℕ) :
    Effects.Does NoMoreDevices (Database.dropIfUnpaired folderId) := by
  refine .bind noMoreDevices_composes (Does.query noMoreDevices_composes _) fun remaining => ?_
  split_ifs
  · exact noMoreDevices_execute fun _ => rfl
  · exact .pure noMoreDevices_composes _

theorem noMoreDevices_removeSyncFolders (localPath : String) (deviceId : Option String) :
    Effects.Does NoMoreDevices (Database.removeSyncFolders localPath deviceId) := by
  have hc := noMoreDevices_composes
  refine Does.transaction hc (.bind hc (Does.query hc _) fun folderIds =>
    .foldlM hc (fun deleted folderId _ => ?_) 0)
  refine .bind hc (Does.query hc _) fun _ => .bind hc ?_ fun _ =>
    .bind hc (noMoreDevices_dropIfUnpaired folderId) fun _ => .pure hc _
  exact noMoreDevices_execute fun _ => rfl

theorem noMoreDevices_removeFolderDevice (folderId : ℕ) (deviceId : String) :
    Effects.Does NoMoreDevices (Database.removeFolderDevice folderId deviceId) := by
  have hc := noMoreDevices_composes
  refine Does.transaction hc (.bind hc (Does.query hc _) fun n =>
    .bind hc (noMoreDevices_execute fun _ => rfl) fun _ => ?_)
  split_ifs
  · exact .pure hc _
  · exact .bind hc (noMoreDevices_dropIfUnpaired folderId) fun _ => .pure hc _

theorem noMoreDevices_wireFolderPair (guid localPath name ownDeviceId peerDeviceId : String)
    (peerPath : Option String) : Effects.Does NoMoreDevices
      (Database.wireFolderPair guid localPath name ownDeviceId peerDeviceId peerPath) := by
  have hc := noMoreDevices_composes
  have hinsert : ∀ path label device direction guid,
      Effects.Does NoMoreDevices (Database.insertSyncFolder path label device direction guid) :=
    fun path label device direction guid =>
      noMoreDevices_of_same (Database.sameDevices_insertSyncFolder path label device direction guid)
  refine .bind hc (Does.transaction hc (.bind hc (Does.query hc _) fun found => ?_)) fun _ =>
    .bind hc (noMoreDevices_execute fun _ => rfl) fun _ => .pure hc _
  cases found with
  | some wired =>
    refine .bind hc (noMoreDevices_execute fun _ => rfl) fun _ => ?_
    cases wired.folderGuid with
    | some oldGuid => exact .bind hc (noMoreDevices_execute fun _ => rfl) fun _ => .pure hc _
    | none => exact .bind hc (.pure hc _) fun _ => .pure hc _
  | none =>
    refine .bind hc (Does.query hc _) fun keyed => ?_
    cases keyed with
    | some f => exact .pure hc _
    | none =>
      exact .bind hc (hinsert _ _ _ _ _) fun _ => .bind hc (noMoreDevices_execute fun _ => rfl) fun _ => .pure hc _

/-- **No other operation makes a row.** -/
theorem noMoreDevices_statements (blake3 : Bytes → FileHash) (h : Host) {op : StorageOp}
    (hupsert : ∀ id name certDer lastAddr, op ≠ .upsertDevice id name certDer lastAddr)
    (hself : ∀ id certDer name, op ≠ .ensureSelfRow id certDer name)
    (hcert : ∀ id certDer, op ≠ .setDeviceCert id certDer)
    (hrekey : ∀ folderId id, op ≠ .setFolderDevice folderId id) (hstartup : op.isStartup = false) :
    Effects.Does NoMoreDevices (h.statements blake3 op) := by
  have hc := noMoreDevices_composes
  cases op with
  | upsertDevice id name certDer lastAddr => exact absurd rfl (hupsert id name certDer lastAddr)
  | ensureSelfRow id certDer name => exact absurd rfl (hself id certDer name)
  | setDeviceCert id certDer => exact absurd rfl (hcert id certDer)
  | setFolderDevice folderId id => exact absurd rfl (hrekey folderId id)
  | reconcileDevicesByCert | reopen => cases hstartup
  | setDeviceLastAddr id addr =>
    intro t i hi
    have hi : i ∈ (Effects.after (Database.setDeviceLastAddr id addr) t).val.deviceIds := hi
    rwa [ids_setDeviceLastAddr] at hi
  | addSyncFolder localPath deviceId direction =>
    exact Does.discard hc (noMoreDevices_of_same
      (Database.sameDevices_addSyncFolder blake3 h.processId localPath deviceId direction))
  | ensureFolderByGuid guid localPath name deviceId =>
    exact Does.discard hc (noMoreDevices_of_same
      (Database.sameDevices_ensureFolderByGuid guid localPath name deviceId))
  | wireFolderPair guid localPath name ownDeviceId peerDeviceId peerPath =>
    exact Does.discard hc (noMoreDevices_wireFolderPair guid localPath name ownDeviceId peerDeviceId peerPath)
  | removeSyncFolders localPath deviceId =>
    exact Does.discard hc (noMoreDevices_removeSyncFolders localPath deviceId)
  | removeFolderDevice folderId deviceId =>
    exact Does.discard hc (noMoreDevices_removeFolderDevice folderId deviceId)
  | clearAllSyncState => exact Does.discard hc noMoreDevices_clearAll
  | removeDevice id => exact Does.discard hc (noMoreDevices_removeDevice id)
  | removeSyncFolderById | recordSession =>
    exact .bind hc (noMoreDevices_execute fun _ => rfl) fun _ => noMoreDevices_execute fun _ => rfl
  | shareFolder folderGuid deviceId name localPath =>
    show Effects.Does NoMoreDevices (Database.shareFolder folderGuid deviceId name localPath)
    refine noMoreDevices_execute fun db => ?_
    split_ifs
    · rfl
    · rfl
  | upsertFileMetadata row =>
    show Effects.Does NoMoreDevices (Database.upsertFileMetadata row)
    exact noMoreDevices_execute fun _ => rfl
  | recordHistory row =>
    show Effects.Does NoMoreDevices (Database.recordHistory row)
    exact noMoreDevices_execute fun _ => rfl
  | setSharedDiscoverable id discoverable =>
    show Effects.Does NoMoreDevices (Database.setSharedDiscoverable id discoverable)
    exact noMoreDevices_execute fun _ => rfl
  | unshareFolder id =>
    show Effects.Does NoMoreDevices (Database.unshareFolder id)
    exact noMoreDevices_execute fun _ => rfl
  | addFolderDevice | setFolderName | setFolderLocalPath => exact noMoreDevices_execute fun _ => rfl

end Timed

/-! ### What tracks the contacts -/

theorem fromLastSeen_connected {now : ℤ} {lastSeen : Option ℤ} :
    Presence.fromLastSeen now lastSeen = .connected ↔
      ∃ t, lastSeen = some t ∧ now - t ≤ connectedWindowSecs := by
  unfold Presence.fromLastSeen
  cases lastSeen with
  | none => simp
  | some t =>
    simp only [Option.some.injEq, exists_eq_left']
    by_cases hrecent : now - t ≤ connectedWindowSecs
    · rw [if_pos hrecent]
      exact iff_of_true rfl hrecent
    · rw [if_neg hrecent]
      refine iff_of_false ?_ hrecent
      split_ifs
      · simp
      · simp

namespace Watch

variable {blake3 : Bytes → FileHash} {own : DeviceInfo} {ownCert : Bytes} {w w' : Watch} {now : ℤ}
  {id : String}

/-- The times in the rows of other devices are those of the latest contacts. -/
def Tracks (own : DeviceInfo) (w : Watch) : Prop :=
  ∀ i t, i ≠ own.id → w.tables.entry i = some t → t = w.lastContact i

theorem presenceTracks_iff : w.PresenceTracks own ↔ w.Tracks own := by
  constructor
  · intro h i t hi hentry
    unfold SeenTables.entry at hentry
    by_cases hthere : i ∈ w.tables.db.val.deviceIds
    · rw [if_pos hthere] at hentry
      rw [← Option.some.inj hentry]
      exact h.seen i hthere hi
    · rw [if_neg hthere] at hentry
      cases hentry
  · intro h
    have hseen : ∀ i ∈ w.tables.db.val.deviceIds, i ≠ own.id → w.tables.lastSeen i = w.lastContact i :=
      fun i hthere hi => h i _ hi (by rw [SeenTables.entry, if_pos hthere])
    refine ⟨hseen, fun m hm d hd => ?_⟩
    obtain ⟨r, hr, rfl⟩ := List.mem_map.mp (List.mem_mergeSort.mp hd)
    obtain ⟨hrow, hother⟩ := List.mem_filter.mp hr
    have hthere : r.id ∈ w.tables.db.val.deviceIds := List.mem_map_of_mem (m.devices.perm.mem_iff.mp hrow)
    rw [fromLastSeen_connected, hm, hseen r.id hthere (by simpa using hother)]

/-- **What a step leaves alone tracks the contacts still**, so only the rest matters. -/
theorem tracks_iff_of_frame {S : String → Prop} (h : w.Tracks own)
    (hframe : ∀ i, ¬S i → (w'.tables.entry i = w.tables.entry i ∨ w'.tables.entry i = none) ∧
      w'.lastContact i = w.lastContact i) :
    w'.Tracks own ↔ ∀ i, S i → i ≠ own.id → ∀ t, w'.tables.entry i = some t → t = w'.lastContact i := by
  constructor
  · exact fun h' i _ hi t hentry => h' i t hi hentry
  · intro h' i t hi hentry
    by_cases hS : S i
    · exact h' i hS hi t hentry
    · obtain ⟨hsame | hgone, hcontact⟩ := hframe i hS
      · rw [hsame] at hentry
        rw [hcontact]
        exact h i t hi hentry
      · rw [hgone] at hentry
        cases hentry

/-- Rows that keep their times or go. -/
theorem tracks_of_fewer (w' : Watch) (h : w.Tracks own) (hcontact : w'.lastContact = w.lastContact)
    (hentry : ∀ i, w'.tables.entry i = w.tables.entry i ∨ w'.tables.entry i = none) : w'.Tracks own :=
  (tracks_iff_of_frame h fun i (_ : ¬False) => ⟨hentry i, congrFun hcontact i⟩).mpr fun _ hfalse => hfalse.elim

/-- Rows that get a time, or are made without one, though there was no contact. -/
theorem tracks_of_written (w' : Watch) {S : String → Prop} [DecidablePred S] {time : Option ℤ}
    (h : w.Tracks own) (hcontact : w'.lastContact = w.lastContact)
    (hentry : ∀ i, w'.tables.entry i = if S i then some time else w.tables.entry i) :
    w'.Tracks own ↔ ∀ i, S i → i = own.id ∨ w.lastContact i = time := by
  rw [tracks_iff_of_frame h fun i (hi : ¬S i) => ⟨Or.inl (by rw [hentry, if_neg hi]), congrFun hcontact i⟩]
  refine forall_congr' fun i => imp_congr_right fun hi => ?_
  rw [hentry, if_pos hi, hcontact]
  constructor
  · intro hsame
    by_cases hown : i = own.id
    · exact Or.inl hown
    · exact Or.inr (hsame hown _ rfl).symm
  · rintro (hown | hdue) hother t ht
    · exact absurd hown hother
    · rw [hdue]
      exact (Option.some.inj ht).symm

/-- A row that is stamped. -/
theorem tracks_of_stamped {x : Timed Unit} (h : w.Tracks own)
    (hentry : ∀ i, (Effects.after x w.tables).entry i = if i = id then some (some now) else w.tables.entry i) :
    (w.after x).Tracks own ↔ w.Due own now id :=
  (tracks_of_written (w.after x) h rfl hentry).trans forall_eq

/-- A row that is stamped if it has to be made. -/
theorem tracks_of_made (w' : Watch) (h : w.Tracks own) (hcontact : w'.lastContact = w.lastContact)
    (hentry : ∀ i, w'.tables.entry i =
      if i = id ∧ id ∉ w.tables.db.val.deviceIds then some (some now) else w.tables.entry i) :
    w'.Tracks own ↔ (id ∉ w.tables.db.val.deviceIds → w.Due own now id) := by
  refine (tracks_of_written w' h hcontact hentry).trans ?_
  constructor
  · exact fun hall hmissing => hall id ⟨rfl, hmissing⟩
  · rintro hdue i ⟨rfl, hmissing⟩
    exact hdue hmissing

/-- A pairing stamps the row, as it should. -/
theorem tracks_of_paired (w' : Watch) (h : w.Tracks own)
    (hcontact : w'.lastContact = Function.update w.lastContact id (some now))
    (hentry : ∀ i, w'.tables.entry i = if i = id then some (some now) else w.tables.entry i) :
    w'.Tracks own := by
  refine (tracks_iff_of_frame h fun i (hi : ¬i = id) => ⟨Or.inl (by rw [hentry, if_neg hi]), ?_⟩).mpr ?_
  · rw [hcontact, Function.update_of_ne hi]
  · rintro i rfl _ t ht
    rw [hentry, if_pos rfl] at ht
    rw [hcontact, Function.update_self]
    exact (Option.some.inj ht).symm

/-- **A contact that stamps nothing** goes unnoticed unless the row is stamped already. -/
theorem tracks_of_unnoticed (w' : Watch) (h : w.Tracks own)
    (hcontact : w'.lastContact = Function.update w.lastContact id (some now))
    (hentry : ∀ i, w'.tables.entry i = w.tables.entry i) :
    w'.Tracks own ↔ (id ∈ w.tables.db.val.deviceIds → w.Due own now id) := by
  rw [tracks_iff_of_frame h fun i (hi : ¬i = id) => ⟨Or.inl (hentry i), by
    rw [hcontact, Function.update_of_ne hi]⟩]
  constructor
  · intro hsame hthere
    by_cases hown : id = own.id
    · exact Or.inl hown
    · have hrow : w.tables.entry id = some (w.tables.lastSeen id) := by
        rw [SeenTables.entry, if_pos hthere]
      have hnow := hsame id rfl hown _ ((hentry id).trans hrow)
      rw [hcontact, Function.update_self] at hnow
      right
      rw [← h id _ hown hrow, hnow]
  · rintro hdue i rfl hother t ht
    rw [hentry] at ht
    have hthere : i ∈ w.tables.db.val.deviceIds := by
      by_contra hmissing
      rw [SeenTables.entry_eq_none.mpr hmissing] at ht
      cases ht
    rw [hcontact, Function.update_self, h i t hother ht]
    exact (hdue hthere).resolve_left hother

/-! ### The operations -/

theorem tracks_runSession (h : w.Tracks own) (deviceId : String) (peer : Option Bytes) :
    (w.runSession ownCert now deviceId peer).Tracks own ↔
      (peer.any (fun c => decide (c ≠ ownCert)) = true → deviceId ∉ w.tables.db.val.deviceIds →
        w.Due own now deviceId) := by
  have hkept : ∀ {w' : Watch}, w'.tables = w.tables → w'.lastContact = w.lastContact → w'.Tracks own :=
    fun htables hcontact => tracks_of_fewer _ h hcontact fun i => Or.inl (by rw [htables])
  cases peer with
  | none => exact iff_of_true h fun hnone => by cases hnone
  | some peer =>
    unfold runSession
    dsimp only
    by_cases hself : peer = ownCert
    · rw [if_pos hself]
      exact iff_of_true h fun hother => by simp [hself] at hother
    · rw [if_neg hself]
      cases hcert : w.tables.db.val.getDeviceCert deviceId with
      | some stored =>
        have hthere : deviceId ∈ w.tables.db.val.deviceIds := by
          obtain ⟨d, hfind, _⟩ := Option.bind_eq_some_iff.mp hcert
          exact List.mem_map.mpr ⟨d, List.mem_of_find?_eq_some hfind, by simpa using List.find?_some hfind⟩
        refine iff_of_true ?_ fun _ hmissing => absurd hthere hmissing
        dsimp only
        split_ifs
        · exact h
        · exact hkept rfl rfl
      | none =>
        dsimp only
        refine (tracks_of_made { w.after (Timed.setDeviceCert now deviceId peer) with
          underWay := deviceId :: w.underWay } h rfl fun i => Timed.entry_setDeviceCert deviceId peer).trans ?_
        simp [hself]

theorem tracks_serveSession (h : w.Tracks own) (peer : Option Bytes) :
    (w.serveSession blake3 peer).Tracks own := by
  cases peer with
  | none => exact h
  | some peer =>
    unfold serveSession
    dsimp only
    cases w.tables.db.val.getDeviceByCertFingerprint blake3 (blake3 peer) with
    | some deviceId => exact tracks_of_fewer _ h rfl fun i => Or.inl rfl
    | none => exact h

theorem tracks_complete (h : w.Tracks own) (deviceId : String) (row : Db.SyncSession) :
    (w.complete now deviceId row).Tracks own ↔ (deviceId ∈ w.underWay →
      deviceId ∈ w.tables.db.val.deviceIds → w.Due own now deviceId) := by
  unfold complete
  by_cases hbegun : deviceId ∈ w.underWay
  · rw [if_pos hbegun]
    have hrecorded : Effects.Does Timed.SameEntries (Timed.untimed (Database.recordSession row)) :=
      Timed.sameEntries_untimed (.bind Database.sameDevices_composes
        (Database.sameDevices_execute fun _ => rfl) fun _ => Database.sameDevices_execute fun _ => rfl)
    refine (tracks_of_unnoticed { (w.after (Timed.untimed (Database.recordSession row))).contacted
      deviceId now with underWay := w.underWay.erase deviceId } h rfl (hrecorded w.tables)).trans ?_
    exact ⟨fun hdue _ => hdue, fun hdue => hdue hbegun⟩
  · rw [if_neg hbegun]
    exact iff_of_true h fun hthere => absurd hthere hbegun

theorem tracks_edit (h : w.Tracks own) (op : StorageOp) (hop : op.isStartup = false) :
    (w.after (Timed.perform blake3 w.processId now op)).Tracks own ↔
      w.KeepsTrack own ownCert (now, .edit op hop) := by
  cases op with
  | upsertDevice id name certDer lastAddr =>
    exact tracks_of_stamped h fun j => Timed.entry_upsertDevice id name certDer lastAddr
  | ensureSelfRow id certDer name =>
    exact tracks_of_stamped h fun j => Timed.entry_ensureSelfRow id certDer name
  | setDeviceCert id certDer =>
    exact tracks_of_made (w.after (Timed.setDeviceCert now id certDer)) h rfl fun j =>
      Timed.entry_setDeviceCert id certDer
  | setFolderDevice folderId id =>
    show _ ↔ (id ∉ w.tables.db.val.deviceIds → w.tables.db.val.pairsOf folderId ≠ [] →
      id = own.id ∨ w.lastContact id = none)
    refine (tracks_of_written (w.after (Timed.untimed (Database.setFolderDevice folderId id))) h rfl
      fun j => Timed.entry_setFolderDevice folderId id).trans ?_
    constructor
    · exact fun hall hmissing hpairs => hall id ⟨rfl, hmissing, hpairs⟩
    · rintro hone i ⟨rfl, hmissing, hpairs⟩
      exact hone hmissing hpairs
  | reconcileDevicesByCert | reopen => cases hop
  | _ =>
    -- no row is made
    refine iff_of_true (tracks_of_fewer _ h rfl fun i => Timed.entry_fewer
      (Timed.noMoreDevices_statements blake3 ⟨w.processId, w.tables.db⟩ ?_ ?_ ?_ ?_ hop)) trivial
    all_goals simp

theorem tracks_acceptPairing (h : w.Tracks own) (cert : Option Bytes) (req : PairRequest)
    (peerAddr : Option String) : ((w.after (Timed.acceptPairing blake3 now cert req peerAddr)).contacted
      (Timed.peerId blake3 cert req.deviceId) now).Tracks own := by
  refine tracks_of_paired _ h rfl fun i => ?_
  refine Timed.entry_upsert _ req.deviceName cert none fun _ => ?_
  cases peerAddr with
  | some addr => exact Timed.sameEntries_of_ids (Timed.ids_setDeviceLastAddr _ addr)
  | none => exact .pure Timed.sameEntries_composes ()

theorem tracks_restart (h : w.Tracks own) (processId : ℕ) : (w.restart blake3 processId).Tracks own := by
  refine tracks_of_fewer _ h rfl fun i => Or.inl (SeenTables.entry_into_same ?_)
  obtain ⟨_, ⟨pairs, hpairs⟩, _⟩ :=
    Database.backfill_spec (List.Subset.refl w.tables.db.val.syncFolders) w.tables.db.valid
  show i ∈ (w.tables.db.val.syncFolders.foldl Database.backfillPair w.tables.db.val).deviceIds ↔ _
  rw [hpairs]
  rfl

/-- **One operation.** -/
theorem perform_tracks_iff (h : w.Tracks own) (op : ℤ × ContactOp) :
    (w.perform blake3 own ownCert op).Tracks own ↔ w.KeepsTrack own ownCert op := by
  obtain ⟨now, op⟩ := op
  cases op with
  | pairWith cert deviceId name addr =>
    exact iff_of_true (tracks_of_paired _ h rfl fun i => Timed.entry_upsertDevice _ name cert (some addr)) trivial
  | acceptPairing cert req peerAddr => exact iff_of_true (tracks_acceptPairing h cert req peerAddr) trivial
  | runSession deviceId peer => exact tracks_runSession h deviceId peer
  | serveSession peer => exact iff_of_true (tracks_serveSession h peer) trivial
  | complete deviceId row => exact tracks_complete h deviceId row
  | fail deviceId => exact iff_of_true (tracks_of_fewer _ h rfl fun i => Or.inl rfl) trivial
  | approvePairing deviceId deviceName certDer =>
    exact tracks_of_stamped h fun j => Timed.entry_upsertDevice deviceId deviceName certDer none
  | approveFolderPair deviceId folderGuid name localPath remotePath =>
    refine tracks_of_stamped h fun j => Timed.entry_upsert deviceId name none none fun _ => ?_
    exact .bind Timed.sameEntries_composes (Timed.sameEntries_untimed
      (Database.sameDevices_ensureFolderByGuid folderGuid localPath name own.id)) fun folderId =>
        Timed.sameEntries_untimed (Database.sameDevices_addFolderDevice folderId deviceId "bidirectional" remotePath)
  | addFolderDevice folderId deviceId mode remotePath =>
    exact tracks_of_stamped h fun j => Timed.entry_upsert deviceId deviceId none none fun _ =>
      Timed.sameEntries_untimed (Database.sameDevices_addFolderDevice folderId deviceId mode remotePath)
  | ensureDevice deviceId =>
    obtain ⟨t, hok, hentry⟩ := Timed.ensureDevice_ok now deviceId deviceId w.tables
    refine tracks_of_made (w.after (Timed.ensureDevice now deviceId deviceId)) h rfl fun j => ?_
    show (Effects.after (Timed.ensureDevice now deviceId deviceId) w.tables).entry j = _
    rw [Effects.after_ok hok, hentry]
  | addSyncFolder localPath deviceId direction =>
    exact tracks_of_made (w.after (Timed.addSyncFolder blake3 w.processId own now localPath deviceId
      direction)) h rfl fun j => Timed.entry_addSyncFolder blake3 w.processId own localPath deviceId direction
  | addSyncFolderWithPeers localPath name peers =>
    show _ ↔ ∀ p ∈ peers, w.Due own now p.deviceId
    refine (tracks_of_written (w.after (Timed.addSyncFolderWithPeers blake3 w.processId now localPath name
      peers)) h rfl fun j => Timed.entry_addSyncFolderWithPeers blake3 w.processId localPath name peers).trans ?_
    exact List.forall_mem_map
  | edit op hop => exact tracks_edit h op hop
  | restart processId => exact iff_of_true (tracks_restart h processId) trivial

end Watch

/-- **Presence tracks contact in every state of a run exactly if** its sessions complete, and its
edits write rows, only in the second of the device's latest contact. -/
theorem presence_tracks_contact_iff (blake3 : Bytes → FileHash) (own : DeviceInfo) (ownCert : Bytes)
    (processId : ℕ) (ops : List (ℤ × ContactOp)) :
    Runs.Always (Watch.perform blake3 own ownCert) (Watch.PresenceTracks own) (Watch.new processId) ops ↔
      Runs.Meets (Watch.perform blake3 own ownCert) (Watch.KeepsTrack own ownCert) (Watch.new processId)
        ops := by
  refine Runs.always_iff_meets (J := fun _ => True) (fun _ _ _ => trivial) (fun w op _ h => ?_) trivial ?_
  · rw [Watch.presenceTracks_iff] at h ⊢
    exact Watch.perform_tracks_iff h op
  · rw [Watch.presenceTracks_iff]
    intro i t _ hentry
    have hnone : (Watch.new processId).tables.entry i = none :=
      SeenTables.entry_eq_none.mpr List.not_mem_nil
    rw [hnone] at hentry
    cases hentry

/-- A phone that is paired, and synced with a quarter of an hour later. -/
def syncedPhone : List (ℤ × ContactOp) :=
  [(0, .pairWith none "phone" "Phone" "10.0.0.2:9847"), (900, .runSession "phone" (some [98])),
    (900, .complete "phone" ⟨"outgoing", "phone", "10.0.0.2:9847", "/home/music", 1, 0, 0, 5, 0⟩)]

/-- **A session that completes is not a time at which the device was seen.** -/
theorem session_not_seen : ¬Runs.Always (Watch.perform sampleBlake3 ⟨"laptop", "Laptop", []⟩ [97])
    (Watch.PresenceTracks ⟨"laptop", "Laptop", []⟩) (Watch.new 1) syncedPhone := by
  intro halways
  have hseen := (halways syncedPhone [] (List.append_nil _).symm).seen "phone" (by decide +kernel) (by decide)
  exact absurd hseen (by decide +kernel)

end FerriSync
