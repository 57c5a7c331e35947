/-
# Sessions that a device starts

A session that this device starts meets a certificate, and is checked against
the certificate stored for the device it was started for (`checkPeer`, from
`session.rs`): the first certificate is stored, later ones must be equal to it.
The identifier under which it is looked up comes from the entry point: a single
sync, a bulk sync, the app, or a watch (`sync.rs`, `bulk.rs`, `api/mod.rs`,
`watch.rs`). All but the watch pass the device's own (`begins_deviceId`), so
that the check is against the device's certificate unless it is a watch
(`pin_checked_iff`).

Left out are the texts that a command prints, the retries of a single sync, and
what a session does after the check.

Key definitions: `checkPeer`, `SessionCall`, `EntryPoint`, `Begins`.
Key theorems: `checkPeer_ok_iff`, `begins_frame`, `pin_checked_iff`.
-/
import FerriSync.Commit
import FerriSync.Registry

namespace FerriSync

/-! ### The check -/

/-- Why a session is given up before it begins. -/
inductive StartError
  /-- The peer is this machine. -/
  | itself (remoteAddr : String) (peer own : FileHash)
  /-- The peer's certificate is not the stored one. -/
  | tofu (deviceId : String) (presented expected : FileHash)
deriving DecidableEq

/-- A call of `run_sync_session`. -/
structure SessionCall where
  localPath : String
  remoteAddr : String
  folderId : ℕ
  deviceId : String
  dryRun : Bool
  remotePath : Option String
deriving DecidableEq, Repr

/-- What a session checks once it is connected, by the certificate the peer has
presented: that it is not our own, and that it is the stored one. If none is
stored it is stored now. -/
def checkPeer (blake3 : Bytes → FileHash) (own : Bytes) (call : SessionCall) (peer : Option Bytes)
    (s : Storage) : Except StartError Storage :=
  match peer with
  | none => .ok s
  | some peer =>
    if peer = own then .error (.itself call.remoteAddr (blake3 peer) (blake3 own))
    else match s.getDeviceCert call.deviceId with
      | some stored =>
        if peer ≠ stored then .error (.tofu call.deviceId (blake3 peer) (blake3 stored)) else .ok s
      | none => .ok (s.setDeviceCert call.deviceId peer)

/-- What is stored after the check. -/
def checked (blake3 : Bytes → FileHash) (own : Bytes) (call : SessionCall) (peer : Option Bytes)
    (s : Storage) : Storage :=
  match checkPeer blake3 own call peer s with
  | .ok s' => s'
  | .error _ => s

/-! ### The entry points -/

/-- `SyncEngine::run_sync`: the pair's remote path goes with the call. -/
def runSync (s : Storage) (localPath remoteAddr : String) (folderId : ℕ) (deviceId : String)
    (dryRun : Bool) : SessionCall :=
  ⟨localPath, remoteAddr, folderId, deviceId, dryRun, s.folderPairRemotePath folderId deviceId⟩

/-- A row for the device, unless it has one. -/
def ensureDevice (s : Storage) (deviceId : String) : Storage :=
  if deviceId ∈ s.devices then s else s.upsertDevice deviceId deviceId none none

section

variable (newFolderGuid : ℕ → String)

/-- Reuse the folder's row for this path and device if there is one. -/
def getOrCreateFolder (s : Storage) (path device : String) : Except String (ℕ × Storage) :=
  match s.listSyncFolders.find? fun row =>
      decide (row.localPath = path) && decide (row.deviceId = device) with
  | some row => .ok (row.id, s)
  | none => (ensureDevice s device).addSyncFolder newFolderGuid path device "bidirectional"

/-- Re-point the rows at which this device serves the folder to the device. -/
def adoptFolders (oldest : Storage → ℕ → Option String) (own folder rowDevice : String) :
    List SyncPair → Storage → Except String Storage
  | [], s => .ok s
  | row :: rows, s =>
    if row.localPath = folder ∧ row.deviceId = own then
      match s.setFolderDevice (oldest s row.id) row.id rowDevice with
      | .error e => .error e
      | .ok s' => adoptFolders oldest own folder rowDevice rows s'
    else adoptFolders oldest own folder rowDevice rows s

/-- `sync <folder> --device`, from where the argument has been resolved to a
device and its address. -/
def runSingle (oldest : Storage → ℕ → Option String) (own folder device rowDevice : String)
    (addr : Option String) (dryRun : Bool) (s : Storage) : Except String (SessionCall × Storage) :=
  let s := if rowDevice = device then ensureDevice s rowDevice else s
  match adoptFolders oldest own folder rowDevice s.listSyncFolders s with
  | .error e => .error e
  | .ok s =>
    match getOrCreateFolder newFolderGuid s folder rowDevice with
    | .error e => .error e
    | .ok (folderId, s) =>
      match addr with
      | none => .error s!"{device} is not reachable yet"
      | some addr => .ok (runSync s folder addr folderId rowDevice dryRun, s)

/-- `watch`, from where the argument has been resolved: the session of each
change. -/
def watch (folder rowDevice addr : String) (s : Storage) : Except String (SessionCall × Storage) :=
  match getOrCreateFolder newFolderGuid s folder rowDevice with
  | .error e => .error e
  | .ok (folderId, s) => .ok (runSync s folder addr folderId "" false, s)

end

/-- The sessions of a bulk sync: each pair with its device, and the folders this
device serves with each other device; as far as an address is known, and it is
not this machine's. -/
def bulkTargets (own : String) (resolve : String → Option String) (isOwnAddress : String → Bool)
    (s : Storage) : List (SyncPair × String × String) :=
  s.listSyncFolders.flatMap fun row =>
    (if row.deviceId = own then (s.devices.entries.map (·.1)).filter fun id => decide (id ≠ own)
      else [row.deviceId]).filterMap fun id =>
      match resolve id with
      | none => none
      | some addr => if isOwnAddress addr then none else some (row, id, addr)

inductive EntryPoint
  | single
  | bulk
  | app
  | watch
deriving DecidableEq, Repr

/-- An entry point starts a session with a device, over the registry it finds;
what it has stored by then. -/
inductive Begins (newFolderGuid : ℕ → String) (s : Storage) :
    EntryPoint → String → SessionCall → Storage → Prop
  | single {oldest : Storage → ℕ → Option String} {own folder device rowDevice : String}
      {addr : Option String} {dryRun : Bool} {call : SessionCall} {s' : Storage}
      (h : runSingle newFolderGuid oldest own folder device rowDevice addr dryRun s =
        .ok (call, s')) : Begins newFolderGuid s .single rowDevice call s'
  | bulk {own : String} {resolve : String → Option String} {isOwnAddress : String → Bool}
      {before : Storage} {row : SyncPair} {id addr : String}
      (h : (row, id, addr) ∈ bulkTargets own resolve isOwnAddress before) :
      Begins newFolderGuid s .bulk id (runSync s row.localPath addr row.id id false) s
  | app {folderId : ℕ} {localPath addr deviceId : String} {dryRun : Bool} :
      Begins newFolderGuid s .app deviceId (runSync s localPath addr folderId deviceId dryRun) s
  | watch {folder rowDevice addr : String} {call : SessionCall} {s' : Storage}
      (h : FerriSync.watch newFolderGuid folder rowDevice addr s = .ok (call, s')) :
      Begins newFolderGuid s .watch rowDevice call s'

/-! ### What they pass, and what they store -/

section

variable {newFolderGuid : ℕ → String} {s s' : Storage} {call : SessionCall} {d : String}

/-- The identifier under which a session looks for its peer's certificate. -/
def EntryPoint.key : EntryPoint → String → String
  | .watch, _ => ""
  | _, d => d

/-- Two registries that differ in no device but this one, and there not in its
certificate. -/
structure Storage.OnlyDevice (d : String) (s s' : Storage) : Prop where
  others : ∀ i, i ≠ d → s'.devices.lookup i = s.devices.lookup i
  cert : s'.getDeviceCert d = s.getDeviceCert d

theorem Storage.OnlyDevice.refl (d : String) (s : Storage) : s.OnlyDevice d s :=
  ⟨fun _ _ => rfl, rfl⟩

theorem Storage.OnlyDevice.trans {s'' : Storage} (h : Storage.OnlyDevice d s s')
    (h' : Storage.OnlyDevice d s' s'') : Storage.OnlyDevice d s s'' :=
  ⟨fun i hi => (h'.others i hi).trans (h.others i hi), h'.cert.trans h.cert⟩

theorem Storage.OnlyDevice.of_devices (h : s'.devices = s.devices) : Storage.OnlyDevice d s s' := by
  refine ⟨fun i _ => by rw [h], ?_⟩
  unfold Storage.getDeviceCert
  rw [h]

theorem onlyDevice_ensureDevice : Storage.OnlyDevice d s (ensureDevice s d) := by
  unfold ensureDevice
  split_ifs
  · exact .refl d s
  · exact ⟨fun i hi => Storage.lookup_upsertDevice_ne hi, Storage.cert_upsertDevice_none d⟩

theorem onlyDevice_addSyncFolder {localPath deviceId direction : String} {n : ℕ}
    (h : s.addSyncFolder newFolderGuid localPath deviceId direction = .ok (n, s')) :
    Storage.OnlyDevice d s s' := by
  unfold Storage.addSyncFolder at h
  split_ifs at h
  split at h <;> cases h <;> exact .of_devices rfl

theorem onlyDevice_getOrCreateFolder {path : String} {n : ℕ}
    (h : getOrCreateFolder newFolderGuid s path d = .ok (n, s')) : Storage.OnlyDevice d s s' := by
  unfold getOrCreateFolder at h
  split at h
  · cases h
    exact .refl d s
  · exact onlyDevice_ensureDevice.trans (onlyDevice_addSyncFolder h)

/-- A new row without a certificate. -/
theorem onlyDevice_insertNew {name : String} (hd : d ∉ s.devices)
    (h : s'.devices = s.devices.insert d ⟨name, none, none⟩) : Storage.OnlyDevice d s s' := by
  refine ⟨fun i hi => by rw [h, AList.lookup_insert_ne hi], ?_⟩
  have hnone : s.devices.lookup d = none := AList.lookup_eq_none.mpr hd
  unfold Storage.getDeviceCert
  rw [h, AList.lookup_insert, hnone]
  rfl

theorem onlyDevice_setFolderDevice {oldest : Option String} {n : ℕ}
    (h : s.setFolderDevice oldest n d = .ok s') : Storage.OnlyDevice d s s' := by
  unfold Storage.setFolderDevice at h
  split at h
  · cases h
    exact .refl d s
  · split_ifs at h with _ _ hd
    · cases h
      exact .refl d s
    · dsimp only at h
      split at h <;> cases h <;> exact .of_devices rfl
    · dsimp only at h
      split at h <;> cases h <;> exact onlyDevice_insertNew hd rfl

theorem onlyDevice_adoptFolders {oldest : Storage → ℕ → Option String} {own folder : String}
    (rows : List SyncPair) : ∀ {s : Storage}, adoptFolders oldest own folder d rows s = .ok s' →
      Storage.OnlyDevice d s s' := by
  induction rows with
  | nil =>
    intro s h
    cases h
    exact .refl d _
  | cons row rows ih =>
    intro s h
    unfold adoptFolders at h
    split_ifs at h
    · split at h
      · cases h
      · rename_i hset
        exact (onlyDevice_setFolderDevice hset).trans (ih h)
    · exact ih h

theorem onlyDevice_runSingle {oldest : Storage → ℕ → Option String} {own folder device : String}
    {addr : Option String} {dryRun : Bool}
    (h : runSingle newFolderGuid oldest own folder device d addr dryRun s = .ok (call, s')) :
    call.deviceId = d ∧ Storage.OnlyDevice d s s' := by
  unfold runSingle at h
  dsimp only at h
  have hfirst : Storage.OnlyDevice d s (if d = device then ensureDevice s d else s) := by
    split_ifs
    · exact onlyDevice_ensureDevice
    · exact .refl d s
  generalize (if d = device then ensureDevice s d else s) = s₁ at h hfirst
  split at h
  · cases h
  · rename_i s₂ hadopt
    split at h
    · cases h
    · rename_i n s₃ hfolder
      split at h
      · cases h
      · cases h
        have hrest := (onlyDevice_adoptFolders _ hadopt).trans (onlyDevice_getOrCreateFolder hfolder)
        exact ⟨rfl, hfirst.trans hrest⟩

theorem onlyDevice_watch {folder addr : String}
    (h : watch newFolderGuid folder d addr s = .ok (call, s')) :
    call.deviceId = "" ∧ Storage.OnlyDevice d s s' := by
  unfold watch at h
  split at h
  · cases h
  · rename_i n s₁ hfolder
    cases h
    exact ⟨rfl, onlyDevice_getOrCreateFolder hfolder⟩

theorem mem_ensureDevice (s : Storage) (d : String) : d ∈ (ensureDevice s d).devices := by
  unfold ensureDevice
  split_ifs with hd
  · exact hd
  · exact AList.mem_insert _ |>.mpr (Or.inl rfl)

/-- A watch can always be started. -/
theorem exists_watch (newFolderGuid : ℕ → String) (s : Storage) (folder d addr : String) :
    ∃ call s', watch newFolderGuid folder d addr s = .ok (call, s') := by
  have hfolder : ∃ n s', getOrCreateFolder newFolderGuid s folder d = .ok (n, s') := by
    unfold getOrCreateFolder
    split
    · exact ⟨_, _, rfl⟩
    · unfold Storage.addSyncFolder
      rw [if_pos (mem_ensureDevice s d)]
      dsimp only
      split
      · exact ⟨_, _, rfl⟩
      · exact ⟨_, _, rfl⟩
  obtain ⟨n, s', h⟩ := hfolder
  unfold watch
  rw [h]
  exact ⟨_, _, rfl⟩

/-- **What an entry point passes and stores.** It has touched no device but the
one it starts the session with, and not that one's certificate. -/
theorem begins_frame {e : EntryPoint} (h : Begins newFolderGuid s e d call s') :
    call.deviceId = e.key d ∧ Storage.OnlyDevice d s s' := by
  cases h with
  | single h => exact onlyDevice_runSingle h
  | bulk h => exact ⟨rfl, .refl d s⟩
  | app => exact ⟨rfl, .refl d s⟩
  | watch h => exact onlyDevice_watch h

/-! ### The check -/

variable {blake3 : Bytes → FileHash} {own x : Bytes}

/-- The session goes on if the certificate is not our own, and is the stored
one if one is stored. -/
theorem checkPeer_ok_iff : (∃ s', checkPeer blake3 own call (some x) s = .ok s') ↔
    x ≠ own ∧ ∀ y, s.getDeviceCert call.deviceId = some y → x = y := by
  unfold checkPeer
  dsimp only
  by_cases hown : x = own
  · simp [hown]
  · rw [if_neg hown]
    cases hstored : s.getDeviceCert call.deviceId with
    | none => simp [hown]
    | some y => by_cases hxy : x = y <;> simp_all

/-- A session under an identifier with a stored certificate stores nothing. -/
theorem checked_of_pinned {y : Bytes} (h : s.getDeviceCert call.deviceId = some y) :
    checked blake3 own call (some x) s = s := by
  have hcheck : checkPeer blake3 own call (some x) s = .ok s ∨
      ∃ e, checkPeer blake3 own call (some x) s = .error e := by
    unfold checkPeer
    simp only [h]
    split_ifs
    · exact Or.inr ⟨_, rfl⟩
    · exact Or.inr ⟨_, rfl⟩
    · exact Or.inl rfl
  unfold checked
  rcases hcheck with h | ⟨e, h⟩
  · rw [h]
  · rw [h]

/-- A session under an identifier without a certificate stores what it meets. -/
theorem checked_of_unpinned (h : s.getDeviceCert call.deviceId = none) (hown : x ≠ own) :
    checked blake3 own call (some x) s = s.setDeviceCert call.deviceId x := by
  unfold checked checkPeer
  simp only [h, if_neg hown]

theorem Storage.OnlyDevice.getDeviceCert (h : Storage.OnlyDevice d s s') (i : String) :
    s'.getDeviceCert i = s.getDeviceCert i := by
  by_cases hi : i = d
  · rw [hi, h.cert]
  · unfold Storage.getDeviceCert
    rw [h.others i hi]

end

/-- **Sessions are checked against their device's certificate, unless a watch
starts them.** Let an entry point start a session with a device, over any
registry, and let the device have a certificate. The session goes on with the
peers that present that certificate and no others, and no other device's row
is made or changed, if and only if the certificate is not our own and, where a
watch starts it, is also stored under the empty identifier. -/
theorem pin_checked_iff (blake3 : Bytes → FileHash) (own : Bytes) (newFolderGuid : ℕ → String)
    (s s' : Storage) (e : EntryPoint) (d : String) (call : SessionCall) (p : Bytes)
    (hbegins : Begins newFolderGuid s e d call s') (hpin : s.getDeviceCert d = some p) :
    (∀ x, ((∃ s'', checkPeer blake3 own call (some x) s' = .ok s'') ↔ x = p) ∧
      ∀ i, i ≠ d → (checked blake3 own call (some x) s').devices.lookup i = s.devices.lookup i) ↔
      p ≠ own ∧ (e = .watch → s.getDeviceCert "" = some p) := by
  obtain ⟨hkey, honly⟩ := begins_frame hbegins
  have hcert : s'.getDeviceCert call.deviceId = s.getDeviceCert (e.key d) := by
    rw [hkey, honly.getDeviceCert]
  constructor
  · intro h
    obtain ⟨hproceeds, hothers⟩ := h p
    obtain ⟨hown, hstored⟩ := checkPeer_ok_iff.mp (hproceeds.mpr rfl)
    refine ⟨hown, fun hwatch => ?_⟩
    subst hwatch
    cases hempty : s.getDeviceCert "" with
    | some y => rw [hstored y (hcert.trans hempty)]
    | none =>
      -- the session of the watch would make a row for the empty identifier
      exfalso
      have hd : "" ≠ d := by
        rintro rfl
        rw [hempty] at hpin
        cases hpin
      have hrow := hothers "" hd
      rw [checked_of_unpinned (hcert.trans hempty) hown, hkey] at hrow
      have hnew : (s'.setDeviceCert "" p).getDeviceCert "" = s.getDeviceCert "" := by
        unfold Storage.getDeviceCert
        exact congrArg (Option.bind · _) hrow
      rw [Storage.cert_setDeviceCert, if_pos rfl, hempty] at hnew
      cases hnew
  · rintro ⟨hown, hwatch⟩ x
    have hstored : s'.getDeviceCert call.deviceId = some p := by
      rw [hcert]
      cases e with
      | watch => exact hwatch rfl
      | single | bulk | app => exact hpin
    refine ⟨?_, fun i hi => ?_⟩
    · rw [checkPeer_ok_iff, hstored]
      constructor
      · rintro ⟨-, h⟩
        exact h p rfl
      · rintro rfl
        exact ⟨hown, fun y hy => Option.some.inj hy⟩
    · rw [checked_of_pinned hstored, honly.others i hi]

/-- Two paired devices. -/
def pairedStorage : Storage where
  devices := ((∅ : AList fun _ : String => DeviceRow).insert "laptop"
    ⟨"Laptop", some [98], some "10.0.0.2:9847"⟩).insert "phone"
    ⟨"Phone", some [97], some "10.0.0.1:9847"⟩
  syncFolders := []
  folderDevices := ∅
  sharedFolders := []
  nextFolderId := 1

theorem pin_checked_iff_app :
    let call := runSync pairedStorage "/music" "10.0.0.1:9847" 1 "phone" false
    (∃ s, checkPeer sampleBlake3 [115] call (some [97]) pairedStorage = .ok s) ∧
      ¬∃ s, checkPeer sampleBlake3 [115] call (some [99]) pairedStorage = .ok s := by
  have hbegins : Begins (fun _ => "guid") pairedStorage .app "phone"
      (runSync pairedStorage "/music" "10.0.0.1:9847" 1 "phone" false) pairedStorage := .app
  have h := (pin_checked_iff sampleBlake3 [115] (fun _ => "guid") pairedStorage pairedStorage .app
    "phone" _ [97] hbegins rfl).mpr ⟨by decide, fun h => by cases h⟩
  exact ⟨(h [97]).1.mpr rfl, fun h' => absurd ((h [99]).1.mp h') (by decide)⟩

/-- **A watch meets anyone.** The first session of a watch of the phone goes on
with a peer that does not have the phone's certificate, and stores that
peer's under the empty identifier; a watch of the laptop, started next, refuses
the laptop. -/
theorem watch_unpinned : ∃ call s₁ s₂ call' s₃,
    Begins (fun _ => "guid") pairedStorage .watch "phone" call s₁ ∧
      checkPeer sampleBlake3 [115] call (some [99]) s₁ = .ok s₂ ∧
      s₂.getDeviceCert "" = some [99] ∧
      Begins (fun _ => "guid") s₂ .watch "laptop" call' s₃ ∧
      s₃.getDeviceCert "laptop" = some [98] ∧
      checkPeer sampleBlake3 [115] call' (some [98]) s₃ =
        .error (.tofu "" (sampleBlake3 [98]) (sampleBlake3 [99])) := by
  obtain ⟨call, s₁, hwatch⟩ := exists_watch (fun _ => "guid") pairedStorage "/music" "phone"
    "10.0.0.1:9847"
  obtain ⟨hkey, honly⟩ := onlyDevice_watch hwatch
  have hcert := honly.getDeviceCert
  have hempty : s₁.getDeviceCert "" = none := by
    rw [hcert]
    rfl
  have hcheck : checkPeer sampleBlake3 [115] call (some [99]) s₁ =
      .ok (s₁.setDeviceCert "" [99]) := by
    unfold checkPeer
    simp only [hkey, hempty, if_neg (show ¬([99] : Bytes) = [115] by decide)]
  obtain ⟨call', s₃, hwatch'⟩ := exists_watch (fun _ => "guid") (s₁.setDeviceCert "" [99]) "/photos" "laptop"
    "10.0.0.2:9847"
  obtain ⟨hkey', honly'⟩ := onlyDevice_watch hwatch'
  have hstored : s₃.getDeviceCert "" = some [99] := by
    rw [honly'.getDeviceCert, Storage.cert_setDeviceCert, if_pos rfl]
  refine ⟨call, s₁, _, call', s₃, .watch hwatch, hcheck, ?_, .watch hwatch', ?_, ?_⟩
  · rw [Storage.cert_setDeviceCert, if_pos rfl]
  · rw [honly'.getDeviceCert, Storage.cert_setDeviceCert, if_neg (by decide), hcert]
    rfl
  · unfold checkPeer
    simp only [hkey', hstored, if_neg (show ¬([98] : Bytes) = [115] by decide)]
    rfl

end FerriSync
