/-
# Greetings

A session begins with a Hello from either end: who it is, and the folder it
offers. The end that connects makes its own in `run_sync_session`, the one that
listens answers in `listen_for_sync` (both `session.rs`), and each validates what it
receives. The name of the folder is its path, looked up among the enabled pairs:
a folder without one is offered under the empty name, which `validate` refuses.
All else that is validated holds of every greeting (`validate_fromDevice_iff`). So
the greetings are valid exactly for a folder at a path that has an enabled pair
(`hellos_valid_iff`).

Key definitions: `sessionHello`, `listenerHello`, `readServerHello`,
`Database.Offered`.
Key theorems: `hellos_valid_iff`, `receive_unnamed`.
-/
import FerriSync.Bulk
import FerriSync.Renames
import FerriSync.Server
import Mathlib.Data.String.Basic

namespace FerriSync

/-- A device's certificate, and the fingerprint kept with it. -/
structure CryptoProvider where
  certificate : Bytes
  fingerprint : Bytes

/-- The errors of the two queries that a greeting is made of, where they fail. -/
structure GreetingFaults where
  deviceName : Option String := none
  folders : Option String := none

/-- Build a Hello message from local device info. -/
def Hello.fromDevice (device : DeviceInfo) (crypto : CryptoProvider) (folders : List HelloFolder) :
    Hello where
  protocolVersion := FerriSync.protocolVersion
  deviceId := device.id
  deviceName := device.name
  certFingerprint := crypto.fingerprint
  folders := folders

/-- `HelloError`'s `Display`. -/
def HelloError.text : HelloError → String
  | .versionMismatch remote max => s!"protocol version {remote} unsupported (max {max})"
  | .emptyDeviceId => "device_id is empty"
  | .deviceIdTooLong len max => s!"device_id too long: {len} bytes (max {max})"
  | .tooManyFolders count max => s!"too many folders: {count} (max {max})"
  | .emptyFolderName index => s!"folder at index {index} has empty name"

/-- The path in the first row of the folder, or nothing. -/
def folderName (rows : List SyncPair) (folderId : ℤ) : String :=
  ((rows.find? fun row => decide ((row.id : ℤ) = folderId)).map (·.localPath)).getD ""

section

variable (blake3 : Bytes → FileHash) (faults : GreetingFaults) (crypto : CryptoProvider)
  (folderId : ℤ) (db : Database)

/-- The Hello of `run_sync_session`. -/
def sessionHello : Except String Hello :=
  let myId := certToDeviceId blake3 crypto.certificate
  match faults.deviceName with
  | some e => .error e
  | none =>
    let deviceName := (db.getDeviceName myId).getD ""
    match faults.folders with
    | some e => .error e
    | none => .ok (Hello.fromDevice ⟨myId, deviceName, []⟩ crypto
        [⟨toString folderId, folderName db.listSyncFolders folderId, "both"⟩])

/-- The Hello of `listen_for_sync`. -/
def listenerHello (deviceInfo : DeviceInfo) : Hello :=
  let name := match faults.folders with
    | some _ => ""
    | none => folderName db.listSyncFolders folderId
  Hello.fromDevice
    ⟨certToDeviceId blake3 crypto.certificate, deviceInfo.name, deviceInfo.certFingerprint⟩ crypto
    [⟨toString folderId, name, "both"⟩]

/-- What `run_sync_session` makes of the server's answer to its Hello. -/
def readServerHello (peerCert : Option Bytes) : SyncMessage → Except String Hello
  | .hello h =>
    match h.validate with
    | .error e => .error ("remote Hello invalid: " ++ e.text)
    | .ok () =>
      match peerCert.map (certToDeviceId blake3) with
      | none => .ok h
      | some expected =>
        if h.deviceId ≠ expected then
          .error (s!"identity mismatch: server Hello claims device_id {h.deviceId} " ++
            s!"but its TLS certificate maps to {expected} — refusing session")
        else .ok h
  | _ => .error "expected Hello from server"

end

/-- The folder is at a path, and a pair of it is enabled. -/
def Database.Offered (db : Database) (folderId : ℤ) : Prop :=
  ∃ f ∈ db.syncFolders, (f.id : ℤ) = folderId ∧ f.localPath ≠ "" ∧
    ∃ p ∈ db.folderDevices, p.folderId = f.id ∧ p.enabled = true

/-- The greetings of both ends pass, if they are sent at all. -/
structure HellosValid (blake3 : Bytes → FileHash) (faults : GreetingFaults) (crypto : CryptoProvider)
    (folderId : ℤ) (db : Database) (deviceInfo : DeviceInfo) : Prop where
  session : ∀ h, sessionHello blake3 faults crypto folderId db = .ok h → h.validate = .ok ()
  listener : (listenerHello blake3 faults crypto folderId db deviceInfo).validate = .ok ()

/-! ### Identifiers -/

theorem utf8Len_append (cs ds : List Char) :
    String.utf8Len (cs ++ ds) = String.utf8Len cs + String.utf8Len ds := by
  induction cs with
  | nil => simp
  | cons c cs ih =>
    simp only [List.cons_append, String.utf8Len_cons, ih]
    omega

theorem utf8Len_hexByte (b : UInt8) : String.utf8Len (hexByte b) = 2 := by
  have hdigit : ∀ m < 16, (Nat.digitChar m).utf8Size = 1 := by decide
  have hlt : b.toNat < 256 := b.toNat_lt
  simp only [hexByte, String.utf8Len_cons, String.utf8Len_nil, hdigit (b.toNat / 16) (by omega),
    hdigit (b.toNat % 16) (by omega)]

theorem utf8Len_hexBytes (bs : Bytes) : String.utf8Len (hexBytes bs) = 2 * bs.length := by
  induction bs with
  | nil => rfl
  | cons b bs ih =>
    calc String.utf8Len (hexBytes (b :: bs))
        = String.utf8Len (hexByte b) + String.utf8Len (hexBytes bs) := utf8Len_append _ _
      _ = 2 * (b :: bs).length := by rw [utf8Len_hexByte, ih, List.length_cons]; omega

/-- An identifier has the 36 bytes of a UUID. -/
theorem certToDeviceId_size (blake3 : Bytes → FileHash) (cert : Bytes) :
    (certToDeviceId blake3 cert).utf8ByteSize = 36 := by
  have hlen := (blake3 cert).length_eq
  have hdash : '-'.utf8Size = 1 := by decide
  simp only [certToDeviceId, uuidString, String.utf8ByteSize_ofList, utf8Len_append,
    String.utf8Len_cons, utf8Len_hexBytes, hdash, List.length_take, List.length_drop,
    List.length_modify, hlen]
  rfl

/-! ### Validation -/

section

variable {blake3 : Bytes → FileHash} {faults : GreetingFaults} {crypto : CryptoProvider}
  {folderId : ℤ} {db : Database} {deviceInfo : DeviceInfo}

/-- **Nothing but the name of its folder can make a greeting invalid.** -/
theorem validate_fromDevice_iff (name : String) (fingerprint cert : Bytes) (folder : HelloFolder) :
    (Hello.fromDevice ⟨certToDeviceId blake3 cert, name, fingerprint⟩ crypto [folder]).validate =
      .ok () ↔ folder.name ≠ "" := by
  have hsize := certToDeviceId_size blake3 cert
  have hid : certToDeviceId blake3 cert ≠ "" := by
    intro hempty
    rw [hempty] at hsize
    exact absurd hsize (by decide)
  generalize hh : Hello.fromDevice ⟨certToDeviceId blake3 cert, name, fingerprint⟩ crypto [folder] = h
  have hversion : h.protocolVersion = FerriSync.protocolVersion := by rw [← hh]; rfl
  have hdevice : h.deviceId = certToDeviceId blake3 cert := by rw [← hh]; rfl
  have hfolders : h.folders = [folder] := by rw [← hh]; rfl
  unfold Hello.validate
  rw [hversion, hdevice, hfolders, hsize, if_neg (by decide), if_neg hid, if_neg (by omega),
    if_neg (by simp [maxHelloFolders])]
  by_cases hname : folder.name = ""
  · simp [hname]
  · simp [hname]

/-- Folders of one number are one folder. -/
theorem folderName_ne_iff (s : DbState) :
    folderName s.val.listSyncFolders folderId ≠ "" ↔ s.val.Offered folderId := by
  unfold folderName
  cases hfind : s.val.listSyncFolders.find? fun row => decide ((row.id : ℤ) = folderId) with
  | none =>
    have hnone := List.find?_eq_none.mp hfind
    simp only [Option.map_none, Option.getD_none, ne_eq, not_true_eq_false, false_iff]
    rintro ⟨f, hf, hid, -, p, hp, hfolder, henabled⟩
    apply hnone _ (Database.mem_listSyncFolders.mpr ⟨f, hf, p, hp, hfolder, henabled, rfl⟩)
    exact decide_eq_true hid
  | some row =>
    have hmem := List.mem_of_find?_eq_some hfind
    obtain ⟨f, hf, p, hp, hfolder, henabled, rfl⟩ := Database.mem_listSyncFolders.mp hmem
    have hid : (f.id : ℤ) = folderId := by simpa using List.find?_some hfind
    simp only [Option.map_some, Option.getD_some]
    constructor
    · intro hpath
      exact ⟨f, hf, hid, hpath, p, hp, hfolder, henabled⟩
    · rintro ⟨g, hg, hid', hpath, -⟩
      have hsame : g = f := by
        apply List.inj_on_of_nodup_map s.keys.syncFolders hg hf
        omega
      rwa [← hsame]

theorem validate_sessionHello_iff {h : Hello} (s : DbState)
    (hsent : sessionHello blake3 faults crypto folderId s.val = .ok h) :
    h.validate = .ok () ↔ s.val.Offered folderId := by
  rw [← folderName_ne_iff]
  unfold sessionHello at hsent
  dsimp only at hsent
  split at hsent
  · cases hsent
  · split at hsent
    · cases hsent
    · rw [← Except.ok.inj hsent, validate_fromDevice_iff]

theorem listenerHello_valid_iff (s : DbState) :
    (listenerHello blake3 faults crypto folderId s.val deviceInfo).validate = .ok () ↔
      faults.folders = none ∧ s.val.Offered folderId := by
  rw [← folderName_ne_iff]
  unfold listenerHello
  rw [validate_fromDevice_iff]
  cases faults.folders with
  | some e => simp
  | none => simp

/-- A listener hangs up on a client whose folder has no name, whatever it asks for. -/
theorem receive_unnamed {h : Hello} (s : DbState)
    (hsent : sessionHello blake3 faults crypto folderId s.val = .ok h)
    (hname : ¬ s.val.Offered folderId) (cert : Option Bytes) (ip : Option String)
    (rest : List SyncMessage) :
    ServerTask.receive blake3 ⟨cert, ip, .hello h :: rest⟩ =
      .closed (some ⟨cert, ip, .hello h :: rest⟩) none := by
  rw [← validate_sessionHello_iff s hsent] at hname
  unfold ServerTask.receive
  cases hvalid : h.validate with
  | error e => simp only [hvalid]
  | ok u => exact absurd hvalid hname

/-- And a client on such a listener. -/
theorem readServerHello_unnamed (s : DbState) (hname : ¬ s.val.Offered folderId)
    (peerCert : Option Bytes) : ∃ e, readServerHello blake3 peerCert
      (.hello (listenerHello blake3 faults crypto folderId s.val deviceInfo)) = .error e := by
  unfold readServerHello
  cases hvalid : (listenerHello blake3 faults crypto folderId s.val deviceInfo).validate with
  | error e =>
    simp only [hvalid]
    exact ⟨_, rfl⟩
  | ok u => exact absurd ((listenerHello_valid_iff s).mp hvalid).2 hname

end

/-- **Every greeting is valid exactly if** the folders can be listed, and the
one that is offered is at a path and has an enabled pair. -/
theorem hellos_valid_iff (blake3 : Bytes → FileHash) (faults : GreetingFaults) (crypto : CryptoProvider)
    (folderId : ℤ) (s : DbState) (deviceInfo : DeviceInfo) :
    HellosValid blake3 faults crypto folderId s.val deviceInfo ↔
      faults.folders = none ∧ s.val.Offered folderId := by
  rw [← @listenerHello_valid_iff _ _ _ _ deviceInfo]
  constructor
  · exact HellosValid.listener
  · intro hlistener
    obtain ⟨-, hoffered⟩ := (listenerHello_valid_iff s).mp hlistener
    exact ⟨fun h hsent => (validate_sessionHello_iff s hsent).mpr hoffered, hlistener⟩

/-- A folder whose only pair has been disabled. -/
def pausedPhotos : Database :=
  { Database.empty with
    devices := [⟨"phone", "Phone", none, none⟩]
    syncFolders := [⟨1, "/photos", some "photos", "phone", "bidirectional", some "f-1"⟩]
    folderDevices := [⟨1, "phone", "bidirectional", none, false⟩]
    folderSeq := 1 }

/-- Neither end can greet the other. -/
theorem paused_folder_unnamed : ¬ ∀ (blake3 : Bytes → FileHash) (crypto : CryptoProvider)
    (folderId : ℤ) (s : DbState) (deviceInfo : DeviceInfo),
    HellosValid blake3 {} crypto folderId s.val deviceInfo := by
  intro h
  have hlistener := (h sampleBlake3 ⟨[97], [7]⟩ 1 ⟨pausedPhotos, by decide⟩
    ⟨"laptop", "Laptop", []⟩).listener
  rw [listenerHello_valid_iff] at hlistener
  obtain ⟨-, f, hf, -, -, p, hp, -, henabled⟩ := hlistener
  rw [List.mem_singleton.mp hp] at henabled
  cases henabled

end FerriSync
