/-
# What a server says

What a server sends on a connection (`serverReplies`), step by step: a greeting for
a greeting, and one answer. What a peer claims to be in a pairing request or a
folder request shows nowhere: neither in the replies nor in what the server
remembers, holds or reports, whatever the order of the connections' and the
operator's steps (`claimed_ids_ignored`).

What the file exchange sends after an index is not part of this: it depends on
the index and on the folder.

Key definitions: `Listener`, `serverReplies`, `ServerTask.unclaimed`.
Key theorems: `serverStep_unclaimed`, `claimed_ids_ignored`.
-/
import FerriSync.Consent

namespace FerriSync

open ServerTask

/-- What a server listens with: its certificate, the fingerprint it gives out,
and the row of the folder it serves. -/
structure Listener where
  cert : Bytes
  fingerprint : Bytes
  folderId : ℕ

section

variable (blake3 : Bytes → FileHash) (l : Listener)

/-- The server's own greeting. The folder's name stays empty if the folders
cannot be listed. -/
def localHello (listed : Bool) (s : Server) : Hello where
  protocolVersion := protocolVersion
  deviceId := certToDeviceId blake3 l.cert
  deviceName := s.info.name
  certFingerprint := l.fingerprint
  folders :=
    let folders := if listed then s.storage.listSyncFolders else []
    [⟨toString l.folderId,
      ((folders.find? fun row => decide (row.id = l.folderId)).map (·.localPath)).getD "", "both"⟩]

/-- What is sent to a peer whose first message has been read. -/
def greeting (listed : Bool) (c : Inbound) (s : Server) : List SyncMessage :=
  match c.messages with
  | .hello h :: _ =>
    match h.validate with
    | .error _ => []
    | .ok () =>
      if h.deviceId ≠ c.identity blake3 h.deviceId then []
      else [.hello (localHello blake3 l listed s)]
  | _ => []

/-- The answer with which a step ends its connection. -/
def lastReply : ServerTask → List SyncMessage
  | closed _ (some m) => [m]
  | _ => []

/-- What the server sends as a task takes its next step. The answer to a
pairing request goes out before anything is stored. -/
def serverReplies (listed : Bool) : ServerTask → Server → List SyncMessage
  | accepted c, s => greeting blake3 l listed c s
  | respond _ _ .accept, s => [s.pairResponse true none]
  | recordAddr _ _, _ => []
  | closed _ _, _ => []
  | t, s => lastReply (serverStep blake3 t s).1

/-! ### Without the claims -/

/-- The message without the identifier it claims. -/
def SyncMessage.unclaimed : SyncMessage → SyncMessage
  | .pairRequest r => .pairRequest { r with deviceId := "" }
  | .requestFolderPair r => .requestFolderPair { r with deviceId := "" }
  | m => m

def Inbound.unclaimed (c : Inbound) : Inbound := { c with messages := c.messages.map (·.unclaimed) }

def PairRequest.unclaimed (r : PairRequest) : PairRequest := { r with deviceId := "" }

def FolderApproval.unclaimed (a : FolderApproval) : FolderApproval :=
  { a with origin := a.origin.map fun o => (o.1.unclaimed, o.2) }

/-- The task without what its peer claims to be. From `lookupGrant` on a folder
request carries the identifier of the certificate instead. -/
def ServerTask.unclaimed : ServerTask → ServerTask
  | accepted c => accepted c.unclaimed
  | admission c req => admission c.unclaimed req.unclaimed
  | hold c req => hold c.unclaimed req.unclaimed
  | respond c req a => respond c.unclaimed req.unclaimed a
  | store c req => store c.unclaimed req.unclaimed
  | recordAddr c req => recordAddr c.unclaimed req.unclaimed
  | authenticate c idx => authenticate c.unclaimed idx
  | session c idx => session c.unclaimed idx
  | listShares c => listShares c.unclaimed
  | lookupShare c req => lookupShare c.unclaimed { req with deviceId := "" }
  | lookupGrant c req localPath => lookupGrant c.unclaimed req localPath
  | lookupDenial c req localPath => lookupDenial c.unclaimed req localPath
  | lookupTrust c req localPath => lookupTrust c.unclaimed req localPath
  | holdFolder c req => holdFolder c.unclaimed req
  | refileFolder c req => refileFolder c.unclaimed req
  | approveFolder a => approveFolder a.unclaimed
  | storeGrantee a => storeGrantee a.unclaimed
  | ensureFolder a => ensureFolder a.unclaimed
  | attachDevice a folderId => attachDevice a.unclaimed folderId
  | closed c sent => closed (c.map (·.unclaimed)) sent
  | t => t

end

section

variable {blake3 : Bytes → FileHash} {l : Listener} {c : Inbound} {t : ServerTask} {s : Server}

@[simp] theorem Inbound.unclaimed_cert : c.unclaimed.cert = c.cert := rfl

@[simp] theorem Inbound.unclaimed_peerIp : c.unclaimed.peerIp = c.peerIp := rfl

/-- With a certificate, who a peer is does not depend on what it claims. -/
theorem Inbound.identity_of_cert (blake3 : Bytes → FileHash) (hcert : c.cert.isSome = true)
    (claimed claimed' : String) :
    c.identity blake3 claimed = c.identity blake3 claimed' := by
  obtain ⟨cert, h⟩ := Option.isSome_iff_exists.mp hcert
  unfold Inbound.identity
  rw [h]

theorem Inbound.identity_unclaimed (claimed : String) :
    c.unclaimed.identity blake3 claimed = c.identity blake3 claimed := rfl

theorem ServerTask.peer_unclaimed : t.unclaimed.peer = t.peer.map (·.unclaimed) := by
  cases t with
  | approveFolder a | storeGrantee a | ensureFolder a | attachDevice a folderId =>
    simp only [ServerTask.unclaimed, peer, FolderApproval.unclaimed, Option.map_map]
    rfl
  | _ => rfl

theorem dispatch_unclaimed (m : SyncMessage) :
    dispatch c.unclaimed m.unclaimed = (dispatch c m).unclaimed := by
  cases m <;> rfl

theorem receive_unclaimed : receive blake3 c.unclaimed = (receive blake3 c).unclaimed := by
  obtain ⟨cert, peerIp, messages⟩ := c
  unfold receive
  cases messages with
  | nil => rfl
  | cons m rest =>
    cases m with
    | hello h =>
      show (match h.validate with
        | .error _ => _
        | .ok () => _) = _
      dsimp only
      cases h.validate with
      | error e => rfl
      | ok u =>
        show (if h.deviceId ≠ Inbound.identity blake3 _ h.deviceId then _ else _) =
          ServerTask.unclaimed (if h.deviceId ≠ Inbound.identity blake3 _ h.deviceId then _ else _)
        rw [Inbound.identity_unclaimed]
        split_ifs
        · rfl
        · cases rest with
          | nil => rfl
          | cons m rest => exact dispatch_unclaimed m
    | _ => rfl

theorem approvalFailed_unclaimed (a : FolderApproval) :
    approvalFailed a.unclaimed = (approvalFailed a).unclaimed := by
  obtain ⟨_, _, _, _, _, _ | _⟩ := a <;> rfl

theorem approvalDone_unclaimed (a : FolderApproval) :
    approvalDone a.unclaimed = (approvalDone a).unclaimed := by
  obtain ⟨_, _, _, _, _, _ | _⟩ := a <;> rfl

/-- **A step does not look at what is claimed**, if the peer has a certificate:
it leads to the same state, and to the same task but for the claims. -/
theorem serverStep_unclaimed (hcert : ∀ c, t.peer = some c → c.cert.isSome = true) :
    serverStep blake3 t.unclaimed s =
      ((serverStep blake3 t s).1.unclaimed, (serverStep blake3 t s).2) := by
  cases t with
  | accepted c => exact Prod.ext receive_unclaimed rfl
  | admission c req =>
    simp only [serverStep, ServerTask.unclaimed, Inbound.unclaimed_cert]
    split
    · split_ifs <;> rfl
    · split_ifs <;> rfl
  | hold c req =>
    have hid := c.identity_of_cert blake3 (hcert c rfl) "" req.deviceId
    simp only [serverStep, ServerTask.unclaimed, PairRequest.unclaimed, Inbound.identity_unclaimed,
      hid, Inbound.unclaimed_cert]
    split_ifs <;> rfl
  | respond c req a => cases a <;> rfl
  | store c req =>
    have hid := c.identity_of_cert blake3 (hcert c rfl) "" req.deviceId
    simp only [serverStep, ServerTask.unclaimed, PairRequest.unclaimed, Inbound.identity_unclaimed,
      hid, Inbound.unclaimed_cert]
    split_ifs <;> rfl
  | recordAddr c req =>
    have hid := c.identity_of_cert blake3 (hcert c rfl) "" req.deviceId
    simp only [serverStep, ServerTask.unclaimed, PairRequest.unclaimed, Inbound.identity_unclaimed,
      hid, Inbound.unclaimed_peerIp]
    split
    · rfl
    · split_ifs <;> rfl
  | authenticate c idx =>
    simp only [serverStep, ServerTask.unclaimed, Inbound.unclaimed_cert]
    split
    · rfl
    · split_ifs <;> rfl
  | lookupShare c req =>
    have hid := c.identity_of_cert blake3 (hcert c rfl) "" req.deviceId
    simp only [serverStep, ServerTask.unclaimed, Inbound.identity_unclaimed, hid]
    split
    · split_ifs <;> rfl
    · rfl
  | lookupGrant c req localPath =>
    simp only [serverStep, ServerTask.unclaimed]
    split <;> rfl
  | lookupDenial c req localPath | lookupTrust c req localPath =>
    simp only [serverStep, ServerTask.unclaimed]
    split_ifs <;> rfl
  | storeGrantee a =>
    simp only [serverStep, ServerTask.unclaimed, approvalFailed_unclaimed]
    split_ifs <;> rfl
  | ensureFolder a =>
    simp only [serverStep, ServerTask.unclaimed, approvalFailed_unclaimed]
    split_ifs
    · rfl
    · have hsame : s.storage.ensureFolderByGuid a.unclaimed.folderGuid a.unclaimed.localPath
          a.unclaimed.name s.info.id =
          s.storage.ensureFolderByGuid a.folderGuid a.localPath a.name s.info.id := rfl
      rw [hsame]
      cases s.storage.ensureFolderByGuid a.folderGuid a.localPath a.name s.info.id <;> rfl
  | attachDevice a folderId =>
    simp only [serverStep, ServerTask.unclaimed, approvalFailed_unclaimed, approvalDone_unclaimed]
    split_ifs
    · rfl
    · have hsame : s.storage.addFolderDevice folderId a.unclaimed.deviceId "bidirectional"
          a.unclaimed.remotePath =
          s.storage.addFolderDevice folderId a.deviceId "bidirectional" a.remotePath := rfl
      rw [hsame]
      cases s.storage.addFolderDevice folderId a.deviceId "bidirectional" a.remotePath <;> rfl
  | storeApproved id name cert =>
    simp only [serverStep, ServerTask.unclaimed]
    split_ifs <;> rfl
  | session | listShares | holdFolder | refileFolder | approvePairing | dropPending | denyPairing
  | approveFolder | denyFolder | closed => rfl

theorem greeting_unclaimed (listed : Bool) :
    greeting blake3 l listed c.unclaimed s = greeting blake3 l listed c s := by
  obtain ⟨cert, peerIp, messages⟩ := c
  cases messages with
  | nil => rfl
  | cons m rest => cases m <;> rfl

theorem lastReply_unclaimed (t : ServerTask) : lastReply t.unclaimed = lastReply t := by
  cases t with
  | closed c sent => cases sent <;> rfl
  | _ => rfl

theorem serverReplies_unclaimed (hcert : ∀ c, t.peer = some c → c.cert.isSome = true) (listed : Bool) :
    serverReplies blake3 l listed t.unclaimed s = serverReplies blake3 l listed t s := by
  have hlast : lastReply (serverStep blake3 t.unclaimed s).1 =
      lastReply (serverStep blake3 t s).1 := by
    rw [serverStep_unclaimed hcert, lastReply_unclaimed]
  cases t with
  | accepted c => exact greeting_unclaimed listed
  | respond c req a =>
    cases a with
    | accept => rfl
    | hold | deny => exact hlast
  | recordAddr | closed => rfl
  | _ => exact hlast

end

/-- **Claimed identifiers do not matter.** Let two runs start in one state of
the server, whatever it is, and differ only in the identifiers that peers write
into their pairing requests and folder requests; every peer presents a
certificate, as the TLS configuration demands. By any one order of the steps,
the operator's among them, the server says the same to everyone, reports the
same events, and remembers and holds the same; and each connection stands
where it stands in the other run. -/
theorem claimed_ids_ignored {ι : Type} [DecidableEq ι] (blake3 : Bytes → FileHash) (l : Listener)
    (listed : ι → Bool) (w w' : Tasks.Shared ι ServerTask Server) (hstate : w.state = w'.state)
    (hclaims : ∀ i, (w.task i).unclaimed = (w'.task i).unclaimed)
    (hcert : ∀ i c, (w.task i).peer = some c → c.cert.isSome = true) (schedule : List ι) :
    let step := serverStep blake3
    let out := fun i => serverReplies blake3 l (listed i)
    Tasks.outputs step out w schedule = Tasks.outputs step out w' schedule ∧
      (Tasks.run step w schedule).state = (Tasks.run step w' schedule).state ∧
      ∀ i, ((Tasks.run step w schedule).task i).unclaimed =
        ((Tasks.run step w' schedule).task i).unclaimed := by
  have hrel : Tasks.Related (serverStep blake3) (fun i => serverReplies blake3 l (listed i))
      (fun t t' => t.unclaimed = t'.unclaimed ∧ (∀ c, t.peer = some c → c.cert.isSome = true) ∧
        ∀ c, t'.peer = some c → c.cert.isSome = true) Eq := by
    refine ⟨fun {t t' s s'} h hs => ?_, fun {t t' s s'} i h hs => ?_⟩
    · obtain ⟨heq, ht, ht'⟩ := h
      subst hs
      have hstep : ((serverStep blake3 t s).1.unclaimed, (serverStep blake3 t s).2) =
          ((serverStep blake3 t' s).1.unclaimed, (serverStep blake3 t' s).2) := by
        rw [← serverStep_unclaimed ht, heq, serverStep_unclaimed ht']
      obtain ⟨h1, h2⟩ := Prod.mk.inj hstep
      refine ⟨⟨h1, fun c hc => ht c ?_, fun c hc => ht' c ?_⟩, h2⟩
      · exact peer_serverStep ▸ hc
      · exact peer_serverStep ▸ hc
    · obtain ⟨heq, ht, ht'⟩ := h
      subst hs
      show serverReplies blake3 l (listed i) t s = serverReplies blake3 l (listed i) t' s
      rw [← serverReplies_unclaimed ht, heq, serverReplies_unclaimed ht']
  have hcert' : ∀ i c, (w'.task i).peer = some c → c.cert.isSome = true := by
    intro i c hc
    have hpeer : (w.task i).peer.map (·.unclaimed) = some c.unclaimed := by
      rw [← ServerTask.peer_unclaimed, hclaims, ServerTask.peer_unclaimed, hc, Option.map_some]
    obtain ⟨d, hd, hdc⟩ := Option.map_eq_some_iff.mp hpeer
    have h := hcert i d hd
    rwa [← d.unclaimed_cert, hdc, c.unclaimed_cert] at h
  have htask := fun i => And.intro (hclaims i) (And.intro (hcert i) (hcert' i))
  obtain ⟨hrun, hend⟩ := Tasks.run_related hrel htask hstate schedule
  exact ⟨Tasks.outputs_related hrel htask hstate schedule, hend, fun i => (hrun i).1⟩

/-- A device asks to be paired and, once approved, for a folder. -/
def claimant (claimed : String) : Fin 3 → ServerTask
  | 0 => accepted ⟨some [97], none, [.pairRequest ⟨claimed, "Phone", []⟩]⟩
  | 1 => approvePairing (certToDeviceId sampleBlake3 [97]) "Phone"
  | 2 => accepted ⟨some [97], none,
      [.requestFolderPair ⟨claimed, "Phone", "guid", "Photos", "both"⟩]⟩

theorem claimed_ids_ignored_claimant :
    let step := serverStep sampleBlake3
    let out := fun _ : Fin 3 => serverReplies sampleBlake3 ⟨[115], [], 1⟩ true
    let run := fun claimed => Tasks.outputs step out ⟨claimant claimed, sampleServer⟩
      [0, 0, 0, 0, 1, 1, 1, 2, 2]
    run "server" = run "Phone" ∧ (run "server").length = 2 := by
  have hclaims : ∀ i, (claimant "server" i).unclaimed = (claimant "Phone" i).unclaimed
    | 0 | 1 | 2 => rfl
  have hcert : ∀ i c, (claimant "server" i).peer = some c → c.cert.isSome = true
    | 0, _, hc | 2, _, hc => by
      cases hc
      rfl
    | 1, _, hc => by cases hc
  have h := claimed_ids_ignored sampleBlake3 ⟨[115], [], 1⟩ (fun _ => true)
    ⟨claimant "server", sampleServer⟩ ⟨claimant "Phone", sampleServer⟩ rfl hclaims hcert
    [0, 0, 0, 0, 1, 1, 1, 2, 2]
  exact ⟨h.1, by decide +kernel⟩

end FerriSync
