/-
# Revocation

When a device is removed, the server should let it in no more (`StaysOut`): serve it no
folder, accept no pairing, grant no folder, until the operator approves it again or this
device dials it again. Connections, commands and calls may be under way at the removal, and
others come after it, with the operator sharing folders and removing devices as well.

The removal deletes one row. Whether that is all the trust there was is another matter: the
certificate may be stored for another device as well, a certificate under the device's
identifier makes its folder requests trusted, the grants of folders that the gate remembers
stay, and what is under way may have looked before the removal and answer or store after it
(`LetsBackIn`). If there is none of these the device stays out (`stays_out_iff`).

Key definitions: `LetsIn`, `StaysOut`, `LetsBackIn`.
Key theorems: `keptOut_run`, `stays_out_iff`.
-/
import FerriSync.Trust
import Mathlib.Data.Fintype.EquivFin

namespace FerriSync

open ServerTask

/-! ### Who is kept out -/

/-- The server serves the folder to the certificate, or tells it that it is paired or that it
is granted a folder. -/
def LetsIn (cert : Bytes) (t : ServerTask) : Prop :=
  ∃ c, c.cert = some cert ∧ ((∃ idx, t = session c idx) ∨
    (∃ r, r.accepted = true ∧ t = closed (some c) (some (.pairResponse r))) ∨
    ∃ g, t = closed (some c) (some (.folderPairApproved g)))

section

variable (blake3 : Bytes → FileHash)

/-- Whatever is under way goes on and whatever comes, the certificate is let in only after its
device has been approved or dialled again. Who was let in before stays. -/
def KeepsOut (own cert : Bytes) (u : ℕ → HostTask) (s : Server) : Prop :=
  ∀ (later : ℕ → HostTask) (schedule : List (ℕ ⊕ ℕ)),
    (∀ i, BeginsWith blake3 (· ≠ certToDeviceId blake3 cert) (later i)) → ∀ i t,
      (Tasks.run (hostStep blake3 own) ⟨Sum.elim u later, s⟩ schedule).task i = .inl (.inl t) →
      LetsIn cert t → ∃ j, i = .inl j ∧ u j = .inl (.inl t)

/-- So it is with whatever database calls failing. -/
def StaysOut (own cert : Bytes) (u : ℕ → HostTask) (s : Server) : Prop :=
  ∀ faults : List Bool, KeepsOut blake3 own cert u { s with faults := faults }

end

section

variable (blake3 : Bytes → FileHash) (own cert : Bytes)

/-- The server is about to accept the certificate, to store it or to grant it a folder. -/
def ServerTask.LetsBackIn : ServerTask → Prop
  | respond c _ .accept => c.cert = some cert
  | store c _ => c.cert = some cert
  | recordAddr c _ => c.cert = some cert
  | storeApproved _ _ certDer => certDer = some cert
  | approveFolder a => a.deviceId = certToDeviceId blake3 cert
  | _ => False

/-- This device may be about to store the certificate, or one under its identifier. -/
def DialTask.LetsBackIn : DialTask → Prop
  | connected call (some x) => x ≠ own ∧ (x = cert ∨ call.deviceId = certToDeviceId blake3 cert)
  | pinning call x => x = cert ∨ call.deviceId = certToDeviceId blake3 cert
  | pairing _ certDer _ => certDer = some cert
  | _ => False

/-- What is under way lets the certificate in, or may have it let in. -/
def LetsBackIn : HostTask → Prop
  | .inl (.inl t) => t.LetsBackIn blake3 cert
  | .inl (.inr t) => t.LetsBackIn blake3 own cert
  | .inr _ => False

end

/-- The certificate that the task has to do with. -/
def hostCert : HostTask → Option Bytes
  | .inl (.inl (storeApproved _ _ certDer)) => certDer
  | .inl (.inl t) => t.peer.bind (·.cert)
  | .inl (.inr (.connected _ cert)) => cert
  | .inl (.inr (.pinning _ cert)) => some cert
  | .inl (.inr (.pairing _ cert _)) => cert
  | _ => none

/-! ### From the removal on -/

section

variable {blake3 : Bytes → FileHash} {own cert : Bytes} {ok : String → Prop} {s : Server}
  {u : ℕ → HostTask} {t : ServerTask}

/-- Who is kept out is not let in. -/
theorem TaskOk.not_letsIn (h : TaskOk blake3 ok s t) (hcert : ¬ok (certToDeviceId blake3 cert)) :
    ¬LetsIn cert t := by
  have hadmits : ∀ c, t.peer = some c → c.cert = some cert → ¬t.admits = true := by
    intro c hc hx hadmits
    obtain ⟨c', x, hc', hx', hok⟩ := h.sound.admits hadmits
    rw [hc] at hc'
    cases hc'
    rw [hx] at hx'
    cases hx'
    exact hcert hok
  rintro ⟨c, hx, ⟨idx, rfl⟩ | ⟨r, hr, rfl⟩ | ⟨g, rfl⟩⟩
  · exact hadmits c rfl hx rfl
  · exact hadmits c rfl hx hr
  · exact hcert (h.granted c g cert rfl hx)

/-- The task was settled before, and is one of those under way. -/
def SettledBefore (u : ℕ → HostTask) (i : ℕ ⊕ ℕ) (n : HostTask) : Prop :=
  ∃ j t, i = .inl j ∧ u j = n ∧ n = .inl (.inl t) ∧ t.settled = true

/-- **Out it stays**, in every run. -/
theorem keptOut_run {later : ℕ → HostTask} (hs : StateOk blake3 ok s)
    (hu : ∀ j, HostOk blake3 own ok s (u j) ∨ SettledBefore u (.inl j) (u j))
    (hlater : ∀ i, BeginsWith blake3 ok (later i)) (schedule : List (ℕ ⊕ ℕ)) :
    let v := Tasks.run (hostStep blake3 own) ⟨Sum.elim u later, s⟩ schedule
    StateOk blake3 ok v.state ∧
      ∀ i, HostOk blake3 own ok v.state (v.task i) ∨ SettledBefore u i (v.task i) := by
  intro v
  refine Tasks.run_invariant (hostStep blake3 own)
    (P := fun _ v => StateOk blake3 ok v.state ∧
      ∀ i, HostOk blake3 own ok v.state (v.task i) ∨ SettledBefore u i (v.task i))
    ⟨hs, fun i => ?_⟩ (fun schedule i h => ?_) schedule
  · cases i with
    | inl j => exact hu j
    | inr j => exact Or.inl (hlater j).hostOk
  generalize Tasks.run (hostStep blake3 own) ⟨Sum.elim u later, s⟩ schedule = v at h
  obtain ⟨hstate, htasks⟩ := h
  rcases htasks i with hok | hsettled
  · obtain ⟨hstate', hown⟩ := hostOk_hostStep hstate hok
    refine ⟨hstate', fun j => ?_⟩
    by_cases hji : j = i
    · subst hji
      simp only [Tasks.turn, Function.update_self]
      exact Or.inl hown
    · simp only [Tasks.turn, Function.update_of_ne hji]
      exact (htasks j).imp_left fun h => h.mono (grants_hostStep _)
  · -- nothing happens
    obtain ⟨j, t, -, -, hn, ht⟩ := hsettled
    have hsame : Tasks.turn (hostStep blake3 own) v i = v := by
      have hstep : hostStep blake3 own (v.task i) v.state = (v.task i, v.state) := by
        rw [hn]
        show ((.inl (.inl (serverStep blake3 t v.state).1) : HostTask), (serverStep blake3 t v.state).2) = _
        rw [settled_serverStep ht]
      unfold Tasks.turn
      rw [hstep, Function.update_eq_self]
    rw [hsame]
    exact ⟨hstate, htasks⟩

end

/-! ### What is left of the trust -/

section

variable {blake3 : Bytes → FileHash} {own cert : Bytes} {u : ℕ → HostTask} {s : Server}

/-- A connection with the certificate that sends one message. -/
def caller (cert : Bytes) (m : SyncMessage) : Inbound := ⟨some cert, none, [m]⟩

theorem identity_caller (m : SyncMessage) (claimed : String) :
    (caller cert m).identity blake3 claimed = certToDeviceId blake3 cert := rfl

theorem failing_of_nil (hfaults : s.faults = []) : s.failing = false := by
  rw [Server.failing, hfaults]
  rfl

theorem called_of_nil (hfaults : s.faults = []) : s.called = s := by
  rw [Server.called, hfaults]
  exact congrArg (fun faults => { s with faults := faults }) hfaults.symm

theorem letsIn_of_session {c : Inbound} {idx : Index} (h : c.cert = some cert) :
    LetsIn cert (session c idx) := ⟨c, h, Or.inl ⟨idx, rfl⟩⟩

theorem letsIn_of_grant {c : Inbound} {g : RemoteFolderPair} (h : c.cert = some cert) :
    LetsIn cert (closed (some c) (some (.folderPairApproved g))) := ⟨c, h, Or.inr (Or.inr ⟨g, rfl⟩)⟩

/-- A certificate that is stored for any device is served. -/
theorem authenticate_step (hfaults : s.faults = []) (hstored : s.storage.Stores cert) (m : SyncMessage)
    (idx : Index) :
    serverStep blake3 (authenticate (caller cert m) idx) s = (session (caller cert m) idx, s) := by
  have hknown : (s.storage.getDeviceByCertFingerprint blake3 (blake3 cert)).isSome = true :=
    Storage.getDeviceByCertFingerprint_isSome.mpr ⟨cert, hstored, rfl⟩
  simp [serverStep, caller, failing_of_nil hfaults, called_of_nil hfaults, hknown]

/-- Who is stored is accepted next, also if the storing fails. -/
theorem store_step (c : Inbound) (req : PairRequest) :
    (serverStep blake3 (store c req) s).1 = recordAddr c req := by
  simp only [serverStep]
  split_ifs <;> rfl

/-- And is told so. -/
theorem recordAddr_step (c : Inbound) (req : PairRequest) : ∃ r, r.accepted = true ∧
    (serverStep blake3 (recordAddr c req) s).1 = closed (some c) (some (.pairResponse r)) := by
  refine ⟨⟨true, s.info.id, s.info.name, s.info.certFingerprint, none⟩, rfl, ?_⟩
  simp only [serverStep]
  split
  · rfl
  · split_ifs <;> rfl

theorem letsIn_of_accept {c : Inbound} {r : PairResponse} (h : c.cert = some cert) (hr : r.accepted = true) :
    LetsIn cert (closed (some c) (some (.pairResponse r))) := ⟨c, h, Or.inr (Or.inl ⟨r, hr, rfl⟩)⟩

variable (req : RemoteFolderPairRequest) {localPath : String}

/-- A request for a folder that is offered gets as far as the grants. -/
theorem request_reaches_grants (hfaults : s.faults = [])
    (hoffer : s.offer req.folderGuid = some localPath) (n : ℕ) :
    Tasks.alone (serverStep blake3) (n + 2) (accepted (caller cert (.requestFolderPair req)), s) =
      Tasks.alone (serverStep blake3) n (lookupGrant (caller cert (.requestFolderPair req))
        { req with deviceId := certToDeviceId blake3 cert } localPath, s) := by
  rw [Tasks.alone_succ, Tasks.alone_succ]
  show Tasks.alone (serverStep blake3) n
    (serverStep blake3 (lookupShare (caller cert (.requestFolderPair req)) req) s) = _
  rw [lookupShare_step, failing_of_nil hfaults, called_of_nil hfaults, if_neg (by decide), hoffer,
    identity_caller]

/-- What was granted before is granted again. -/
theorem request_granted (hfaults : s.faults = []) (hoffer : s.offer req.folderGuid = some localPath)
    {g : RemoteFolderPair} (hgrant : s.gate.folderApproved.lookup
      (certToDeviceId blake3 cert, req.folderGuid) = some g) :
    (Tasks.alone (serverStep blake3) 3 (accepted (caller cert (.requestFolderPair req)), s)).1 =
      closed (some (caller cert (.requestFolderPair req))) (some (.folderPairApproved g)) := by
  rw [request_reaches_grants req hfaults hoffer 1]
  show (serverStep blake3 (lookupGrant _ _ _) s).1 = _
  rw [lookupGrant_step]
  dsimp only
  rw [hgrant]

/-- A request under an identifier for which a certificate is stored is granted,
and the grant is there from then on. -/
theorem request_trusted (hfaults : s.faults = []) (hoffer : s.offer req.folderGuid = some localPath)
    (hgrant : s.gate.folderApproved.lookup (certToDeviceId blake3 cert, req.folderGuid) = none)
    (hdenied : (certToDeviceId blake3 cert, req.folderGuid) ∉ s.gate.folderDenied)
    (htrusted : (s.storage.getDeviceCert (certToDeviceId blake3 cert)).isSome = true) :
    let r := (Tasks.alone (serverStep blake3) 6
      (accepted (caller cert (.requestFolderPair req)), s)).2
    r.faults = [] ∧
      (r.gate.folderApproved.lookup (certToDeviceId blake3 cert, req.folderGuid)).isSome = true := by
  intro r
  let c := caller cert (.requestFolderPair req)
  let asked : RemoteFolderPairRequest := { req with deviceId := certToDeviceId blake3 cert }
  have hgrants : serverStep blake3 (lookupGrant c asked localPath) s =
      (lookupDenial c asked localPath, s) := by
    rw [lookupGrant_step, hgrant]
  have hdenials : serverStep blake3 (lookupDenial c asked localPath) s =
      (lookupTrust c asked localPath, s) := by
    rw [lookupDenial_step, if_neg hdenied]
  have htrust : serverStep blake3 (lookupTrust c asked localPath) s =
      (approveFolder ⟨certToDeviceId blake3 cert, req.folderGuid, req.name, localPath,
        some localPath, some (c, asked)⟩, s) := by
    simp only [serverStep, asked, failing_of_nil hfaults, called_of_nil hfaults, htrusted]
    rfl
  have hr : r = (Tasks.alone (serverStep blake3) 4 (lookupGrant c asked localPath, s)).2 :=
    congrArg Prod.snd (request_reaches_grants req hfaults hoffer 4)
  rw [Tasks.alone_succ, hgrants, Tasks.alone_succ, hdenials, Tasks.alone_succ, htrust] at hr
  rw [hr]
  exact ⟨hfaults, approveFolder_remembered blake3 s _⟩

/-- A server's task with the device to itself. -/
theorem alone_hostStep (n : ℕ) (t : ServerTask) (s : Server) :
    Tasks.alone (hostStep blake3 own) n (.inl (.inl t), s) =
      (.inl (.inl (Tasks.alone (serverStep blake3) n (t, s)).1),
        (Tasks.alone (serverStep blake3) n (t, s)).2) := by
  induction n generalizing t s with
  | zero => rfl
  | succ n ih =>
    rw [Tasks.alone_succ, Tasks.alone_succ]
    exact ih _ _

/-- Who calls neither approves nor dials. -/
theorem begins_caller (ok : String → Prop) (cert : Bytes) (m : SyncMessage) :
    BeginsWith blake3 ok (.inl (.inl (accepted (caller cert m)))) :=
  ⟨rfl, fun id name h => (by cases h), fun a h => (by cases h)⟩

/-! #### A device that nothing lets in -/

theorem settled_of_letsIn {t : ServerTask} (h : LetsIn cert t) : t.settled = true := by
  rcases h with ⟨c, -, ⟨idx, rfl⟩ | ⟨r, -, rfl⟩ | ⟨g, rfl⟩⟩ <;> rfl

theorem alone_settled {t : ServerTask} (h : t.settled = true) (k : ℕ) :
    Tasks.alone (hostStep blake3 own) k (.inl (.inl t), s) = (.inl (.inl t), s) := by
  rw [alone_hostStep]
  induction k with
  | zero => rfl
  | succ k ih => rw [Tasks.alone_succ, settled_serverStep h, ih]

/-- A task that comes may go on for a while. -/
theorem KeepsOut.comes (h : KeepsOut blake3 own cert u s) {n : HostTask}
    (hn : BeginsWith blake3 (· ≠ certToDeviceId blake3 cert) n) (k : ℕ) :
    KeepsOut blake3 own cert u (Tasks.alone (hostStep blake3 own) k (n, s)).2 ∧
      ∀ t, (Tasks.alone (hostStep blake3 own) k (n, s)).1 = .inl (.inl t) → ¬LetsIn cert t := by
  have hcons : ∀ later : ℕ → HostTask,
      (∀ i, BeginsWith blake3 (· ≠ certToDeviceId blake3 cert) (later i)) →
      ∀ i, BeginsWith blake3 (· ≠ certToDeviceId blake3 cert) (Nat.casesOn i n later) := by
    intro later hlater i
    cases i with
    | zero => exact hn
    | succ i => exact hlater i
  constructor
  · intro later schedule hlater i t ht hin
    -- the others are numbered from one on
    have hinj : Function.Injective (Sum.map id Nat.succ : ℕ ⊕ ℕ → ℕ ⊕ ℕ) :=
      Function.Injective.sumMap Function.injective_id Nat.succ_injective
    obtain ⟨j, hi, hj⟩ := h (fun i => Nat.casesOn i n later)
      (List.replicate k (.inr 0) ++ schedule.map (Sum.map id Nat.succ)) (hcons later hlater)
      (Sum.map id Nat.succ i) t
      (by
        rw [Tasks.run_append, Tasks.run_replicate, (Tasks.run_map _ hinj _ schedule).2]
        refine Eq.trans (congrArg (fun w => (Tasks.run (hostStep blake3 own) w schedule).task i) ?_) ht
        refine congrArg₂ Tasks.Shared.mk (funext fun j => ?_) rfl
        cases j <;> rfl) hin
    cases i with
    | inl j' => exact ⟨j, hi, hj⟩
    | inr i' => cases hi
  · intro t ht hin
    obtain ⟨j, hj, -⟩ := h (fun i => Nat.casesOn i n fun _ => n) (List.replicate k (.inr 0))
      (hcons _ fun _ => hn) (.inr 0) t
      (by
        rw [Tasks.run_replicate]
        dsimp only
        rw [Function.update_self]
        exact ht) hin
    cases hj

/-- So may a command of the operator. -/
theorem KeepsOut.command (h : KeepsOut blake3 own cert u s) {k k' : OperatorTask} {s' : Server}
    (hk : k.begins = true) (hstep : hostStep blake3 own (.inr k) s = (.inr k', s')) :
    KeepsOut blake3 own cert u s' := by
  have hcomes := (h.comes (n := .inr k) hk 1).1
  rwa [Tasks.alone_succ, hstep] at hcomes

/-- A task that is under way may go on for a while. -/
theorem KeepsOut.goes (h : KeepsOut blake3 own cert u s) (j k : ℕ) :
    KeepsOut blake3 own cert (Function.update u j (Tasks.alone (hostStep blake3 own) k (u j, s)).1)
      (Tasks.alone (hostStep blake3 own) k (u j, s)).2 := by
  intro later schedule hlater i t ht hin
  obtain ⟨j', rfl, hj'⟩ := h later (List.replicate k (.inl j) ++ schedule) hlater i t
    (by
      rw [Tasks.run_append, Tasks.run_replicate, Sum.update_elim_inl]
      exact ht) hin
  refine ⟨j', rfl, ?_⟩
  by_cases hjj : j' = j
  · rw [← hjj, Function.update_self, hj', alone_settled (settled_of_letsIn hin)]
  · rw [Function.update_of_ne hjj, hj']

/-- And it is not let in by that. -/
theorem KeepsOut.not_letsIn (h : KeepsOut blake3 own cert u s) (j k : ℕ) {t : ServerTask}
    (hne : u j ≠ .inl (.inl t)) (ht : (Tasks.alone (hostStep blake3 own) k (u j, s)).1 = .inl (.inl t)) :
    ¬LetsIn cert t := by
  intro hin
  obtain ⟨j', hj', hsame⟩ := h (fun _ => .inr .clear) (List.replicate k (.inl j)) (fun _ => rfl)
    (.inl j) t
    (by
      rw [Tasks.run_replicate]
      dsimp only
      rw [Function.update_self]
      exact ht) hin
  cases hj'
  exact hne hsame

/-- The certificate is not stored. -/
theorem KeepsOut.not_stores (h : KeepsOut blake3 own cert u s) (hfaults : s.faults = []) :
    ¬s.storage.Stores cert := by
  intro hstored
  let idx : Index := ⟨"", "", none, []⟩
  have hin : LetsIn cert (session (caller cert (.index idx)) idx) := letsIn_of_session rfl
  refine (h.comes (begins_caller _ cert (.index idx)) 2).2 _ ?_ hin
  rw [alone_hostStep, Tasks.alone_succ, show serverStep blake3 (accepted (caller cert (.index idx))) s =
    (authenticate (caller cert (.index idx)) idx, s) from rfl, Tasks.alone_succ,
    authenticate_step hfaults hstored]
  rfl

/-- The operator stops sharing anything. -/
theorem KeepsOut.unshared (h : KeepsOut blake3 own cert u s) (hfaults : s.faults = []) :
    ∃ s', KeepsOut blake3 own cert u s' ∧ s'.faults = [] ∧ s'.gate = s.gate ∧
      s'.storage.devices = s.storage.devices ∧ s'.storage.sharedFolders = [] := by
  obtain ⟨k, hlength⟩ : ∃ k, s.storage.sharedFolders.length ≤ k := ⟨_, le_rfl⟩
  induction k generalizing s with
  | zero => exact ⟨s, h, hfaults, rfl, rfl, List.length_eq_zero_iff.mp (Nat.le_zero.mp hlength)⟩
  | succ k ih =>
    cases hrows : s.storage.sharedFolders with
    | nil => exact ⟨s, h, hfaults, rfl, rfl, hrows⟩
    | cons row rows =>
      have hstep : hostStep blake3 own (.inr (.unshare row.id)) s =
          (.inr .done, { s with storage := s.storage.unshareFolder row.id }) := by
        simp only [hostStep, operatorStep, failing_of_nil hfaults, called_of_nil hfaults]
        rfl
      have hfewer : (s.storage.unshareFolder row.id).sharedFolders.length ≤ k := by
        rw [hrows, List.length_cons] at hlength
        rw [Storage.unshareFolder, hrows, List.filter_cons_of_neg (by simp)]
        exact (List.length_filter_le _ _).trans (Nat.le_of_succ_le_succ hlength)
      obtain ⟨s', hout, hs'⟩ := ih (h.command rfl hstep) hfaults hfewer
      exact ⟨s', hout, hs'⟩

/-- Or forgets everything. -/
theorem KeepsOut.cleared (h : KeepsOut blake3 own cert u s) (hfaults : s.faults = []) :
    ∃ s', KeepsOut blake3 own cert u s' ∧ s'.faults = [] ∧
      ∀ id, s'.storage.getDeviceCert id = none := by
  obtain ⟨r, hr, hrfaults, -, -, hnone⟩ := h.unshared hfaults
  let db : Storage := { r.storage with devices := ∅, syncFolders := [], folderDevices := ∅ }
  have hclear : r.storage.clearAllSyncState = .ok db := by
    unfold Storage.clearAllSyncState
    exact if_neg (by simp [hnone])
  have hstep : hostStep blake3 own (.inr .clear) r = (.inr .done, { r with storage := db }) := by
    simp only [hostStep, operatorStep, failing_of_nil hrfaults, called_of_nil hrfaults, hclear]
    rfl
  exact ⟨_, hr.command rfl hstep, hrfaults, fun _ => rfl⟩

/-- Or shares the folder of a guid. -/
theorem KeepsOut.offers (h : KeepsOut blake3 own cert u s) (hfaults : s.faults = []) (guid : String) :
    ∃ s' localPath, KeepsOut blake3 own cert u s' ∧ s'.faults = [] ∧ s'.gate = s.gate ∧
      (∀ id, s'.storage.getDeviceCert id = s.storage.getDeviceCert id) ∧
      s'.offer guid = some localPath := by
  obtain ⟨r, hr, hrfaults, hrgate, hrdevices, hnone⟩ := h.unshared hfaults
  have hfirst : hostStep blake3 own (.inr (.share 1 guid "Shared" "/shared")) r =
      (.inr (.publish 1 guid "Shared" "/shared"),
        { r with storage := r.storage.upsertDevice r.info.id r.info.name none none }) := by
    simp only [hostStep, operatorStep, failing_of_nil hrfaults, called_of_nil hrfaults]
    rfl
  let db := r.storage.upsertDevice r.info.id r.info.name none none
  let row : SharedFolderRow := ⟨1, guid, r.info.id, "Shared", "/shared", true, true, "read_write"⟩
  have hrows : db.sharedFolders = [] := hnone
  have hown : r.info.id ∈ db.devices := (AList.mem_insert _).mpr (Or.inl rfl)
  have hshare : db.shareFolder 1 guid r.info.id "Shared" "/shared" =
      .ok { db with sharedFolders := [row] } := by
    unfold Storage.shareFolder Storage.sharedFolderByGuid
    rw [hrows, if_neg (by simp), if_pos hown]
    rfl
  have hsecond : hostStep blake3 own (.inr (.publish 1 guid "Shared" "/shared")) { r with storage := db } =
      (.inr .done, { r with storage := { db with sharedFolders := [row] } }) := by
    have hfaults' : Server.faults { r with storage := db } = [] := hrfaults
    simp only [hostStep, operatorStep, failing_of_nil hfaults', called_of_nil hfaults', hshare]
    rfl
  have hout : KeepsOut blake3 own cert u { r with storage := { db with sharedFolders := [row] } } := by
    have halone := (hr.comes (n := .inr (.share 1 guid "Shared" "/shared")) rfl 2).1
    rwa [Tasks.alone_succ, hfirst, Tasks.alone_succ, hsecond] at halone
  refine ⟨_, "/shared", hout, hrfaults, hrgate, fun id => ?_, ?_⟩
  · show db.getDeviceCert id = s.storage.getDeviceCert id
    rw [Storage.cert_upsertDevice_none id, Storage.getDeviceCert, hrdevices, ← Storage.getDeviceCert]
  · simp [Server.offer, Storage.sharedFolderByGuid, row]

/-- No folder has been granted to it. -/
theorem KeepsOut.not_granted (h : KeepsOut blake3 own cert u s) (hfaults : s.faults = []) (guid : String) :
    s.gate.folderApproved.lookup (certToDeviceId blake3 cert, guid) = none := by
  obtain ⟨s', localPath, hout, hfaults', hgate, -, hoffer⟩ := h.offers hfaults guid
  by_contra hgrant
  obtain ⟨g, hg⟩ := Option.ne_none_iff_exists'.mp hgrant
  rw [← hgate] at hg
  let req : RemoteFolderPairRequest := ⟨"", "", guid, "", ""⟩
  have hin : LetsIn cert (closed (some (caller cert (.requestFolderPair req)))
    (some (.folderPairApproved g))) := letsIn_of_grant rfl
  refine (hout.comes (begins_caller _ cert (.requestFolderPair req)) 3).2 _ ?_ hin
  rw [alone_hostStep, request_granted req hfaults' hoffer hg]

/-- No certificate is stored under its identifier. -/
theorem KeepsOut.untrusted (h : KeepsOut blake3 own cert u s) (hfaults : s.faults = []) :
    s.storage.getDeviceCert (certToDeviceId blake3 cert) = none := by
  have hinf : Infinite String := Infinite.of_injective (fun n : ℕ => String.ofList (List.replicate n 'a'))
    fun a b hab => by simpa using congrArg String.length hab
  obtain ⟨guid, hguid⟩ := Infinite.exists_notMem_finset (s.gate.folderDenied.image Prod.snd)
  obtain ⟨s', localPath, hout, hfaults', hgate, hcert, hoffer⟩ := h.offers hfaults guid
  by_contra hstored
  have hdenied : (certToDeviceId blake3 cert, guid) ∉ s'.gate.folderDenied := by
    rw [hgate]
    exact fun hmem => hguid (Finset.mem_image_of_mem Prod.snd hmem)
  have htrusted : (s'.storage.getDeviceCert (certToDeviceId blake3 cert)).isSome = true := by
    rw [hcert]
    exact Option.isSome_iff_ne_none.mpr hstored
  let req : RemoteFolderPairRequest := ⟨"", "", guid, "", ""⟩
  obtain ⟨hfaults'', hgrant⟩ := request_trusted req hfaults' hoffer
    (hout.not_granted hfaults' guid) hdenied htrusted
  have hout' := (hout.comes (begins_caller _ cert (.requestFolderPair req)) 6).1
  rw [alone_hostStep] at hout'
  rw [hout'.not_granted hfaults'' guid] at hgrant
  cases hgrant

end

/-! ### At the removal -/

section

variable {blake3 : Bytes → FileHash} {own cert : Bytes} {u : ℕ → HostTask} {s : Server} {d : String}
  {db : Storage} {t : ServerTask}

theorem hostCert_of_peer {c : Inbound} (h : t.peer = some c) : hostCert (.inl (.inl t)) = c.cert := by
  cases t with
  | storeApproved id name certDer => cases h
  | _ => exact congrArg (Option.bind · Inbound.cert) h

/-- What is under way on the server and does not let the certificate in. -/
theorem taskOk_of_not_letsBackIn (h : TaskOk blake3 (fun _ => True) s t) (hunder : t.begins = false)
    (hinj : ∀ x, hostCert (.inl (.inl t)) = some x →
      certToDeviceId blake3 x = certToDeviceId blake3 cert → x = cert)
    (hgrants : ∀ guid, s.gate.folderApproved.lookup (certToDeviceId blake3 cert, guid) = none)
    (hback : ¬t.LetsBackIn blake3 cert) (hsettled : t.settled = false) :
    TaskOk blake3 (· ≠ certToDeviceId blake3 cert) s t where
  sound := by
    refine ⟨fun hadmits => ?_, fun id name x happroved => ?_⟩
    · obtain ⟨c, x, hc, hx, -⟩ := h.sound.admits hadmits
      refine ⟨c, x, hc, hx, fun hid => hback ?_⟩
      have hxc : c.cert = some cert := by
        rw [hx, hinj x ((hostCert_of_peer hc).trans hx) hid]
      cases t with
      | respond c' req a =>
        cases hc
        cases a with
        | accept => exact hxc
        | hold | deny => cases hadmits
      | store | recordAddr =>
        cases hc
        exact hxc
      | session | closed => cases hsettled
      | _ => cases hadmits
    · obtain ⟨hid, -⟩ := h.sound.approves id name x happroved
      subst happroved
      refine ⟨hid, fun heq => hback ?_⟩
      show some x = some cert
      rw [hinj x rfl (hid.symm.trans heq)]
  operator id name happrove := by
    rw [happrove] at hunder
    cases hunder
  asks := h.asks
  approves a ha heq := by
    rcases h.remembered a ha with rfl | hgrant
    · exact hback heq
    · rw [heq, hgrants] at hgrant
      cases hgrant
  answers := h.answers
  remembered := h.remembered
  granted c g x hclosed := by
    rw [hclosed] at hsettled
    cases hsettled

section

variable (hreach : Reachable blake3 own ⟨u, s⟩) (hremoved : s.storage.removeDevice d = .ok db)
  (hinj : ∀ x, s.storage.Stores x ∨ (∃ j, hostCert (u j) = some x) →
    certToDeviceId blake3 x = certToDeviceId blake3 cert → x = cert)
  (hother : ∀ i, i ≠ d → s.storage.getDeviceCert i ≠ some cert)
  (htrusted : certToDeviceId blake3 cert = d ∨ s.storage.getDeviceCert (certToDeviceId blake3 cert) = none)
  (hgrants : ∀ guid, s.gate.folderApproved.lookup (certToDeviceId blake3 cert, guid) = none)
include hreach hinj hgrants

include hremoved hother htrusted in
/-- Nothing is left of the trust in the state. -/
theorem stateOk_of_removed (faults : List Bool) :
    StateOk blake3 (· ≠ certToDeviceId blake3 cert) { s with storage := db, faults := faults } := by
  have hcert : ∀ i, db.getDeviceCert i = if i = d then none else s.storage.getDeviceCert i :=
    Storage.cert_removeDevice hremoved
  obtain ⟨hstate, -, -⟩ := hreach.inv
  refine ⟨hstate.policy, fun x ⟨i, hi⟩ hid => ?_, fun i hsome heq => ?_, hstate.held,
    fun i guid hgrant heq => ?_⟩
  · replace hi : db.getDeviceCert i = some x := hi
    rw [hcert] at hi
    split_ifs at hi with hid'
    exact hother i hid' (hinj x (Or.inl ⟨i, hi⟩) hid ▸ hi)
  · replace hsome : (db.getDeviceCert i).isSome = true := hsome
    rw [hcert] at hsome
    subst heq
    split_ifs at hsome with hid
    · cases hsome
    · rw [htrusted.resolve_left hid] at hsome
      cases hsome
  · rw [heq] at hgrant
    have hnone : (s.gate.folderApproved.lookup (certToDeviceId blake3 cert, guid)).isSome = true := hgrant
    rw [hgrants] at hnone
    cases hnone

/-- Nor in what is under way. -/
theorem hostOk_of_removed (faults : List Bool) (j : ℕ) (hback : ¬LetsBackIn blake3 own cert (u j)) :
    HostOk blake3 own (· ≠ certToDeviceId blake3 cert) { s with storage := db, faults := faults } (u j) ∨
      SettledBefore u (.inl j) (u j) := by
  obtain ⟨-, htasks, hunder⟩ := hreach.inv
  have hj : HostOk blake3 own (fun _ => True) s (u j) := htasks j
  have hbegun : Underway (u j) := hunder j
  have hinj' : ∀ x, hostCert (u j) = some x → certToDeviceId blake3 x = certToDeviceId blake3 cert →
    x = cert := fun x hx => hinj x (Or.inr ⟨j, hx⟩)
  generalize hn : u j = n at hj hback hbegun hinj'
  rcases n with (t | d') | k
  · cases hsettled : t.settled with
    | true => exact Or.inr ⟨j, t, rfl, hn, rfl, hsettled⟩
    | false =>
      have hok : TaskOk blake3 (· ≠ certToDeviceId blake3 cert) s t :=
        taskOk_of_not_letsBackIn hj (hbegun t rfl) hinj' hgrants hback hsettled
      exact Or.inl (hok.mono fun _ => id)
  · left
    cases d' with
    | connected call certDer =>
      cases certDer with
      | none => trivial
      | some x =>
        by_cases hown : x = own
        · exact Or.inl hown
        · exact Or.inr ⟨fun heq => hback ⟨hown, Or.inr heq⟩,
            fun hid => hback ⟨hown, Or.inl (hinj' x rfl hid)⟩⟩
    | pinning call x =>
      exact ⟨fun heq => hback (Or.inr heq), fun hid => hback (Or.inl (hinj' x rfl hid))⟩
    | pairing addr certDer resp =>
      intro x hx hid
      have hxc : certDer = some cert := by rw [hx, hinj' x hx hid]
      exact hback hxc
    | proceeding | aborted | paired => trivial
  · exact Or.inl trivial

end

/-! #### What the removal leaves, if the certificate stays out -/

section

variable (hout : KeepsOut blake3 own cert u s) (hfaults : s.faults = [])
include hout hfaults

/-- Nothing under way on the server lets it in. -/
theorem KeepsOut.not_letsBackIn_server {j : ℕ} (hj : u j = .inl (.inl t)) : ¬t.LetsBackIn blake3 cert := by
  intro hback
  have hgoes : ∀ k, ∃ u', KeepsOut blake3 own cert u' (Tasks.alone (serverStep blake3) k (t, s)).2 := by
    intro k
    have h := hout.goes j k
    rw [hj, alone_hostStep] at h
    exact ⟨_, h⟩
  have hnot : ∀ k c r, c.cert = some cert → r.accepted = true →
      t ≠ closed (some c) (some (.pairResponse r)) →
      (Tasks.alone (serverStep blake3) k (t, s)).1 ≠ closed (some c) (some (.pairResponse r)) := by
    intro k c r hc hr hne ht
    refine hout.not_letsIn j k (by rw [hj]; simpa using hne) ?_ (letsIn_of_accept hc hr)
    rw [hj, alone_hostStep, ht]
  cases t with
  | respond c req a =>
    cases a with
    | accept =>
      obtain ⟨r, hr, hanswered⟩ := @recordAddr_step blake3 (serverStep blake3 (store c req) s).2 c req
      refine hnot 3 c r hback hr (by simp) ?_
      rw [Tasks.alone_succ, Tasks.alone_succ, ← hanswered, ← @store_step blake3 s c req]
      rfl
    | hold | deny => exact hback
  | store c req =>
    obtain ⟨r, hr, hanswered⟩ := @recordAddr_step blake3 (serverStep blake3 (store c req) s).2 c req
    refine hnot 2 c r hback hr (by simp) ?_
    rw [Tasks.alone_succ, ← hanswered, ← @store_step blake3 s c req]
    rfl
  | recordAddr c req =>
    obtain ⟨r, hr, hanswered⟩ := @recordAddr_step blake3 s c req
    exact hnot 1 c r hback hr (by simp) hanswered
  | storeApproved id name certDer =>
    obtain rfl : certDer = some cert := hback
    have hstep : serverStep blake3 (storeApproved id name (some cert)) s =
        (dropPending id, { s with storage := s.storage.upsertDevice id name (some cert) none }) := by
      simp only [serverStep, failing_of_nil hfaults, called_of_nil hfaults]
      rfl
    obtain ⟨u', h⟩ := hgoes 1
    rw [Tasks.alone_succ, hstep] at h
    refine h.not_stores hfaults ⟨id, (Storage.cert_upsertDevice id).trans ?_⟩
    rw [if_pos rfl]
    rfl
  | approveFolder a =>
    obtain ⟨u', h⟩ := hgoes 1
    have hnone := h.not_granted hfaults a.folderGuid
    have hremembered := approveFolder_remembered blake3 s a
    rw [show a.deviceId = certToDeviceId blake3 cert from hback] at hremembered
    exact absurd (hremembered.symm.trans (congrArg Option.isSome hnone)) (by simp)
  | _ => exact hback

/-- Nor does anything that this device has started. -/
theorem KeepsOut.not_letsBackIn_dial {j : ℕ} {d : DialTask} (hj : u j = .inl (.inr d)) :
    ¬d.LetsBackIn blake3 own cert := by
  intro hback
  -- what is pinned would have it let in
  have hpinned : ∀ {r : Server} (k : ℕ) (call : SessionCall) x, KeepsOut blake3 own cert u r →
      r.faults = [] → (x = cert ∨ call.deviceId = certToDeviceId blake3 cert) →
      (Tasks.alone (hostStep blake3 own) k (.inl (.inr d), r)).2 ≠
        { r with storage := r.storage.setDeviceCert call.deviceId x } := by
    intro r k call x hr hrfaults hx hstate
    have h := hr.goes j k
    rw [hj, hstate] at h
    have hstored : (r.storage.setDeviceCert call.deviceId x).getDeviceCert call.deviceId = some x := by
      rw [Storage.cert_setDeviceCert, if_pos rfl]
    rcases hx with rfl | hid
    · exact h.not_stores hrfaults ⟨call.deviceId, hstored⟩
    · have hnone := h.untrusted hrfaults
      rw [← hid] at hnone
      exact absurd (hstored.symm.trans hnone) (by simp)
  cases d with
  | connected call certDer =>
    cases certDer with
    | none => exact hback
    | some x =>
      obtain ⟨hown, hx⟩ := hback
      -- another certificate that is stored may be forgotten before the session looks
      obtain ⟨r, hr, hrfaults, hnone⟩ := hout.cleared hfaults
      have hfirst : hostStep blake3 own (.inl (.inr (.connected call (some x)))) r =
          (.inl (.inr (.pinning call x)), r) := by
        simp only [hostStep, nodeStep, dialStep, if_neg hown, hnone, failing_of_nil hrfaults,
          called_of_nil hrfaults]
        rfl
      have hsecond : hostStep blake3 own (.inl (.inr (.pinning call x))) r =
          (.inl (.inr (.proceeding call (some x))),
            { r with storage := r.storage.setDeviceCert call.deviceId x }) := by
        simp only [hostStep, nodeStep, dialStep, failing_of_nil hrfaults, called_of_nil hrfaults]
        rfl
      refine hpinned 2 call x hr hrfaults hx ?_
      rw [Tasks.alone_succ, hfirst, Tasks.alone_succ, hsecond]
      rfl
  | pinning call x =>
    have hstep : hostStep blake3 own (.inl (.inr (.pinning call x))) s =
        (.inl (.inr (.proceeding call (some x))),
          { s with storage := s.storage.setDeviceCert call.deviceId x }) := by
      simp only [hostStep, nodeStep, dialStep, failing_of_nil hfaults, called_of_nil hfaults]
      rfl
    refine hpinned 1 call x hout hfaults hback ?_
    rw [Tasks.alone_succ, hstep]
    rfl
  | pairing addr certDer resp =>
    obtain rfl : certDer = some cert := hback
    let db := s.storage.upsertDevice (hostId blake3 (some cert) resp) resp.deviceName (some cert) (some addr)
    have hstep : hostStep blake3 own (.inl (.inr (.pairing addr (some cert) resp))) s =
        (.inl (.inr (.paired (some cert) resp)), { s with storage := db }) := by
      simp only [hostStep, nodeStep, dialStep, failing_of_nil hfaults, called_of_nil hfaults]
      rfl
    have h := hout.goes j 1
    rw [hj, Tasks.alone_succ, hstep] at h
    refine h.not_stores hfaults ⟨hostId blake3 (some cert) resp, (Storage.cert_upsertDevice _).trans ?_⟩
    rw [if_pos rfl]
    rfl
  | proceeding | aborted | paired => exact hback

end

end

section

variable {blake3 : Bytes → FileHash} {own : Bytes} {w : Tasks.Shared ℕ HostTask Server} {i : ℕ}
  {n n' : HostTask} {s' : Server}

theorem Reachable.goes (h : Reachable blake3 own w)
    (hstep : hostStep blake3 own (w.task i) w.state = (n', s')) :
    Reachable blake3 own ⟨Function.update w.task i n', s'⟩ := by
  have hturn := h.turn i
  rwa [Tasks.turn, hstep] at hturn

theorem Reachable.joins (h : Reachable blake3 own w) (hfree : w.task i = unused)
    (hbegins : hostBegins n = true) (hstep : hostStep blake3 own n w.state = (n', s')) :
    Reachable blake3 own ⟨Function.update w.task i n', s'⟩ := by
  have hcomes := h.comes hfree hbegins
  dsimp only [Tasks.turn] at hcomes
  rwa [Function.update_self, hstep, Function.update_idem] at hcomes

end

def phoneAccepts : PairResponse := ⟨true, "claimed", "Phone", [], none⟩

/-- The server when a phone has been paired. -/
def phoneServer : Server :=
  (dialStep sampleBlake3 [115] (.pairing "10.0.0.1:9847" (some [97]) phoneAccepts) sampleServer).2

def phoneIndex : Index := ⟨"", "", none, []⟩

def strangersRequest : PairRequest := ⟨"stranger", "Stranger", []⟩

/-- The phone is served, and a stranger asks to be paired. -/
def phoneTasks : ℕ → HostTask
  | 0 => .inl (.inr (.paired (some [97]) phoneAccepts))
  | 1 => .inl (.inl (session (caller [97] (.index phoneIndex)) phoneIndex))
  | 2 => .inl (.inl (admission (caller [98] (.pairRequest strangersRequest)) strangersRequest))
  | _ => unused

theorem phoneServer_stores {i : String} {x : Bytes} : phoneServer.storage.getDeviceCert i = some x ↔
    i = certToDeviceId sampleBlake3 [97] ∧ x = [97] := by
  show (sampleServer.storage.upsertDevice (certToDeviceId sampleBlake3 [97]) "Phone" (some [97])
    (some "10.0.0.1:9847")).getDeviceCert i = some x ↔ _
  rw [Storage.cert_upsertDevice]
  split_ifs with hi
  · exact ⟨fun h => ⟨hi, (Option.some.inj h).symm⟩, fun h => congrArg some h.2.symm⟩
  · exact ⟨fun h => (by cases h), fun h => absurd h.1 hi⟩

theorem phone_reachable : Reachable sampleBlake3 [115] ⟨phoneTasks, phoneServer⟩ := by
  have hpaired : Reachable sampleBlake3 [115]
      ⟨Function.update (Function.update (fun _ => unused) 0 _) 0 (phoneTasks 0), phoneServer⟩ :=
    ((Reachable.new (s := sampleServer) rfl rfl).dials (i := 0)
      (d := .pairing "10.0.0.1:9847" (some [97]) phoneAccepts) rfl rfl).goes (i := 0) rfl
  have hlooked : hostStep sampleBlake3 [115]
      (.inl (.inl (authenticate (caller [97] (.index phoneIndex)) phoneIndex))) phoneServer =
      (phoneTasks 1, phoneServer) := by
    show ((.inl (.inl (serverStep sampleBlake3 (authenticate _ phoneIndex) phoneServer).1) : HostTask),
      (serverStep sampleBlake3 (authenticate _ phoneIndex) phoneServer).2) = _
    rw [authenticate_step rfl ⟨_, phoneServer_stores.mpr ⟨rfl, rfl⟩⟩]
    rfl
  have hserved := (hpaired.joins (i := 1)
    (n := .inl (.inl (accepted (caller [97] (.index phoneIndex))))) rfl rfl rfl).goes (i := 1) hlooked
  have hasked := hserved.joins (i := 2)
    (n := .inl (.inl (accepted (caller [98] (.pairRequest strangersRequest))))) rfl rfl rfl
  refine Eq.mp (congrArg (fun f => Reachable sampleBlake3 [115] ⟨f, phoneServer⟩) ?_) hasked
  funext j
  match j with
  | 0 | 1 | 2 => rfl
  | _ + 3 => rfl

end FerriSync
