/-
# What strangers learn of the shares

A server lists its shares to whoever connects, and answers a folder request of
anyone in one way if the folder is shared and in another if it is not
(`shares_revealed`). These requests apart, its replies to the connections that
come do not depend on its shares (`shares_hidden`): the shares are read by two
steps only, those that look them up (`serverStep_withShares`).

A peer whom the server trusts, or comes to trust under the policy `autoAccept`,
is also told the path of the share it asks for.

Key definitions: `Server.visibleShares`, `Server.offer`, `Reveals`.
Key theorems: `serverStep_withShares`, `shares_hidden`, `shares_revealed`.
-/
import FerriSync.Replies

namespace FerriSync

open ServerTask

/-! ### What the shares decide -/

/-- What a server lists to whoever asks. -/
def Server.visibleShares (s : Server) : List SharedFolderInfo :=
  ((s.storage.listSharedFolders s.info.id).filter fun r => r.discoverable && r.enabled).map
    fun r => ⟨r.folderGuid, r.name, "both", r.localPath⟩

/-- The path of a share that is open to folder requests. -/
def Server.offer (s : Server) (folderGuid : String) : Option String :=
  (s.storage.sharedFolderByGuid s.info.id folderGuid).bind fun row =>
    if row.discoverable && row.enabled then some row.localPath else none

/-- The server has a certificate under the identifier or of that identity, or
takes one from anybody. -/
def Server.MayTrust (blake3 : Bytes → FileHash) (s : Server) (id : String) : Prop :=
  s.policy = .autoAccept ∨ (s.storage.getDeviceCert id).isSome = true ∨
    ∃ y, s.storage.Stores y ∧ certToDeviceId blake3 y = id

/-- The two servers answer the connection differently: their lists differ, or
one offers the folder and the other does not, or they offer it at different
paths to a peer they may trust. -/
def Reveals (blake3 : Bytes → FileHash) (s s' : Server) (c : Inbound) : Prop :=
  match c.request blake3 with
  | some .listSharedFolders => s.visibleShares ≠ s'.visibleShares
  | some (.requestFolderPair req) =>
    (s.offer req.folderGuid).isSome ≠ (s'.offer req.folderGuid).isSome ∨
      s.MayTrust blake3 (c.identity blake3 req.deviceId) ∧
        s.offer req.folderGuid ≠ s'.offer req.folderGuid
  | _ => False

def Storage.withShares (db : Storage) (rows : List SharedFolderRow) : Storage :=
  { db with sharedFolders := rows }

def Server.withShares (s : Server) (rows : List SharedFolderRow) : Server :=
  { s with storage := s.storage.withShares rows }

section

variable {blake3 : Bytes → FileHash} {l : Listener} {c : Inbound} {t t' : ServerTask}
  {s s' : Server} {rows : List SharedFolderRow}

/-! ### Who reads the shares -/

theorem listShares_step (c : Inbound) (s : Server) : serverStep blake3 (listShares c) s =
    (closed (some c) (some (.sharedFolders (if s.failing then [] else s.visibleShares))),
      s.called) := by
  simp only [serverStep]
  split_ifs <;> rfl

theorem lookupShare_step (c : Inbound) (req : RemoteFolderPairRequest) (s : Server) :
    serverStep blake3 (lookupShare c req) s =
      (match if s.failing then none else s.offer req.folderGuid with
        | some localPath =>
          lookupGrant c { req with deviceId := c.identity blake3 req.deviceId } localPath
        | none => closed (some c) (some (.folderPairRejected "unknown or not shared folder")),
      s.called) := by
  simp only [serverStep, Server.offer]
  split_ifs with hfail
  · rfl
  · cases s.storage.sharedFolderByGuid s.info.id req.folderGuid with
    | none => rfl
    | some row =>
      simp only [Option.bind_some]
      split_ifs <;> rfl

theorem lookupGrant_step (c : Inbound) (req : RemoteFolderPairRequest) (localPath : String)
    (s : Server) : serverStep blake3 (lookupGrant c req localPath) s =
      (match s.gate.folderApproved.lookup (req.deviceId, req.folderGuid) with
        | some grant => closed (some c) (some (.folderPairApproved grant))
        | none => lookupDenial c req localPath, s) := by
  cases hgrant : s.gate.folderApproved.lookup (req.deviceId, req.folderGuid) <;>
    simp only [serverStep, hgrant]

theorem lookupDenial_step (c : Inbound) (req : RemoteFolderPairRequest) (localPath : String)
    (s : Server) : serverStep blake3 (lookupDenial c req localPath) s =
      (if (req.deviceId, req.folderGuid) ∈ s.gate.folderDenied then
          closed (some c) (some (.folderPairRejected "denied"))
        else lookupTrust c req localPath, s) := by
  simp only [serverStep]
  split_ifs <;> rfl

/-- The request of a peer without a stored certificate is held. -/
theorem lookupTrust_untrusted {req : RemoteFolderPairRequest} {localPath : String}
    (h : s.storage.getDeviceCert req.deviceId = none) :
    serverStep blake3 (lookupTrust c req localPath) s = (holdFolder c req, s.called) := by
  have hcond : (!s.failing && (s.storage.getDeviceCert req.deviceId).isSome) = false := by
    rw [h, Option.isSome_none, Bool.and_false]
  simp only [serverStep, hcond]
  rfl

namespace Storage

variable {db : Storage}

theorem setDeviceLastAddr_withShares {id addr : String} :
    (db.withShares rows).setDeviceLastAddr id addr =
      (db.setDeviceLastAddr id addr).withShares rows := by
  unfold setDeviceLastAddr withShares
  dsimp only
  split <;> rfl

theorem ensureFolderByGuid_withShares {guid localPath name deviceId : String} :
    (db.withShares rows).ensureFolderByGuid guid localPath name deviceId =
      (db.ensureFolderByGuid guid localPath name deviceId).map fun p =>
        (p.1, p.2.withShares rows) := by
  unfold ensureFolderByGuid withShares
  dsimp only
  split
  · rfl
  · split_ifs <;> rfl

theorem addFolderDevice_withShares {n : ℕ} {deviceId mode : String}
    {remotePath : Option String} : (db.withShares rows).addFolderDevice n deviceId mode remotePath =
      (db.addFolderDevice n deviceId mode remotePath).map fun db' => db'.withShares rows := by
  unfold addFolderDevice withShares
  dsimp only
  split
  · rfl
  · split_ifs <;> rfl

end Storage

/-- A choice that does not depend on the shares. -/
theorem ite_withShares {p q : Prop} [Decidable p] [Decidable q] (hpq : p ↔ q)
    {x y x' y' : ServerTask × Server} (hx : x' = (x.1, x.2.withShares rows))
    (hy : y' = (y.1, y.2.withShares rows)) : (if p then x' else y') =
      ((if q then x else y).1, (if q then x else y).2.withShares rows) := by
  by_cases hq : q
  · rw [if_pos hq, if_pos (hpq.mpr hq), hx]
  · rw [if_neg hq, if_neg (mt hpq.mp hq), hy]

/-- **Only the two look-ups read the shares**: any other step is the same
whatever they are, and leaves them as they are. -/
theorem serverStep_withShares (hlist : ∀ c, t ≠ listShares c)
    (hlookup : ∀ c req, t ≠ lookupShare c req) : serverStep blake3 t (s.withShares rows) =
      ((serverStep blake3 t s).1, (serverStep blake3 t s).2.withShares rows) := by
  cases t with
  | listShares c => exact absurd rfl (hlist c)
  | lookupShare c req => exact absurd rfl (hlookup c req)
  | respond c req a => cases a <;> rfl
  | accepted | session | holdFolder | refileFolder | approvePairing | dropPending | denyPairing
  | approveFolder | denyFolder | closed => rfl
  | admission c req =>
    simp only [serverStep]
    split
    · exact ite_withShares Iff.rfl rfl rfl
    · exact ite_withShares Iff.rfl rfl rfl
  | authenticate c idx =>
    simp only [serverStep]
    split
    · rfl
    · exact ite_withShares Iff.rfl rfl rfl
  | recordAddr c req =>
    simp only [serverStep]
    split
    · rfl
    · refine ite_withShares Iff.rfl rfl ?_
      rw [Server.withShares, Storage.setDeviceLastAddr_withShares]
      rfl
  | hold c req =>
    exact ite_withShares Iff.rfl rfl (ite_withShares Iff.rfl rfl rfl)
  | lookupGrant c req localPath =>
    rw [lookupGrant_step, lookupGrant_step]
    rfl
  | lookupDenial | lookupTrust | store | storeApproved | storeGrantee =>
    exact ite_withShares Iff.rfl rfl rfl
  | ensureFolder a =>
    refine ite_withShares Iff.rfl rfl ?_
    rw [Server.withShares, Storage.ensureFolderByGuid_withShares]
    cases s.storage.ensureFolderByGuid a.folderGuid a.localPath a.name s.info.id <;> rfl
  | attachDevice a n =>
    refine ite_withShares Iff.rfl rfl ?_
    rw [Server.withShares, Storage.addFolderDevice_withShares]
    cases s.storage.addFolderDevice n a.deviceId "bidirectional" a.remotePath <;> rfl

/-- No step changes the shares. -/
theorem sharedFolders_serverStep :
    (serverStep blake3 t s).2.storage.sharedFolders = s.storage.sharedFolders := by
  by_cases hlist : ∃ c, t = listShares c
  · obtain ⟨c, rfl⟩ := hlist
    rfl
  · by_cases hlookup : ∃ c req, t = lookupShare c req
    · obtain ⟨c, req, rfl⟩ := hlookup
      rw [lookupShare_step]
      rfl
    · have h : serverStep blake3 t (s.withShares s.storage.sharedFolders) = _ :=
        serverStep_withShares (fun c hc => hlist ⟨c, hc⟩) fun c req hc => hlookup ⟨c, req, hc⟩
      exact congrArg (fun p => p.2.storage.sharedFolders) h

/-! ### Trust -/

theorem mayTrust_of_confirm {id : String} (hpolicy : s.policy = .confirm) :
    s.MayTrust blake3 id ↔ (s.storage.getDeviceCert id).isSome = true ∨
      ∃ y, s.storage.Stores y ∧ certToDeviceId blake3 y = id := by
  simp [Server.MayTrust, hpolicy]

end

/-! ### Two servers with different shares -/

section

variable (blake3 : Bytes → FileHash) (s s' : Server)

/-- What holds of a connection whose requests, if any, the two servers answer
alike; and it is admitted only if its peer may be trusted. -/
structure ServerTask.Blind (t : ServerTask) : Prop where
  peer : t.peer.isSome = true
  first : ∀ c, t = accepted c → ¬Reveals blake3 s s' c
  listing : ∀ c, t = listShares c → s.visibleShares = s'.visibleShares
  lookup : ∀ c req, t = lookupShare c req →
    (s.offer req.folderGuid).isSome = (s'.offer req.folderGuid).isSome ∧
      (s.MayTrust blake3 (c.identity blake3 req.deviceId) →
        s.offer req.folderGuid = s'.offer req.folderGuid)
  sound : s.policy = .confirm →
    t.Sound blake3 (fun x => s.MayTrust blake3 (certToDeviceId blake3 x)) fun _ => False

/-- The two runs' tasks: the same, but for the path of an offer to a peer who is
not trusted. -/
inductive SameButPath : ServerTask → ServerTask → Prop
  | same {t : ServerTask} (h : t.Blind blake3 s s') : SameButPath t t
  | lookupGrant {c : Inbound} {req : RemoteFolderPairRequest} (localPath localPath' : String)
      (h : ¬s.MayTrust blake3 req.deviceId) :
      SameButPath (lookupGrant c req localPath) (lookupGrant c req localPath')
  | lookupDenial {c : Inbound} {req : RemoteFolderPairRequest} (localPath localPath' : String)
      (h : ¬s.MayTrust blake3 req.deviceId) :
      SameButPath (lookupDenial c req localPath) (lookupDenial c req localPath')
  | lookupTrust {c : Inbound} {req : RemoteFolderPairRequest} (localPath localPath' : String)
      (h : ¬s.MayTrust blake3 req.deviceId) :
      SameButPath (lookupTrust c req localPath) (lookupTrust c req localPath')

/-- The two runs' states: what they are at the start, but for what has been held,
granted and stored alike, and nobody is trusted who was not. -/
structure SameButShares (r r' : Server) : Prop where
  start : s'.info = s.info
  eq : r' = r.withShares s'.storage.sharedFolders
  shares : r.storage.sharedFolders = s.storage.sharedFolders
  info : r.info = s.info
  policy : r.policy = s.policy
  trust : ∀ id, r.MayTrust blake3 id → s.MayTrust blake3 id

variable {blake3 s s'} {l : Listener} {c : Inbound} {t t' : ServerTask} {r r' : Server}

theorem visibleShares_congr {a b : Server}
    (hshares : a.storage.sharedFolders = b.storage.sharedFolders) (hinfo : a.info = b.info) :
    a.visibleShares = b.visibleShares := by
  unfold Server.visibleShares Storage.listSharedFolders
  rw [hshares, hinfo]

theorem offer_congr {a b : Server} (hshares : a.storage.sharedFolders = b.storage.sharedFolders)
    (hinfo : a.info = b.info) (folderGuid : String) : a.offer folderGuid = b.offer folderGuid := by
  unfold Server.offer Storage.sharedFolderByGuid
  rw [hshares, hinfo]

/-- A task that no longer looks at the shares. -/
theorem ServerTask.Blind.of_idle (hpeer : t.peer.isSome = true) (hasks : t.asks = false)
    (hsound : s.policy = .confirm →
      t.Sound blake3 (fun x => s.MayTrust blake3 (certToDeviceId blake3 x)) fun _ => False) :
    t.Blind blake3 s s' where
  peer := hpeer
  first c hc := by
    rw [hc] at hasks
    cases hasks
  listing c hc := by
    rw [hc] at hasks
    cases hasks
  lookup c req hc := by
    rw [hc] at hasks
    cases hasks
  sound := hsound

/-- What a connection asks for is answered alike. -/
theorem ServerTask.Blind.of_not_reveals (h : ¬Reveals blake3 s s' c) :
    (receive blake3 c).Blind blake3 s s' := by
  obtain ⟨hadmits, hstores⟩ := admits_receive blake3 c
  have hpeer : (receive blake3 c).peer.isSome = true := by
    rw [peer_receive]
    rfl
  refine ⟨hpeer, fun d hd => ?_, fun d hd => ?_, fun d req hd => ?_, fun _ =>
    .of_idle hadmits hstores⟩
  · rw [receive_eq] at hd
    cases hreq : c.request blake3 with
    | none => simp [hreq] at hd
    | some m =>
      rw [hreq, Option.map_some, Option.getD_some] at hd
      cases m <;> cases hd
  · rw [receive_eq] at hd
    unfold Reveals at h
    cases hreq : c.request blake3 with
    | none => simp [hreq] at hd
    | some m =>
      rw [hreq, Option.map_some, Option.getD_some] at hd
      rw [hreq] at h
      cases m <;> cases hd
      exact not_not.mp h
  · rw [receive_eq] at hd
    unfold Reveals at h
    cases hreq : c.request blake3 with
    | none => simp [hreq] at hd
    | some m =>
      rw [hreq, Option.map_some, Option.getD_some] at hd
      rw [hreq] at h
      cases m <;> cases hd
      obtain ⟨h1, h2⟩ := not_or.mp h
      exact ⟨not_not.mp h1, fun htrust => by_contra fun hne => h2 ⟨htrust, hne⟩⟩

/-- **A step keeps a connection blind**, if it is not about to look at the
shares. -/
theorem ServerTask.Blind.step (ht : t.Blind blake3 s s') (hasks : ∀ c req, t ≠ lookupShare c req)
    (h : SameButShares blake3 s s' r r') : (serverStep blake3 t r).1.Blind blake3 s s' := by
  by_cases haccepted : ∃ c, t = accepted c
  · obtain ⟨c, rfl⟩ := haccepted
    exact .of_not_reveals (ht.first c rfl)
  · refine .of_idle (by rw [peer_serverStep]; exact ht.peer)
      (asks_serverStep fun c hc => haccepted ⟨c, hc⟩) fun hconfirm => ?_
    have hoperator : ∀ id name, t ≠ approvePairing id name := by
      rintro id name rfl
      cases ht.peer
    refine sound_serverStep (ht.sound hconfirm) (h.policy.trans hconfirm) (fun c x _ _ hfound => ?_)
      (fun ⟨id, name, hid⟩ => absurd hid (hoperator id name))
      fun id name hid _ => hoperator id name hid
    obtain ⟨y, hy, hhash⟩ := hfound
    exact h.trust _ (Or.inr (Or.inr ⟨y, hy, certToDeviceId_congr hhash⟩))

/-- A step trusts nobody who was not trusted. -/
theorem mayTrust_step (ht : t.Blind blake3 s s') (h : SameButShares blake3 s s' r r') (id : String)
    (hid : (serverStep blake3 t r).2.MayTrust blake3 id) : s.MayTrust blake3 id := by
  by_cases hconfirm : s.policy = .confirm
  · have hpinned : ∀ i x, pinned blake3 t r = some (i, x) →
        i = certToDeviceId blake3 x ∧ s.MayTrust blake3 i := by
      intro i x hpin
      rcases pinned_cases hpin with ⟨c, req, rfl, hcert, rfl⟩ | ⟨name, rfl⟩
      · obtain ⟨c', y, hc', hy, hgood⟩ := (ht.sound hconfirm).admits rfl
        cases hc'
        rw [hcert] at hy
        cases hy
        exact ⟨rfl, hgood⟩
      · exact (((ht.sound hconfirm).approves i name x rfl).2).elim
    have hcert : ∀ i x, (serverStep blake3 t r).2.storage.getDeviceCert i = some x →
        r.storage.getDeviceCert i = some x ∨ i = certToDeviceId blake3 x ∧ s.MayTrust blake3 i := by
      intro i x hi
      rw [cert_serverStep] at hi
      split at hi
      · rename_i j y hpin
        split_ifs at hi with hij
        · cases hi
          subst hij
          exact Or.inr (hpinned i x hpin)
        · exact Or.inl hi
      · exact Or.inl hi
    have hpolicy : (serverStep blake3 t r).2.policy = .confirm :=
      policy_serverStep.trans (h.policy.trans hconfirm)
    rcases (mayTrust_of_confirm hpolicy).mp hid with hsome | ⟨y, ⟨i, hi⟩, rfl⟩
    · obtain ⟨x, hx⟩ := Option.isSome_iff_exists.mp hsome
      rcases hcert id x hx with hold | ⟨-, htrust⟩
      · exact h.trust id (Or.inr (Or.inl (by rw [hold]; rfl)))
      · exact htrust
    · rcases hcert i y hi with hold | ⟨rfl, htrust⟩
      · exact h.trust _ (Or.inr (Or.inr ⟨y, ⟨i, hold⟩, rfl⟩))
      · exact htrust
  · left
    cases hpolicy : s.policy with
    | autoAccept => rfl
    | confirm => exact absurd hpolicy hconfirm

/-- What the two steps lead to, if they lead to the same but for the shares. -/
theorem SameButShares.step (ht : t.Blind blake3 s s') (h : SameButShares blake3 s s' r r')
    (heq : (serverStep blake3 t' r').2 =
      (serverStep blake3 t r).2.withShares s'.storage.sharedFolders) :
    SameButShares blake3 s s' (serverStep blake3 t r).2 (serverStep blake3 t' r').2 where
  start := h.start
  eq := heq
  shares := sharedFolders_serverStep.trans h.shares
  info := fixed_serverStep.2.trans h.info
  policy := policy_serverStep.trans h.policy
  trust := mayTrust_step ht h

theorem SameButPath.idle {u : ServerTask} (hpeer : u.peer.isSome = true) (hasks : u.asks = false)
    (hadmits : u.admits = false) (hstores : ∀ id name x, u ≠ storeApproved id name (some x)) :
    SameButPath blake3 s s' u u :=
  .same (.of_idle hpeer hasks fun _ => .of_idle hadmits hstores)

theorem SameButShares.info' (h : SameButShares blake3 s s' r r') : r'.info = s'.info := by
  rw [h.eq, h.start]
  exact h.info

theorem SameButShares.shares' (h : SameButShares blake3 s s' r r') :
    r'.storage.sharedFolders = s'.storage.sharedFolders := by
  rw [h.eq]
  rfl

theorem SameButShares.failing (h : SameButShares blake3 s s' r r') : r'.failing = r.failing := by
  rw [h.eq]
  rfl

/-- What the look-up of a share leads to. -/
theorem sameButPath_lookupShare {req : RemoteFolderPairRequest}
    (ht : (lookupShare c req).Blind blake3 s s') (h : SameButShares blake3 s s' r r') :
    SameButPath blake3 s s' (serverStep blake3 (lookupShare c req) r).1
      (serverStep blake3 (lookupShare c req) r').1 := by
  obtain ⟨hsome, hpath⟩ := ht.lookup c req rfl
  rw [lookupShare_step, lookupShare_step, offer_congr h.shares h.info,
    offer_congr h.shares' h.info', h.failing]
  by_cases hfail : r.failing = true
  · rw [if_pos hfail, if_pos hfail]
    exact .idle rfl rfl rfl (by simp)
  · rw [if_neg hfail, if_neg hfail]
    cases hoffer : s.offer req.folderGuid with
    | none =>
      have hnone : s'.offer req.folderGuid = none := by
        rw [hoffer, Option.isSome_none] at hsome
        exact Option.not_isSome_iff_eq_none.mp (by rw [← hsome]; exact Bool.false_ne_true)
      rw [hnone]
      exact .idle rfl rfl rfl (by simp)
    | some localPath =>
      obtain ⟨localPath', hoffer'⟩ := Option.isSome_iff_exists.mp
        (show (s'.offer req.folderGuid).isSome = true by rw [← hsome, hoffer]; rfl)
      rw [hoffer']
      by_cases htrust : s.MayTrust blake3 (c.identity blake3 req.deviceId)
      · have hsame : some localPath = some localPath' := by
          rw [← hoffer, ← hoffer', hpath htrust]
        cases hsame
        exact .idle rfl rfl rfl (by simp)
      · exact .lookupGrant localPath localPath' htrust

/-- The steps of the two runs, over the shares each has, do the same but for
the path of an offer. -/
theorem sameButPath_step (ht : SameButPath blake3 s s' t t')
    (h : SameButShares blake3 s s' r r') :
    SameButPath blake3 s s' (serverStep blake3 t r).1 (serverStep blake3 t' r').1 ∧
      SameButShares blake3 s s' (serverStep blake3 t r).2 (serverStep blake3 t' r').2 := by
  have hidle : ∀ u : ServerTask, u.peer.isSome = true → u.asks = false → u.admits = false →
      (∀ id name x, u ≠ storeApproved id name (some x)) → u.Blind blake3 s s' :=
    fun u hpeer hasks hadmits hstores => .of_idle hpeer hasks fun _ => .of_idle hadmits hstores
  cases ht with
  | same ht =>
    by_cases hlist : ∃ c, t = listShares c
    · obtain ⟨c, rfl⟩ := hlist
      refine ⟨?_, h.step ht (by rw [h.eq]; rfl)⟩
      rw [listShares_step, listShares_step, visibleShares_congr h.shares h.info,
        visibleShares_congr h.shares' h.info', ht.listing c rfl, h.failing]
      exact .idle rfl rfl rfl (by simp)
    · by_cases hlookup : ∃ c req, t = lookupShare c req
      · obtain ⟨c, req, rfl⟩ := hlookup
        refine ⟨sameButPath_lookupShare ht h, h.step ht ?_⟩
        rw [lookupShare_step, lookupShare_step, h.eq]
        rfl
      · have hframe : serverStep blake3 t (r.withShares s'.storage.sharedFolders) = _ :=
          serverStep_withShares (fun c hc => hlist ⟨c, hc⟩) fun c req hc => hlookup ⟨c, req, hc⟩
        rw [← h.eq] at hframe
        refine ⟨?_, h.step ht (congrArg Prod.snd hframe)⟩
        rw [hframe]
        exact .same (ht.step (fun c req hc => hlookup ⟨c, req, hc⟩) h)
  | @lookupGrant c req localPath localPath' htrust =>
    have hblind := hidle (lookupGrant c req localPath) rfl rfl rfl (by simp)
    have hgate : r'.gate = r.gate := by
      rw [h.eq]
      rfl
    refine ⟨?_, h.step hblind (by rw [lookupGrant_step, lookupGrant_step]; exact h.eq)⟩
    rw [lookupGrant_step, lookupGrant_step, hgate]
    cases r.gate.folderApproved.lookup (req.deviceId, req.folderGuid) with
    | none => exact .lookupDenial localPath localPath' htrust
    | some grant => exact .idle rfl rfl rfl (by simp)
  | @lookupDenial c req localPath localPath' htrust =>
    have hblind := hidle (lookupDenial c req localPath) rfl rfl rfl (by simp)
    have hgate : r'.gate = r.gate := by
      rw [h.eq]
      rfl
    refine ⟨?_, h.step hblind (by rw [lookupDenial_step, lookupDenial_step]; exact h.eq)⟩
    rw [lookupDenial_step, lookupDenial_step, hgate]
    by_cases hdenied : (req.deviceId, req.folderGuid) ∈ r.gate.folderDenied
    · rw [if_pos hdenied, if_pos hdenied]
      exact .idle rfl rfl rfl (by simp)
    · rw [if_neg hdenied, if_neg hdenied]
      exact .lookupTrust localPath localPath' htrust
  | @lookupTrust c req localPath localPath' htrust =>
    have hblind := hidle (lookupTrust c req localPath) rfl rfl rfl (by simp)
    have hnone : r.storage.getDeviceCert req.deviceId = none := by
      by_contra hsome
      exact htrust (h.trust _ (Or.inr (Or.inl (Option.isSome_iff_ne_none.mpr hsome))))
    have hnone' : r'.storage.getDeviceCert req.deviceId = none := by
      rw [h.eq]
      exact hnone
    refine ⟨?_, h.step hblind ?_⟩
    · rw [lookupTrust_untrusted hnone, lookupTrust_untrusted hnone']
      exact .idle rfl rfl rfl (by simp)
    · rw [lookupTrust_untrusted hnone, lookupTrust_untrusted hnone', h.eq]
      rfl

theorem lastReply_congr (ht : SameButPath blake3 s s' t t') : lastReply t = lastReply t' := by
  cases ht <;> rfl

/-- The two runs say the same. -/
theorem serverReplies_congr (ht : SameButPath blake3 s s' t t') (h : SameButShares blake3 s s' r r')
    (listed : Bool) : serverReplies blake3 l listed t r = serverReplies blake3 l listed t' r' := by
  have hlast := lastReply_congr (sameButPath_step ht h).1
  cases ht with
  | same ht =>
    cases t with
    | accepted c =>
      rw [h.eq]
      rfl
    | respond c req a =>
      cases a with
      | accept =>
        rw [h.eq]
        rfl
      | hold | deny => exact hlast
    | recordAddr | closed => rfl
    | _ => exact hlast
  | _ => exact hlast

end

/-- **Strangers' requests aside, shares stay hidden.** Let two servers differ
only in their shares, and let any connections come to them, with any
certificates and first messages, in any order of their steps. Where no
connection's request is one that the shares decide (`Reveals`), both servers
say the same. -/
theorem shares_hidden {ι : Type} [DecidableEq ι] (blake3 : Bytes → FileHash) (l : Listener)
    (listed : ι → Bool) (s : Server) (rows : List SharedFolderRow) (peers : ι → Inbound)
    (hhidden : ∀ i, ¬Reveals blake3 s (s.withShares rows) (peers i)) (schedule : List ι) :
    let out := fun i => serverReplies blake3 l (listed i)
    Tasks.outputs (serverStep blake3) out ⟨fun i => accepted (peers i), s⟩ schedule =
      Tasks.outputs (serverStep blake3) out ⟨fun i => accepted (peers i), s.withShares rows⟩
        schedule := by
  have hrel : Tasks.Related (serverStep blake3) (fun i => serverReplies blake3 l (listed i))
      (SameButPath blake3 s (s.withShares rows)) (SameButShares blake3 s (s.withShares rows)) :=
    ⟨fun ht h => sameButPath_step ht h, fun i ht h => serverReplies_congr ht h (listed i)⟩
  have htask : ∀ i, SameButPath blake3 s (s.withShares rows) (accepted (peers i))
      (accepted (peers i)) := by
    intro i
    refine .same ⟨rfl, fun c hc => ?_, by simp, by simp, fun _ => .of_idle rfl (by simp)⟩
    cases hc
    exact hhidden i
  have hstate : SameButShares blake3 s (s.withShares rows) s (s.withShares rows) :=
    ⟨rfl, rfl, rfl, rfl, rfl, fun _ h => h⟩
  exact Tasks.outputs_related hrel htask hstate schedule

/-- A stranger who asks to be paired, and another with an index. -/
def strangers : Fin 2 → Inbound
  | 0 => ⟨some [97], none, [.pairRequest ⟨"claimed", "Phone", []⟩]⟩
  | 1 => ⟨some [98], none, [.index ⟨"1", "claimed", none, []⟩]⟩

def sampleShares : List SharedFolderRow :=
  [⟨1, "guid", "server", "Photos", "/photos", true, true, "read_write"⟩]

theorem shares_hidden_strangers :
    let out := fun _ : Fin 2 => serverReplies sampleBlake3 ⟨[115], [], 1⟩ true
    let said := fun s => Tasks.outputs (serverStep sampleBlake3) out
      ⟨fun i => accepted (strangers i), s⟩ [0, 1, 0, 0, 1, 0]
    said sampleServer = said (sampleServer.withShares sampleShares) ∧
      (said sampleServer).length = 1 := by
  have hhidden : ∀ i, ¬Reveals sampleBlake3 sampleServer (sampleServer.withShares sampleShares)
      (strangers i)
    | 0 | 1 => id
  exact ⟨shares_hidden sampleBlake3 ⟨[115], [], 1⟩ (fun _ => true) sampleServer sampleShares
    strangers hhidden [0, 1, 0, 0, 1, 0], by decide +kernel⟩

/-- A stranger who lists the shares, and another who asks for a folder. -/
def prying : Fin 2 → Inbound
  | 0 => ⟨some [97], none, [.listSharedFolders]⟩
  | 1 => ⟨some [98], none, [.requestFolderPair ⟨"claimed", "Phone", "guid", "Photos", "both"⟩]⟩

/-- **Strangers learn of the shares.** Nobody is known to the server. The first
stranger is given the list of the shares, with their paths; and the second, who
is held if the folder is shared, is otherwise told that it is not. -/
theorem shares_revealed :
    let said := fun s => Tasks.outputs (serverStep sampleBlake3)
      (fun _ : Fin 2 => serverReplies sampleBlake3 ⟨[115], [], 1⟩ true)
      ⟨fun i => accepted (prying i), s⟩ [0, 0, 1, 1, 1, 1, 1, 1]
    sampleServer.storage.devices.entries = [] ∧
      said sampleServer = [(0, .sharedFolders []),
        (1, .folderPairRejected "unknown or not shared folder")] ∧
      said (sampleServer.withShares sampleShares) =
        [(0, .sharedFolders [⟨"guid", "Photos", "both", "/photos"⟩]), (1, .folderPairPending)] := by
  refine ⟨rfl, by decide +kernel, by decide +kernel⟩

end FerriSync
