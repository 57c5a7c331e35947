/-
# The direction of a folder

A folder's row and each of its pairs carry a direction, `push` or `pull`
(`SyncDirection`), or a mode, `send-only` or `receive-only` (`folders
add-device`). A session is given neither, whatever starts it
(`SessionCall.session`): it sends and writes as its plan and its peer have it
(`mode_ignored`). What the mode forbids is not done only where the two folders and
the peer give no occasion for it (`direction_kept`).

Key definitions: `SyncDirection`, `SessionCall.session`, `KeepsDirection`,
`inDirection`.
Key theorems: `keepsContent_step`, `leavesFolder_step`, `direction_kept`.
-/
import FerriSync.Outbound
import FerriSync.Success

namespace FerriSync

open Machine

/-! ### Directions and modes -/

/-- Direction of file flow for a sync folder. -/
inductive SyncDirection
  | bidirectional
  | pushOnly
  | pullOnly
deriving DecidableEq, Repr

namespace SyncDirection

def asStr : SyncDirection → String
  | bidirectional => "bidirectional"
  | pushOnly => "push"
  | pullOnly => "pull"

def fromStr (s : String) : Except String SyncDirection :=
  if s = "bidirectional" then .ok bidirectional
  else if s = "push" then .ok pushOnly
  else if s = "pull" then .ok pullOnly
  else .error s!"unknown sync direction: {s}"

theorem fromStr_asStr (d : SyncDirection) : fromStr d.asStr = .ok d := by
  cases d <;> rfl

end SyncDirection

/-- In this mode nothing is to be sent. -/
def receivesOnly (mode : String) : Bool :=
  mode = SyncDirection.pullOnly.asStr || mode = "receive-only"

/-- In this mode nothing is to be written. -/
def sendsOnly (mode : String) : Bool :=
  mode = SyncDirection.pushOnly.asStr || mode = "send-only"

/-- The client's side of a session that has been called for; neither the pair's
mode nor the folder's direction goes with the call. -/
def SessionCall.session (surroundings : Config) (call : SessionCall) : Config := { surroundings with
  role := .client
  folderId := ⟨Int64.ofNat call.folderId⟩
  deviceId := call.deviceId
  dryRun := call.dryRun
  remotePath := call.remotePath }

/-! ### What a mode forbids -/

/-- The string names a file that is not empty. -/
def hasContent (f : Folder) (path : String) : Bool :=
  match safeJoin path with
  | .error _ => false
  | .ok t =>
    match f.read t with
    | .error _ => false
    | .ok data => decide (data ≠ [])

/-- The message carries bytes of a file. -/
def carriesContent : SyncMessage → Bool
  | .fileChunk c => decide (c.data ≠ [])
  | _ => false

section

variable (cfg : Config)

/-- What the session writes next carries bytes of a file. -/
def sendsContent (p : Party) : Bool :=
  match p.next cfg with
  | .write m _ _ => carriesContent m
  | _ => false

/-- In every state of the run nothing is sent if nothing is to be, and the folder is
what it was if nothing is to be written. -/
def KeepsDirection (mode : String) (f : Folder) (is : List (Input SyncMessage)) : Prop :=
  ∀ js, js <+: is →
    (receivesOnly mode = true → sendsContent cfg (run (Party.next cfg) (start cfg f) js) = false) ∧
    (sendsOnly mode = true → (run (Party.next cfg) (start cfg f) js).folder = f)

/-- The files to push, from the index that is read. -/
def pushedFor (p : Party) (idx : Index) : List IndexEntry :=
  (clientPlan (clientOwn cfg p.own) idx cfg.folderId (cfg.order _ _)).toPush

/-- The chunk completes a file that is to be put in place. -/
def completesFile (p : Party) (c : FileChunk) : Bool :=
  decide (c.path ≠ "metadata.db") &&
    match receiveChunk p.inbox c with
    | .complete _ data => hashMatches cfg.blake3 p.remote c.path data && (safeJoin c.path).isOk
    | _ => false

/-- The path is answered when it is asked for. -/
def answers (path : String) : Bool :=
  decide (path ≠ "metadata.db") && decide (path.utf8ByteSize ≤ maxPathLen)

/-- The index is not refused, and the session is no dry run. -/
def followsIndex (idx : Index) : Bool :=
  !cfg.dryRun && !frameTooLarge cfg.serialize (.index idx) &&
    decide (idx.entries.length ≤ maxIndexEntries)

/-- The message is read, and not refused. -/
def takesMessage (p : Party) (m : SyncMessage) : Bool :=
  !p.complete && !frameTooLarge cfg.serialize m

/-- A step that gives no occasion for what the mode forbids: an index that leaves
no file to push but empty ones, a request for no other; or a chunk that completes no
file. -/
def inDirection (mode : String) (p : Party) (i : Input SyncMessage) : Bool :=
  match p.todo, p.phase, i with
  | [], .awaitIndex, .message (.index idx) =>
    !receivesOnly mode || !followsIndex cfg idx ||
      (pushedFor cfg p idx).all fun e => !hasContent p.folder e.path
  | [], .receiving, .message (.fileRequest r) =>
    !receivesOnly mode || !takesMessage cfg p (.fileRequest r) ||
      decide (maxFileRequestPaths < r.paths.length) ||
      (r.paths.filter answers).all fun path => !hasContent p.folder path
  | [], .receiving, .message (.fileChunk c) =>
    !sendsOnly mode || !takesMessage cfg p (.fileChunk c) || !completesFile cfg p c
  | _, _, _ => true

end

/-! ### Nothing is sent -/

/-- The thing to do puts a file in place. -/
def Action.installs : Action → Bool
  | .install _ _ _ => true
  | _ => false

/-- The thing to do sends nothing of a file. -/
def Action.bare (f : Folder) : Action → Prop
  | .write m => carriesContent m = false
  | .pushFile path => hasContent f path = false
  | .serve path => hasContent f path = false
  | _ => True

/-- The thing to do is the same in any folder. -/
def Action.anywhere : Action → Bool
  | .pushFile _ => false
  | .serve _ => false
  | _ => true

/-- What is to be done sends nothing of a file, and either puts none in place or
reads none. -/
structure KeepsContent (p : Party) : Prop where
  bare : ∀ a ∈ p.todo, a.bare p.folder
  apart : (∀ a ∈ p.todo, a.installs = false) ∨ ∀ a ∈ p.todo, a.anywhere = true

section

variable {cfg : Config} {mode : String}

theorem Action.bare_of_anywhere {a : Action} {f g : Folder} (h : a.anywhere = true) (hbare : a.bare f) :
    a.bare g := by
  cases a with
  | pushFile path => cases h
  | serve path => cases h
  | _ => exact hbare

/-- A session writes what it has to write. -/
theorem write_of_next {p sent failed : Party} {m : SyncMessage}
    (h : p.next cfg = .write m sent failed) : ∃ rest, p.todo = .write m :: rest := by
  unfold Party.next at h
  cases ht : p.todo with
  | cons a rest =>
    rw [ht] at h
    cases a with
    | write m' =>
      cases h
      exact ⟨rest, rfl⟩
    | pushFile path =>
      dsimp only [act] at h
      cases hjoin : safeJoin path with
      | error e =>
        rw [hjoin] at h
        cases h
      | ok t =>
        rw [hjoin] at h
        dsimp only at h
        cases hread : p.folder.read t <;> rw [hread] at h <;> cases h
    | serve path =>
      dsimp only [act] at h
      cases hjoin : safeJoin path with
      | error e =>
        rw [hjoin] at h
        cases h
      | ok t =>
        rw [hjoin] at h
        dsimp only at h
        cases hread : p.folder.read t <;> rw [hread] at h <;> cases h
    | install path t data =>
      dsimp only [act] at h
      rcases hn : install t data (cfg.mtime p.tick) p.folder with ⟨e | u, g⟩ <;>
        rw [hn] at h <;> cases h
    | _ => cases h
  | nil =>
    rw [ht] at h
    cases hph : p.phase with
    | receiving =>
      rw [hph] at h
      dsimp only at h
      split_ifs at h
      cases h
    | _ =>
      rw [hph] at h
      cases h

theorem not_sends_of_keeps {p : Party} (h : KeepsContent p) : sendsContent cfg p = false := by
  unfold sendsContent
  split
  · rename_i m sent failed hnext
    obtain ⟨rest, ht⟩ := write_of_next hnext
    exact h.bare _ (ht ▸ List.mem_cons_self)
  · rfl

/-- An empty file has no bytes to send. -/
theorem bare_chunks {f : Folder} {path : String} {data : Bytes} (hdata : data = []) :
    ∀ a ∈ chunkActions cfg path data, a.bare f := by
  subst hdata
  intro a ha
  obtain ⟨c, hc, rfl⟩ := List.mem_map.mp ha
  obtain rfl : c = chunkAt cfg.folderIdStr path [] 0 := by
    simpa [sendFileChunks, chunksFrom] using hc
  simp [Action.bare, carriesContent, chunkAt]

theorem anywhere_chunks {path : String} {data : Bytes} :
    ∀ a ∈ chunkActions cfg path data, a.installs = false := by
  intro a ha
  obtain ⟨c, -, rfl⟩ := List.mem_map.mp ha
  rfl

theorem empty_of_read {f : Folder} {path : String} {t : Target} {data : Bytes}
    (h : hasContent f path = false) (hjoin : safeJoin path = .ok t) (hread : f.read t = .ok data) :
    data = [] := by
  unfold hasContent at h
  rw [hjoin] at h
  dsimp only at h
  rw [hread] at h
  simpa using h

theorem KeepsContent.nil {p : Party} (ht : p.todo = []) : KeepsContent p where
  bare := by simp [ht]
  apart := by simp [ht]

theorem KeepsContent.rest {p : Party} {a : Action} {rest : List Action} (h : KeepsContent p)
    (ht : p.todo = a :: rest) : KeepsContent { p with todo := rest } where
  bare b hb := h.bare b (ht ▸ List.mem_cons_of_mem a hb)
  apart := h.apart.imp (fun hinstalls b hb => hinstalls b (ht ▸ List.mem_cons_of_mem a hb))
    fun hanywhere b hb => hanywhere b (ht ▸ List.mem_cons_of_mem a hb)

/-- What is to be done after a file that is read. -/
theorem KeepsContent.reads {p : Party} {path : String} {t : Target} {data : Bytes} (more : List Action)
    (h : KeepsContent p) (hinstalls : ∀ a ∈ p.todo, a.installs = false)
    (hcontent : hasContent p.folder path = false) (hjoin : safeJoin path = .ok t)
    (hread : p.folder.read t = .ok data) (hmore : ∀ a ∈ more, a.bare p.folder ∧ a.installs = false) :
    KeepsContent { p with todo := chunkActions cfg path data ++ (more ++ p.todo) } where
  bare a ha := by
    rcases List.mem_append.mp ha with ha | ha
    · exact bare_chunks (empty_of_read hcontent hjoin hread) a ha
    · exact (List.mem_append.mp ha).elim (fun ha => (hmore a ha).1) (h.bare a)
  apart := by
    refine Or.inl fun a ha => ?_
    rcases List.mem_append.mp ha with ha | ha
    · exact anywhere_chunks a ha
    · exact (List.mem_append.mp ha).elim (fun ha => (hmore a ha).2) (hinstalls a)

theorem keepsContent_act {p p' : Party} {a : Action} {rest : List Action} (h : KeepsContent p)
    (ht : p.todo = a :: rest) (ha : ActEffect cfg { p with todo := rest } a p') : KeepsContent p' := by
  have hrest := h.rest ht
  have hbare := h.bare a (ht ▸ List.mem_cons_self)
  have hreads : a.anywhere = false → ∀ b ∈ rest, b.installs = false := by
    intro hreads
    rcases h.apart with hinstalls | hanywhere
    · exact fun b hb => hinstalls b (ht ▸ List.mem_cons_of_mem a hb)
    · rw [hanywhere a (ht ▸ List.mem_cons_self)] at hreads
      cases hreads
  have hplaces : a.installs = true → ∀ g, KeepsContent { p with todo := rest, folder := g } := by
    intro hplaces g
    rcases h.apart with hinstalls | hanywhere
    · rw [hinstalls a (ht ▸ List.mem_cons_self)] at hplaces
      cases hplaces
    · have hrest' : ∀ b ∈ rest, b.anywhere = true := fun b hb =>
        hanywhere b (ht ▸ List.mem_cons_of_mem a hb)
      exact ⟨fun b hb => Action.bare_of_anywhere (hrest' b hb) (hrest.bare b hb), Or.inr hrest'⟩
  cases ha with
  | failed a e => exact .nil rfl
  | finishDry => exact ⟨hrest.bare, hrest.apart⟩
  | pushFile hjoin hread =>
    refine .reads [.uploaded _ _, .filePushed _] hrest (hreads rfl) hbare hjoin hread ?_
    simp [Action.bare, Action.installs]
  | serve hjoin hread =>
    refine .reads [.served _ _] hrest (hreads rfl) hbare hjoin hread ?_
    simp [Action.bare, Action.installs]
  | installFailed hn => exact .nil rfl
  | @install path t data g hn =>
    have hplaced := hplaces rfl g
    exact ⟨hplaced.bare, hplaced.apart⟩
  | _ => exact ⟨hrest.bare, hrest.apart⟩

/-- What is to be done once the index is read. -/
theorem keepsContent_index {p : Party} {m : SyncMessage} (hrole : cfg.role = .client)
    (ht : p.todo = []) (hph : p.phase = .awaitIndex) (hmode : receivesOnly mode = true)
    (hframe : frameTooLarge cfg.serialize m = false)
    (hin : inDirection cfg mode p (.message m) = true) : KeepsContent (onIndex cfg p m) := by
  unfold onIndex clientIndex
  rw [hrole]
  cases m with
  | index idx =>
    dsimp only
    by_cases hlarge : maxIndexEntries < idx.entries.length
    · rw [if_pos hlarge]
      exact .nil rfl
    · rw [if_neg hlarge]
      by_cases hdry : cfg.dryRun = true
      · rw [if_pos hdry]
        refine ⟨?_, Or.inl ?_⟩ <;> simp [Action.bare, Action.installs]
      · rw [if_neg hdry]
        have hpush : ∀ e ∈ pushedFor cfg p idx, hasContent p.folder e.path = false := by
          have hsmall : idx.entries.length ≤ maxIndexEntries := Nat.le_of_not_lt hlarge
          have hfollows : followsIndex cfg idx = true := by
            simp [followsIndex, hdry, hframe, hsmall]
          simpa [inDirection, ht, hph, hmode, hfollows] using hin
        constructor
        · intro a ha
          simp only [List.mem_cons, List.mem_append, List.mem_map, List.not_mem_nil, or_false] at ha
          rcases ha with rfl | ⟨e, he, rfl⟩ | rfl
          · trivial
          · exact hpush e he
          · rfl
        · refine Or.inl fun a ha => ?_
          simp only [List.mem_cons, List.mem_append, List.mem_map, List.not_mem_nil, or_false] at ha
          rcases ha with rfl | ⟨e, he, rfl⟩ | rfl <;> rfl
  | _ => exact .nil rfl

theorem keepsContent_chunk {p p' : Party} {c : FileChunk} (hrole : cfg.role = .client)
    (ht : p.todo = []) (h : ChunkEffect cfg p c p') : KeepsContent p' := by
  cases h with
  | metadata => exact .nil ht
  | refused e => exact .nil rfl
  | more => exact .nil ht
  | mismatch => refine ⟨?_, Or.inl ?_⟩ <;> simp [Action.bare, Action.installs, carriesContent]
  | unsafePath e => exact .nil rfl
  | prepareFailed => exact .nil rfl
  | @prepared inbox data t conflicted g =>
    unfold commitActions
    rw [hrole]
    have hall : ∀ a ∈ (if conflicted = true then [Action.conflict c.path] else []) ++
        [.install c.path t data, .write (.ack ⟨c.path, true, none⟩), .downloaded c.path data.length,
          .filePulled c.path], a.bare g ∧ a.anywhere = true := by
      cases conflicted <;> simp [Action.bare, Action.anywhere, carriesContent]
    exact ⟨fun a ha => (hall a ha).1, Or.inr fun a ha => (hall a ha).2⟩

theorem keepsContent_request {p : Party} {r : FileRequest} (ht : p.todo = [])
    (hph : p.phase = .receiving) (hmode : receivesOnly mode = true)
    (htakes : takesMessage cfg p (.fileRequest r) = true)
    (hin : inDirection cfg mode p (.message (.fileRequest r)) = true) :
    KeepsContent (onRequest cfg p r) := by
  unfold onRequest
  by_cases hmany : maxFileRequestPaths < r.paths.length
  · rw [if_pos hmany]
    exact .nil ht
  · rw [if_neg hmany]
    have hserve : ∀ path ∈ r.paths.filter answers, hasContent p.folder path = false := by
      have hall : (r.paths.filter answers).all (fun path => !hasContent p.folder path) = true := by
        simpa only [inDirection, ht, hph, hmode, hmany, htakes, Bool.not_true, Bool.false_or,
          decide_false] using hin
      intro path hpath
      simpa using List.all_eq_true.mp hall path hpath
    constructor
    · intro a ha
      obtain ⟨path, hpath, rfl⟩ := List.mem_map.mp ha
      exact hserve path hpath
    · refine Or.inl fun a ha => ?_
      obtain ⟨path, -, rfl⟩ := List.mem_map.mp ha
      rfl

/-- An index that is awaited is read, or it is refused. -/
theorem step_index_cases {p : Party} (ht : p.todo = []) (hph : p.phase = .awaitIndex)
    (m : SyncMessage) : (∃ e, step (Party.next cfg) p (.message m) = p.fail e) ∨
      frameTooLarge cfg.serialize m = false ∧
        step (Party.next cfg) p (.message m) = onIndex cfg p m := by
  unfold step Party.next
  rw [ht, hph]
  dsimp only
  unfold readMessage Move.answer
  dsimp only
  split_ifs with hframe
  · exact Or.inl ⟨_, rfl⟩
  · exact Or.inr ⟨by simpa using hframe, rfl⟩

/-- A message in the loop is taken, or the loop is left, or nothing happens. -/
theorem step_message_cases {p : Party} (hrole : cfg.role = .client) (ht : p.todo = [])
    (hph : p.phase = .receiving) (m : SyncMessage) :
    step (Party.next cfg) p (.message m) = p ∨
      step (Party.next cfg) p (.message m) = { p with phase := .draining } ∨
      takesMessage cfg p m = true ∧ step (Party.next cfg) p (.message m) = clientMessage cfg p m := by
  unfold step Party.next
  rw [ht, hph]
  dsimp only
  by_cases hc : cfg.role = .client ∧ p.complete = true
  · rw [if_pos hc]
    exact Or.inl rfl
  · rw [if_neg hc]
    have hcomplete : p.complete = false := by simpa [hrole] using hc
    unfold readMessage Move.answer onMessage
    rw [hrole]
    dsimp only
    split_ifs with hframe
    · exact Or.inr (Or.inl rfl)
    · exact Or.inr (Or.inr ⟨by simp [takesMessage, hcomplete, hframe], rfl⟩)

/-- What a message read in the loop leaves to do. -/
theorem keepsContent_message {p : Party} {m : SyncMessage} (hrole : cfg.role = .client)
    (ht : p.todo = []) (hph : p.phase = .receiving) (hmode : receivesOnly mode = true)
    (htakes : takesMessage cfg p m = true) (hin : inDirection cfg mode p (.message m) = true) :
    KeepsContent (clientMessage cfg p m) := by
  cases m with
  | fileChunk c => exact keepsContent_chunk hrole ht (onChunk_effect p c)
  | fileRequest r => exact keepsContent_request ht hph hmode htakes hin
  | ack a =>
    dsimp only [clientMessage]
    split_ifs
    · exact .nil ht
    · exact .nil ht
  | _ => exact .nil ht

/-- **A step that gives no occasion leaves nothing to send.** -/
theorem keepsContent_step {p : Party} {i : Input SyncMessage} (hrole : cfg.role = .client)
    (hmode : receivesOnly mode = true) (h : KeepsContent p) (hin : inDirection cfg mode p i = true) :
    KeepsContent (step (Party.next cfg) p i) := by
  have he := step_effect cfg p i
  generalize hstep : step (Party.next cfg) p i = p' at he
  cases he with
  | idle => exact h
  | act ht ha => exact keepsContent_act h ht ha
  | noIndex e => exact .nil rfl
  | index m ht hph =>
    rcases step_index_cases ht hph m with ⟨e, hfail⟩ | ⟨hframe, hindex⟩
    · rw [← hstep, hfail]
      exact .nil rfl
    · exact keepsContent_index hrole ht hph hmode hframe hin
  | complete _ ht => exact .nil ht
  | broken _ ht => exact .nil ht
  | @message m p' ht hph hc hm =>
    rw [← hstep]
    rcases step_message_cases hrole ht hph m with hsame | hleft | ⟨htakes, hturn⟩
    · rwa [hsame]
    · rw [hleft]
      exact .nil ht
    · rw [hturn]
      exact keepsContent_message hrole ht hph hmode htakes hin
  | check _ ht => exact .nil ht
  | stopped _ ht => exact .nil ht

/-! ### Nothing is written -/

/-- The folder is what it was, and nothing is to be put in place. -/
structure LeavesFolder (f : Folder) (p : Party) : Prop where
  folder : p.folder = f
  pending : ∀ a ∈ p.todo, a.installs = false

theorem LeavesFolder.nil {f : Folder} {p : Party} (hfolder : p.folder = f) (ht : p.todo = []) :
    LeavesFolder f p := ⟨hfolder, by simp [ht]⟩

theorem leavesFolder_act {f : Folder} {p p' : Party} {a : Action} {rest : List Action}
    (h : LeavesFolder f p) (ht : p.todo = a :: rest) (ha : ActEffect cfg { p with todo := rest } a p') :
    LeavesFolder f p' := by
  have hrest : ∀ b ∈ rest, b.installs = false := fun b hb => h.pending b (ht ▸ List.mem_cons_of_mem a hb)
  have hfirst := h.pending a (ht ▸ List.mem_cons_self)
  have hmore : ∀ {path : String} {data : Bytes} (more : List Action),
      (∀ b ∈ more, b.installs = false) →
      ∀ b ∈ chunkActions cfg path data ++ (more ++ rest), b.installs = false := by
    intro path data more hmore b hb
    rcases List.mem_append.mp hb with hb | hb
    · exact anywhere_chunks b hb
    · exact (List.mem_append.mp hb).elim (hmore b) (hrest b)
  cases ha with
  | failed a e => exact .nil h.folder rfl
  | pushFile hjoin hread =>
    exact ⟨h.folder, hmore [.uploaded _ _, .filePushed _] (by simp [Action.installs])⟩
  | serve hjoin hread => exact ⟨h.folder, hmore [.served _ _] (by simp [Action.installs])⟩
  | installFailed hn => cases hfirst
  | install hn => cases hfirst
  | _ => exact ⟨h.folder, hrest⟩

theorem leavesFolder_index {f : Folder} {p : Party} {m : SyncMessage} (hrole : cfg.role = .client)
    (h : LeavesFolder f p) : LeavesFolder f (onIndex cfg p m) := by
  unfold onIndex clientIndex
  rw [hrole]
  cases m with
  | index idx =>
    dsimp only
    split_ifs
    · exact .nil h.folder rfl
    · exact ⟨h.folder, by simp [Action.installs]⟩
    · refine ⟨h.folder, fun a ha => ?_⟩
      simp only [List.mem_cons, List.mem_append, List.mem_map, List.not_mem_nil, or_false] at ha
      rcases ha with rfl | ⟨e, -, rfl⟩ | rfl <;> rfl
  | _ => exact .nil h.folder rfl

/-- A chunk that completes no file changes nothing. -/
theorem leavesFolder_chunk {f : Folder} {p p' : Party} {c : FileChunk} (h : LeavesFolder f p)
    (hin : completesFile cfg p c = false) (he : ChunkEffect cfg p c p') : LeavesFolder f p' := by
  have hnot : ∀ {inbox : Inbox} {data : Bytes} {t : Target}, c.path ≠ "metadata.db" →
      receiveChunk p.inbox c = .complete inbox data →
      hashMatches cfg.blake3 p.remote c.path data = true → safeJoin c.path = .ok t → False := by
    intro inbox data t hne hreceived hhash hjoin
    simp [completesFile, hne, hreceived, hhash, hjoin, Except.isOk, Except.toBool] at hin
  cases he with
  | metadata => exact ⟨h.folder, h.pending⟩
  | refused e => exact .nil h.folder rfl
  | more => exact ⟨h.folder, h.pending⟩
  | mismatch => exact ⟨h.folder, by simp [Action.installs]⟩
  | unsafePath e => exact .nil h.folder rfl
  | prepareFailed hne hreceived hhash hjoin => exact (hnot hne hreceived hhash hjoin).elim
  | prepared hne hreceived hhash hjoin => exact (hnot hne hreceived hhash hjoin).elim

theorem leavesFolder_message {f : Folder} {p : Party} {m : SyncMessage} (ht : p.todo = [])
    (hph : p.phase = .receiving) (hmode : sendsOnly mode = true) (htakes : takesMessage cfg p m = true)
    (h : LeavesFolder f p) (hin : inDirection cfg mode p (.message m) = true) :
    LeavesFolder f (clientMessage cfg p m) := by
  cases m with
  | fileChunk c =>
    refine leavesFolder_chunk h ?_ (onChunk_effect p c)
    simpa [inDirection, ht, hph, hmode, htakes] using hin
  | fileRequest r =>
    dsimp only [clientMessage, onRequest]
    split_ifs
    · exact ⟨h.folder, h.pending⟩
    · refine ⟨h.folder, fun a ha => ?_⟩
      obtain ⟨path, -, rfl⟩ := List.mem_map.mp ha
      rfl
  | ack a =>
    dsimp only [clientMessage]
    split_ifs
    · exact ⟨h.folder, h.pending⟩
    · exact h
  | _ => exact h

/-- **A step that gives no occasion leaves the folder as it is.** -/
theorem leavesFolder_step {f : Folder} {p : Party} {i : Input SyncMessage} (hrole : cfg.role = .client)
    (hmode : sendsOnly mode = true) (h : LeavesFolder f p) (hin : inDirection cfg mode p i = true) :
    LeavesFolder f (step (Party.next cfg) p i) := by
  have he := step_effect cfg p i
  generalize hstep : step (Party.next cfg) p i = p' at he
  cases he with
  | idle => exact h
  | act ht ha => exact leavesFolder_act h ht ha
  | noIndex e => exact .nil h.folder rfl
  | index m => exact leavesFolder_index hrole h
  | complete => exact ⟨h.folder, h.pending⟩
  | broken => exact ⟨h.folder, h.pending⟩
  | @message m p' ht hph hc hm =>
    rw [← hstep]
    rcases step_message_cases hrole ht hph m with hsame | hleft | ⟨htakes, hturn⟩
    · rwa [hsame]
    · rw [hleft]
      exact ⟨h.folder, h.pending⟩
    · rw [hturn]
      exact leavesFolder_message ht hph hmode htakes h hin
  | check => exact ⟨h.folder, h.pending⟩
  | stopped => exact ⟨h.folder, h.pending⟩

end

/-- **A session keeps to a direction in every run that gives no occasion to
leave it**, whatever started it and whatever the mode: the peer's index leaves no
file to push that is not empty, and no such file is asked for, or no file is
completed. -/
theorem direction_kept (surroundings : Config) (call : SessionCall) (mode : String) (f : Folder)
    (is : List (Input SyncMessage))
    (h : along (Party.next (call.session surroundings)) (inDirection (call.session surroundings) mode)
      (start (call.session surroundings) f) is = true) :
    KeepsDirection (call.session surroundings) mode f is := by
  have hrole : (call.session surroundings).role = .client := rfl
  generalize call.session surroundings = cfg at h hrole ⊢
  rintro js ⟨rest, rfl⟩
  have hjs := (along_append.mp h).1
  have hstart : start cfg f = clientStart cfg f := by
    unfold start
    rw [hrole]
  refine ⟨fun hmode => ?_, fun hmode => ?_⟩
  · refine not_sends_of_keeps (along_inv (I := KeepsContent) (fun p i _ hp hi =>
      keepsContent_step hrole hmode hp hi) ?_ hjs)
    rw [hstart]
    refine ⟨?_, Or.inl ?_⟩ <;> simp [clientStart, Action.bare, Action.installs, carriesContent]
  · refine (along_inv (I := LeavesFolder f) (fun p i _ hp hi =>
      leavesFolder_step hrole hmode hp hi) ?_ hjs).folder
    rw [hstart]
    exact ⟨rfl, by simp [clientStart, Action.installs]⟩

/-- The call for the pair, with the identifier an entry point passes. -/
def musicCall (deviceId : String) : SessionCall :=
  ⟨"/music", "10.0.0.1:9847", 1, deviceId, false, none⟩

theorem direction_kept_single : KeepsDirection ((musicCall "phone").session (sampleConfig .client))
    "receive-only" (sampleFolder [(sampleName, [])])
    [.go, .message (.index ⟨"1", "phone", none, [sampleEntry]⟩), .go, .go, .go, .go] :=
  direction_kept (sampleConfig .client) (musicCall "phone") "receive-only"
    (sampleFolder [(sampleName, [])]) _ (by decide +kernel)

/-- A registry with one folder and one pair. -/
def phoneFolder (mode : String) : Storage where
  devices := AList.singleton "phone" ⟨"Phone", some [97], some "10.0.0.1:9847"⟩
  syncFolders := [⟨1, "/music", some "music", "phone", mode, some "guid"⟩]
  folderDevices := AList.singleton (1, "phone") ⟨mode, none, true⟩
  sharedFolders := []
  nextFolderId := 2

theorem listSyncFolders_phone (mode : String) : (phoneFolder mode).listSyncFolders =
    [⟨1, "/music", "phone", mode⟩] := by
  have hrows : ((phoneFolder mode).syncFolders.flatMap fun f =>
      ((phoneFolder mode).folderDevices.entries.filter fun p =>
        decide (p.1.1 = f.id) && p.2.enabled).map fun p =>
          (⟨f.id, f.localPath, p.1.2, p.2.mode⟩ : SyncPair)) = [⟨1, "/music", "phone", mode⟩] := rfl
  rw [Storage.listSyncFolders, hrows, List.mergeSort_singleton]

theorem getOrCreate_phone (mode : String) : getOrCreateFolder (fun _ => "guid") (phoneFolder mode)
    "/music" "phone" = .ok (1, phoneFolder mode) := by
  unfold getOrCreateFolder
  rw [listSyncFolders_phone]
  rfl

/-- Every entry point starts a session for the pair. -/
theorem begins_phone (mode : String) (e : EntryPoint) : ∃ deviceId ∈ ["", "phone"],
    Begins (fun _ => "guid") (phoneFolder mode) e "phone" (musicCall deviceId) (phoneFolder mode) := by
  cases e with
  | single =>
    have h : runSingle (fun _ => "guid") (fun _ _ => none) "self" "/music" "Phone" "phone"
        (some "10.0.0.1:9847") false (phoneFolder mode) = .ok (musicCall "phone", phoneFolder mode) := by
      unfold runSingle
      rw [if_neg (by decide)]
      dsimp only
      rw [listSyncFolders_phone]
      dsimp only [adoptFolders]
      rw [if_neg (by decide)]
      dsimp only
      rw [getOrCreate_phone]
      rfl
    exact ⟨"phone", by decide, .single h⟩
  | bulk =>
    have h : (⟨1, "/music", "phone", mode⟩, "phone", "10.0.0.1:9847") ∈ bulkTargets "self"
        (fun _ => some "10.0.0.1:9847") (fun _ => false) (phoneFolder mode) := by
      unfold bulkTargets
      rw [listSyncFolders_phone]
      exact List.mem_singleton_self _
    exact ⟨"phone", by decide, .bulk h⟩
  | app => exact ⟨"phone", by decide, .app⟩
  | watch =>
    have h : watch (fun _ => "guid") "/music" "phone" "10.0.0.1:9847" (phoneFolder mode) =
        .ok (musicCall "", phoneFolder mode) := by
      unfold watch
      rw [getOrCreate_phone]
      rfl
    exact ⟨"", by decide, .watch h⟩

/-- A peer with an empty folder, which takes a file. -/
def takingPeer : List (Input SyncMessage) :=
  [.go, .message (.index ⟨"1", "phone", none, []⟩), .go, .go]

/-- A peer with a file, which it sends. -/
def sendingPeer : List (Input SyncMessage) :=
  [.go, .message (.index ⟨"1", "phone", none, [sampleEntry]⟩), .go, .go,
    .message (.fileChunk ⟨"1", "f", 0, [97], 1⟩), .go]

/-- **No mode is kept to.** Whatever starts it, a session of a pair that only
receives sends a file the peer lacks, and one of a pair that only sends writes a
file the peer has. -/
theorem mode_ignored :
    (∀ e : EntryPoint, ∀ mode ∈ ["pull", "receive-only"], ∃ call,
      Begins (fun _ => "guid") (phoneFolder mode) e "phone" call (phoneFolder mode) ∧
        ¬KeepsDirection (call.session (sampleConfig .client)) mode
          (sampleFolder [(sampleName, [97])]) takingPeer) ∧
    ∀ e : EntryPoint, ∀ mode ∈ ["push", "send-only"], ∃ call,
      Begins (fun _ => "guid") (phoneFolder mode) e "phone" call (phoneFolder mode) ∧
        ¬KeepsDirection (call.session (sampleConfig .client)) mode (sampleFolder []) sendingPeer := by
  have hpull : ∀ deviceId ∈ ["", "phone"], sendsContent ((musicCall deviceId).session (sampleConfig .client))
      (run (Party.next ((musicCall deviceId).session (sampleConfig .client)))
        (start ((musicCall deviceId).session (sampleConfig .client)) (sampleFolder [(sampleName, [97])]))
        takingPeer) = true := by decide +kernel
  have hpush : ∀ deviceId ∈ ["", "phone"],
      ((run (Party.next ((musicCall deviceId).session (sampleConfig .client)))
        (start ((musicCall deviceId).session (sampleConfig .client)) (sampleFolder []))
        sendingPeer).folder.entry [sampleName]).isSome = true := by decide +kernel
  have honly : (∀ mode ∈ ["pull", "receive-only"], receivesOnly mode = true) ∧
      ∀ mode ∈ ["push", "send-only"], sendsOnly mode = true := by decide
  refine ⟨fun e mode hmode => ?_, fun e mode hmode => ?_⟩
  · obtain ⟨deviceId, hid, hbegins⟩ := begins_phone mode e
    refine ⟨_, hbegins, fun hkeeps => ?_⟩
    have hsends := (hkeeps _ List.prefix_rfl).1 (honly.1 mode hmode)
    rw [hpull deviceId hid] at hsends
    cases hsends
  · obtain ⟨deviceId, hid, hbegins⟩ := begins_phone mode e
    refine ⟨_, hbegins, fun hkeeps => ?_⟩
    have hsame := (hkeeps _ List.prefix_rfl).2 (honly.2 mode hmode)
    have hwritten := hpush deviceId hid
    rw [hsame] at hwritten
    revert hwritten
    decide +kernel

end FerriSync
