/-
# What a dry run tells

A client's dry run ends once it has read the peer's index: its result is read off
the plan, and its folder stays as it is (`dry_result`, `dryOnly_run`). In a real run
in which nothing fails, the files pushed and pulled and their bytes are those of the
plan (`Balanced`).

The conflicts differ. A dry run reports those of the plan; a real one reports each
file that is put where one of other content stands, also one that the plan just
downloads. So they agree if such a file stands at a place exactly if the plan has a
conflict there (`foreseen`).

The peer does not know that a run is dry: it makes the directory that the client names
(`dry_session_keeps_iff`).

Key definitions: `dryResult`, `Party.gained`, `committing`, `foreseen`, `DryRunPredicts`.
Key theorems: `dry_result`, `balanced_step`, `real_report`, `dry_session_keeps_iff`,
`dry_run_predicts_iff`.
-/
import FerriSync.Serving
import FerriSync.Success

namespace FerriSync

open Machine

/-! ### The dry run -/

/-- The arguments of the same session as a dry run. -/
def Config.dry (cfg : Config) : Config := { cfg with dryRun := true }

/-- The index that a client announces of its folder. -/
def announced (cfg : Config) (f : Folder) : Index :=
  clientOwn cfg (buildProtocolIndex cfg.blake3 f cfg.deviceId)

/-- The client's plan once it has read the peer's index. -/
def planFor (cfg : Config) (f : Folder) (idx : Index) : ClientPlan :=
  clientPlan (announced cfg f) idx cfg.folderId (cfg.order _ _)

/-- The paths that the plan has in conflict. -/
def plannedConflicts (cfg : Config) (f : Folder) (idx : Index) : List String :=
  (planFor cfg f idx).plan.conflicts.map (·.path.val)

/-- What a dry run reports. -/
def dryResult (plan : ClientPlan) : SyncResult where
  pushed := plan.toPush.map (·.path)
  pulled := plan.toPull.map (·.path)
  pushedBytes := sumSizes plan.toPush
  pulledBytes := sumSizes plan.toPull
  conflicts := plan.plan.conflicts.map (·.path.val)

/-- The messages that a run tries to write. -/
def writing (cfg : Config) (p : Party) : List (Input SyncMessage) → List SyncMessage
  | [] => []
  | i :: is =>
    (match Party.next cfg p with
      | .write m _ _ => [m]
      | _ => []) ++ writing cfg (step (Party.next cfg) p i) is

section

variable {cfg : Config} {f : Folder} {idx : Index} {p p' : Party} {i : Input SyncMessage}

/-- A dry client announces its index, reads the peer's and reports. -/
structure DryOnly (cfg : Config) (f : Folder) (p : Party) : Prop where
  folder : p.folder = f
  phase : p.phase = .awaitIndex ∨ ∃ r, p.phase = .ended r
  todo : ∀ a ∈ p.todo, a = .write (.index (announced cfg f)) ∨ a = .progress "starting" ∨ a = .finishDry

theorem dryOnly_start (hrole : cfg.role = .client) (f : Folder) :
    DryOnly cfg f (start cfg.dry f) := by
  have hstart : start cfg.dry f = clientStart cfg.dry f := by
    unfold start
    rw [show cfg.dry.role = .client from hrole]
  rw [hstart]
  exact ⟨rfl, Or.inl rfl, fun a ha => Or.inl (List.mem_singleton.mp ha)⟩

theorem DryOnly.fail (h : DryOnly cfg f p) (e : String) : DryOnly cfg f (p.fail e) :=
  ⟨h.folder, Or.inr ⟨_, rfl⟩, by simp [Party.fail]⟩

/-- **A dry client leaves its folder as it is.** -/
theorem dryOnly_step (hrole : cfg.role = .client) (h : DryOnly cfg f p) (i : Input SyncMessage) :
    DryOnly cfg f (step (Party.next cfg.dry) p i) := by
  have hphase : ∀ {ph : Phase}, p.phase = ph → ph = .awaitIndex ∨ ∃ r, ph = .ended r := fun hp => hp ▸ h.phase
  have he := step_effect cfg.dry p i
  generalize step (Party.next cfg.dry) p i = p' at he
  cases he with
  | idle => exact h
  | @act _ a rest _ ht ha =>
    have hrest : ∀ b ∈ rest, b = .write (.index (announced cfg f)) ∨ b = .progress "starting" ∨
        b = .finishDry := fun b hb => h.todo b (ht ▸ List.mem_cons_of_mem a hb)
    have hq : DryOnly cfg f { p with todo := rest } := ⟨h.folder, h.phase, hrest⟩
    rcases h.todo a (ht ▸ List.mem_cons_self ..) with rfl | rfl | rfl
    · cases ha with
      | failed _ e => exact hq.fail e
      | write m => exact hq
    · cases ha with
      | failed _ e => exact hq.fail e
      | progress s => exact hq
    · cases ha with
      | failed _ e => exact hq.fail e
      | finishDry => exact ⟨h.folder, Or.inr ⟨_, rfl⟩, hrest⟩
  | noIndex e _ => exact h.fail e
  | index m _ hph =>
    unfold onIndex
    rw [show cfg.dry.role = .client from hrole]
    cases m with
    | index idx =>
      show DryOnly cfg f (clientIndex cfg.dry p (.index idx))
      unfold clientIndex
      dsimp only
      split_ifs with hlen hdry
      · exact h.fail _
      · exact ⟨h.folder, Or.inl hph, by simp⟩
      · exact absurd rfl hdry
    | _ => exact h.fail _
  | complete _ _ hph => exact absurd (hphase hph) (by simp)
  | broken _ _ hph => exact absurd (hphase hph) (by simp)
  | message _ hph => exact absurd (hphase hph) (by simp)
  | check _ _ hph => exact absurd (hphase hph) (by simp)
  | stopped _ _ hph => exact absurd (hphase hph) (by simp)

/-- It writes its index and nothing else. -/
theorem DryOnly.writing (hrole : cfg.role = .client) {is : List (Input SyncMessage)} :
    ∀ {p : Party}, DryOnly cfg f p → ∀ m ∈ writing cfg.dry p is, m = .index (announced cfg f) := by
  induction is with
  | nil => exact fun _ m hm => absurd hm List.not_mem_nil
  | cons i is ih =>
    intro p h m hm
    rcases List.mem_append.mp hm with hm | hm
    · cases ht : p.todo with
      | cons a rest =>
        rcases h.todo a (ht ▸ List.mem_cons_self ..) with rfl | rfl | rfl <;>
          simp only [Party.next, ht, act] at hm
        · exact List.mem_singleton.mp hm
        · exact absurd hm List.not_mem_nil
        · exact absurd hm List.not_mem_nil
      | nil =>
        rcases h.phase with hph | ⟨r, hph⟩ <;> simp only [Party.next, ht, hph, readMessage] at hm
        · exact absurd hm List.not_mem_nil
        · exact absurd hm List.not_mem_nil
    · exact ih (dryOnly_step hrole h i) m hm

/-- A dry client that has read the index: it has its result, or has failed. -/
inductive Planned (cfg : Config) (f : Folder) (idx : Index) (p : Party) : Prop
  | reports : p.result = dryResult (planFor cfg f idx) →
      p.todo = [.progress "starting", .finishDry] ∨ p.todo = [.finishDry] → Planned cfg f idx p
  | ended (r : Except String Unit) : p.phase = .ended r → p.todo = [] →
      (r = .ok () → p.result = dryResult (planFor cfg f idx)) → Planned cfg f idx p

theorem Planned.fail (p : Party) (e : String) : Planned cfg f idx (p.fail e) :=
  .ended _ rfl rfl nofun

theorem planned_step (h : Planned cfg f idx p) (i : Input SyncMessage) :
    Planned cfg f idx (step (Party.next cfg.dry) p i) := by
  cases h with
  | reports hresult htodo =>
    rcases htodo with ht | ht
    · cases i with
      | go =>
        simp only [step, Party.next, ht, act, Move.answer]
        exact .reports hresult (Or.inr rfl)
      | _ =>
        simp only [step, Party.next, ht, act, Move.answer]
        exact .reports hresult (Or.inl ht)
    · cases i with
      | go =>
        simp only [step, Party.next, ht, act, Move.answer]
        exact .ended _ rfl rfl fun _ => hresult
      | _ =>
        simp only [step, Party.next, ht, act, Move.answer]
        exact .reports hresult (Or.inr ht)
  | ended r hph ht hresult =>
    cases i <;>
    · simp only [step, Party.next, ht, hph, Move.answer]
      exact .ended r hph ht hresult

/-- The client once it has announced its index. -/
def announcing (cfg : Config) (f : Folder) : Party := { clientStart cfg f with todo := [] }

/-- Its first two steps. -/
theorem run_announce (hrole : cfg.role = .client) (f : Folder) (idx : Index)
    (is : List (Input SyncMessage)) :
    run (Party.next cfg) (start cfg f) (.go :: .message (.index idx) :: is) =
      run (Party.next cfg) (if frameTooLarge cfg.serialize (.index idx) then
        (announcing cfg f).fail "connection closed" else clientIndex cfg (announcing cfg f) (.index idx)) is := by
  have hgo : step (Party.next cfg) (start cfg f) .go = announcing cfg f := by
    unfold start
    rw [hrole]
    rfl
  have hread : step (Party.next cfg) (announcing cfg f) (.message (.index idx)) =
      if frameTooLarge cfg.serialize (.index idx) then (announcing cfg f).fail "connection closed"
      else onIndex cfg (announcing cfg f) (.index idx) := rfl
  have hindex : onIndex cfg (announcing cfg f) (.index idx) =
      clientIndex cfg (announcing cfg f) (.index idx) := by
    unfold onIndex
    rw [hrole]
  show run (Party.next cfg) (step (Party.next cfg) (step (Party.next cfg) (start cfg f) .go)
    (.message (.index idx))) is = _
  rw [hgo, hread, hindex]

/-- **A dry run reports its plan.** -/
theorem dry_result (hrole : cfg.role = .client) (js : List (Input SyncMessage))
    (hok : (run (Party.next cfg.dry) (start cfg.dry f) (.go :: .message (.index idx) :: js)).phase.isOk = true) :
    (run (Party.next cfg.dry) (start cfg.dry f) (.go :: .message (.index idx) :: js)).result =
      dryResult (planFor cfg f idx) := by
  have hplanned : Planned cfg f idx
      (run (Party.next cfg.dry) (start cfg.dry f) (.go :: .message (.index idx) :: js)) := by
    have hrun := @run_announce cfg.dry hrole f idx js
    have hstep : ∀ (p : Party) (i : Input SyncMessage), Planned cfg f idx p → True →
        Planned cfg f idx (step (Party.next cfg.dry) p i) := fun p i h _ => planned_step h i
    rw [hrun]
    refine run_inv hstep ?_ fun _ _ => trivial
    split_ifs with hlarge
    · exact .fail _ _
    · unfold clientIndex
      dsimp only
      split_ifs with hlen hdry
      · exact .fail _ _
      · exact .reports rfl (Or.inl rfl)
      · exact absurd rfl hdry
  generalize run (Party.next cfg.dry) (start cfg.dry f) (.go :: .message (.index idx) :: js) = p at hok hplanned
  cases hplanned with
  | reports hresult _ => exact hresult
  | ended r hph _ hresult =>
    rw [hph] at hok
    cases r with
    | ok u => exact hresult rfl
    | error e => cases hok

end

/-! ### The server of a dry run -/

section

open FileTree Effects

variable {h : Handler} {remote : Index} {t : Disk} {path : LocalPath} {root : List OsStr} {fs : Fs}

/-- The disk stays as it is. -/
def SameDisk (s s' : Served) : Prop := s'.fs.disk = s.fs.disk

theorem sameDisk_composes : Composes SameDisk where
  refl _ := rfl
  trans hfirst hsecond := Eq.trans hsecond hfirst

theorem sameDisk_call {α E : Type} {error : E → HandlerError} {f : Fs → Except E α × Fs}
    (hf : ∀ fs, (f fs).2.disk = fs.disk) : Effects.Does SameDisk (Serve.call error f) := by
  intro s
  have hcall := hf s.fs
  unfold SameDisk after Serve.call
  rcases hfs : f s.fs with ⟨_ | a, fs⟩
  · rw [hfs] at hcall
    exact hcall
  · rw [hfs] at hcall
    exact hcall

theorem sameDisk_write : Effects.Does SameDisk (Serve.write h) := by
  intro s
  unfold SameDisk after Serve.write
  by_cases hwritten : h.written s.writes = true
  · rw [if_pos hwritten]
  · rw [if_neg hwritten]

theorem sameDisk_open (path : Option LocalPath) : Effects.Does SameDisk (openServed path) := by
  apply sameDisk_call
  intro fs
  cases path with
  | none => rfl
  | some path => rfl

/-- A disk is read without being changed. -/
theorem read_disk {p : OsPath} {data : Bytes} {fs' : Fs} (hread : fs.read p = .ok (data, fs')) :
    fs'.disk = fs.disk := by
  unfold Fs.read at hread
  split at hread
  · cases hread
  · cases hread
    rfl

theorem sameDisk_push (root : List OsStr) (name : String) :
    Effects.Does SameDisk (pushServed h root name) := by
  refine .bind sameDisk_composes (sameDisk_call fun fs => ?_) fun data => ?_
  · unfold readPlanned
    split
    · rfl
    · split
      · rfl
      · rename_i data fs' hread
        exact read_disk hread
  · cases data with
    | none => exact .pure sameDisk_composes _
    | some data => exact sameDisk_write

theorem sameDisk_index (path : Option LocalPath) : Effects.Does SameDisk (buildServedIndex h path) := by
  refine .bind sameDisk_composes (sameDisk_open path) fun root => ?_
  refine .bind sameDisk_composes (sameDisk_call fun fs => ?_) fun files =>
    .bind sameDisk_composes (.get sameDisk_composes) fun s => .pure sameDisk_composes _
  have hlooks : Looks root fs (scanDir h h.depth root fs).2 := scanDir_looks _ List.prefix_rfl fs
  exact hlooks.disk

/-- **A server that receives nothing writes nothing.** -/
theorem sameDisk_serve : Effects.Does SameDisk (serve h remote []) := by
  have hcomposes := sameDisk_composes
  refine .bind hcomposes (sameDisk_index _) fun entries => .bind hcomposes sameDisk_write fun _ =>
    .bind hcomposes (sameDisk_open _) fun root => ?_
  refine .bind hcomposes (.forM hcomposes fun name _ => sameDisk_push root name) fun _ =>
    .bind hcomposes sameDisk_write fun _ => ?_
  cases servedPath h remote with
  | none => exact .pure hcomposes _
  | some path => exact .pure hcomposes _

/-- Of a directory that is there none is made. -/
theorem createDirs_of_open (hstart : fs.disk.isDir path.start = true)
    (hopen : openRoot fs.disk path = .ok root) (fuel : ℕ) : (createDirs fuel path fs).2 = fs := by
  have hthere : ∃ place, fs.disk.walk true maxLinks path.start path.steps = .ok place ∧
      (fs.disk.node place).isSome = true := by
    unfold openRoot Tree.canonicalize at hopen
    cases hwalk : fs.disk.walk true maxLinks path.start path.steps with
    | error e =>
      rw [hwalk] at hopen
      cases hopen
    | ok place =>
      refine ⟨place, rfl, ?_⟩
      rw [hwalk] at hopen
      dsimp only at hopen
      by_contra hnone
      rw [if_neg hnone] at hopen
      cases hopen
  obtain ⟨place, hwalk, hnode⟩ := hthere
  obtain ⟨place', hwalk', hnode'⟩ := Tree.walk_there hwalk hnode
  have hmkdir : fs.mkdirAt path = .error .alreadyExists := by
    unfold Fs.mkdirAt Tree.mkdir
    rw [if_neg (by simp [hstart]), hwalk']
    dsimp only
    rw [if_pos hnode']
  cases fuel with
  | zero => rfl
  | succ fuel =>
    rw [createDirs]
    by_cases hsteps : path.steps = []
    · rw [if_pos hsteps]
    · rw [if_neg hsteps, hmkdir]
      dsimp only
      rw [if_neg (by simp)]
      split_ifs
      · rfl
      · rfl

/-- The server of a session starts: its working directory is there, the index is not too large,
and the directory that it serves opens. -/
structure Starts (h : Handler) (remote : Index) (t : Disk) : Prop where
  cwd : t.isDir h.cwd = true
  index : remote.entries.length ≤ maxIndexEntries
  opens : ∃ path root, servedPath h remote = some path ∧ openRoot (chosenDisk h remote t) path = .ok root

/-- The client names no directory, or one that is there. -/
def NamesPresent (h : Handler) (remote : Index) (t : Disk) : Prop :=
  names remote = true → ∃ path root, servedPath h remote = some path ∧ openRoot t path = .ok root

theorem parse_start {cwd : List OsStr} {s : String} (hparse : LocalPath.parse cwd s = some path) :
    path.start = [] ∨ path.start = cwd := by
  unfold LocalPath.parse at hparse
  by_cases hnul : Char.ofNat 0 ∈ s.toList
  · rw [if_pos hnul] at hparse
    cases hparse
  · rw [if_neg hnul] at hparse
    cases hparse
    exact ite_eq_or_eq _ _ _

theorem chosenDisk_eq_iff (hstarts : Starts h remote t) :
    chosenDisk h remote t = t ↔ NamesPresent h remote t := by
  constructor
  · intro hsame _
    have hopens := hstarts.opens
    rwa [hsame] at hopens
  · intro hpresent
    unfold chosenDisk chooseServed
    by_cases hnames : names remote = true
    · obtain ⟨path, root, hpath, hopen⟩ := hpresent hnames
      have hstart : t.isDir path.start = true := by
        rcases parse_start hpath with hnil | hcwd
        · rw [hnil]
          exact t.isDir_top
        · rw [hcwd]
          exact hstarts.cwd
      have hdirs := @createDirs_of_open path root ⟨t, []⟩ hstart hopen (path.steps.length + 1)
      rw [if_pos hnames]
      unfold after Serve.call
      dsimp only
      rw [hpath]
      dsimp only
      rcases hmade : createDirs (path.steps.length + 1) path ⟨t, []⟩ with ⟨_ | u, fs⟩
      · rw [hmade] at hdirs
        exact congrArg Fs.disk hdirs
      · rw [hmade] at hdirs
        exact congrArg Fs.disk hdirs
    · rw [if_neg hnames]
      rfl

/-- **The server of a dry run changes nothing if the directory that the client names is there.** -/
theorem dry_session_keeps_iff (hstarts : Starts h remote t) :
    (after (handleServerSession h remote []) { fs := ⟨t, []⟩ }).fs.disk = t ↔ NamesPresent h remote t := by
  rw [← chosenDisk_eq_iff hstarts]
  unfold handleServerSession chosenDisk
  rw [if_neg (Nat.not_lt.mpr hstarts.index)]
  rcases after_bind (chooseServed h remote) (fun _ => serve h remote []) { fs := ⟨t, []⟩ } with
    hfailed | ⟨u, s, hok, hserved⟩
  · rw [hfailed]
  · have hsame : (after (serve h remote []) s).fs.disk = s.fs.disk := sameDisk_serve s
    rw [hserved, hsame, after_ok hok]

end

/-! ### What a real run reports -/

namespace Action

/-- The file about to be put at its place, with its size. -/
def gain : Action → Option (String × ℕ)
  | .install path _ data => some (path, data.length)
  | _ => none

/-- The file about to be counted as received. -/
def received : Action → Option (String × ℕ)
  | .downloaded path len => some (path, len)
  | _ => none

def dispute : Action → Option String
  | .conflict path => some path
  | _ => none

/-- The bytes about to be sent and counted, by the client's own index. -/
def pushSize (own : List IndexEntry) : Action → Option ℕ
  | .pushFile path => some (((own.find? fun y => y.path = path).map (·.size)).getD 0)
  | .uploaded _ len => some len
  | _ => none

/-- It answers a request. -/
def answers : Action → Bool
  | .serve _ => true
  | .served _ _ => true
  | _ => false

/-- It counts for nothing in what is reported. -/
structure Silent (a : Action) : Prop where
  gain : a.gain = none
  received : a.received = none
  dispute : a.dispute = none
  pushSize : ∀ own, a.pushSize own = none
  answers : a.answers = false

end Action

namespace Party

/-- The files put at their places or about to be, with their sizes. -/
def gained (p : Party) : List (String × ℕ) :=
  p.committed.map (fun x => (x.1, x.2.length)) ++ p.todo.filterMap Action.gain

/-- The paths reported as conflicts or about to be. -/
def disputed (p : Party) : List String := p.result.conflicts ++ p.todo.filterMap Action.dispute

end Party

/-- What a client has counted and what it still has to count is what the plan and the files
received come to. -/
structure Balanced (cfg : Config) (f : Folder) (idx : Index) (p : Party) : Prop where
  loops : p.phase ≠ .awaitIndex
  own : p.own = buildProtocolIndex cfg.blake3 f cfg.deviceId
  remote : p.remote = idx.entries
  toPush : p.toPush = (planFor cfg f idx).toPush
  toPull : p.toPull = (planFor cfg f idx).toPull
  pushedBytes : p.result.pushedBytes + (p.todo.filterMap (Action.pushSize p.own)).sum =
    (p.toPush.map (·.size)).sum
  pulled : p.result.pulled ++ (p.todo.filterMap Action.received).map (·.1) = p.gained.map (·.1)
  pulledBytes : p.result.pulledBytes + ((p.todo.filterMap Action.received).map (·.2)).sum =
    (p.gained.map (·.2)).sum
  sized : ∀ x ∈ p.gained, ∀ y ∈ idx.entries, y.path = x.1 → x.2 = y.size
  disputed : ∀ x ∈ p.disputed, x ∈ p.gained.map (·.1)
  still : ∀ path, .pushFile path ∈ p.todo → p.folder = f ∧ path ∈ p.own.map (·.path) ∧
    ∀ a ∈ p.todo, a.gain = none
  noAnswers : ∀ a ∈ p.todo, a.answers = false

/-- A step at which the peer's files are what its index says, and it asks for none: the real
peer sends no request. -/
def steady (p : Party) (i : Input SyncMessage) : Bool :=
  match p.todo, p.phase, i with
  | [], .receiving, .message (.fileRequest _) => p.complete
  | [], .receiving, .message (.fileChunk c) =>
    p.complete || decide (c.path = "metadata.db") ||
      match receiveChunk p.inbox c with
      | .complete _ data => p.remote.all fun y => decide (y.path ≠ c.path) || decide (data.length = y.size)
      | _ => true
  | _, _, _ => true

section

variable {cfg : Config} {f : Folder} {idx : Index} {p p' : Party} {i : Input SyncMessage}

/-- The end has returned an error. -/
def Party.Failed (p : Party) : Prop := p.todo = [] ∧ ∃ e, p.phase = .ended (.error e)

theorem Party.Failed.intro (p : Party) (e : String) : (p.fail e).Failed := ⟨rfl, e, rfl⟩

theorem Party.Failed.step (h : p.Failed) (i : Input SyncMessage) : (step (Party.next cfg) p i).Failed := by
  obtain ⟨ht, e, hph⟩ := h
  have hhalt : Party.next cfg p = .halt := by simp only [Party.next, ht, hph]
  unfold Machine.step
  rw [hhalt]
  cases i <;> exact ⟨ht, e, hph⟩

/-- Things that count for nothing change no count. -/
theorem Balanced.silent {todo rest : List Action} (h : Balanced cfg f idx { p with todo := rest })
    (hsilent : ∀ a ∈ todo, a.Silent) (hpush : ∀ path, .pushFile path ∉ todo) :
    Balanced cfg f idx { p with todo := todo ++ rest } := by
  have hnone : ∀ {β : Type} (g : Action → Option β), (∀ a ∈ todo, g a = none) →
      (todo ++ rest).filterMap g = rest.filterMap g := by
    intro β g hg
    rw [List.filterMap_append, List.filterMap_eq_nil_iff.mpr hg, List.nil_append]
  have hgain := hnone Action.gain fun a ha => (hsilent a ha).gain
  have hreceived := hnone Action.received fun a ha => (hsilent a ha).received
  have hdispute := hnone Action.dispute fun a ha => (hsilent a ha).dispute
  have hsize := hnone (Action.pushSize p.own) fun a ha => (hsilent a ha).pushSize p.own
  have hgained : Party.gained { p with todo := todo ++ rest } = Party.gained { p with todo := rest } :=
    congrArg (p.committed.map (fun x => (x.1, x.2.length)) ++ ·) hgain
  refine ⟨h.loops, h.own, h.remote, h.toPush, h.toPull, ?_, ?_, ?_, ?_, ?_, ?_, ?_⟩
  · show p.result.pushedBytes + ((todo ++ rest).filterMap (Action.pushSize p.own)).sum = _
    rw [hsize]
    exact h.pushedBytes
  · rw [hgained]
    show p.result.pulled ++ ((todo ++ rest).filterMap Action.received).map (·.1) = _
    rw [hreceived]
    exact h.pulled
  · rw [hgained]
    show p.result.pulledBytes + (((todo ++ rest).filterMap Action.received).map (·.2)).sum = _
    rw [hreceived]
    exact h.pulledBytes
  · rw [hgained]
    exact h.sized
  · rw [hgained]
    show ∀ x ∈ p.result.conflicts ++ (todo ++ rest).filterMap Action.dispute, _
    rw [hdispute]
    exact h.disputed
  · intro path hmem
    have hrest := (List.mem_append.mp hmem).resolve_left (hpush path)
    obtain ⟨hfolder, hown, hgains⟩ := h.still path hrest
    refine ⟨hfolder, hown, fun a ha => ?_⟩
    rcases List.mem_append.mp ha with ha | ha
    · exact (hsilent a ha).gain
    · exact hgains a ha
  · intro a ha
    rcases List.mem_append.mp ha with ha | ha
    · exact (hsilent a ha).answers
    · exact h.noAnswers a ha

theorem silent_chunks {path : String} {data : Bytes} :
    ∀ a ∈ chunkActions cfg path data, a.Silent ∧ ∀ path, a ≠ .pushFile path := by
  intro a ha
  obtain ⟨c, rfl⟩ := mem_chunkActions ha
  exact ⟨⟨rfl, rfl, rfl, fun _ => rfl, rfl⟩, nofun⟩

/-- The size that the client's index gives a file it has read. -/
theorem size_of_read {path : String} {t : Target} {data : Bytes} {y : IndexEntry}
    (hy : (buildProtocolIndex cfg.blake3 f cfg.deviceId).find? (fun y => y.path = path) = some y)
    (hjoin : safeJoin path = .ok t) (hread : f.read t = .ok data) : y.size = data.length := by
  have hmem := List.mem_of_find?_eq_some hy
  have hpath : y.path = path := by simpa using List.find?_some hy
  rw [buildProtocolIndex_eq] at hmem
  obtain ⟨⟨q, e⟩, hin, rfl⟩ := List.mem_map.mp hmem
  have hentry : f.entry q = some e := AList.mem_lookup_iff.mpr (List.mem_filter.mp hin).1
  obtain ⟨-, hdir, e', he', rfl⟩ := Folder.read_ok hread
  have hpath : render q = path := hpath
  have hq : q ≠ [] := by
    rintro rfl
    rw [← hpath] at hjoin
    cases hjoin
    exact Folder.ne_nil_of_not_dir hdir rfl
  rw [← hpath, safeJoin_render q hq] at hjoin
  cases hjoin
  rw [hentry] at he'
  cases he'
  rfl

/-- Doing one thing keeps the counts, unless it fails. -/
theorem balanced_act {a : Action} {rest : List Action} (h : Balanced cfg f idx p)
    (ht : p.todo = a :: rest) (hread : ∀ path, a = .pushFile path → readable p.folder path = true)
    (ha : ActEffect cfg { p with todo := rest } a p') :
    p'.Failed ∨ Balanced cfg f idx p' := by
  have hpushed := h.pushedBytes
  have hpulled := h.pulled
  have hbytes := h.pulledBytes
  have hsized := h.sized
  have hdisputed := h.disputed
  have hstill := h.still
  unfold Party.gained at hpulled hbytes hsized hdisputed
  unfold Party.disputed at hdisputed
  rw [ht] at hpushed hpulled hbytes hsized hdisputed hstill
  have hanswers : ∀ b ∈ rest, b.answers = false := fun b hb => h.noAnswers b (ht ▸ List.mem_cons_of_mem a hb)
  have hhead : a.answers = false := h.noAnswers a (ht ▸ List.mem_cons_self ..)
  have hrest : ∀ path, .pushFile path ∈ rest → p.folder = f ∧ path ∈ p.own.map (·.path) ∧
      ∀ b ∈ rest, b.gain = none := by
    intro path hmem
    obtain ⟨hfolder, hown, hgains⟩ := hstill path (List.mem_cons_of_mem a hmem)
    exact ⟨hfolder, hown, fun b hb => hgains b (List.mem_cons_of_mem a hb)⟩
  cases ha with
  | failed _ e => exact Or.inl (.intro _ e)
  | installFailed hn => exact Or.inl (.intro _ _)
  | write m | progress s | filePushed path | filePulled path =>
    exact Or.inr ⟨h.loops, h.own, h.remote, h.toPush, h.toPull, hpushed, hpulled, hbytes, hsized, hdisputed,
      hrest, hanswers⟩
  | finishDry =>
    exact Or.inr ⟨by simp, h.own, h.remote, h.toPush, h.toPull, hpushed, hpulled, hbytes, hsized, hdisputed,
      hrest, hanswers⟩
  | unreadable hj hr =>
    have hbad := hread _ rfl
    simp [readable, hj, hr] at hbad
  | unserved path | serve | served path len => cases hhead
  | conflict path =>
    refine Or.inr ⟨h.loops, h.own, h.remote, h.toPush, h.toPull, hpushed, hpulled, hbytes, hsized, ?_,
      hrest, hanswers⟩
    show ∀ x ∈ p.result.conflicts ++ [path] ++ rest.filterMap Action.dispute, _
    rw [List.append_assoc]
    exact hdisputed
  | @pushFile path t data hj hr =>
    -- the file is the one that the index lists
    obtain ⟨hfolder, hown, -⟩ := hstill path (List.mem_cons_self ..)
    have hr' : p.folder.read t = .ok data := hr
    rw [hfolder] at hr'
    have hsize : ((p.own.find? fun y => y.path = path).map (·.size)).getD 0 = data.length := by
      obtain ⟨z, hz, hpath⟩ := List.mem_map.mp hown
      cases hfind : p.own.find? fun y => y.path = path with
      | none => exact absurd (decide_eq_true hpath) (List.find?_eq_none.mp hfind z hz)
      | some y =>
        rw [h.own] at hfind
        exact size_of_read hfind hj hr'
    have hq : Balanced cfg f idx { p with
        todo := .uploaded path data.length :: .filePushed path :: rest } := by
      refine ⟨h.loops, h.own, h.remote, h.toPush, h.toPull, ?_, hpulled, hbytes, hsized, hdisputed, ?_, ?_⟩
      · have hsum : p.result.pushedBytes + (((p.own.find? fun y => y.path = path).map (·.size)).getD 0 +
            (rest.filterMap (Action.pushSize p.own)).sum) = (p.toPush.map (·.size)).sum := hpushed
        rw [hsize] at hsum
        exact hsum
      · intro path' hmem
        have hmem' : .pushFile path' ∈ rest := by simpa using hmem
        obtain ⟨hfolder, hown, hgains⟩ := hrest path' hmem'
        refine ⟨hfolder, hown, fun b hb => ?_⟩
        rcases List.mem_cons.mp hb with rfl | hb
        · rfl
        · rcases List.mem_cons.mp hb with rfl | hb
          · rfl
          · exact hgains b hb
      · intro b hb
        rcases List.mem_cons.mp hb with rfl | hb
        · rfl
        · rcases List.mem_cons.mp hb with rfl | hb
          · rfl
          · exact hanswers b hb
    exact Or.inr (hq.silent (fun b hb => (silent_chunks b hb).1) fun path' hmem =>
      (silent_chunks _ hmem).2 path' rfl)
  | uploaded path len =>
    refine Or.inr ⟨h.loops, h.own, h.remote, h.toPush, h.toPull, ?_, hpulled, hbytes, hsized, hdisputed,
      hrest, hanswers⟩
    have hsum : p.result.pushedBytes + (len + (rest.filterMap (Action.pushSize p.own)).sum) =
      (p.toPush.map (·.size)).sum := hpushed
    show p.result.pushedBytes + len + (rest.filterMap (Action.pushSize p.own)).sum = _
    rw [Nat.add_assoc]
    exact hsum
  | @install path t data g hn =>
    have hgained : Party.gained { p with
        todo := rest, folder := g, tick := p.tick + 1, committed := p.committed ++ [(path, data)] } =
        p.committed.map (fun x => (x.1, x.2.length)) ++ (path, data.length) :: rest.filterMap Action.gain := by
      show (p.committed ++ [(path, data)]).map (fun x => (x.1, x.2.length)) ++ _ = _
      rw [List.map_append, List.append_assoc]
      rfl
    have hnopush : ∀ path', .pushFile path' ∉ rest := by
      intro path' hmem
      have hnone := (hstill path' (List.mem_cons_of_mem _ hmem)).2.2 _ (List.mem_cons_self ..)
      cases hnone
    refine Or.inr ⟨h.loops, h.own, h.remote, h.toPush, h.toPull, hpushed, ?_, ?_, ?_, ?_,
      fun path' hmem => absurd hmem (hnopush path'), hanswers⟩
    · rw [hgained]
      exact hpulled
    · rw [hgained]
      exact hbytes
    · rw [hgained]
      exact hsized
    · rw [hgained]
      exact hdisputed
  | downloaded path len =>
    refine Or.inr ⟨h.loops, h.own, h.remote, h.toPush, h.toPull, hpushed, ?_, ?_, hsized, hdisputed,
      hrest, hanswers⟩
    · show p.result.pulled ++ [path] ++ (rest.filterMap Action.received).map (·.1) = _
      rw [List.append_assoc]
      exact hpulled
    · show p.result.pulledBytes + len + ((rest.filterMap Action.received).map (·.2)).sum = _
      rw [Nat.add_assoc]
      exact hbytes

/-- A turn of the loop that commits nothing keeps the counts. -/
theorem Balanced.turn (h : Balanced cfg f idx p) (ht : p.todo = []) (inbox : Inbox) (acked : Finset String)
    {phase : Phase} (hphase : phase ≠ .awaitIndex) {todo : List Action} (hsilent : ∀ a ∈ todo, a.Silent)
    (hpush : ∀ path, .pushFile path ∉ todo) : Balanced cfg f idx
      { p with inbox := inbox, acked := acked, phase := phase, todo := todo } := by
  have hq : Balanced cfg f idx { p with inbox := inbox, acked := acked, phase := phase, todo := [] } := by
    rw [← ht]
    exact ⟨hphase, h.own, h.remote, h.toPush, h.toPull, h.pushedBytes, h.pulled, h.pulledBytes, h.sized,
      h.disputed, h.still, h.noAnswers⟩
  have hall := Balanced.silent (p := { p with inbox := inbox, acked := acked, phase := phase }) hq
    hsilent hpush
  rwa [List.append_nil] at hall

/-- What there is to do once a verified chunk's target is ready. -/
def afterBackup (cfg : Config) (path : String) (t : Target) (data : Bytes) (conflicted : Bool) :
    List Action :=
  (if conflicted then [.conflict path] else []) ++ commitActions cfg path t data

theorem afterBackup_eq (hrole : cfg.role = .client) (path : String) (t : Target) (data : Bytes)
    (conflicted : Bool) : afterBackup cfg path t data conflicted =
      (if conflicted then [.conflict path] else []) ++ [.install path t data,
        .write (.ack ⟨path, true, none⟩), .downloaded path data.length, .filePulled path] := by
  simp only [afterBackup, commitActions, hrole]

theorem afterBackup_filterMap (hrole : cfg.role = .client) (path : String) (t : Target) (data : Bytes)
    (conflicted : Bool) :
    (afterBackup cfg path t data conflicted).filterMap Action.gain = [(path, data.length)] ∧
      (afterBackup cfg path t data conflicted).filterMap Action.received = [(path, data.length)] ∧
      (afterBackup cfg path t data conflicted).filterMap Action.dispute = (if conflicted then [path] else []) ∧
      ∀ own, (afterBackup cfg path t data conflicted).filterMap (Action.pushSize own) = [] := by
  rw [afterBackup_eq hrole]
  cases conflicted with
  | false => exact ⟨rfl, rfl, rfl, fun _ => rfl⟩
  | true => exact ⟨rfl, rfl, rfl, fun _ => rfl⟩

theorem mem_afterBackup (hrole : cfg.role = .client) {path : String} {t : Target} {data : Bytes}
    {conflicted : Bool} {a : Action} (ha : a ∈ afterBackup cfg path t data conflicted) :
    a.answers = false ∧ ∀ path', a ≠ .pushFile path' := by
  rw [afterBackup_eq hrole] at ha
  cases conflicted <;> simp at ha
  · rcases ha with rfl | rfl | rfl | rfl <;> exact ⟨rfl, nofun⟩
  · rcases ha with rfl | rfl | rfl | rfl | rfl <;> exact ⟨rfl, nofun⟩

/-- A verified chunk is counted with the size that the index gives. -/
theorem balanced_prepared (hrole : cfg.role = .client) {c : FileChunk} {inbox : Inbox} {data : Bytes}
    {t : Target} {conflicted : Bool} {g : Folder} (h : Balanced cfg f idx p) (ht : p.todo = [])
    (hsize : ∀ y ∈ idx.entries, y.path = c.path → data.length = y.size) :
    Balanced cfg f idx { p with
      inbox := inbox, folder := g, todo := afterBackup cfg c.path t data conflicted, phase := bottom cfg } := by
  have hpushed := h.pushedBytes
  have hpulled := h.pulled
  have hbytes := h.pulledBytes
  have hsized := h.sized
  have hdisputed := h.disputed
  unfold Party.gained at hpulled hbytes hsized hdisputed
  unfold Party.disputed at hdisputed
  rw [ht] at hpushed hpulled hbytes hsized hdisputed
  simp only [List.filterMap_nil, List.append_nil, List.map_nil, List.sum_nil, Nat.add_zero]
    at hpushed hpulled hbytes hsized hdisputed
  obtain ⟨hgain, hreceived, hdispute, hsizes⟩ := afterBackup_filterMap hrole c.path t data conflicted
  have hgained : Party.gained { p with
      inbox := inbox, folder := g, todo := afterBackup cfg c.path t data conflicted, phase := bottom cfg } =
      p.committed.map (fun x => (x.1, x.2.length)) ++ [(c.path, data.length)] := by
    unfold Party.gained
    dsimp only
    rw [hgain]
  refine ⟨by simp [bottom, hrole], h.own, h.remote, h.toPush, h.toPull, ?_, ?_, ?_, ?_, ?_, ?_, ?_⟩
  · dsimp only
    rw [hsizes]
    exact hpushed
  · rw [hgained, List.map_append, ← hpulled]
    dsimp only
    rw [hreceived]
  · rw [hgained, List.map_append, List.sum_append, ← hbytes]
    dsimp only
    rw [hreceived]
  · rw [hgained]
    intro x hx y hy hpath
    rcases List.mem_append.mp hx with hx | hx
    · exact hsized x hx y hy hpath
    · rw [List.mem_singleton.mp hx] at hpath ⊢
      exact hsize y hy hpath
  · rw [hgained, List.map_append]
    unfold Party.disputed
    dsimp only
    rw [hdispute]
    intro x hx
    rcases List.mem_append.mp hx with hx | hx
    · exact List.mem_append_left _ (hdisputed x hx)
    · apply List.mem_append_right
      cases conflicted with
      | false => cases hx
      | true => exact hx
  · intro path hmem
    exact absurd rfl ((mem_afterBackup hrole hmem).2 path)
  · exact fun a ha => (mem_afterBackup hrole ha).1

/-- What a thing done leaves of the files gained and disputed. -/
theorem act_gained {a : Action} {rest : List Action} (ht : p.todo = a :: rest) (hanswers : a.answers = false)
    (ha : ActEffect cfg { p with todo := rest } a p') :
    p'.Failed ∨ p'.gained = p.gained ∧ p'.disputed = p.disputed := by
  unfold Party.gained Party.disputed
  rw [ht]
  cases ha with
  | failed _ e => exact Or.inl (.intro _ e)
  | installFailed hn => exact Or.inl (.intro _ _)
  | unserved path | serve | served path len => cases hanswers
  | conflict path =>
    refine Or.inr ⟨rfl, ?_⟩
    show p.result.conflicts ++ [path] ++ rest.filterMap Action.dispute = _
    rw [List.append_assoc]
    rfl
  | @pushFile path t data hj hr =>
    have hnone : ∀ {β : Type} (g : Action → Option β), (∀ m, g (Action.write m) = none) →
        (chunkActions cfg path data).filterMap g = [] := by
      intro β g hg
      refine List.filterMap_eq_nil_iff.mpr fun a ha => ?_
      obtain ⟨c, rfl⟩ := mem_chunkActions ha
      exact hg _
    refine Or.inr ⟨?_, ?_⟩
    · dsimp only
      rw [List.filterMap_append, hnone Action.gain fun _ => rfl]
      rfl
    · dsimp only
      rw [List.filterMap_append, hnone Action.dispute fun _ => rfl]
      rfl
  | @install path t data g hn =>
    refine Or.inr ⟨?_, rfl⟩
    dsimp only
    rw [List.map_append, List.append_assoc]
    rfl
  | _ => exact Or.inr ⟨rfl, rfl⟩

/-! #### Foreseen conflicts -/

/-- A file of other content stands at the target. -/
def Folder.holdsOther (f : Folder) (t : Target) (data : Bytes) : Bool :=
  !t.asDir && match f.content t.path with
    | none => false
    | some old => decide (old ≠ data)

/-- A commit reports a conflict exactly if a file of other content stands there. -/
theorem prepare_conflicted {blake3 : Bytes → FileHash} {ts : ℕ} {winner : String} {t : Target}
    {data : Bytes} {conflicted : Bool} {g : Folder}
    (h : prepare blake3 ts winner t data f = (.ok conflicted, g)) : conflicted = f.holdsOther t data := by
  unfold prepare at h
  cases hdirs : f.createDirAll t.path.dropLast with
  | error e =>
    rw [hdirs] at h
    cases h
  | ok f' =>
    rw [hdirs] at h
    dsimp only at h
    have hfiles : f'.files = f.files := (Folder.createDirAll_ok hdirs).1
    have hentry : ∀ q, f'.entry q = f.entry q := fun q => by rw [Folder.entry, hfiles, Folder.entry]
    unfold Folder.holdsOther Folder.content
    rw [← hentry]
    rcases backupOnConflict_cases blake3 ts winner t data f' with
      (⟨e, hcase⟩ | ⟨hcase, hsame⟩) | ⟨g', old, hcase, hdir, -, hne, hmoved⟩
    · rw [hcase] at h
      cases h
    · rw [hcase] at h
      cases h
      rcases hsame with hdir | hsame
      · simp [hdir]
      · cases he : g.entry t.path with
        | none => simp
        | some e => simp [hsame e he]
    · rw [hcase] at h
      cases h
      simp [hdir, hmoved.source, hne]

/-- The file that a message completes and the index verifies, and whether one of other content
stands at its place. -/
def committing (cfg : Config) (p : Party) : SyncMessage → Option (String × Bool)
  | .fileChunk c =>
    if c.path = "metadata.db" then none
    else match receiveChunk p.inbox c with
      | .complete _ data =>
        if hashMatches cfg.blake3 p.remote c.path data = false then none
        else match safeJoin c.path with
          | .error _ => none
          | .ok t => some (c.path, p.folder.holdsOther t data)
      | _ => none
  | _ => none

/-- A step at which a file of other content stands at the place of the file that is committed
exactly if the plan has a conflict there. -/
def foreseen (cfg : Config) (planned : List String) (p : Party) (i : Input SyncMessage) : Bool :=
  match p.todo, p.phase, i with
  | [], .receiving, .message m =>
    p.complete || match committing cfg p m with
      | none => true
      | some (path, other) => decide (other = true ↔ path ∈ planned)
  | _, _, _ => true

/-- What a step leaves of the files gained and disputed: nothing new, or a file committed that
was not before, in conflict exactly if one of other content stood there. -/
inductive Tally (cfg : Config) (p : Party) (i : Input SyncMessage) (p' : Party) : Prop
  | same : p'.gained.map (·.1) = p.gained.map (·.1) → p'.disputed = p.disputed →
      (∀ planned, foreseen cfg planned p i = true) → Tally cfg p i p'
  | commits (path : String) (other : Bool) :
      p'.gained.map (·.1) = p.gained.map (·.1) ++ [path] →
      p'.disputed = p.disputed ++ (if other then [path] else []) → path ∉ p.gained.map (·.1) →
      (∀ planned, foreseen cfg planned p i = decide (other = true ↔ path ∈ planned)) → Tally cfg p i p'

/-- A chunk that is read. -/
theorem balanced_chunk (hrole : cfg.role = .client) {c : FileChunk} (h : Balanced cfg f idx p)
    (ht : p.todo = []) (hph : p.phase = .receiving) (hinc : p.complete = false)
    (hrel : reliableMessage p (.fileChunk c) = true) (hsteady : steady p (.message (.fileChunk c)) = true)
    (hc : ChunkEffect cfg p c p') :
    p'.Failed ∨ Balanced cfg f idx p' ∧ Tally cfg p (.message (.fileChunk c)) p' := by
  have hgained : p.gained.map (·.1) = p.committed.map (·.1) := by
    unfold Party.gained
    rw [ht, List.filterMap_nil, List.append_nil, List.map_map]
    rfl
  have hforeseen : ∀ planned, committing cfg p (.fileChunk c) = none →
      foreseen cfg planned p (.message (.fileChunk c)) = true := by
    intro planned hnone
    simp only [foreseen, ht, hph, hnone, Bool.or_true]
  have hturn : ∀ (inbox : Inbox) {phase : Phase} {todo : List Action}, phase ≠ .awaitIndex →
      (∀ a ∈ todo, a.Silent) → (∀ path, .pushFile path ∉ todo) →
      committing cfg p (.fileChunk c) = none →
      Balanced cfg f idx { p with inbox := inbox, phase := phase, todo := todo } ∧
        Tally cfg p (.message (.fileChunk c)) { p with inbox := inbox, phase := phase, todo := todo } := by
    intro inbox phase todo hphase hsilent hpush hnone
    refine ⟨h.turn ht inbox p.acked hphase hsilent hpush, .same ?_ ?_ fun planned => hforeseen planned hnone⟩
    · unfold Party.gained
      dsimp only
      rw [ht, List.filterMap_eq_nil_iff.mpr fun a ha => (hsilent a ha).gain]
      rfl
    · unfold Party.disputed
      dsimp only
      rw [ht, List.filterMap_eq_nil_iff.mpr fun a ha => (hsilent a ha).dispute]
      rfl
  have hb : bottom cfg ≠ .awaitIndex := by simp [bottom, hrole]
  cases hc with
  | metadata hmeta =>
    refine Or.inr (cast ?_ (@hturn p.inbox .receiving [] (by simp) (by simp) (by simp) ?_))
    · rw [ht]
    · simp [committing, hmeta]
  | refused e => exact Or.inl (.intro _ e)
  | @more inbox hr =>
    refine Or.inr (cast ?_ (@hturn inbox _ [] hb (by simp) (by simp) ?_))
    · rw [ht]
    · simp [committing, hr]
  | @mismatch inbox data hr hh =>
    refine Or.inr (hturn inbox (by simp) (fun a ha => ?_) (by simp) ?_)
    · rw [List.mem_singleton.mp ha]
      exact ⟨rfl, rfl, rfl, fun _ => rfl, rfl⟩
    · simp [committing, hr, hh]
  | unsafePath e => exact Or.inl (.intro _ e)
  | prepareFailed => exact Or.inl (.intro _ _)
  | @prepared inbox data t conflicted g hmeta hr hh hj hp =>
    have hother : conflicted = p.folder.holdsOther t data := prepare_conflicted hp
    have hcompletes : c.path ∉ p.committed.map (·.1) := by
      have hnew : completes p.inbox c = true := by simp [completes, hr]
      simp only [reliableMessage, hmeta, hnew, Bool.not_true, Bool.or_false, decide_false, Bool.false_or,
        decide_eq_true_eq] at hrel
      exact hrel.2
    have hsize : ∀ y ∈ idx.entries, y.path = c.path → data.length = y.size := by
      intro y hy hpath
      simp only [steady, ht, hph, hinc, hmeta, hr, decide_false, Bool.false_or] at hsteady
      have hall := List.all_eq_true.mp hsteady y (h.remote ▸ hy)
      simpa [hpath] using hall
    obtain ⟨hgain, -, hdispute, -⟩ := afterBackup_filterMap hrole c.path t data conflicted
    refine Or.inr ⟨balanced_prepared hrole h ht hsize, .commits c.path conflicted ?_ ?_ ?_ ?_⟩
    · show (p.committed.map (fun x => (x.1, x.2.length)) ++
        (afterBackup cfg c.path t data conflicted).filterMap Action.gain).map (·.1) = _
      rw [hgain, List.map_append, hgained, List.map_map]
      rfl
    · show p.result.conflicts ++ (afterBackup cfg c.path t data conflicted).filterMap Action.dispute = _
      unfold Party.disputed
      rw [hdispute, ht, List.filterMap_nil, List.append_nil]
    · rw [hgained]
      exact hcompletes
    · intro planned
      have hcommitting : committing cfg p (.fileChunk c) = some (c.path, conflicted) := by
        simp [committing, hmeta, hr, hh, hj, hother]
      simp only [foreseen, ht, hph, hinc, hcommitting, Bool.false_or]

/-- The client reads a message in its loop. -/
def Reads (p : Party) (i : Input SyncMessage) (m : SyncMessage) : Prop :=
  p.todo = [] ∧ p.phase = .receiving ∧ p.complete = false ∧ i = .message m

theorem foreseen_of_not_reads (h : ∀ m, ¬Reads p i m) (planned : List String) :
    foreseen cfg planned p i = true := by
  unfold foreseen
  split
  · rename_i ht hph
    cases hc : p.complete with
    | true => rfl
    | false => exact absurd ⟨ht, hph, hc, rfl⟩ (h _)
  · rfl

/-- A message that is read keeps the counts. -/
theorem balanced_message (hrole : cfg.role = .client) {m : SyncMessage} (h : Balanced cfg f idx p)
    (hreads : Reads p (.message m) m) (hrel : reliableMessage p m = true)
    (hsteady : steady p (.message m) = true) : (clientMessage cfg p m).Failed ∨
      Balanced cfg f idx (clientMessage cfg p m) ∧ Tally cfg p (.message m) (clientMessage cfg p m) := by
  obtain ⟨ht, hph, hinc, -⟩ := hreads
  have hidle : committing cfg p m = none → Tally cfg p (.message m) p := by
    intro hnone
    exact .same rfl rfl fun planned => by simp only [foreseen, ht, hph, hnone, Bool.or_true]
  cases m with
  | fileChunk c => exact balanced_chunk hrole h ht hph hinc hrel hsteady (onChunk_effect p c)
  | ack a =>
    right
    unfold clientMessage
    dsimp only
    split_ifs
    · exact ⟨⟨h.loops, h.own, h.remote, h.toPush, h.toPull, h.pushedBytes, h.pulled, h.pulledBytes, h.sized,
        h.disputed, h.still, h.noAnswers⟩, .same rfl rfl fun planned => by
          simp only [foreseen, ht, hph, committing, Bool.or_true]⟩
    · exact ⟨h, hidle rfl⟩
  | fileRequest r =>
    simp only [steady, ht, hph] at hsteady
    rw [hinc] at hsteady
    cases hsteady
  | _ => exact Or.inr ⟨h, hidle rfl⟩

/-- **A step in which nothing fails keeps the counts**, and adds a file at most. -/
theorem balanced_step (hrole : cfg.role = .client) (h : Balanced cfg f idx p)
    (hrel : reliable cfg p i = true) (hsteady : steady p i = true) :
    (step (Party.next cfg) p i).Failed ∨
      Balanced cfg f idx (step (Party.next cfg) p i) ∧ Tally cfg p i (step (Party.next cfg) p i) := by
  by_cases hreads : ∃ m, Reads p i m
  · obtain ⟨m, hreads⟩ := hreads
    obtain ⟨ht, hph, hinc, rfl⟩ := hreads
    have hmsg : frameTooLarge cfg.serialize m = false ∧ reliableMessage p m = true := by
      simpa [reliable, ht, hph, hinc] using hrel
    have hstep : step (Party.next cfg) p (.message m) = clientMessage cfg p m := by
      have honMessage : onMessage cfg p m = clientMessage cfg p m := by simp only [onMessage, hrole]
      have hnot : ¬(cfg.role = .client ∧ p.complete = true) := fun hboth => by simp [hinc] at hboth
      simp only [step, Party.next, ht, hph, if_neg hnot, readMessage, Move.answer, hmsg.1]
      exact honMessage
    rw [hstep]
    exact balanced_message hrole h ⟨ht, hph, hinc, rfl⟩ hmsg.2 hsteady
  · have hforeseen : ∀ planned, foreseen cfg planned p i = true :=
      foreseen_of_not_reads fun m hm => hreads ⟨m, hm⟩
    have hsame : ∀ {phase : Phase}, phase ≠ .awaitIndex → Balanced cfg f idx { p with phase := phase } ∧
        Tally cfg p i { p with phase := phase } := by
      intro phase hphase
      exact ⟨⟨hphase, h.own, h.remote, h.toPush, h.toPull, h.pushedBytes, h.pulled, h.pulledBytes, h.sized,
        h.disputed, h.still, h.noAnswers⟩, .same rfl rfl hforeseen⟩
    have he := step_effect cfg p i
    generalize step (Party.next cfg) p i = p' at he
    cases he with
    | idle => exact Or.inr ⟨h, .same rfl rfl hforeseen⟩
    | @act _ a rest _ ht ha =>
      have hread : ∀ path, a = .pushFile path → readable p.folder path = true := by
        rintro path rfl
        simpa [reliable, ht] using hrel
      rcases act_gained ht (h.noAnswers a (ht ▸ List.mem_cons_self ..)) ha with hfailed | ⟨hgained, hdisputed⟩
      · exact Or.inl hfailed
      · rcases balanced_act h ht hread ha with hfailed | hbalanced
        · exact Or.inl hfailed
        · exact Or.inr ⟨hbalanced, .same (by rw [hgained]) hdisputed hforeseen⟩
    | noIndex e hph => exact absurd hph h.loops
    | index m _ hph => exact absurd hph h.loops
    | complete => exact Or.inr (hsame (by simp))
    | broken => exact Or.inr (hsame (by simp))
    | @message m _ ht hph hc _ =>
      have hinc : p.complete = false := by
        rw [← Bool.not_eq_true]
        exact fun hcomplete => hc ⟨hrole, hcomplete⟩
      exact absurd ⟨m, ht, hph, hinc, rfl⟩ hreads
    | check =>
      refine Or.inr (hsame ?_)
      split_ifs <;> simp
    | stopped =>
      refine Or.inr ⟨⟨by simp, h.own, h.remote, h.toPush, h.toPull, h.pushedBytes, h.pulled, h.pulledBytes,
        h.sized, h.disputed, h.still, h.noAnswers⟩, .same rfl rfl hforeseen⟩

/-- A file to push is the one that the client's index lists first under its path. -/
theorem find_of_toPush {y : IndexEntry} (hy : y ∈ (planFor cfg f idx).toPush) :
    (buildProtocolIndex cfg.blake3 f cfg.deviceId).find? (fun z => z.path = y.path) = some y := by
  obtain ⟨op, -, hop⟩ := List.mem_filterMap.mp hy
  have hpath := path_of_uploadEntry hop
  cases op with
  | upload path v n =>
    have hfind : (buildProtocolIndex cfg.blake3 f cfg.deviceId).find? (fun z => z.path = path.val) = some y := hop
    rw [hpath]
    exact hfind
  | download | delete | conflict => cases hop

theorem pushFiles_sizes {own : List IndexEntry} : ∀ entries : List IndexEntry,
    (∀ y ∈ entries, own.find? (fun z => z.path = y.path) = some y) →
    ((entries.map fun y => Action.pushFile y.path).filterMap (Action.pushSize own)) = entries.map (·.size)
  | [], _ => rfl
  | y :: entries, h => by
    have ih := pushFiles_sizes entries fun z hz => h z (List.mem_cons_of_mem y hz)
    have hy : Action.pushSize own (.pushFile y.path) = some y.size := by
      simp only [Action.pushSize, h y (List.mem_cons_self ..), Option.map_some, Option.getD_some]
    rw [List.map_cons, List.filterMap_cons_some hy, ih, List.map_cons]

/-- The index makes the counts. -/
theorem balanced_index (hwet : cfg.dryRun = false) : (clientIndex cfg (announcing cfg f) (.index idx)).Failed ∨
    Balanced cfg f idx (clientIndex cfg (announcing cfg f) (.index idx)) ∧
      (clientIndex cfg (announcing cfg f) (.index idx)).gained = [] := by
  unfold clientIndex
  dsimp only
  split_ifs with hlen hdry
  · exact Or.inl (.intro _ _)
  · exact absurd hdry (by simp [hwet])
  · right
    have hown : (announcing cfg f).own = buildProtocolIndex cfg.blake3 f cfg.deviceId := rfl
    have hnone : ∀ {β : Type} (g : Action → Option β), (∀ s, g (.progress s) = none) →
        (∀ m, g (.write m) = none) → (∀ path, g (.pushFile path) = none) → ∀ entries : List IndexEntry,
        (Action.progress "starting" :: (entries.map (fun e => .pushFile e.path) ++
          [.write sentinel])).filterMap g = [] := by
      intro β g hprogress hwrite hpush entries
      refine List.filterMap_eq_nil_iff.mpr fun a ha => ?_
      rcases List.mem_cons.mp ha with rfl | ha
      · exact hprogress _
      · rcases List.mem_append.mp ha with ha | ha
        · obtain ⟨y, -, rfl⟩ := List.mem_map.mp ha
          exact hpush _
        · rw [List.mem_singleton.mp ha]
          exact hwrite _
    refine ⟨⟨by simp, rfl, rfl, rfl, rfl, ?_, ?_, ?_, ?_, ?_, ?_, ?_⟩, ?_⟩
    · show 0 + ((Action.progress "starting" :: ((planFor cfg f idx).toPush.map (fun e => .pushFile e.path) ++
        [.write sentinel])).filterMap (Action.pushSize (buildProtocolIndex cfg.blake3 f cfg.deviceId))).sum =
          ((planFor cfg f idx).toPush.map (·.size)).sum
      rw [List.filterMap_cons_none rfl, List.filterMap_append, pushFiles_sizes _ fun y hy => find_of_toPush hy,
        List.filterMap_cons_none rfl, List.filterMap_nil, List.append_nil, Nat.zero_add]
    · show [] ++ List.map _ (List.filterMap _ _) = List.map _ ([] ++ List.filterMap _ _)
      rw [hnone _ (fun _ => rfl) (fun _ => rfl) fun _ => rfl, hnone _ (fun _ => rfl) (fun _ => rfl) fun _ => rfl]
      rfl
    · show 0 + (List.map _ (List.filterMap _ _)).sum = (List.map _ ([] ++ List.filterMap _ _)).sum
      rw [hnone _ (fun _ => rfl) (fun _ => rfl) fun _ => rfl, hnone _ (fun _ => rfl) (fun _ => rfl) fun _ => rfl]
      rfl
    · show ∀ x ∈ [] ++ List.filterMap _ _, _
      rw [hnone _ (fun _ => rfl) (fun _ => rfl) fun _ => rfl]
      simp
    · show ∀ x ∈ [] ++ List.filterMap _ _, _
      rw [hnone _ (fun _ => rfl) (fun _ => rfl) fun _ => rfl]
      simp
    · intro path hmem
      have hpush : Action.pushFile path ∈ (planFor cfg f idx).toPush.map fun e => .pushFile e.path := by
        rcases List.mem_cons.mp hmem with hmem | hmem
        · cases hmem
        · rcases List.mem_append.mp hmem with hmem | hmem
          · exact hmem
          · cases List.mem_singleton.mp hmem
      obtain ⟨y, hy, hpath⟩ := List.mem_map.mp hpush
      cases hpath
      refine ⟨rfl, List.mem_map.mpr ⟨y, List.mem_of_find?_eq_some (find_of_toPush hy), rfl⟩, ?_⟩
      exact List.filterMap_eq_nil_iff.mp (hnone _ (fun _ => rfl) (fun _ => rfl) (fun _ => rfl) _)
    · intro a ha
      rcases List.mem_cons.mp ha with rfl | ha
      · rfl
      · rcases List.mem_append.mp ha with ha | ha
        · obtain ⟨y, -, rfl⟩ := List.mem_map.mp ha
          rfl
        · rw [List.mem_singleton.mp ha]
          rfl
    · show [] ++ List.filterMap _ _ = []
      rw [hnone _ (fun _ => rfl) (fun _ => rfl) fun _ => rfl]
      rfl

/-! #### Whole runs -/

/-- What a run of a client whose steps all go well leaves of what it has gained and disputed. -/
structure Tallied (cfg : Config) (p : Party) (is : List (Input SyncMessage)) (q : Party) : Prop where
  gained : ∀ x ∈ p.gained.map (·.1), x ∈ q.gained.map (·.1)
  disputed : ∀ x ∈ p.gained.map (·.1), x ∈ q.disputed ↔ x ∈ p.disputed
  foreseen : ∀ planned, along (Party.next cfg) (foreseen cfg planned) p is = true ↔
    ∀ x ∈ q.gained.map (·.1), x ∉ p.gained.map (·.1) → (x ∈ q.disputed ↔ x ∈ planned)

theorem Tallied.nil (p : Party) : Tallied cfg p [] p where
  gained _ hx := hx
  disputed _ _ := Iff.rfl
  foreseen _ := iff_of_true rfl fun _ hx hnew => absurd hx hnew

/-- One more step in front. -/
theorem Tallied.cons {q : Party} {is : List (Input SyncMessage)}
    (hdisputed : ∀ x ∈ p.disputed, x ∈ p.gained.map (·.1))
    (h : Tally cfg p i (step (Party.next cfg) p i)) (hrun : Tallied cfg (step (Party.next cfg) p i) is q) :
    Tallied cfg p (i :: is) q := by
  cases h with
  | same hgained hsame hforeseen =>
    refine ⟨fun x hx => hrun.gained x (hgained ▸ hx), fun x hx => ?_, fun planned => ?_⟩
    · rw [hrun.disputed x (hgained ▸ hx), hsame]
    · rw [along, hforeseen planned, Bool.true_and, hrun.foreseen planned, hgained]
  | commits path other hgained hadded hnew hforeseen =>
    have hmem : ∀ x, x ∈ (step (Party.next cfg) p i).gained.map (·.1) ↔ x ∈ p.gained.map (·.1) ∨ x = path := by
      intro x
      rw [hgained, List.mem_append, List.mem_singleton]
    have hother : ∀ x, x ∈ (step (Party.next cfg) p i).disputed ↔
        x ∈ p.disputed ∨ other = true ∧ x = path := by
      intro x
      rw [hadded, List.mem_append]
      cases other <;> simp
    have hpath : path ∈ q.disputed ↔ other = true := by
      rw [hrun.disputed path ((hmem path).mpr (Or.inr rfl)), hother]
      constructor
      · rintro (hold | hnow)
        · exact absurd (hdisputed path hold) hnew
        · exact hnow.1
      · exact fun ho => Or.inr ⟨ho, rfl⟩
    refine ⟨fun x hx => hrun.gained x ((hmem x).mpr (Or.inl hx)), fun x hx => ?_, fun planned => ?_⟩
    · rw [hrun.disputed x ((hmem x).mpr (Or.inl hx)), hother]
      constructor
      · rintro (hold | ⟨-, rfl⟩)
        · exact hold
        · exact absurd hx hnew
      · exact Or.inl
    · rw [along, Bool.and_eq_true, hforeseen planned, decide_eq_true_eq, hrun.foreseen planned, ← hpath]
      constructor
      · rintro ⟨hnow, hlater⟩ x hx hxnew
        by_cases hxp : x = path
        · rw [hxp]
          exact hnow
        · exact hlater x hx fun hin => ((hmem x).mp hin).elim hxnew hxp
      · intro hall
        refine ⟨hall path (hrun.gained path ((hmem path).mpr (Or.inr rfl))) hnew, fun x hx hxnew => ?_⟩
        exact hall x hx fun hin => hxnew ((hmem x).mpr (Or.inl hin))

theorem Party.Failed.run {is : List (Input SyncMessage)} : ∀ {p : Party}, p.Failed →
    (run (Party.next cfg) p is).Failed := by
  induction is with
  | nil => exact fun h => h
  | cons i is ih => exact fun h => ih (h.step i)

theorem Party.Failed.not_ok (h : p.Failed) : p.phase.isOk = false := by
  obtain ⟨-, e, hph⟩ := h
  rw [hph]
  rfl

/-- **A run in which nothing fails keeps the counts.** -/
theorem balanced_run (hrole : cfg.role = .client) {is : List (Input SyncMessage)} : ∀ {p : Party},
    Balanced cfg f idx p → along (Party.next cfg) (reliable cfg) p is = true →
    along (Party.next cfg) steady p is = true → (run (Party.next cfg) p is).phase.isOk = true →
    Balanced cfg f idx (run (Party.next cfg) p is) ∧ Tallied cfg p is (run (Party.next cfg) p is) := by
  induction is with
  | nil => exact fun h _ _ _ => ⟨h, .nil _⟩
  | cons i is ih =>
    intro p h hrel hsteady hok
    rw [along, Bool.and_eq_true] at hrel hsteady
    rcases balanced_step hrole h hrel.1 hsteady.1 with hfailed | ⟨hbalanced, htally⟩
    · have hrun : (run (Party.next cfg) (step (Party.next cfg) p i) is).Failed := hfailed.run
      have hno : (run (Party.next cfg) (step (Party.next cfg) p i) is).phase.isOk = true := hok
      rw [hrun.not_ok] at hno
      cases hno
    · obtain ⟨hq, hrun⟩ := ih hbalanced hrel.2 hsteady.2 hok
      exact ⟨hq, .cons h.disputed htally hrun⟩

/-- The client once it has read the peer's index. -/
def afterIndex (cfg : Config) (f : Folder) (idx : Index) : Party :=
  if frameTooLarge cfg.serialize (.index idx) then (announcing cfg f).fail "connection closed"
  else clientIndex cfg (announcing cfg f) (.index idx)

/-- The answers of a session whose client announces its index and reads the peer's. -/
def exchange (idx : Index) (is : List (Input SyncMessage)) : List (Input SyncMessage) :=
  .go :: .message (.index idx) :: is

theorem along_exchange (hrole : cfg.role = .client) {ok : Party → Input SyncMessage → Bool}
    {is : List (Input SyncMessage)} : along (Party.next cfg) ok (start cfg f) (exchange idx is) =
      (ok (start cfg f) .go && (ok (announcing cfg f) (.message (.index idx)) &&
        along (Party.next cfg) ok (afterIndex cfg f idx) is)) := by
  have hgo : step (Party.next cfg) (start cfg f) .go = announcing cfg f := by
    unfold start
    rw [hrole]
    rfl
  have hread : step (Party.next cfg) (announcing cfg f) (.message (.index idx)) = afterIndex cfg f idx := by
    unfold afterIndex
    show (if frameTooLarge cfg.serialize (.index idx) then (announcing cfg f).fail "connection closed"
      else onIndex cfg (announcing cfg f) (.index idx)) = _
    unfold onIndex
    rw [hrole]
  rw [exchange, along, along, hgo, hread]

end

/-! ### The prediction -/

/-- Two reports say the same, but for the order of the paths. -/
structure SameReport (dry real : SyncResult) : Prop where
  pushed : ∀ x, x ∈ dry.pushed ↔ x ∈ real.pushed
  pulled : ∀ x, x ∈ dry.pulled ↔ x ∈ real.pulled
  conflicts : ∀ x, x ∈ dry.conflicts ↔ x ∈ real.conflicts
  pushedBytes : dry.pushedBytes = real.pushedBytes % UInt64.size
  pulledBytes : dry.pulledBytes = real.pulledBytes % UInt64.size

/-- A real session with the index `idx` in which nothing fails and no file is edited, and a
server that starts. -/
structure FailureFree (cfg : Config) (f : Folder) (idx : Index) (is : List (Input SyncMessage))
    (h : Handler) (t : Disk) : Prop where
  reliable : along (Party.next cfg) (reliable cfg) (start cfg f) (exchange idx is) = true
  steady : along (Party.next cfg) steady (start cfg f) (exchange idx is) = true
  ok : (run (Party.next cfg) (start cfg f) (exchange idx is)).phase.isOk = true
  starts : Starts h (announced cfg f) t

/-- Every dry run on the same state reports what the real session reports, and changes nothing
on either side; the client sends its index and no file. -/
structure DryRunPredicts (cfg : Config) (f : Folder) (idx : Index) (is : List (Input SyncMessage))
    (h : Handler) (t : Disk) : Prop where
  report : ∀ js, (run (Party.next cfg.dry) (start cfg.dry f) (exchange idx js)).phase.isOk = true →
    SameReport (run (Party.next cfg.dry) (start cfg.dry f) (exchange idx js)).result
      (run (Party.next cfg) (start cfg f) (exchange idx is)).result
  folder : ∀ js, (run (Party.next cfg.dry) (start cfg.dry f) js).folder = f
  sent : ∀ js, ∀ m ∈ writing cfg.dry (start cfg.dry f) js, m = .index (announced cfg f)
  server : (Effects.after (handleServerSession h (announced cfg f) []) { fs := ⟨t, []⟩ }).fs.disk = t

section

variable {cfg : Config} {f : Folder} {idx : Index} {is : List (Input SyncMessage)} {h : Handler} {t : Disk}

/-- Files that an index lists, received with the sizes it gives. -/
theorem sum_sizes {gains : List (String × ℕ)} {entries : List IndexEntry}
    (hperm : (gains.map (·.1)).Perm (entries.map (·.path))) (hnodup : (entries.map (·.path)).Nodup)
    (hsizes : ∀ x ∈ gains, ∀ y ∈ entries, y.path = x.1 → x.2 = y.size) :
    (gains.map (·.2)).sum = (entries.map (·.size)).sum := by
  let sizeAt (path : String) : ℕ := ((entries.find? fun y => y.path = path).map (·.size)).getD 0
  have hentry : ∀ y ∈ entries, sizeAt y.path = y.size := by
    intro y hy
    cases hfind : entries.find? fun z => z.path = y.path with
    | none => exact absurd (decide_eq_true rfl) (List.find?_eq_none.mp hfind y hy)
    | some z =>
      have hz : z.path = y.path := by simpa using List.find?_some hfind
      have hzy := List.inj_on_of_nodup_map hnodup (List.mem_of_find?_eq_some hfind) hy hz
      simp only [sizeAt, hfind, Option.map_some, Option.getD_some, hzy]
  have hgains : gains.map (·.2) = (gains.map (·.1)).map sizeAt := by
    rw [List.map_map]
    refine List.map_congr_left fun x hx => ?_
    obtain ⟨y, hy, hpath⟩ := List.mem_map.mp (hperm.mem_iff.mp (List.mem_map_of_mem hx))
    show x.2 = sizeAt x.1
    rw [← hpath, hentry y hy]
    exact hsizes x hx y hy hpath
  have hentries : entries.map (·.size) = (entries.map (·.path)).map sizeAt := by
    rw [List.map_map]
    exact List.map_congr_left fun y hy => (hentry y hy).symm
  rw [hgains, hentries]
  exact (hperm.map sizeAt).sum_nat

/-- What a real run in which nothing fails reports. -/
structure RealReport (cfg : Config) (f : Folder) (idx : Index) (p : Party) : Prop where
  pushed : p.result.pushed = (planFor cfg f idx).toPush.map (·.path)
  pulled : p.result.pulled.Perm ((planFor cfg f idx).toPull.map (·.path))
  pushedBytes : p.result.pushedBytes = ((planFor cfg f idx).toPush.map (·.size)).sum
  pulledBytes : p.result.pulledBytes = ((planFor cfg f idx).toPull.map (·.size)).sum
  gained : p.gained.map (·.1) = p.result.pulled
  disputed : p.disputed = p.result.conflicts
  conflicts : ∀ x ∈ p.result.conflicts, x ∈ p.result.pulled

/-- A session that comes to `Ok` has not failed at the index. -/
theorem not_failed_of_ok (hrole : cfg.role = .client)
    (hok : (run (Party.next cfg) (start cfg f) (exchange idx is)).phase.isOk = true) :
    ¬(afterIndex cfg f idx).Failed := by
  intro hfailed
  have hrun : run (Party.next cfg) (start cfg f) (exchange idx is) =
      run (Party.next cfg) (afterIndex cfg f idx) is := run_announce hrole f idx is
  rw [hrun, hfailed.run.not_ok] at hok
  cases hok

/-- **A real run pushes and pulls what the plan lists.** -/
theorem real_report (hrole : cfg.role = .client) (hwet : cfg.dryRun = false)
    (hfree : FailureFree cfg f idx is h t) :
    RealReport cfg f idx (run (Party.next cfg) (start cfg f) (exchange idx is)) ∧
      Tallied cfg (afterIndex cfg f idx) is (run (Party.next cfg) (start cfg f) (exchange idx is)) ∧
      (afterIndex cfg f idx).gained = [] := by
  obtain ⟨hreliable, hsteady, hok, -⟩ := hfree
  have hgood := not_failed_of_ok hrole hok
  have hrun : run (Party.next cfg) (start cfg f) (exchange idx is) =
      run (Party.next cfg) (afterIndex cfg f idx) is := run_announce hrole f idx is
  have hcourse : Course cfg (exchange idx is) (run (Party.next cfg) (start cfg f) (exchange idx is)) :=
    along_inv (fun p i hi hp hr => course_step hrole hwet hp hi hr) (.waiting (waiting_start hrole f)) hreliable
  rw [along_exchange hrole, Bool.and_eq_true, Bool.and_eq_true] at hreliable hsteady
  rw [hrun] at hok hcourse ⊢
  have hstarted : Balanced cfg f idx (afterIndex cfg f idx) ∧ (afterIndex cfg f idx).gained = [] := by
    unfold afterIndex at hgood ⊢
    split_ifs at hgood ⊢ with hlarge
    · exact absurd (.intro _ _) hgood
    · exact (balanced_index hwet).resolve_left hgood
  obtain ⟨hbalanced, htallied⟩ := balanced_run hrole hstarted.1 hreliable.2.2 hsteady.2.2 hok
  refine ⟨?_, htallied, hstarted.2⟩
  generalize run (Party.next cfg) (afterIndex cfg f idx) is = q at hok hcourse hbalanced
  have hprogress : Progress cfg (exchange idx is) q := by
    cases hcourse with
    | waiting hwait =>
      rw [hwait.phase] at hok
      cases hok
    | failed e hph _ =>
      rw [hph] at hok
      cases hok
    | progress hprogress => exact hprogress
  have hleft : q.phase.isLeft = true := by
    unfold Phase.isOk at hok
    split at hok
    · rename_i hph
      rw [hph]
      rfl
    · cases hok
  obtain ⟨ht, -⟩ := hprogress.left hleft
  have hpushes := hprogress.pushes
  have hdistinct := hprogress.distinct
  have hexpected := hprogress.expected
  have hbytes := hbalanced.pushedBytes
  have hpulled := hbalanced.pulled
  have hpulledBytes := hbalanced.pulledBytes
  rw [ht] at hpushes hdistinct hexpected hbytes hpulled hpulledBytes
  simp only [List.filterMap_nil, List.append_nil, List.map_nil, List.sum_nil, Nat.add_zero]
    at hpushes hdistinct hexpected hbytes hpulled hpulledBytes
  have hgained : q.gained.map (·.1) = q.committed.map (·.1) := by
    unfold Party.gained
    rw [ht, List.filterMap_nil, List.append_nil, List.map_map]
    rfl
  have hperm : (q.gained.map (·.1)).Perm ((planFor cfg f idx).toPull.map (·.path)) := by
    rw [hgained, ← hbalanced.toPull]
    have hnodup : (q.toPull.map (·.path)).Nodup := by
      rw [hbalanced.toPull]
      exact toPull_nodup _
    refine (List.perm_ext_iff_of_nodup hdistinct hnodup).mpr fun x => ⟨hexpected x, fun hx => ?_⟩
    obtain ⟨y, hy, rfl⟩ := List.mem_map.mp hx
    exact (hprogress.finished hok).2 y hy
  have hdisputed : q.disputed = q.result.conflicts := by
    unfold Party.disputed
    rw [ht, List.filterMap_nil, List.append_nil]
  refine ⟨?_, ?_, ?_, ?_, hpulled.symm, hdisputed, ?_⟩
  · rw [hpushes, hbalanced.toPush]
  · rw [hpulled]
    exact hperm
  · rw [hbytes, hbalanced.toPush]
  · rw [hpulledBytes]
    apply sum_sizes hperm (toPull_nodup _)
    intro x hx y hy hpath
    exact hbalanced.sized x hx y (mem_of_toPull _ hy) hpath
  · intro x hx
    rw [hpulled]
    exact hbalanced.disputed x (hdisputed ▸ hx)

/-- Where the real session starts, the dry run ends. -/
theorem dry_ends (hrole : cfg.role = .client) (hgood : ¬(afterIndex cfg f idx).Failed) :
    (run (Party.next cfg.dry) (start cfg.dry f) (exchange idx [.go, .go])).phase.isOk = true := by
  have hrun : run (Party.next cfg.dry) (start cfg.dry f) (exchange idx [.go, .go]) =
      run (Party.next cfg.dry) (afterIndex cfg.dry f idx) [.go, .go] := @run_announce cfg.dry hrole f idx _
  rw [hrun]
  by_cases hlarge : frameTooLarge cfg.serialize (.index idx) = true
  · refine absurd ?_ hgood
    unfold afterIndex
    rw [if_pos hlarge]
    exact .intro _ _
  · by_cases hlen : maxIndexEntries < idx.entries.length
    · refine absurd ?_ hgood
      unfold afterIndex clientIndex
      rw [if_neg hlarge]
      dsimp only
      rw [if_pos hlen]
      exact .intro _ _
    · have hlarge' : ¬frameTooLarge cfg.dry.serialize (.index idx) = true := hlarge
      unfold afterIndex clientIndex
      rw [if_neg hlarge']
      dsimp only
      have hdry : cfg.dry.dryRun = true := rfl
      rw [if_neg hlen, if_pos hdry]
      rfl

theorem foreseen_exchange (hrole : cfg.role = .client) (planned : List String) :
    along (Party.next cfg) (foreseen cfg planned) (start cfg f) (exchange idx is) =
      along (Party.next cfg) (foreseen cfg planned) (afterIndex cfg f idx) is := by
  have hstart : foreseen cfg planned (start cfg f) .go = true := by
    unfold start
    rw [hrole]
    rfl
  have hread : foreseen cfg planned (announcing cfg f) (.message (.index idx)) = true := rfl
  rw [along_exchange hrole, hstart, hread, Bool.true_and, Bool.true_and]

/-- **A dry run predicts the real one** if a file of other content stands at the place of a
received one exactly where the plan has a conflict, and the directory that the client names, if
it names one, is there. -/
theorem dry_run_predicts_iff (cfg : Config) (hrole : cfg.role = .client) (hwet : cfg.dryRun = false)
    (f : Folder) (idx : Index) (is : List (Input SyncMessage)) (h : Handler) (t : Disk)
    (hfree : FailureFree cfg f idx is h t) :
    DryRunPredicts cfg f idx is h t ↔
      along (Party.next cfg) (foreseen cfg (plannedConflicts cfg f idx)) (start cfg f) (exchange idx is) = true ∧
        NamesPresent h (announced cfg f) t := by
  obtain ⟨hreport, htallied, hnone⟩ := real_report hrole hwet hfree
  have hgood := not_failed_of_ok hrole hfree.ok
  have hconflicts : along (Party.next cfg) (foreseen cfg (plannedConflicts cfg f idx)) (start cfg f)
      (exchange idx is) = true ↔ ∀ x ∈ (run (Party.next cfg) (start cfg f) (exchange idx is)).result.pulled,
        (x ∈ (run (Party.next cfg) (start cfg f) (exchange idx is)).result.conflicts ↔
          x ∈ plannedConflicts cfg f idx) := by
    rw [foreseen_exchange hrole, htallied.foreseen, hreport.gained, hreport.disputed, hnone]
    simp
  rw [hconflicts, ← dry_session_keeps_iff hfree.starts]
  constructor
  · intro hpredicts
    refine ⟨fun x _ => ?_, hpredicts.server⟩
    have hends := dry_ends hrole hgood
    have hsame := (hpredicts.report [.go, .go] hends).conflicts x
    rw [exchange, dry_result hrole [.go, .go] hends] at hsame
    exact hsame.symm
  · rintro ⟨hsame, hserver⟩
    refine ⟨fun js hok => ?_, fun js => ?_, fun js => ?_, hserver⟩
    · have hdry : (run (Party.next cfg.dry) (start cfg.dry f) (exchange idx js)).result =
          dryResult (planFor cfg f idx) := dry_result hrole js hok
      rw [hdry]
      refine ⟨fun x => ?_, fun x => (hreport.pulled.mem_iff).symm, fun x => ?_, ?_, ?_⟩
      · rw [hreport.pushed]
        rfl
      · constructor
        · intro hx
          have hplanned : x ∈ plannedConflicts cfg f idx := hx
          obtain ⟨op, hop, rfl⟩ := List.mem_map.mp hplanned
          obtain ⟨⟨y, hy, hpath⟩, -⟩ := conflict_pulled _ hop
          have hpulled := hreport.pulled.mem_iff.mpr (List.mem_map_of_mem hy)
          rw [hpath] at hpulled
          exact (hsame _ hpulled).mpr hplanned
        · exact fun hx => (hsame x (hreport.conflicts x hx)).mp hx
      · rw [hreport.pushedBytes]
        rfl
      · rw [hreport.pulledBytes]
        rfl
    · have hstep : ∀ (p : Party) (i : Input SyncMessage), DryOnly cfg f p → True →
          DryOnly cfg f (step (Party.next cfg.dry) p i) := fun p i hp _ => dryOnly_step hrole hp i
      have hrun : DryOnly cfg f (run (Party.next cfg.dry) (start cfg.dry f) js) :=
        run_inv hstep (dryOnly_start hrole f) fun _ _ => trivial
      exact hrun.folder
    · exact (dryOnly_start hrole f).writing hrole

end

/-- A peer that has a file `g`. -/
def indexWithG : Index := ⟨"1", "phone", none,
  [⟨"g", 1700000000000000000, 0, 1700000000000000000, 1, (sampleBlake3 [98]).bytes⟩]⟩

theorem dry_run_predicts_two : DryRunPredicts (sampleConfig .client) (sampleFolder [(sampleName, [97])])
    indexWithG (sampleExchange.drop 2) srvHandler plainDisk := by
  refine (dry_run_predicts_iff (sampleConfig .client) rfl rfl (sampleFolder [(sampleName, [97])]) indexWithG
    (sampleExchange.drop 2) srvHandler plainDisk ⟨by decide +kernel, by decide +kernel, by decide +kernel,
      ⟨by decide +kernel, by decide +kernel, ?_⟩⟩).mpr ⟨by decide +kernel, nofun⟩
  exact ⟨⟨[], [.name (word "srv")]⟩, [word "srv"], rfl, by decide +kernel⟩

/-- A peer that has a newer file `f`, and then sends it. -/
def indexWithF : Index := ⟨"1", "phone", none,
  [fileIndexEntry sampleBlake3 [sampleName] ⟨[98], 1700000000000000000⟩]⟩

def sendsF : List (Input SyncMessage) :=
  [.go, .go, .message (.fileChunk ⟨"1", "f", 0, [98], 1⟩), .go, .go, .go, .go, .go, .go, .failed]

theorem dry_run_misses : FailureFree (sampleConfig .client) (sampleFolder [(sampleName, [97])]) indexWithF
      sendsF srvHandler plainDisk ∧
    ¬DryRunPredicts (sampleConfig .client) (sampleFolder [(sampleName, [97])]) indexWithF sendsF srvHandler
      plainDisk := by
  refine ⟨⟨by decide +kernel, by decide +kernel, by decide +kernel, by decide +kernel, by decide +kernel, ?_⟩,
    fun h => ?_⟩
  · exact ⟨⟨[], [.name (word "srv")]⟩, [word "srv"], rfl, by decide +kernel⟩
  · have hsame := (h.report [.go, .go] (by decide +kernel)).conflicts "f"
    revert hsame
    decide +kernel

end FerriSync
