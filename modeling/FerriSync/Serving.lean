/-
# What a served session touches

`handle_server_session` on the disk (`session.rs`): the directory it serves is
the listener's, or one that the client's `Index` names, which is made if it is
missing (§17). It is scanned, files are pushed from it, received files are
committed below it, and requested ones read.

The directory need not be one that this device has registered
(`serving_unregistered`): the client keeps the place of its peer's copy. Nothing
else is touched than this directory and, to make it, the ones on the way to it
(`serving_confined`).

Key definitions: `LocalPath.parse`, `Handler`, `handleServerSession`.
Key theorems: `createDirs_spec`, `served_stays`, `serving_confined`.
-/
import FerriSync.Changes
import FerriSync.Lib.Effects
import FerriSync.Metadata
import FerriSync.Session

namespace FerriSync

open FileTree Effects

/-! ### Paths that are given as strings -/

namespace LocalPath

/-- A component as a step; an empty one is none, nor is a dot. -/
def component (cs : List Char) : List (Step OsStr) :=
  if cs = [] ∨ cs = ['.'] then []
  else if cs = ['.', '.'] then [.up]
  else [.name (osStr cs)]

/-- A string as a path, from the top if it starts with a slash, else from the
working directory. There is no path with a NUL. A dot at the end asks for a
directory. -/
def parse (cwd : List OsStr) (s : String) : Option LocalPath :=
  if Char.ofNat 0 ∈ s.toList then none
  else
    let parts := (s.toList.splitOn '/').filter fun cs => decide (cs ≠ [])
    some {
      start := if s.toList.head? = some '/' then [] else cwd
      steps := parts.flatMap component ++ if parts.getLast? = some ['.'] then [.here] else [] }

/-- `Path::parent`. -/
def parent (p : LocalPath) : LocalPath :=
  { p with steps := (p.steps.reverse.dropWhile fun s => decide (s = .here)).tail.reverse }

end LocalPath

namespace Fs

variable (fs : Fs) (p : LocalPath)

/-- `mkdir`; nothing is made from a working directory that is gone. -/
def mkdirAt : Except Fault Fs :=
  if fs.disk.isDir p.start = false then .error .notFound
  else match fs.disk.mkdir maxLinks p.start p.steps with
  | .error e => .error e
  | .ok (place, disk) => .ok ⟨disk, fs.accesses ++ [.made place]⟩

def isDirAt : Bool :=
  match openRoot fs.disk p with
  | .ok _ => true
  | .error _ => false

end Fs

/-- `create_dir_all`, of a path that is given as a string. -/
def createDirs : ℕ → LocalPath → Fs → Except Fault Unit × Fs
  | 0, _, fs => (.ok (), fs)
  | n + 1, p, fs =>
    if p.steps = [] then (.ok (), fs)
    else match fs.mkdirAt p with
    | .ok fs => (.ok (), fs)
    | .error e =>
      if e = .notFound then
        match createDirs n p.parent fs with
        | (.error e, fs) => (.error e, fs)
        | (.ok (), fs) =>
          match fs.mkdirAt p with
          | .ok fs => (.ok (), fs)
          | .error e => if fs.isDirAt p then (.ok (), fs) else (.error e, fs)
      else if fs.isDirAt p then (.ok (), fs) else (.error e, fs)

/-! ### The session -/

/-- What the handler is given, and what surrounds it. -/
structure Handler where
  blake3 : Bytes → FileHash
  /-- The working directory. -/
  cwd : List OsStr
  /-- The listener's folder. -/
  localPath : String
  folderId : FolderId
  deviceId : String
  /-- The names in a directory, as the system lists them. -/
  readDir : Disk → List OsStr → List OsStr
  /-- How deep the disk's directories stand in each other at most. -/
  depth : ℕ
  /-- The modification time of a file, in nanoseconds since the epoch. -/
  mtime : Disk → List OsStr → ℤ
  order : ∀ l r : Snapshot, PathOrder l r
  /-- The clock, in seconds, at the n-th commit. -/
  secs : ℕ → ℕ
  /-- The n-th message is written to the connection. -/
  written : ℕ → Bool

inductive HandlerError
  | failed (e : FsError)
  | refused (e : String)
  | closed

/-- The state of a session. -/
structure Served where
  fs : Fs
  inbox : Inbox := .empty
  gotEof : Bool := false
  /-- How many messages have been written, and how many files committed. -/
  writes : ℕ := 0
  commits : ℕ := 0

abbrev Serve := EStateM HandlerError Served

/-- A call to the file system, as part of a session. -/
def Serve.call {α E : Type} (error : E → HandlerError) (f : Fs → Except E α × Fs) : Serve α :=
  fun s =>
    match f s.fs with
    | (.ok a, fs) => .ok a { s with fs := fs }
    | (.error e, fs) => .error (error e) { s with fs := fs }

section

variable (h : Handler)

def Serve.write : Serve Unit := fun s =>
  if h.written s.writes then .ok () { s with writes := s.writes + 1 }
  else .error .closed { s with writes := s.writes + 1 }

/-! #### The index -/

structure ScannedFile where
  place : List OsStr
  data : Bytes

/-- The files below an entry of a directory. -/
def scanEntryAt (enter : List OsStr → Fs → Except Fault (List ScannedFile) × Fs)
    (place : List OsStr) (fs : Fs) : Except Fault (List ScannedFile) × Fs :=
  match fs.disk.node place with
  | none => (.error .notFound, fs)
  | some (.link _ _) => (.ok [], fs)
  | some .dir => enter place fs
  | some (.file _) =>
    if scanSkips place then (.ok [], fs)
    else match fs.read ⟨place, false⟩ with
      | .error e => (.error e, fs)
      | .ok (data, fs) => (.ok [⟨place, data⟩], fs)

def scanEntries (enter : List OsStr → Fs → Except Fault (List ScannedFile) × Fs)
    (dir : List OsStr) : List OsStr → Fs → Except Fault (List ScannedFile) × Fs
  | [], fs => (.ok [], fs)
  | n :: names, fs =>
    match scanEntryAt enter (dir ++ [n]) fs with
    | (.error e, fs) => (.error e, fs)
    | (.ok found, fs) =>
      match scanEntries enter dir names fs with
      | (.error e, fs) => (.error e, fs)
      | (.ok rest, fs) => (.ok (found ++ rest), fs)

/-- `scan_dir`: the files below a directory. -/
def scanDir : ℕ → List OsStr → Fs → Except Fault (List ScannedFile) × Fs
  | 0, _, fs => (.ok [], fs)
  | depth + 1, dir, fs =>
    scanEntries (scanDir depth) dir (h.readDir fs.disk dir)
      { fs with accesses := fs.accesses ++ [.listed dir] }

/-- A path below the root as it is displayed. -/
def displayed (root place : List OsStr) : String :=
  String.ofList (List.intercalate ['/'] ((place.drop root.length).map fun n => n.map fun
    | .char c => c
    | .malformed _ => Char.ofNat 0xfffd))

/-- One file as the index lists it. -/
def protocolEntry (t : Disk) (root : List OsStr) (f : ScannedFile) : IndexEntry :=
  let mtime := Int64.ofInt (max 0 (h.mtime t f.place))
  indexEntry {
    path := ⟨displayed root f.place⟩
    kind := .file
    size := f.data.length
    hash := h.blake3 f.data
    version := .single ⟨h.deviceId⟩ mtime.toUInt64
    mtime := mtime }

/-- `SyncRoot::open`, of a path that is given as a string. -/
def openServed (path : Option LocalPath) : Serve (List OsStr) :=
  .call (fun e => .failed (.fault e)) fun fs =>
    match path with
    | none => (.error .notFound, fs)
    | some path => (openRoot fs.disk path, fs)

/-- `build_protocol_index`. -/
def buildServedIndex (path : Option LocalPath) : Serve (List IndexEntry) := do
  let root ← openServed path
  let files ← Serve.call (fun e => .failed (.fault e)) (scanDir h h.depth root)
  let s ← get
  pure (files.map (protocolEntry h s.fs.disk root))

/-! #### The files -/

/-- Read a file of the plan; one that cannot be read is left out. -/
def readPlanned (root : List OsStr) (path : String) (fs : Fs) :
    Except FsError (Option Bytes) × Fs :=
  match SyncRoot.safeJoin fs.disk root path with
  | .error e => (.error (.join e), fs)
  | .ok target =>
    match fs.read target with
    | .error _ => (.ok none, fs)
    | .ok (data, fs) => (.ok (some data), fs)

/-- Send what has been read. -/
def sendRead : Option Bytes → Serve Unit
  | none => pure ()
  | some _ => Serve.write h

def pushServed (root : List OsStr) (path : String) : Serve Unit := do
  let data ← Serve.call .failed (readPlanned root path)
  sendRead h data

def answerServed (root : List OsStr) (path : String) : Serve Unit := do
  let data ← Serve.call .failed (serveRequested root path)
  sendRead h data

/-- Commit a received file, if it is what the index says it is. -/
def takeServed (root : List OsStr) (path : LocalPath) (remote : Index) (name : String)
    (data : Bytes) : Serve Unit := do
  if hashMatches h.blake3 remote.entries name data = false then Serve.write h
  else
    let s ← get
    let c : Commit := ⟨name, data, h.secs s.commits, "remote", 0⟩
    let _ ← Serve.call .failed (commitReceived h.blake3 root path c)
    modify fun s => { s with commits := s.commits + 1 }
    Serve.write h

/-- One turn of the loop. -/
def turnServed (root : List OsStr) (path : LocalPath) (remote : Index) : SyncMessage → Serve Unit
  | .fileChunk c => do
    let s ← get
    if c.path = "metadata.db" then pure ()
    else match receiveChunk s.inbox c with
      | .refused e => throw (.refused e)
      | .more inbox => modify fun s => { s with inbox := inbox }
      | .complete inbox data =>
        modify fun s => { s with inbox := inbox }
        takeServed h root path remote c.path data
  | .fileRequest r =>
    if maxFileRequestPaths < r.paths.length then pure () else r.paths.forM (answerServed h root)
  | .ack a => modify fun s => { s with gotEof := s.gotEof || decide (a.path = "") }
  | _ => pure ()

/-- The turns that end without a look at whether all has come. -/
def continues (blake3 : Bytes → FileHash) (remote : Index) (s : Served) : SyncMessage → Bool
  | .fileChunk c =>
    if c.path = "metadata.db" then true
    else match receiveChunk s.inbox c with
      | .complete _ data => !hashMatches blake3 remote.entries c.path data
      | _ => false
  | .fileRequest r => decide (maxFileRequestPaths < r.paths.length)
  | _ => false

/-- The receive loop, over what can be read from the connection. -/
def receiveServed (root : List OsStr) (path : LocalPath) (remote : Index) :
    List SyncMessage → Serve Unit
  | [] => pure ()
  | m :: rest => do
    let before ← get
    turnServed h root path remote m
    let s ← get
    if continues h.blake3 remote before m = false ∧ s.gotEof = true ∧ s.inbox.isEmpty = true then
      pure ()
    else receiveServed root path remote rest

/-! #### The directory -/

/-- The client names a directory to be served. -/
def names (remote : Index) : Bool :=
  match remote.remotePath with
  | none => false
  | some rp => !rp.toList.all isWhitespace

/-- The string of the served directory. -/
def servedString (remote : Index) : String :=
  if names remote then remote.remotePath.getD "" else h.localPath

def servedPath (remote : Index) : Option LocalPath := LocalPath.parse h.cwd (servedString h remote)

/-- Make the served directory, if the client names it. -/
def chooseServed (remote : Index) : Serve Unit :=
  if names remote then
    .call (fun e => .failed (.fault e)) fun fs =>
      match servedPath h remote with
      | none => (.error .notFound, fs)
      | some path => createDirs (path.steps.length + 1) path fs
  else pure ()

/-- Serve the directory. -/
def serve (remote : Index) (messages : List SyncMessage) : Serve Unit := do
  let entries ← buildServedIndex h (servedPath h remote)
  Serve.write h
  let root ← openServed (servedPath h remote)
  let own : Index := ⟨toString h.folderId.val.toInt, h.deviceId, none, entries⟩
  let plan := serverPlan own remote h.folderId (h.order _ _)
  (plan.toPushToClient.map (·.path)).forM (pushServed h root)
  Serve.write h
  match servedPath h remote with
  | none => pure ()
  | some path => receiveServed h root path remote messages

/-- **The session**, from the client's index on; `messages` is what it then reads. -/
def handleServerSession (remote : Index) (messages : List SyncMessage) : Serve Unit :=
  if maxIndexEntries < remote.entries.length then throw (.refused "remote index too large")
  else do
    chooseServed h remote
    serve h remote messages

/-- The disk once the served directory is made. -/
def chosenDisk (remote : Index) (t : Disk) : Disk :=
  (after (chooseServed h remote) { fs := ⟨t, []⟩ }).fs.disk

/-- What a session does to the file system. -/
def sessionAccesses (remote : Index) (messages : List SyncMessage) (t : Disk) : List Access :=
  (after (handleServerSession h remote messages) { fs := ⟨t, []⟩ }).fs.accesses

end

/-! ### Making the directory -/

/-- Directories have been made where nothing was, and nothing else is different. -/
def Grows (t t' : Disk) : Prop := ∀ q, t.node q = t'.node q ∨ t.node q = none ∧ t'.isDir q = true

/-- A directory that a leading part of the path leads to. -/
def OnTheWay (t : Disk) (p : LocalPath) (q : List OsStr) : Prop :=
  t.isDir q = true ∧ ∃ steps, steps <+: p.steps ∧ t.walk true maxLinks p.start steps = .ok q

/-- Directories on the way have been made, and nothing else has been done. -/
structure MadeWay (p : LocalPath) (fs fs' : Fs) : Prop where
  grows : Grows fs.disk fs'.disk
  accesses : fs.Since (fun a => ∃ q, a = .made q ∧ OnTheWay fs'.disk p q) fs'

section

variable {t t' t'' : Disk} {p : LocalPath} {q : List OsStr} {fs fs' fs'' : Fs}

theorem Grows.trans (h : Grows t t') (h' : Grows t' t'') : Grows t t'' := by
  intro q
  rcases h' q with hsame' | ⟨hnone', hdir'⟩
  · rcases h q with hsame | ⟨hnone, hdir⟩
    · exact Or.inl (hsame.trans hsame')
    · exact Or.inr ⟨hnone, by rwa [Tree.isDir, ← hsame']⟩
  · rcases h q with hsame | ⟨hnone, -⟩
    · exact Or.inr ⟨hsame.trans hnone', hdir'⟩
    · exact Or.inr ⟨hnone, hdir'⟩

theorem Grows.isDir (h : Grows t t') (hdir : t.isDir q = true) : t'.isDir q = true := by
  rcases h q with hsame | ⟨-, hdir'⟩
  · rwa [Tree.isDir, ← hsame]
  · exact hdir'

/-- A walk to a directory is not led elsewhere by new ones. -/
theorem OnTheWay.grows (h : OnTheWay t p q) (hgrows : Grows t t') : OnTheWay t' p q := by
  obtain ⟨hdir, steps, hsteps, hwalk⟩ := h
  have hends : Tree.EndsAt t t' fun r => t.isDir r = false := by
    intro r
    refine (hgrows r).imp_right ?_
    rintro ⟨hnone, -⟩
    have hleaf : t.isDir r = false := by rw [Tree.isDir, hnone]
    exact ⟨hleaf, hleaf, by rw [Tree.isLink, hnone]⟩
  refine ⟨hgrows.isDir hdir, steps, hsteps, Tree.walk_congr hends ?_ hwalk⟩
  rw [hdir]
  decide

theorem LocalPath.parent_steps (p : LocalPath) : p.parent.steps <+: p.steps := by
  have hsuffix : (p.steps.reverse.dropWhile fun s => decide (s = .here)).tail <:+ p.steps.reverse :=
    (List.tail_suffix _).trans (List.dropWhile_suffix _)
  have hprefix := List.reverse_prefix.mpr hsuffix
  rwa [List.reverse_reverse] at hprefix

theorem OnTheWay.of_parent (h : OnTheWay t p.parent q) : OnTheWay t p q := by
  obtain ⟨hdir, steps, hsteps, hwalk⟩ := h
  exact ⟨hdir, steps, hsteps.trans p.parent_steps, hwalk⟩

theorem MadeWay.refl (p : LocalPath) (fs : Fs) : MadeWay p fs fs := ⟨fun _ => Or.inl rfl, .refl fs _⟩

theorem MadeWay.trans (h : MadeWay p fs fs') (h' : MadeWay p fs' fs'') : MadeWay p fs fs'' where
  grows := h.grows.trans h'.grows
  accesses := by
    refine Fs.Since.trans (h.accesses.imp ?_) h'.accesses
    rintro a ⟨q, rfl, hway⟩
    exact ⟨q, rfl, hway.grows h'.grows⟩

theorem MadeWay.of_parent (h : MadeWay p.parent fs fs') : MadeWay p fs fs' := by
  refine ⟨h.grows, h.accesses.imp ?_⟩
  rintro a ⟨q, rfl, hway⟩
  exact ⟨q, rfl, hway.of_parent⟩

theorem madeWay_mkdir (h : fs.mkdirAt p = .ok fs') : MadeWay p fs fs' := by
  unfold Fs.mkdirAt Tree.mkdir at h
  split_ifs at h with hstart
  rw [Bool.not_eq_false] at hstart
  cases hwalk : fs.disk.walk false maxLinks p.start p.steps with
  | error e =>
    rw [hwalk] at h
    cases h
  | ok place =>
    rw [hwalk] at h
    dsimp only at h
    cases hnode : fs.disk.node place with
    | some x =>
      rw [hnode] at h
      cases h
    | none =>
      rw [hnode] at h
      cases h
      have hleaf : fs.disk.isDir place = false := by rw [Tree.isDir, hnode]
      have hset := Tree.node_set (x := some .dir) (Tree.walk_parent hstart hwalk) hleaf
      have hdir : (fs.disk.set place (some .dir)).isDir place = true := by
        rw [Tree.isDir, hset, if_pos rfl]
      refine ⟨fun q => ?_, (Fs.Since.refl fs _).concat ⟨place, rfl, hdir, p.steps, List.prefix_rfl, ?_⟩ _⟩
      · dsimp only
        by_cases hq : q = place
        · rw [hq]
          exact Or.inr ⟨hnode, hdir⟩
        · rw [hset, if_neg hq]
          exact Or.inl rfl
      · refine Tree.walk_made (fun q => ?_) hnode hwalk
        by_cases hq : q = place
        · exact Or.inr ⟨hq, by rw [hq]; exact hdir⟩
        · dsimp only
          rw [hset, if_neg hq]
          exact Or.inl rfl

theorem createDirs_spec (fuel : ℕ) (p : LocalPath) (fs : Fs) :
    MadeWay p fs (createDirs fuel p fs).2 := by
  induction fuel generalizing p fs with
  | zero => exact .refl p fs
  | succ fuel ih =>
    rw [createDirs]
    by_cases hsteps : p.steps = []
    · rw [if_pos hsteps]
      exact .refl p fs
    · rw [if_neg hsteps]
      split
      · rename_i fs' hmkdir
        exact madeWay_mkdir hmkdir
      · split_ifs
        · have hparent := (ih p.parent fs).of_parent
          split
          · rename_i e fs' hmade
            rw [hmade] at hparent
            exact hparent
          · rename_i fs' hmade
            rw [hmade] at hparent
            split
            · rename_i fs'' hmkdir
              exact hparent.trans (madeWay_mkdir hmkdir)
            · split_ifs
              · exact hparent
              · exact hparent
        · exact .refl p fs
        · exact .refl p fs

end

/-! ### Serving it -/

/-- What is done stays inside the root, and the root stays what it was, unless a
link below it has the name of a temporary file or of a backup. -/
def Stays (root : List OsStr) (path : LocalPath) (fs fs' : Fs) : Prop :=
  openRoot fs.disk path = .ok root → PlainLinks fs.disk root →
    fs.Since (Access.Inside root) fs' ∧ openRoot fs'.disk path = .ok root ∧ PlainLinks fs'.disk root

section

variable {h : Handler} {root dir : List OsStr} {path : LocalPath} {remote : Index} {fs fs' : Fs}
variable {enter : List OsStr → Fs → Except Fault (List ScannedFile) × Fs}

theorem Stays.refl (root : List OsStr) (path : LocalPath) (fs : Fs) : Stays root path fs fs :=
  fun hopen hclean => ⟨.refl fs _, hopen, hclean⟩

theorem stays_composes (root : List OsStr) (path : LocalPath) :
    Composes fun s s' : Served => Stays root path s.fs s'.fs where
  refl s := .refl root path s.fs
  trans hfirst hsecond hopen hclean := by
    obtain ⟨hsince, hopen', hclean'⟩ := hfirst hopen hclean
    obtain ⟨hsince', hopen'', hclean''⟩ := hsecond hopen' hclean'
    exact ⟨hsince.trans hsince', hopen'', hclean''⟩

/-- What only looks stays inside, if it looks there. -/
theorem Stays.of_disk (hdisk : fs'.disk = fs.disk) (hsince : fs.Since (Access.Inside root) fs') :
    Stays root path fs fs' := by
  intro hopen hclean
  rw [hdisk]
  exact ⟨hsince, hopen, hclean⟩

theorem does_call {α E : Type} {error : E → HandlerError} {f : Fs → Except E α × Fs}
    (hf : ∀ fs, Stays root path fs (f fs).2) :
    Does (fun s s' : Served => Stays root path s.fs s'.fs) (Serve.call error f) := by
  intro s
  have hcall := hf s.fs
  show Stays root path s.fs (after (Serve.call error f) s).fs
  unfold after Serve.call
  cases hfs : f s.fs with
  | mk result fs =>
    rw [hfs] at hcall
    cases result with
    | ok a => exact hcall
    | error e => exact hcall

theorem does_write : Does (fun s s' : Served => Stays root path s.fs s'.fs) (Serve.write h) := by
  intro s
  show Stays root path s.fs (after (Serve.write h) s).fs
  unfold after Serve.write
  by_cases hwritten : h.written s.writes = true
  · rw [if_pos hwritten]
    exact .refl root path s.fs
  · rw [if_neg hwritten]
    exact .refl root path s.fs

/-! #### The scan -/

/-- Only the accesses are new. -/
structure Looks (root : List OsStr) (fs fs' : Fs) : Prop where
  disk : fs'.disk = fs.disk
  accesses : fs.Since (Access.Inside root) fs'

theorem Looks.refl (root : List OsStr) (fs : Fs) : Looks root fs fs := ⟨rfl, .refl fs _⟩

theorem Looks.trans {fs'' : Fs} (hfirst : Looks root fs fs') (hsecond : Looks root fs' fs'') :
    Looks root fs fs'' :=
  ⟨hsecond.disk.trans hfirst.disk, hfirst.accesses.trans hsecond.accesses⟩

/-- A file of a directory is read where it stands. -/
theorem read_entry {n : OsStr} {data : Bytes} (hnode : fs.disk.node (dir ++ [n]) = some (.file data)) :
    fs.disk.read maxLinks [] (OsPath.mk (dir ++ [n]) false).steps = .ok (dir ++ [n], data) ∧
      fs.read ⟨dir ++ [n], false⟩ =
        .ok (data, { fs with accesses := fs.accesses ++ [.read (dir ++ [n])] }) := by
  have hparent : fs.disk.isDir dir = true := Tree.isDir_concat (by rw [hnode]; simp)
  have hlink : fs.disk.isLink (dir ++ [n]) = false := by rw [Tree.isLink, hnode]
  have hwalk : fs.disk.walk true maxLinks [] (OsPath.mk (dir ++ [n]) false).steps =
      .ok (dir ++ [n]) := by
    rw [steps_plain]
    exact Tree.walk_entry hparent fun _ => hlink
  have hread : fs.disk.read maxLinks [] (OsPath.mk (dir ++ [n]) false).steps =
      .ok (dir ++ [n], data) := by
    unfold Tree.read
    rw [hwalk]
    dsimp only
    rw [hnode]
  exact ⟨hread, by rw [Fs.read, hread]⟩

theorem scanEntryAt_looks (henter : ∀ dir, root <+: dir → ∀ fs, Looks root fs (enter dir fs).2)
    {n : OsStr} (hdir : root <+: dir) (fs : Fs) :
    Looks root fs (scanEntryAt enter (dir ++ [n]) fs).2 := by
  have hin : root <+: dir ++ [n] := hdir.trans (List.prefix_append _ _)
  unfold scanEntryAt
  cases hnode : fs.disk.node (dir ++ [n]) with
  | none => exact .refl root fs
  | some x =>
    cases x with
    | link absolute steps => exact .refl root fs
    | dir => exact henter _ hin fs
    | file data =>
      dsimp only
      by_cases hskips : scanSkips (dir ++ [n]) = true
      · rw [if_pos hskips]
        exact .refl root fs
      · rw [if_neg hskips]
        rw [(read_entry hnode).2]
        refine ⟨rfl, (Fs.Since.refl fs _).concat (fun p hp => ?_) _⟩
        rw [List.mem_singleton.mp hp]
        exact hin

theorem scanEntries_looks (henter : ∀ dir, root <+: dir → ∀ fs, Looks root fs (enter dir fs).2)
    (hdir : root <+: dir) (names : List OsStr) (fs : Fs) :
    Looks root fs (scanEntries enter dir names fs).2 := by
  induction names generalizing fs with
  | nil => exact .refl root fs
  | cons n names ih =>
    rw [scanEntries]
    have hentry : Looks root fs (scanEntryAt enter (dir ++ [n]) fs).2 :=
      scanEntryAt_looks henter hdir fs
    split
    · rename_i e fs' hfound
      rw [hfound] at hentry
      exact hentry
    · rename_i found fs' hfound
      rw [hfound] at hentry
      have hrest := ih fs'
      split
      · rename_i e fs'' hscanned
        rw [hscanned] at hrest
        exact hentry.trans hrest
      · rename_i rest fs'' hscanned
        rw [hscanned] at hrest
        exact hentry.trans hrest

/-- **The scan looks inside the root.** -/
theorem scanDir_looks (depth : ℕ) (hdir : root <+: dir) (fs : Fs) :
    Looks root fs (scanDir h depth dir fs).2 := by
  induction depth generalizing dir fs with
  | zero => exact .refl root fs
  | succ depth ih =>
    have hlisted : Looks root fs { fs with accesses := fs.accesses ++ [.listed dir] } := by
      refine ⟨rfl, (Fs.Since.refl fs _).concat (fun p hp => ?_) _⟩
      rw [List.mem_singleton.mp hp]
      exact hdir
    exact hlisted.trans (scanEntries_looks (fun dir hdir fs => ih hdir fs) hdir _ _)

/-! #### The parts of the session -/

/-- What opens is the root. -/
theorem does_opened {α : Type} {f : List OsStr → Serve α}
    (hf : Does (fun s s' : Served => Stays root path s.fs s'.fs) (f root)) :
    Does (fun s s' : Served => Stays root path s.fs s'.fs) (openServed (some path) >>= f) := by
  intro s hopen hclean
  have hok : openServed (some path) s = .ok root s := by
    unfold openServed Serve.call
    dsimp only
    rw [hopen]
  have hafter : after (openServed (some path) >>= f) s = after (f root) s := by
    rw [after, bind_ok hok, after]
  rw [hafter]
  exact hf s hopen hclean

theorem does_modify {f : Served → Served} (hf : ∀ s, (f s).fs = s.fs) :
    Does (fun s s' : Served => Stays root path s.fs s'.fs) (modify f : Serve PUnit) := by
  intro s
  show Stays root path s.fs (f s).fs
  rw [hf]
  exact .refl root path s.fs

/-- Reading below the root. -/
theorem read_stays {q : OsPath} {data : Bytes} (hjoin : ∃ name, SyncRoot.safeJoin fs.disk root name = .ok q)
    (hread : fs.read q = .ok (data, fs')) : Stays root path fs fs' := by
  intro hopen
  have hroot := isDir_of_openRoot hopen
  obtain ⟨name, hjoin⟩ := hjoin
  obtain ⟨target, -, rfl, hlinks, -⟩ := (SyncRoot.safeJoin_ok_iff hroot).mp hjoin
  unfold Fs.read at hread
  split at hread
  · cases hread
  · rename_i place data' hplace
    cases hread
    obtain ⟨-, -, hname, -⟩ := read_place hroot hlinks (join_eq root target ▸ hplace)
    refine Stays.of_disk rfl ((Fs.Since.refl fs _).concat (fun p hp => ?_) _) hopen
    have hplace : place = root ++ target.path.map osName := hname
    rw [List.mem_singleton.mp hp, hplace]
    exact List.prefix_append root _

theorem does_send (data : Option Bytes) :
    Does (fun s s' : Served => Stays root path s.fs s'.fs) (sendRead h data) := by
  cases data with
  | none => exact .pure (stays_composes root path) _
  | some data => exact does_write

theorem does_push (name : String) :
    Does (fun s s' : Served => Stays root path s.fs s'.fs) (pushServed h root name) := by
  refine .bind (stays_composes root path) (does_call fun fs => ?_) does_send
  unfold readPlanned
  split
  · exact .refl root path fs
  · rename_i target hjoin
    split
    · exact .refl root path fs
    · rename_i data fs' hread
      exact read_stays ⟨name, hjoin⟩ hread

theorem does_answer (name : String) :
    Does (fun s s' : Served => Stays root path s.fs s'.fs) (answerServed h root name) := by
  refine .bind (stays_composes root path) (does_call fun fs => ?_) does_send
  unfold serveRequested
  split_ifs
  · exact .refl root path fs
  · split
    · exact .refl root path fs
    · rename_i target hjoin
      split
      · exact .refl root path fs
      · rename_i data fs' hread
        exact read_stays ⟨name, hjoin⟩ hread

theorem does_take (hdisplay : root.map OsStr.display = root) (name : String) (data : Bytes) :
    Does (fun s s' : Served => Stays root path s.fs s'.fs)
      (takeServed h root path remote name data) := by
  have hcomposes := stays_composes root path
  unfold takeServed
  split
  · exact does_write
  · refine .bind hcomposes (.get hcomposes) fun s => .bind hcomposes (does_call fun fs hopen hclean => ?_)
      fun _ => .bind hcomposes (does_modify fun _ => rfl) fun _ => does_write
    let c : Commit := ⟨name, data, h.secs s.commits, "remote", 0⟩
    have hkept : Kept root fs.disk (commitReceived h.blake3 root path c fs).2.disk :=
      commit_kept hopen hclean hdisplay
    refine ⟨?_, hkept.openRoot hopen, hkept.clean hclean⟩
    exact (commit_mayMove hopen hclean hdisplay).imp fun a ha => ha.1

/-- **What one message has the session do.** -/
theorem does_turn (hdisplay : root.map OsStr.display = root) (m : SyncMessage) :
    Does (fun s s' : Served => Stays root path s.fs s'.fs) (turnServed h root path remote m) := by
  have hcomposes := stays_composes root path
  cases m with
  | fileChunk c =>
    refine .bind hcomposes (.get hcomposes) fun s => ?_
    split
    · exact .pure hcomposes _
    · split
      · exact .throw hcomposes _
      · exact does_modify fun _ => rfl
      · exact .bind hcomposes (does_modify fun _ => rfl) fun _ => does_take hdisplay _ _
  | fileRequest r =>
    show Does _ (if maxFileRequestPaths < r.paths.length then pure () else r.paths.forM (answerServed h root))
    split
    · exact .pure hcomposes _
    · exact .forM hcomposes fun name _ => does_answer name
  | ack a => exact does_modify fun _ => rfl
  | _ => exact .pure hcomposes _

/-- **What any messages have it do.** -/
theorem does_receive (hdisplay : root.map OsStr.display = root) (messages : List SyncMessage) :
    Does (fun s s' : Served => Stays root path s.fs s'.fs)
      (receiveServed h root path remote messages) := by
  have hcomposes := stays_composes root path
  induction messages with
  | nil => exact .pure hcomposes _
  | cons m rest ih =>
    refine .bind hcomposes (.get hcomposes) fun before => .bind hcomposes (does_turn hdisplay m)
      fun _ => .bind hcomposes (.get hcomposes) fun s => ?_
    split
    · exact .pure hcomposes _
    · exact ih

/-- **What the session does from its root.** -/
theorem does_serve (hpath : servedPath h remote = some path)
    (hdisplay : root.map OsStr.display = root) (messages : List SyncMessage) :
    Does (fun s s' : Served => Stays root path s.fs s'.fs) (serve h remote messages) := by
  have hcomposes := stays_composes root path
  have hindex : Does (fun s s' : Served => Stays root path s.fs s'.fs)
      (buildServedIndex h (some path)) := by
    refine does_opened (.bind hcomposes (does_call fun fs => ?_) fun files =>
      .bind hcomposes (.get hcomposes) fun s => .pure hcomposes _)
    have hlooks : Looks root fs (scanDir h h.depth root fs).2 := scanDir_looks _ List.prefix_rfl fs
    exact .of_disk hlooks.disk hlooks.accesses
  unfold serve
  rw [hpath]
  refine .bind hcomposes hindex fun entries => .bind hcomposes does_write fun _ => does_opened ?_
  refine .bind hcomposes (.forM hcomposes fun name _ => does_push name) fun _ =>
    .bind hcomposes does_write fun _ => ?_
  exact does_receive hdisplay messages

/-- Without a root nothing is done. -/
theorem serve_unopened {messages : List SyncMessage} {s : Served}
    (hclosed : ∀ path, servedPath h remote = some path → ∀ r, openRoot s.fs.disk path ≠ .ok r) :
    (after (serve h remote messages) s).fs = s.fs := by
  have hfails : ∃ e, openServed (servedPath h remote) s = .error e s := by
    unfold openServed Serve.call
    cases hpath : servedPath h remote with
    | none => exact ⟨_, rfl⟩
    | some path =>
      dsimp only
      cases hopen : openRoot s.fs.disk path with
      | ok r => exact absurd hopen (hclosed path hpath r)
      | error e => exact ⟨_, rfl⟩
  obtain ⟨e, hfails⟩ := hfails
  have hindex : buildServedIndex h (servedPath h remote) s = .error e s := bind_error hfails
  have hserve : serve h remote messages s = .error e s := bind_error hindex
  rw [after_error hserve]

end

/-- What the served directory has to be for its files to stay below it: no link
below it has the name of a temporary file or of a backup, and its path is text. -/
def Servable (t : Disk) (path : LocalPath) : Prop :=
  ∀ root, openRoot t path = .ok root → PlainLinks t root ∧ root.map OsStr.display = root

theorem chooseServed_made (h : Handler) (remote : Index) (t : Disk) :
    ∀ a ∈ (after (chooseServed h remote) { fs := ⟨t, []⟩ }).fs.accesses,
      ∃ path, servedPath h remote = some path ∧ names remote = true ∧
        ∃ q, a = .made q ∧ OnTheWay (chosenDisk h remote t) path q := by
  unfold chosenDisk chooseServed
  by_cases hnames : names remote = true
  · rw [if_pos hnames]
    unfold after Serve.call
    cases hpath : servedPath h remote with
    | none =>
      intro a ha
      cases ha
    | some path =>
      have hmade := createDirs_spec (path.steps.length + 1) path ⟨t, []⟩
      dsimp only
      cases hdirs : createDirs (path.steps.length + 1) path ⟨t, []⟩ with
      | mk result fs =>
        rw [hdirs] at hmade
        have hmem : ∀ a ∈ fs.accesses, ∃ q, a = .made q ∧ OnTheWay fs.disk path q := fun a ha =>
          (hmade.accesses.mem ha).resolve_left List.not_mem_nil
        cases result with
        | ok u => exact fun a ha => ⟨path, rfl, hnames, hmem a ha⟩
        | error e => exact fun a ha => ⟨path, rfl, hnames, hmem a ha⟩
  · rw [if_neg hnames]
    intro a ha
    cases ha

/-- **What a session touches** is in the directory served, the listener's or the
one the client names; but if it is the client's, the directories on the way to it
are made. -/
theorem serving_confined (h : Handler) (remote : Index) (messages : List SyncMessage) (t : Disk)
    (hserve : ∀ path, servedPath h remote = some path → Servable (chosenDisk h remote t) path) :
    ∀ a ∈ sessionAccesses h remote messages t, ∃ path, servedPath h remote = some path ∧
      ((∃ root, openRoot (chosenDisk h remote t) path = .ok root ∧ a.Inside root) ∨
        names remote = true ∧ ∃ q, a = .made q ∧ OnTheWay (chosenDisk h remote t) path q) := by
  intro a ha
  have hchosen : a ∈ (after (chooseServed h remote) { fs := ⟨t, []⟩ }).fs.accesses ∨
      a ∈ (after (serve h remote messages) (after (chooseServed h remote) { fs := ⟨t, []⟩ })).fs.accesses := by
    unfold sessionAccesses handleServerSession at ha
    by_cases hlarge : maxIndexEntries < remote.entries.length
    · rw [if_pos hlarge] at ha
      cases ha
    · rw [if_neg hlarge] at ha
      rcases after_bind (chooseServed h remote) (fun _ => serve h remote messages)
        { fs := ⟨t, []⟩ } with hfailed | ⟨u, s, hok, hserved⟩
      · rw [hfailed] at ha
        exact Or.inl ha
      · rw [hserved] at ha
        rw [after_ok hok]
        exact Or.inr ha
  have hmade : a ∈ (after (chooseServed h remote) { fs := ⟨t, []⟩ }).fs.accesses →
      ∃ path, servedPath h remote = some path ∧
        ((∃ root, openRoot (chosenDisk h remote t) path = .ok root ∧ a.Inside root) ∨
          names remote = true ∧ ∃ q, a = .made q ∧ OnTheWay (chosenDisk h remote t) path q) := by
    intro ha
    obtain ⟨path, hpath, hnames, hway⟩ := chooseServed_made h remote t a ha
    exact ⟨path, hpath, Or.inr ⟨hnames, hway⟩⟩
  rcases hchosen with ha | ha
  · exact hmade ha
  · by_cases hopens : ∃ path root, servedPath h remote = some path ∧
        openRoot (chosenDisk h remote t) path = .ok root
    · obtain ⟨path, root, hpath, hopen⟩ := hopens
      obtain ⟨hclean, hdisplay⟩ := hserve path hpath root hopen
      obtain ⟨hsince, -, -⟩ := does_serve hpath hdisplay messages _ hopen hclean
      rcases hsince.mem ha with ha | hin
      · exact hmade ha
      · exact ⟨path, hpath, Or.inl ⟨root, hopen, hin⟩⟩
    · rw [serve_unopened fun path hpath r hopen => hopens ⟨path, r, hpath, hopen⟩] at ha
      exact hmade ha

/-! ### A directory that is not registered -/

/-- A disk without links: the folder `/srv`, and a file elsewhere. -/
def plainDisk : Disk :=
  ((Tree.empty.set [word "srv"] (some .dir)).set [word "etc"] (some .dir)).set
    [word "etc", word "passwd"] (some (.file [114]))

/-- A listener of the folder `/srv`. -/
def srvHandler : Handler where
  blake3 := sampleBlake3
  cwd := []
  localPath := "/srv"
  folderId := ⟨1⟩
  deviceId := "b"
  readDir := fun _ dir => if dir = [word "etc"] then [word "passwd"] else []
  depth := 3
  mtime := fun _ _ => 0
  order := PathOrder.firstSeen
  secs := fun _ => 0
  written := fun _ => true

/-- A client that keeps its peer's copy in `/etc`. -/
def etcIndex : Index := ⟨"7", "a", some "/etc", []⟩

theorem isLink_plainDisk (p : List OsStr) : plainDisk.isLink p = false := by
  by_contra hlink
  rw [Bool.not_eq_false] at hlink
  have hempty := Tree.isLink_set (fun _ _ h => by cases h) (Tree.isLink_set (fun _ _ h => by cases h)
    (Tree.isLink_set (fun _ _ h => by cases h) hlink))
  rw [Tree.isLink_empty] at hempty
  cases hempty

theorem serving_confined_etc : .read [word "etc", word "passwd"] ∈
      sessionAccesses srvHandler etcIndex [] plainDisk ∧
    ∀ a ∈ sessionAccesses srvHandler etcIndex [] plainDisk,
      ∃ path, servedPath srvHandler etcIndex = some path ∧
        ((∃ root, openRoot (chosenDisk srvHandler etcIndex plainDisk) path = .ok root ∧
            a.Inside root) ∨
          names etcIndex = true ∧
            ∃ q, a = .made q ∧ OnTheWay (chosenDisk srvHandler etcIndex plainDisk) path q) := by
  refine ⟨by decide +kernel, ?_⟩
  refine serving_confined srvHandler etcIndex [] plainDisk fun path hpath root hopen => ?_
  have hdisk : chosenDisk srvHandler etcIndex plainDisk = plainDisk := by rfl
  have hetc : servedPath srvHandler etcIndex = some ⟨[], [.name (word "etc")]⟩ := by rfl
  have hroot : openRoot plainDisk ⟨[], [.name (word "etc")]⟩ = .ok [word "etc"] := by decide +kernel
  rw [hetc] at hpath
  cases hpath
  rw [hdisk] at hopen ⊢
  rw [hroot] at hopen
  cases hopen
  refine ⟨fun q n _ hlink => ?_, by decide +kernel⟩
  rw [isLink_plainDisk] at hlink
  cases hlink

/-- **A session serves what this device has not registered.** -/
theorem serving_unregistered : ¬ ∀ (h : Handler) (registered : List String) (remote : Index)
    (messages : List SyncMessage) (t : Disk), h.localPath ∈ registered →
      ∀ a ∈ sessionAccesses h remote messages t, ∃ s ∈ registered, ∃ path root,
        LocalPath.parse h.cwd s = some path ∧ openRoot t path = .ok root ∧ a.Inside root := by
  intro hconfined
  have hread : .read [word "etc", word "passwd"] ∈ sessionAccesses srvHandler etcIndex [] plainDisk := by
    decide +kernel
  have hsrv : LocalPath.parse [] "/srv" = some ⟨[], [.name (word "srv")]⟩ := by rfl
  have hroot : openRoot plainDisk ⟨[], [.name (word "srv")]⟩ = .ok [word "srv"] := by decide +kernel
  obtain ⟨s, hs, path, root, hpath, hopen, hin⟩ := hconfined srvHandler ["/srv"] etcIndex []
    plainDisk List.mem_cons_self _ hread
  rw [List.mem_singleton.mp hs] at hpath
  have hpath' : LocalPath.parse [] "/srv" = some path := hpath
  rw [hsrv] at hpath'
  cases hpath'
  rw [hroot] at hopen
  cases hopen
  have hout := hin _ (List.mem_singleton_self _)
  revert hout
  decide +kernel

end FerriSync
