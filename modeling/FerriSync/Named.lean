/-
# Sessions at the directories of a pair

A client that has stored its peer's directory sends it with its index, and the server goes
there, whichever folder its listener serves (`handle_server_session`). The session ends
as it would if that directory were the registered one (`named_session_ends`): once both have
read the other's index, nothing tells the two sessions apart.

What is stored comes from the pairing (`Couple`). Where all acts agree, every session for a
paired folder, whoever starts it and whichever listener answers, leaves the same
files in the two directories that are registered for it (`paired_folders_agree`).

Key definitions: `Ends.named`, `Ends.Named`, `SessionCall.ends`, `Couple.Starts`.
Key theorems: `named_session_meets`, `named_session_ends`, `paired_folders_agree`.
-/
import FerriSync.Converge
import FerriSync.Couples

namespace FerriSync

open Machine

/-! ### A directory that the client names -/

/-- The ends of the same session, where the client sends a path and the listener serves
another folder. -/
def Ends.named (e : Ends) (remotePath : Option String) (listener : Folder) : Ends := { e with
  client := { e.client with remotePath := remotePath }
  serverFolder := listener }

/-- The steps of a session. -/
abbrev Ends.Steps (e : Ends) : Duplex Party Party SyncMessage → Duplex Party Party SyncMessage → Prop :=
  Step (Party.next e.client) (Party.next e.server)

/-- The path leads the server to its folder, and both forms of the index can be read. -/
structure Ends.Named (e : Ends) (remotePath : Option String) (listener : Folder) : Prop where
  clientRole : e.client.role = .client
  serverRole : e.server.role = .server
  registered : e.client.remotePath = none
  encoding : e.server.serialize = e.client.serialize
  root : servedRoot e.server listener remotePath = .ok e.serverFolder
  entries : e.clientIndex.entries.length ≤ maxIndexEntries
  frame : frameTooLarge e.client.serialize (.index e.clientIndex) = false
  namedFrame : frameTooLarge e.client.serialize (.index (e.named remotePath listener).clientIndex) = false

/-- The path that a client sends is in its first message and nowhere else. -/
theorem next_named (cfg : Config) (remotePath : Option String) :
    Party.next { cfg with remotePath := remotePath } = Party.next cfg := rfl

section

variable {e : Ends} {remotePath : Option String} {listener : Folder}

theorem Ends.steps_diamond (e : Ends) : RandomDescent.Diamond e.Steps :=
  step_diamond (quiet_of_drain e.client) (quiet_of_drain e.server)

/-- The server reads an index that leads it to a folder as if that folder were registered. -/
theorem serverIndex_named {server : Config} {g root : Folder} {idx : Index}
    (hroot : servedRoot server g idx.remotePath = .ok root)
    (hentries : idx.entries.length ≤ maxIndexEntries) :
    serverIndex server (serverStart g) (.index idx) =
      serverIndex server (serverStart root) (.index { idx with remotePath := none }) := by
  have hlen : ¬ maxIndexEntries < idx.entries.length := Nat.not_lt.mpr hentries
  have hregistered : servedRoot server (serverStart root).folder none = .ok root := rfl
  have hnamed : servedRoot server (serverStart g).folder idx.remotePath = .ok root := hroot
  simp only [serverIndex, if_neg hlen, hregistered, hnamed]
  rfl

/-- The client writes its index, and the server reads it. -/
theorem reach_indexRead (hclient : e.client.role = .client) (hserver : e.server.role = .server)
    (hencoding : e.server.serialize = e.client.serialize)
    (hframe : frameTooLarge e.client.serialize (.index e.clientIndex) = false) :
    Reach (Party.next e.client) (Party.next e.server) e.start
      ⟨{ clientStart e.client e.clientFolder with todo := [] },
        serverIndex e.server (serverStart e.serverFolder) (.index e.clientIndex), [], []⟩ := by
  have hstart : e.start =
      ⟨clientStart e.client e.clientFolder, serverStart e.serverFolder, [], []⟩ := by
    simp only [Ends.start, start, hclient, hserver]
  have hwrite : Does (Party.next e.client) (clientStart e.client e.clientFolder) []
      [.index e.clientIndex] { clientStart e.client e.clientFolder with todo := [] } :=
    .write rfl (.nothing _)
  have hread : Does (Party.next e.server) (serverStart e.serverFolder) [.index e.clientIndex] []
      (serverIndex e.server (serverStart e.serverFolder) (.index e.clientIndex)) := by
    refine .read rfl ?_
    rw [if_neg (by simp [hencoding, hframe]), onIndex, hserver]
    exact .nothing _
  rw [hstart]
  exact (Reach.left hwrite _ [] []).trans (Reach.right hread _ [] [])

/-- **The two sessions meet**: the one with the path and the one with the registered folder. -/
theorem named_session_meets (h : e.Named remotePath listener) :
    ∃ z, Relation.ReflTransGen e.Steps (e.named remotePath listener).start z ∧
      Relation.ReflTransGen e.Steps e.start z := by
  have hdirect := reach_indexRead h.clientRole h.serverRole h.encoding h.frame
  have hnamed := reach_indexRead (e := e.named remotePath listener) h.clientRole h.serverRole
    h.encoding h.namedFrame
  have hroot : servedRoot (e.named remotePath listener).server listener
      (e.named remotePath listener).clientIndex.remotePath = .ok e.serverFolder := h.root
  have hindex : { (e.named remotePath listener).clientIndex with remotePath := none } = e.clientIndex := by
    have hnone : e.clientIndex.remotePath = none := h.registered
    rw [← hnone]
    rfl
  have hsame : serverIndex (e.named remotePath listener).server
      (serverStart (e.named remotePath listener).serverFolder)
        (.index (e.named remotePath listener).clientIndex) =
      serverIndex e.server (serverStart e.serverFolder) (.index e.clientIndex) := by
    rw [← hindex]
    exact serverIndex_named hroot h.entries
  rw [hsame] at hnamed
  exact ⟨_, hnamed, hdirect⟩

/-- **A session at a directory that the client names is the session with that directory**: it
always comes to an end exactly if the other does, and the two have the same ends. -/
theorem named_session_ends (h : e.Named remotePath listener) :
    ((∀ f : ℕ → Duplex Party Party SyncMessage, f 0 = (e.named remotePath listener).start →
        ¬ ∀ i, (e.named remotePath listener).Steps (f i) (f (i + 1))) ↔
      ∀ f : ℕ → Duplex Party Party SyncMessage, f 0 = e.start → ¬ ∀ i, e.Steps (f i) (f (i + 1))) ∧
    ∀ x, RandomDescent.Final (e.named remotePath listener).Steps x ∧
        Relation.ReflTransGen (e.named remotePath listener).Steps (e.named remotePath listener).start x ↔
      RandomDescent.Final e.Steps x ∧ Relation.ReflTransGen e.Steps e.start x := by
  have hsteps : (e.named remotePath listener).Steps = e.Steps := by
    unfold Ends.Steps Ends.named
    rw [next_named]
  obtain ⟨z, hnamed, hdirect⟩ := named_session_meets h
  rw [hsteps]
  constructor
  · constructor
    · exact RandomDescent.no_infinite_run_of_meet e.steps_diamond hnamed hdirect
    · exact RandomDescent.no_infinite_run_of_meet e.steps_diamond hdirect hnamed
  · intro x
    constructor
    · rintro ⟨hx, hreach⟩
      exact ⟨hx, RandomDescent.ends_of_meet e.steps_diamond hnamed hdirect hx hreach⟩
    · rintro ⟨hx, hreach⟩
      exact ⟨hx, RandomDescent.ends_of_meet e.steps_diamond hdirect hnamed hx hreach⟩

end

/-! ### The session of a call -/

/-- The two ends of a session of the call with a listener: `here` and `there` are what stands
at each path on the two devices. -/
def SessionCall.ends (call : SessionCall) (client server : Config) (here there : String → Folder)
    (listenerPath : String) : Ends where
  client := { client with dryRun := call.dryRun, remotePath := call.remotePath }
  server := { server with rootAt := fun path => .ok (there path) }
  clientFolder := here call.localPath
  serverFolder := there listenerPath

/-- The ends of a session between two registered directories. -/
def registeredEnds (client server : Config) (here there : Folder) : Ends :=
  ⟨{ client with dryRun := false, remotePath := none }, server, here, there⟩

/-- No named directory is looked up in a regular session. -/
theorem Regular.with_rootAt {e : Ends} (h : Regular e) (rootAt : String → Except String Folder) :
    Regular { e with server := { e.server with rootAt := rootAt } } :=
  ⟨⟨⟨h.clientRole, h.serverRole, h.wet, h.registered, h.hash, h.encoding, h.sizes, h.listed, h.apart,
    h.clientDirs, h.serverDirs, h.faithful⟩, h.clientEntries, h.serverEntries, h.clientFrame,
    h.serverFrame⟩, h.names, h.data⟩

/-- **A session of a call is one between its two directories.** -/
theorem SessionCall.named_ends {call : SessionCall} {client server : Config}
    {here there : String → Folder} {listenerPath : String} {dirs : SessionDirectories}
    (hdirs : sessionDirectories call listenerPath = dirs) (hwet : call.dryRun = false)
    (h : Regular (registeredEnds client server (here dirs.initiator) (there dirs.responder)))
    (hframe : frameTooLarge client.serialize
      (.index (call.ends client server here there listenerPath).clientIndex) = false) :
    let e := registeredEnds client { server with rootAt := fun path => .ok (there path) }
      (here dirs.initiator) (there dirs.responder)
    call.ends client server here there listenerPath = e.named call.remotePath (there listenerPath) ∧
      e.Named call.remotePath (there listenerPath) := by
  subst hdirs
  have hends : call.ends client server here there listenerPath =
      (registeredEnds client { server with rootAt := fun path => .ok (there path) }
        (here call.localPath) (there (servedRootPath listenerPath call.remotePath))).named
        call.remotePath (there listenerPath) := by
    unfold SessionCall.ends Ends.named registeredEnds
    rw [hwet]
  refine ⟨hends, h.clientRole, h.serverRole, rfl, h.encoding, ?_, h.clientEntries, h.clientFrame, ?_⟩
  · exact servedRoot_eq _ _ _ rfl _
  · rw [hends] at hframe
    exact hframe

/-- It comes to an end; then both ends have returned `Ok`, and both hold what a session of
`direct` chooses. -/
def Ends.ComesTo (e direct : Ends) : Prop :=
  (∀ f : ℕ → Duplex Party Party SyncMessage, f 0 = e.start → ¬ ∀ i, e.Steps (f i) (f (i + 1))) ∧
    ∀ x, Relation.ReflTransGen e.Steps e.start x → RandomDescent.Final e.Steps x →
      x.left.phase = .ended (.ok ()) ∧ x.right.phase = .ended (.ok ()) ∧
      ∀ u, direct.files u → ∃ b, direct.chosen u = some b ∧ x.left.folder.content u = some b ∧
        x.right.folder.content u = some b

theorem Ends.Named.comesTo {e : Ends} {remotePath : Option String} {listener : Folder}
    (hnamed : e.Named remotePath listener) (h : Regular e) : (e.named remotePath listener).ComesTo e := by
  obtain ⟨hfinite, hends⟩ := named_session_ends hnamed
  refine ⟨hfinite.mpr h.converges.1, fun x hreach hfinal => ?_⟩
  obtain ⟨hfinal', hreach'⟩ := (hends x).mp ⟨hfinal, hreach⟩
  obtain ⟨hleft, hright, hcontent, -⟩ := h.converges.2 x hreach' hfinal'
  exact ⟨hleft, hright, hcontent⟩

/-! ### Paired folders -/

def Side.other : Side → Side
  | .owner => .requester
  | .requester => .owner

def Couple.device (c : Couple) : Side → PairingDevice
  | .owner => c.owner
  | .requester => c.requester

/-- A device can start a session for `f` that a listener of the other answers: both have paired
the folder with one another, the other as `g`. -/
structure Couple.Starts (c : Couple) (side : Side) (f g : SyncFolderRow) (l : FolderListener) : Prop where
  here : f ∈ (c.device side).db.syncFolders
  there : g ∈ (c.device side.other).db.syncFolders
  shared : f.folderGuid.isSome = true
  guid : f.folderGuid = g.folderGuid
  pairedHere : (f.id, (c.device side.other).ownId) ∈ (c.device side).db.pairKeys
  pairedThere : (g.id, (c.device side).ownId) ∈ (c.device side.other).db.pairKeys
  listener : l ∈ (c.device side.other).listeners

section

variable {c : Couple} {side : Side} {f g : SyncFolderRow} {l : FolderListener}

theorem Couple.Starts.directories (h : c.Starts side f g l) (hmeet : c.MeetRight) (addr : String)
    (dryRun : Bool) : sessionDirectories ((c.device side).db.syncCall f (c.device side.other).ownId
      addr dryRun) l.path = ⟨f.localPath, g.localPath⟩ := by
  cases side with
  | owner =>
    exact hmeet.fromOwner f h.here g h.there h.shared h.guid h.pairedHere h.pairedThere l h.listener
      addr dryRun
  | requester =>
    exact hmeet.fromRequester f h.here g h.there h.shared h.guid h.pairedHere h.pairedThere l
      h.listener addr dryRun

end

/-- Two devices that have come about by acts that all agree. -/
inductive Couple.Agreed (blake3 : Bytes → FileHash) : Couple → Prop
  | new {ownerId requesterId : String} (ownerProcess requesterProcess : ℕ) :
    ownerId ≠ requesterId → Agreed blake3 (Couple.new ownerId requesterId ownerProcess requesterProcess)
  | step {c : Couple} {act : PairAct} : Agreed blake3 c → c.Agrees act → Agreed blake3 (c.step blake3 act)

theorem Couple.Agreed.meetRight {blake3 : Bytes → FileHash} {c : Couple} (h : c.Agreed blake3) :
    c.owner.ownId ≠ c.requester.ownId ∧ c.MeetRight := by
  induction h with
  | new ownerProcess requesterProcess hne => exact ⟨hne, Couple.meetRight_new ..⟩
  | @step c act _ hagrees ih =>
    obtain ⟨hne, hmeet⟩ := ih
    obtain ⟨howner, hrequester⟩ : (c.step blake3 act).owner.ownId = c.owner.ownId ∧
      (c.step blake3 act).requester.ownId = c.requester.ownId := Couple.ownIds_step c act
    rw [howner, hrequester]
    exact ⟨hne, (Couple.meetRight_step hne hmeet act).mpr hagrees⟩

theorem Couple.Agreed.run {blake3 : Bytes → FileHash} {c : Couple} {acts : List PairAct}
    (h : c.Agreed blake3) (hagree : Runs.Meets (Couple.step blake3) Couple.Agrees c acts) :
    (acts.foldl (Couple.step blake3) c).Agreed blake3 := by
  induction acts generalizing c with
  | nil => exact h
  | cons act acts ih =>
    obtain ⟨hfirst, hrest⟩ := Runs.meets_cons.mp hagree
    exact ih (h.step hfirst) hrest

/-- **What is paired comes together.** After acts that all agree, a session for a paired
folder, whoever starts it and whichever listener answers, leaves in both registered
directories the files that are chosen between the two. -/
theorem paired_folders_agree {blake3 : Bytes → FileHash} {c : Couple} (hc : c.Agreed blake3)
    {side : Side} {f g : SyncFolderRow} {l : FolderListener} (hstarts : c.Starts side f g l)
    (addr : String) (client server : Config) (here there : String → Folder)
    (hregular : Regular (registeredEnds client server (here f.localPath) (there g.localPath)))
    (hframe : frameTooLarge client.serialize (.index (((c.device side).db.syncCall f
      (c.device side.other).ownId addr false).ends client server here there l.path).clientIndex) = false) :
    (((c.device side).db.syncCall f (c.device side.other).ownId addr false).ends
      client server here there l.path).ComesTo
        (registeredEnds client server (here f.localPath) (there g.localPath)) := by
  obtain ⟨-, hmeet⟩ := hc.meetRight
  obtain ⟨hends, hnamed⟩ :=
    SessionCall.named_ends (hstarts.directories hmeet addr false) rfl hregular hframe
  rw [hends]
  exact hnamed.comesTo (hregular.with_rootAt _)

/-! ### A path is named -/

/-- The phone's files: its photos, and no documents. -/
def phoneFiles (path : String) : Folder :=
  if path = "/photos" then sampleFolder [(sampleName, [98])] else sampleFolder []

theorem phoneFiles_photos : phoneFiles "/photos" = sampleFolder [(sampleName, [98])] := if_pos rfl

/-- A session for the photos. -/
theorem regular_photos : Regular (registeredEnds (sampleConfig .client) (sampleConfig .server)
    (sampleFolder [(sampleName, [97])]) (phoneFiles "/photos")) := by
  rw [phoneFiles_photos]
  exact regular_sampleEnds [(sampleName, [97])] [(sampleName, [98])] (by decide +kernel)
    (by decide +kernel) (by decide +kernel) (by decide +kernel)

/-- The same, if the server finds its folders by their paths. -/
def photosEnds : Ends :=
  registeredEnds (sampleConfig .client)
    { sampleConfig .server with rootAt := fun path => .ok (phoneFiles path) }
    (sampleFolder [(sampleName, [97])]) (phoneFiles "/photos")

theorem named_session_ends_photos :
    ∃ x, RandomDescent.Final (photosEnds.named (some "/photos") (phoneFiles "/docs")).Steps x ∧
      Relation.ReflTransGen (photosEnds.named (some "/photos") (phoneFiles "/docs")).Steps
        (photosEnds.named (some "/photos") (phoneFiles "/docs")).start x := by
  have hregular : Regular photosEnds := regular_photos.with_rootAt fun path => .ok (phoneFiles path)
  obtain ⟨x, hreach, hfinal⟩ := hregular.converges.exists_end
  have hnamed : photosEnds.Named (some "/photos") (phoneFiles "/docs") :=
    ⟨rfl, rfl, rfl, rfl, servedRoot_eq photosEnds.server "/docs" _ rfl (some "/photos"),
      by decide +kernel, by decide +kernel, by decide +kernel⟩
  exact ⟨x, ((named_session_ends hnamed).2 x).mpr ⟨hfinal, hreach⟩⟩

/-! ### Two copies at one path -/

/-- Both devices keep their photos at one path, and the requester serves its documents too. -/
def samePaths : List PairAct :=
  [.serve .owner "Laptop" "/photos", .share photosGuid "Photos" "/photos",
    .registerDevice .owner "phone" "Phone" (some [2]) none, .serve .requester "Phone" "/photos",
    .serve .requester "Phone" "/docs", .registerDevice .requester "laptop" "Laptop" (some [1]) none,
    .ask 0 "Phone" photosGuid "Photos",
    .wire ⟨photosGuid, "Photos", "bidirectional", some "/photos"⟩ "/photos" "Photos" "192.168.1.2:9000"]

def samePathsCouple : Couple :=
  samePaths.foldl (Couple.step sampleBlake3) (Couple.new "laptop" "phone" 1 2)

theorem samePathsCouple_agreed : samePathsCouple.Agreed sampleBlake3 := by
  refine (Couple.Agreed.new 1 2 (by decide)).run ?_
  unfold samePaths
  simp only [Runs.meets_cons]
  refine ⟨?_, trivial, trivial, ?_, ?_, trivial, fun _ _ _ _ q hq => ?_, fun _ _ => ?_, Runs.meets_nil⟩
  · show ∀ p ∈ Couple.owned _, ∀ q ∈ Couple.wired _, _
    decide +kernel
  · show ∀ p ∈ Couple.owned _, ∀ q ∈ Couple.wired _, _
    decide +kernel
  · show ∀ p ∈ Couple.owned _, ∀ q ∈ Couple.wired _, _
    decide +kernel
  · -- the requester has paired nothing before it wires
    exact absurd hq (List.eq_nil_iff_forall_not_mem.mp (by decide +kernel) q)
  · decide +kernel

/-- The row of the photos on a device. -/
def photosRow (deviceId : String) : SyncFolderRow :=
  ⟨1, "/photos", some "photos", deviceId, "bidirectional", some photosGuid⟩

/-- The listener that serves the documents answers, and the photos are synced. -/
theorem paired_folders_agree_docs : ∃ l ∈ samePathsCouple.requester.listeners, l.path = "/docs" ∧
    ((samePathsCouple.owner.db.syncCall (photosRow "laptop") samePathsCouple.requester.ownId
      "192.168.1.3:9001" false).ends (sampleConfig .client) (sampleConfig .server)
        (fun _ => sampleFolder [(sampleName, [97])]) phoneFiles l.path).ComesTo
      (registeredEnds (sampleConfig .client) (sampleConfig .server) (sampleFolder [(sampleName, [97])])
        (phoneFiles "/photos")) := by
  obtain ⟨l, hl, hpath⟩ : ∃ l ∈ samePathsCouple.requester.listeners, l.path = "/docs" :=
    List.mem_map.mp (show "/docs" ∈ samePathsCouple.requester.paths by decide +kernel)
  have hstarts : samePathsCouple.Starts .owner (photosRow "laptop") (photosRow "phone") l :=
    ⟨by decide +kernel, by decide +kernel, rfl, rfl, by decide +kernel, by decide +kernel, hl⟩
  refine ⟨l, hl, hpath, paired_folders_agree samePathsCouple_agreed hstarts "192.168.1.3:9001"
    (sampleConfig .client) (sampleConfig .server) (fun _ => sampleFolder [(sampleName, [97])])
    phoneFiles regular_photos ?_⟩
  rw [hpath]
  decide +kernel

end FerriSync
