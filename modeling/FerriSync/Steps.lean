/-
# What a step of a session can do

The steps of `Party.next`, each with all it changes and all it has checked:
`ActEffect` for the things to do, `ChunkEffect` for a chunk read, `Effect` for
a whole step. `step_effect` says that there are no others; every invariant of
a session is a case analysis of it.

Key definitions: `ActEffect`, `ChunkEffect`, `Effect`.
Key theorems: `onChunk_effect`, `step_effect`.
-/
import FerriSync.Session

namespace FerriSync

open Machine

variable (cfg : Config)

namespace Party

/-- A file has been sent. -/
def uploaded (p : Party) (path : String) (len : ℕ) : Party := { p with
  result := { p.result with
    pushed := p.result.pushed ++ [path], pushedBytes := p.result.pushedBytes + len }
  doneFiles := p.doneFiles + 1, doneBytes := p.doneBytes + len }

/-- A file has been received. -/
def downloaded (p : Party) (path : String) (len : ℕ) : Party := { p with
  result := { p.result with
    pulled := p.result.pulled ++ [path], pulledBytes := p.result.pulledBytes + len }
  doneFiles := p.doneFiles + 1, doneBytes := p.doneBytes + len }

end Party

/-- What doing one thing can come to; `p` has it no longer to do. -/
inductive ActEffect (p : Party) : Action → Party → Prop
  | failed (a : Action) (e : String) : ActEffect p a (p.fail e)
  | write (m : SyncMessage) : ActEffect p (.write m) p
  | progress (stage : String) : ActEffect p (.progress stage) p
  | finishDry : ActEffect p .finishDry { p with phase := .ended (.ok ()) }
  | unreadable {path : String} {t : Target} {e : String} : safeJoin path = .ok t →
      p.folder.read t = .error e → ActEffect p (.pushFile path) p
  | pushFile {path : String} {t : Target} {data : Bytes} : safeJoin path = .ok t →
      p.folder.read t = .ok data → ActEffect p (.pushFile path) { p with
        todo := chunkActions cfg path data ++
          (.uploaded path data.length :: .filePushed path :: p.todo) }
  | uploaded (path : String) (len : ℕ) : ActEffect p (.uploaded path len) (p.uploaded path len)
  | filePushed (path : String) : ActEffect p (.filePushed path) p
  | conflict (path : String) : ActEffect p (.conflict path)
      { p with result := { p.result with conflicts := p.result.conflicts ++ [path] } }
  | installFailed {path e : String} {t : Target} {data : Bytes} {g : Folder} :
      FerriSync.install t data (cfg.mtime p.tick) p.folder = (.error e, g) →
      ActEffect p (.install path t data) ({ p with folder := g }.fail e)
  | install {path : String} {t : Target} {data : Bytes} {g : Folder} :
      FerriSync.install t data (cfg.mtime p.tick) p.folder = (.ok (), g) →
      ActEffect p (.install path t data) { p with
        folder := g, tick := p.tick + 1, committed := p.committed ++ [(path, data)] }
  | downloaded (path : String) (len : ℕ) :
      ActEffect p (.downloaded path len) (p.downloaded path len)
  | filePulled (path : String) :
      ActEffect p (.filePulled path) { p with receivedPulls := p.receivedPulls + 1 }
  | unserved (path : String) : ActEffect p (.serve path) p
  | serve {path : String} {t : Target} {data : Bytes} : safeJoin path = .ok t →
      p.folder.read t = .ok data → ActEffect p (.serve path) { p with
        todo := chunkActions cfg path data ++ (.served path data.length :: p.todo) }
  | served (path : String) (len : ℕ) : ActEffect p (.served path len) { p with
      servedRequests := p.servedRequests ++ [path]
      result := { p.result with pushedBytes := p.result.pushedBytes + len } }

/-- What a chunk can come to. -/
inductive ChunkEffect (p : Party) (c : FileChunk) : Party → Prop
  | metadata : c.path = "metadata.db" → ChunkEffect p c { p with phase := .receiving }
  | refused (e : String) : ChunkEffect p c (p.fail e)
  | more {inbox : Inbox} : receiveChunk p.inbox c = .more inbox →
      ChunkEffect p c { p with inbox := inbox, phase := bottom cfg }
  | mismatch {inbox : Inbox} {data : Bytes} : receiveChunk p.inbox c = .complete inbox data →
      hashMatches cfg.blake3 p.remote c.path data = false → ChunkEffect p c { p with
        inbox := inbox
        todo := [.write (.ack ⟨c.path, false, some "hash mismatch"⟩)], phase := .receiving }
  | unsafePath {inbox : Inbox} (e : String) : ChunkEffect p c ({ p with inbox := inbox }.fail e)
  | prepareFailed {inbox : Inbox} {data : Bytes} {t : Target} {e : String} {g : Folder} :
      c.path ≠ "metadata.db" → receiveChunk p.inbox c = .complete inbox data →
      hashMatches cfg.blake3 p.remote c.path data = true → safeJoin c.path = .ok t →
      prepare cfg.blake3 (cfg.secs p.tick) cfg.label t data p.folder = (.error e, g) →
      ChunkEffect p c ({ p with inbox := inbox, folder := g }.fail e)
  | prepared {inbox : Inbox} {data : Bytes} {t : Target} {conflicted : Bool} {g : Folder} :
      c.path ≠ "metadata.db" → receiveChunk p.inbox c = .complete inbox data →
      hashMatches cfg.blake3 p.remote c.path data = true → safeJoin c.path = .ok t →
      prepare cfg.blake3 (cfg.secs p.tick) cfg.label t data p.folder = (.ok conflicted, g) →
      ChunkEffect p c { p with
        inbox := inbox
        folder := g
        todo := (if conflicted then [.conflict c.path] else []) ++ commitActions cfg c.path t data
        phase := bottom cfg }

/-- What a message read in the loop can come to. -/
inductive MessageEffect (p : Party) : SyncMessage → Party → Prop
  | chunk {c : FileChunk} {p' : Party} : ChunkEffect cfg p c p' → MessageEffect p (.fileChunk c) p'
  | ack {a : Ack} : cfg.role = .client → a.path ≠ "" → a.path ∈ p.result.pushed →
      MessageEffect p (.ack a) { p with acked := insert a.path p.acked }
  | eof (a : Ack) : cfg.role = .server → MessageEffect p (.ack a)
      { p with gotEof := p.gotEof || decide (a.path = ""), phase := .checking }
  | request (r : FileRequest) (paths : List String) :
      MessageEffect p (.fileRequest r) { p with todo := paths.map .serve, phase := bottom cfg }
  | tooMany (r : FileRequest) : MessageEffect p (.fileRequest r) { p with phase := .receiving }
  | ignored (m : SyncMessage) : cfg.role = .client → MessageEffect p m p
  | unused (m : SyncMessage) : cfg.role = .server → MessageEffect p m { p with phase := .checking }

/-- What a step can come to. -/
inductive Effect (p : Party) : Input SyncMessage → Party → Prop
  | idle (i : Input SyncMessage) : Effect p i p
  | act {i : Input SyncMessage} {a : Action} {rest : List Action} {p' : Party} :
      p.todo = a :: rest → ActEffect cfg { p with todo := rest } a p' → Effect p i p'
  | noIndex {i : Input SyncMessage} (e : String) : p.phase = .awaitIndex → Effect p i (p.fail e)
  | index (m : SyncMessage) : p.todo = [] → p.phase = .awaitIndex →
      Effect p (.message m) (onIndex cfg p m)
  | complete (i : Input SyncMessage) : p.todo = [] → p.phase = .receiving → cfg.role = .client →
      p.complete = true → Effect p i { p with phase := .draining }
  | broken (i : Input SyncMessage) : p.todo = [] → p.phase = .receiving →
      (∀ m, i = .message m → frameTooLarge cfg.serialize m = true) → i ≠ .go →
      Effect p i { p with phase := .draining }
  | message {m : SyncMessage} {p' : Party} : p.todo = [] → p.phase = .receiving →
      ¬ (cfg.role = .client ∧ p.complete = true) → MessageEffect cfg p m p' →
      Effect p (.message m) p'
  | check (i : Input SyncMessage) : p.todo = [] → p.phase = .checking → Effect p i { p with
      phase := if p.gotEof && p.inbox.isEmpty then .draining else .receiving }
  | stopped (i : Input SyncMessage) : p.todo = [] → p.phase = .draining →
      Effect p i { p with phase := .ended (.ok ()), stamped := true }

variable {cfg}

theorem act_effect (p q : Party) (a : Action) (i : Input SyncMessage) :
    (act cfg q a).answer p i = p ∨ ActEffect cfg q a ((act cfg q a).answer p i) := by
  cases a with
  | write m => cases i <;> first | exact Or.inl rfl | exact Or.inr (.write m) | exact Or.inr (.failed _ _)
  | progress stage => cases i <;> first | exact Or.inl rfl | exact Or.inr (.progress stage)
  | finishDry => cases i <;> first | exact Or.inl rfl | exact Or.inr .finishDry
  | uploaded path len => cases i <;> first | exact Or.inl rfl | exact Or.inr (.uploaded path len)
  | filePushed path => cases i <;> first | exact Or.inl rfl | exact Or.inr (.filePushed path)
  | conflict path => cases i <;> first | exact Or.inl rfl | exact Or.inr (.conflict path)
  | downloaded path len => cases i <;> first | exact Or.inl rfl | exact Or.inr (.downloaded path len)
  | filePulled path => cases i <;> first | exact Or.inl rfl | exact Or.inr (.filePulled path)
  | served path len => cases i <;> first | exact Or.inl rfl | exact Or.inr (.served path len)
  | pushFile path =>
    simp only [act]
    cases hj : safeJoin path with
    | error e => cases i <;> first | exact Or.inl rfl | exact Or.inr (.failed _ e)
    | ok t =>
      dsimp only
      cases hr : q.folder.read t with
      | error e => cases i <;> first | exact Or.inl rfl | exact Or.inr (.unreadable hj hr)
      | ok data => cases i <;> first | exact Or.inl rfl | exact Or.inr (.pushFile hj hr)
  | serve path =>
    simp only [act]
    cases hj : safeJoin path with
    | error e => cases i <;> first | exact Or.inl rfl | exact Or.inr (.failed _ e)
    | ok t =>
      dsimp only
      cases hr : q.folder.read t with
      | error e => cases i <;> first | exact Or.inl rfl | exact Or.inr (.unserved path)
      | ok data => cases i <;> first | exact Or.inl rfl | exact Or.inr (.serve hj hr)
  | install path t data =>
    simp only [act]
    rcases hn : FerriSync.install t data (cfg.mtime q.tick) q.folder with ⟨e | u, g⟩
    · cases i <;> first | exact Or.inl rfl | exact Or.inr (.installFailed hn)
    · cases i <;> first | exact Or.inl rfl | exact Or.inr (.install hn)

theorem onChunk_effect (p : Party) (c : FileChunk) : ChunkEffect cfg p c (onChunk cfg p c) := by
  unfold onChunk
  split_ifs with hm
  · exact .metadata hm
  · cases hr : receiveChunk p.inbox c with
    | refused e => exact .refused e
    | more inbox => exact .more hr
    | complete inbox data =>
      dsimp only
      split_ifs with hh
      · exact .mismatch hr hh
      · have hh' : hashMatches cfg.blake3 p.remote c.path data = true := by simpa using hh
        cases hj : safeJoin c.path with
        | error e => exact .unsafePath e
        | ok t =>
          dsimp only
          rcases hp : prepare cfg.blake3 (cfg.secs p.tick) cfg.label t data p.folder with ⟨_ | b, g⟩
          · exact .prepareFailed hm hr hh' hj hp
          · exact .prepared hm hr hh' hj hp

theorem onRequest_effect (p : Party) (r : FileRequest) :
    MessageEffect cfg p (.fileRequest r) (onRequest cfg p r) := by
  unfold onRequest
  split_ifs with h
  · exact .tooMany r
  · exact .request r _

theorem onMessage_effect (p : Party) (m : SyncMessage) :
    MessageEffect cfg p m (onMessage cfg p m) := by
  unfold onMessage
  cases hrole : cfg.role with
  | client =>
    dsimp only
    cases m with
    | fileChunk c => exact .chunk (onChunk_effect p c)
    | fileRequest r => exact onRequest_effect p r
    | ack a =>
      simp only [clientMessage]
      split_ifs with h
      · exact .ack hrole h.1 h.2
      · exact .ignored _ hrole
    | _ => exact .ignored _ hrole
  | server =>
    dsimp only
    cases m with
    | fileChunk c => exact .chunk (onChunk_effect p c)
    | fileRequest r => exact onRequest_effect p r
    | ack a => exact .eof a hrole
    | _ => exact .unused _ hrole

/-- **A step does one of these.** -/
theorem step_effect (cfg : Config) (p : Party) (i : Input SyncMessage) :
    Effect cfg p i (step (Party.next cfg) p i) := by
  unfold step
  rcases p with ⟨folder, phase, todo⟩
  cases todo with
  | cons a rest =>
    refine (act_effect _ _ a i).elim (fun h => ?_) (fun h => .act rfl h)
    exact cast (congrArg _ h.symm) (Effect.idle i)
  | nil =>
    cases phase with
    | awaitIndex =>
      cases i with
      | go => exact .idle _
      | failed => exact .noIndex _ rfl
      | message m =>
        simp only [Party.next, readMessage, Move.answer]
        split_ifs with hf
        · exact .noIndex _ rfl
        · exact .index m rfl rfl
    | receiving =>
      simp only [Party.next]
      split_ifs with hc
      · cases i with
        | go => exact .complete _ rfl rfl hc.1 hc.2
        | message m => exact .idle _
        | failed => exact .idle _
      · cases i with
        | go => exact .idle _
        | failed => exact .broken _ rfl rfl nofun nofun
        | message m =>
          simp only [readMessage, Move.answer]
          split_ifs with hf
          · exact .broken _ rfl rfl (fun m' hm => by cases hm; exact hf) nofun
          · exact .message rfl rfl hc (onMessage_effect _ m)
    | checking =>
      cases i with
      | go => exact .check _ rfl rfl
      | message m => exact .idle _
      | failed => exact .idle _
    | draining =>
      cases i with
      | go => exact .idle _
      | message m => exact .idle _
      | failed => exact .stopped _ rfl rfl
    | ended r => cases i <;> exact .idle _

end FerriSync
