/-
# What the client's `Ok` is worth

`run_sync_session` returns `Ok` whenever it leaves its receive loop, and it
also leaves it when a read fails or times out. It counts an Ack whatever its
`success` says, skips a file it cannot read, and counts every file committed
as one it waits for.

In a run in which none of this happens (`reliable`), `Ok` means what it says:
every file to push has been acknowledged with success and every file to pull
committed with the hash of the peer's index (`ok_means_synced`). Otherwise it
does not: a peer that closes after its index is enough (`ok_unsynced`).

The invariant (`Progress`) counts: the files pushed and those still to be
pushed are the plan's, in order; the pulls counted and those about to be are
the commits made and those about to be; each is another file of the plan.

Key definitions: `reliable`, `Progress`.
Key theorems: `progress_act`, `progress_message`, `ok_means_synced`.
-/
import FerriSync.Integrity

namespace FerriSync

open Machine

/-- The file of a path string can be read, if the string is a path at all. -/
def readable (f : Folder) (path : String) : Bool :=
  match safeJoin path with
  | .error _ => true
  | .ok t =>
    match f.read t with
    | .error _ => false
    | .ok _ => true

/-- A message that a client with this plan may rely on: an Ack of a pushed file
says success, and a chunk that completes a file is of one to pull that has not
been committed. -/
def reliableMessage (p : Party) : SyncMessage → Bool
  | .ack a => a.success || decide (a.path ∉ p.result.pushed)
  | .fileChunk c => decide (c.path = "metadata.db") || !completes p.inbox c ||
      decide (c.path ∈ p.toPull.map (·.path) ∧ c.path ∉ p.committed.map (·.1))
  | _ => true

/-- No path is listed with two hashes. -/
def OneHash (entries : List IndexEntry) : Prop :=
  ∀ e ∈ entries, ∀ e' ∈ entries, e.path = e'.path → e.hash = e'.hash

instance (entries : List IndexEntry) : Decidable (OneHash entries) :=
  inferInstanceAs (Decidable (∀ e ∈ entries, ∀ e' ∈ entries, e.path = e'.path → e.hash = e'.hash))

/-- A step at which nothing goes wrong: a file to push can be read, the index
gives a path one hash, and in the loop there is a message to rely on. -/
def reliable (cfg : Config) (p : Party) (i : Input SyncMessage) : Bool :=
  match p.todo, p.phase, i with
  | .pushFile path :: _, _, _ => readable p.folder path
  | [], .awaitIndex, .message (.index idx) => decide (OneHash idx.entries)
  | [], .receiving, .failed => p.complete
  | [], .receiving, .message m =>
    p.complete || (!frameTooLarge cfg.serialize m && reliableMessage p m)
  | _, _, _ => true

/-- The result is `Ok`. -/
def Phase.isOk : Phase → Bool
  | .ended (.ok _) => true
  | _ => false

/-- The loop has been left, or the session ended well. -/
def Phase.isLeft : Phase → Bool
  | .draining => true
  | .ended (.ok _) => true
  | _ => false

/-! ### What a list of things to do has in it -/

def pushOf : Action → Option String
  | .pushFile path => some path
  | .uploaded path _ => some path
  | _ => none

def installOf : Action → Option String
  | .install path _ _ => some path
  | _ => none

def pullOf : Action → Option String
  | .filePulled path => some path
  | _ => none

section

variable {cfg : Config}

theorem chunkActions_none {β : Type} {path : String} {data : Bytes} {g : Action → Option β}
    (hg : ∀ m, g (.write m) = none) : (chunkActions cfg path data).filterMap g = [] := by
  refine List.filterMap_eq_nil_iff.mpr fun a ha => ?_
  obtain ⟨c, rfl⟩ := mem_chunkActions ha
  exact hg _

theorem commitActions_filterMap (hrole : cfg.role = .client) (path : String) (t : Target)
    (data : Bytes) : (commitActions cfg path t data).filterMap pushOf = [] ∧
      (commitActions cfg path t data).filterMap installOf = [path] ∧
      (commitActions cfg path t data).filterMap pullOf = [path] := by
  unfold commitActions
  rw [hrole]
  exact ⟨rfl, rfl, rfl⟩

/-! ### The invariant -/

/-- The index a client announces. -/
def clientOwn (cfg : Config) (own : List IndexEntry) : Index :=
  ⟨cfg.folderIdStr, cfg.deviceId, cfg.remotePath, own⟩

/-- A client that waits for the server's index. -/
structure Waiting (p : Party) : Prop where
  phase : p.phase = .awaitIndex
  result : p.result = {}
  acked : p.acked = ∅
  receivedPulls : p.receivedPulls = 0
  committed : p.committed = []
  todo : ∀ a ∈ p.todo, ∃ m, a = .write m

/-- How far a client has come with its plan. -/
structure Progress (cfg : Config) (is : List (Input SyncMessage)) (p : Party) : Prop where
  loops : p.phase ≠ .awaitIndex ∧ p.phase ≠ .checking
  plan : ∃ idx, .message (.index idx) ∈ is ∧ OneHash idx.entries ∧
    p.remote = idx.entries ∧
    p.toPush = (clientPlan (clientOwn cfg p.own) idx cfg.folderId (cfg.order _ _)).toPush ∧
    p.toPull = (clientPlan (clientOwn cfg p.own) idx cfg.folderId (cfg.order _ _)).toPull
  pushes : p.result.pushed ++ p.todo.filterMap pushOf = p.toPush.map (·.path)
  acked : ∀ x ∈ p.acked, x ∈ p.result.pushed ∧
    ∃ a, .message (.ack a) ∈ is ∧ a.path = x ∧ a.success = true
  counted : p.receivedPulls + (p.todo.filterMap pullOf).length =
    p.committed.length + (p.todo.filterMap installOf).length
  distinct : (p.committed.map (·.1) ++ p.todo.filterMap installOf).Nodup
  expected : ∀ x ∈ p.committed.map (·.1) ++ p.todo.filterMap installOf, x ∈ p.toPull.map (·.path)
  wet : Action.finishDry ∉ p.todo
  left : p.phase.isLeft = true → p.todo = [] ∧ p.complete = true

/-- A client's run so far: it waits, it has failed, or it has come so far. -/
inductive Course (cfg : Config) (is : List (Input SyncMessage)) (p : Party) : Prop
  | waiting : Waiting p → Course cfg is p
  | failed (e : String) : p.phase = .ended (.error e) → p.todo = [] → Course cfg is p
  | progress : Progress cfg is p → Course cfg is p

variable {is : List (Input SyncMessage)}

/-- Chunks still to be written count for nothing. -/
theorem Progress.chunks {p : Party} {path : String} {data : Bytes} {tail : List Action}
    (h : Progress cfg is { p with todo := tail }) (hleft : p.phase.isLeft = false) :
    Progress cfg is { p with todo := chunkActions cfg path data ++ tail } := by
  have hnone : ∀ g : Action → Option String, (∀ m, g (.write m) = none) →
      (chunkActions cfg path data ++ tail).filterMap g = tail.filterMap g := fun g hg => by
    rw [List.filterMap_append, chunkActions_none hg, List.nil_append]
  have hp := hnone pushOf fun _ => rfl
  have hi := hnone installOf fun _ => rfl
  have hl := hnone pullOf fun _ => rfl
  refine ⟨h.loops, h.plan, ?_, h.acked, ?_, ?_, ?_, fun hm => ?_,
    fun hl => absurd (hleft.symm.trans hl) Bool.false_ne_true⟩
  · show p.result.pushed ++ (chunkActions cfg path data ++ tail).filterMap pushOf = _
    rw [hp]
    exact h.pushes
  · show p.receivedPulls + ((chunkActions cfg path data ++ tail).filterMap pullOf).length =
      p.committed.length + ((chunkActions cfg path data ++ tail).filterMap installOf).length
    rw [hl, hi]
    exact h.counted
  · show (p.committed.map (·.1) ++ (chunkActions cfg path data ++ tail).filterMap installOf).Nodup
    rw [hi]
    exact h.distinct
  · show ∀ x ∈ p.committed.map (·.1) ++ (chunkActions cfg path data ++ tail).filterMap installOf, _
    rw [hi]
    exact h.expected
  · rcases List.mem_append.mp hm with hm | hm
    · obtain ⟨c, hc⟩ := mem_chunkActions hm
      cases hc
    · exact h.wet hm

/-- Doing one thing of the plan. -/
theorem progress_act {p p' : Party} {a : Action} {rest : List Action}
    (h : Progress cfg is p) (ht : p.todo = a :: rest)
    (hread : ∀ path, a = .pushFile path → readable p.folder path = true)
    (ha : ActEffect cfg { p with todo := rest } a p') : Course cfg is p' := by
  have hpush := h.pushes
  have hcount := h.counted
  have hdist := h.distinct
  have hexp := h.expected
  have hwet := h.wet
  have hleft : p.phase.isLeft = false := by
    by_contra hl
    have hnil := (h.left (by simpa using hl)).1
    rw [ht] at hnil
    cases hnil
  have hin : ∀ {P : Prop}, p.phase.isLeft = true → P := fun hl =>
    absurd (hleft.symm.trans hl) Bool.false_ne_true
  rw [ht] at hpush hcount hdist hexp hwet
  have hwet' : Action.finishDry ∉ rest := fun hm => hwet (List.mem_cons_of_mem _ hm)
  cases ha with
  | failed _ e => exact .failed e rfl rfl
  | installFailed hn => exact .failed _ rfl rfl
  | write m | progress s | filePushed path | conflict path | unserved path | served path len
  | downloaded path len =>
    exact .progress ⟨h.loops, h.plan, hpush, h.acked, hcount, hdist, hexp, hwet', fun hl => hin hl⟩
  | finishDry => exact absurd (List.mem_cons_self ..) hwet
  | unreadable hj hr =>
    have hbad := hread _ rfl
    simp [readable, hj, hr] at hbad
  | @pushFile path t data hj hr =>
    have hq : Progress cfg is { p with
        todo := .uploaded path data.length :: .filePushed path :: rest } :=
      ⟨h.loops, h.plan, hpush, h.acked, hcount, hdist, hexp, by simpa using hwet', fun hl => hin hl⟩
    exact .progress (hq.chunks hleft)
  | @serve path t data hj hr =>
    have hq : Progress cfg is { p with todo := .served path data.length :: rest } :=
      ⟨h.loops, h.plan, hpush, h.acked, hcount, hdist, hexp, by simpa using hwet', fun hl => hin hl⟩
    exact .progress (hq.chunks hleft)
  | uploaded path len =>
    refine .progress ⟨h.loops, h.plan, ?_, fun x hx => ?_, hcount, hdist, hexp, hwet',
      fun hl => hin hl⟩
    · show p.result.pushed ++ [path] ++ rest.filterMap pushOf = _
      rw [List.append_assoc]
      exact hpush
    · obtain ⟨hx, ha⟩ := h.acked x hx
      exact ⟨List.mem_append_left _ hx, ha⟩
  | @install path t data g hn =>
    refine .progress ⟨h.loops, h.plan, hpush, h.acked, ?_, ?_, ?_, hwet', fun hl => hin hl⟩
    · have hc : p.receivedPulls + (rest.filterMap pullOf).length =
          p.committed.length + ((rest.filterMap installOf).length + 1) := hcount
      show p.receivedPulls + (rest.filterMap pullOf).length =
        (p.committed ++ [(path, data)]).length + (rest.filterMap installOf).length
      rw [List.length_append, List.length_singleton]
      omega
    · show ((p.committed ++ [(path, data)]).map (·.1) ++ rest.filterMap installOf).Nodup
      rw [List.map_append, List.append_assoc]
      exact hdist
    · show ∀ x ∈ (p.committed ++ [(path, data)]).map (·.1) ++ rest.filterMap installOf, _
      rw [List.map_append, List.append_assoc]
      exact hexp
  | filePulled path =>
    refine .progress ⟨h.loops, h.plan, hpush, h.acked, ?_, hdist, hexp, hwet', fun hl => hin hl⟩
    have hc : p.receivedPulls + ((rest.filterMap pullOf).length + 1) =
        p.committed.length + (rest.filterMap installOf).length := hcount
    show p.receivedPulls + 1 + (rest.filterMap pullOf).length =
      p.committed.length + (rest.filterMap installOf).length
    omega

theorem waiting_act {p p' : Party} {a : Action} {rest : List Action}
    (h : Waiting p) (ht : p.todo = a :: rest) (ha : ActEffect cfg { p with todo := rest } a p') :
    Course cfg is p' := by
  obtain ⟨m, rfl⟩ := h.todo a (by rw [ht]; exact List.mem_cons_self ..)
  cases ha with
  | failed _ e => exact .failed e rfl rfl
  | write m =>
    exact .waiting ⟨h.phase, h.result, h.acked, h.receivedPulls, h.committed,
      fun b hb => h.todo b (by rw [ht]; exact List.mem_cons_of_mem _ hb)⟩

theorem pushFiles_filterMap (entries : List IndexEntry) :
    (entries.map fun e => Action.pushFile e.path).filterMap pushOf = entries.map (·.path) ∧
    (entries.map fun e => Action.pushFile e.path).filterMap installOf = [] ∧
    (entries.map fun e => Action.pushFile e.path).filterMap pullOf = [] := by
  induction entries with
  | nil => exact ⟨rfl, rfl, rfl⟩
  | cons e es ih => exact ⟨congrArg _ ih.1, ih.2.1, ih.2.2⟩

/-- The index makes the plan. -/
theorem waiting_index {p : Party} (hrole : cfg.role = .client) (hdry : cfg.dryRun = false)
    (h : Waiting p) (m : SyncMessage) (hm : .message m ∈ is)
    (hone : ∀ idx, m = .index idx → OneHash idx.entries) :
    Course cfg is (onIndex cfg p m) := by
  unfold onIndex
  rw [hrole]
  cases m with
  | index idx =>
    simp only [clientIndex, hdry, Bool.false_eq_true, if_false]
    split_ifs with hlen
    · exact .failed _ rfl rfl
    · obtain ⟨hpush, hinst, hpull⟩ := pushFiles_filterMap
        (clientPlan (clientOwn cfg p.own) idx cfg.folderId (cfg.order _ _)).toPush
      have htodo : ∀ g : Action → Option String, g (.progress "starting") = none →
          (∀ m, g (.write m) = none) → ∀ entries : List IndexEntry,
          (Action.progress "starting" :: (entries.map (fun e => .pushFile e.path) ++
            [.write sentinel])).filterMap g =
          (entries.map fun e => Action.pushFile e.path).filterMap g := fun g h1 h2 entries => by
        rw [List.filterMap_cons_none h1, List.filterMap_append,
          List.filterMap_cons_none (h2 _), List.filterMap_nil, List.append_nil]
      refine .progress ⟨by simp, ⟨idx, hm, hone idx rfl, rfl, rfl, rfl⟩, ?_, ?_, ?_, ?_, ?_, ?_,
        fun hl => absurd hl (by simp [Phase.isLeft])⟩
      · show p.result.pushed ++ _ = _
        rw [htodo pushOf rfl fun _ => rfl, h.result]
        exact hpush
      · show ∀ x ∈ p.acked, _
        rw [h.acked]
        exact fun x hx => absurd hx (Finset.notMem_empty x)
      · show p.receivedPulls + _ = p.committed.length + _
        rw [htodo pullOf rfl fun _ => rfl, htodo installOf rfl fun _ => rfl, h.committed,
          h.receivedPulls]
        exact congrArg _ ((congrArg List.length hpull).trans (congrArg List.length hinst).symm)
      · show (p.committed.map (·.1) ++ _).Nodup
        rw [htodo installOf rfl fun _ => rfl, h.committed]
        exact hinst ▸ List.nodup_nil
      · show ∀ x ∈ p.committed.map (·.1) ++ _, _
        rw [htodo installOf rfl fun _ => rfl, h.committed]
        intro x hx
        exact absurd (hinst ▸ hx) (by simp)
      · show Action.finishDry ∉ _
        simp
  | _ => exact .failed _ rfl rfl

/-- Things to do that count for nothing in the plan. -/
def Action.plain (a : Action) : Prop :=
  pushOf a = none ∧ installOf a = none ∧ pullOf a = none ∧ a ≠ .finishDry

/-- A turn of the loop that leaves the plan as it is. -/
theorem Progress.turn {p : Party} (h : Progress cfg is p) (ht : p.todo = []) (folder : Folder)
    (inbox : Inbox) {phase : Phase} (hloops : phase ≠ .awaitIndex ∧ phase ≠ .checking) (hleft : phase.isLeft = false)
    {todo : List Action} (hplain : ∀ a ∈ todo, a.plain) :
    Progress cfg is { p with folder := folder, inbox := inbox, phase := phase, todo := todo } := by
  have hpush := h.pushes
  have hcount := h.counted
  have hdist := h.distinct
  have hexp := h.expected
  rw [ht] at hpush hcount hdist hexp
  have hnone : ∀ g : Action → Option String, (∀ a ∈ todo, g a = none) → todo.filterMap g = [] :=
    fun g hg => List.filterMap_eq_nil_iff.mpr hg
  have hp := hnone pushOf fun a ha => (hplain a ha).1
  have hi := hnone installOf fun a ha => (hplain a ha).2.1
  have hl := hnone pullOf fun a ha => (hplain a ha).2.2.1
  refine ⟨hloops, h.plan, ?_, h.acked, ?_, ?_, ?_, fun hm => (hplain _ hm).2.2.2 rfl,
    fun hl => absurd (hleft.symm.trans hl) Bool.false_ne_true⟩
  · show p.result.pushed ++ todo.filterMap pushOf = _
    rw [hp]
    exact hpush
  · show p.receivedPulls + (todo.filterMap pullOf).length =
      p.committed.length + (todo.filterMap installOf).length
    rw [hl, hi]
    exact hcount
  · show (p.committed.map (·.1) ++ todo.filterMap installOf).Nodup
    rw [hi]
    exact hdist
  · show ∀ x ∈ p.committed.map (·.1) ++ todo.filterMap installOf, _
    rw [hi]
    exact hexp

theorem progress_chunk {p p' : Party} {c : FileChunk} (hrole : cfg.role = .client)
    (h : Progress cfg is p) (ht : p.todo = [])
    (hrel : reliableMessage p (.fileChunk c) = true) (hc : ChunkEffect cfg p c p') :
    Course cfg is p' := by
  have hb : bottom cfg = .receiving := by simp only [bottom, hrole]
  have hnil : ∀ a ∈ p.todo, a.plain := by simp [ht]
  cases hc with
  | metadata hm => exact .progress (h.turn ht p.folder p.inbox (by simp) rfl hnil)
  | refused e => exact .failed e rfl rfl
  | @more inbox hr =>
    rw [hb]
    exact .progress (h.turn ht p.folder inbox (by simp) rfl hnil)
  | @mismatch inbox data hr hh =>
    refine .progress (h.turn ht p.folder inbox (by simp) rfl fun a ha => ?_)
    rw [List.mem_singleton] at ha
    subst ha
    exact ⟨rfl, rfl, rfl, by simp⟩
  | unsafePath e => exact .failed e rfl rfl
  | prepareFailed hne hr hh hj hp => exact .failed _ rfl rfl
  | @prepared inbox data t conflicted g hne hr hh hj hp =>
    rw [hb]
    have hnew : c.path ∈ p.toPull.map (·.path) ∧ c.path ∉ p.committed.map (·.1) := by
      simpa [reliableMessage, hne, completes_of_complete hr] using hrel
    obtain ⟨hpush, hinst, hpull⟩ := commitActions_filterMap hrole c.path t data
    have htodo : ∀ g : Action → Option String, (∀ path, g (.conflict path) = none) →
        ((if conflicted then [Action.conflict c.path] else []) ++
          commitActions cfg c.path t data).filterMap g =
        (commitActions cfg c.path t data).filterMap g := fun g hg => by
      cases conflicted
      · rfl
      · rw [if_pos rfl, List.singleton_append, List.filterMap_cons_none (hg _)]
    have hpushes := h.pushes
    have hcount := h.counted
    have hdist := h.distinct
    have hexp := h.expected
    rw [ht] at hpushes hcount hdist hexp
    simp only [List.filterMap_nil, List.append_nil, List.length_nil, Nat.add_zero]
      at hpushes hcount hdist hexp
    refine .progress ⟨by simp, h.plan, ?_, h.acked, ?_, ?_, ?_, ?_,
      fun hl => absurd hl (by simp [Phase.isLeft])⟩
    · show p.result.pushed ++ _ = _
      rw [htodo pushOf fun _ => rfl, hpush, List.append_nil]
      exact hpushes
    · show p.receivedPulls + _ = p.committed.length + _
      rw [htodo pullOf fun _ => rfl, htodo installOf fun _ => rfl, hpull, hinst]
      exact congrArg (· + 1) hcount
    · show (p.committed.map (·.1) ++ _).Nodup
      rw [htodo installOf fun _ => rfl, hinst]
      exact List.nodup_append.mpr ⟨hdist, List.nodup_singleton _, by
        intro a ha b hb hab
        rw [List.mem_singleton] at hb
        exact hnew.2 (hb ▸ hab ▸ ha)⟩
    · show ∀ x ∈ p.committed.map (·.1) ++ _, _
      rw [htodo installOf fun _ => rfl, hinst]
      intro x hx
      rcases List.mem_append.mp hx with hx | hx
      · exact hexp x hx
      · rw [List.mem_singleton] at hx
        exact hx ▸ hnew.1
    · show Action.finishDry ∉ _
      simp only [commitActions, hrole]
      cases conflicted <;> simp

/-- A turn of the client's loop. -/
theorem progress_message {p p' : Party} {m : SyncMessage} (hrole : cfg.role = .client)
    (h : Progress cfg is p) (ht : p.todo = []) (hph : p.phase = .receiving)
    (hm : .message m ∈ is) (hrel : reliableMessage p m = true) (he : MessageEffect cfg p m p') :
    Course cfg is p' := by
  have hserver : ¬ cfg.role = .server := by simp [hrole]
  have hb : bottom cfg = .receiving := by simp only [bottom, hrole]
  cases he with
  | chunk hc => exact progress_chunk hrole h ht hrel hc
  | @ack a _ hne hin =>
    refine .progress ⟨h.loops, h.plan, h.pushes, fun x hx => ?_, h.counted, h.distinct, h.expected,
      h.wet, fun hl => absurd hl (by simp [hph, Phase.isLeft])⟩
    rcases Finset.mem_insert.mp hx with rfl | hx
    · exact ⟨hin, a, hm, rfl, by simpa [reliableMessage, hin] using hrel⟩
    · exact h.acked x hx
  | eof a hs => exact absurd hs hserver
  | unused m hs => exact absurd hs hserver
  | ignored m _ => exact .progress h
  | tooMany r => exact .progress (h.turn ht p.folder p.inbox (by simp) rfl (by simp [ht]))
  | request r paths =>
    rw [hb]
    refine .progress (h.turn ht p.folder p.inbox (by simp) rfl fun a ha => ?_)
    obtain ⟨path, -, rfl⟩ := List.mem_map.mp ha
    exact ⟨rfl, rfl, rfl, by simp⟩

/-- The client that has all it waits for reads nothing more. -/
theorem step_complete {p : Party} (ht : p.todo = []) (hph : p.phase = .receiving)
    (hrole : cfg.role = .client) (hc : p.complete = true) (m : SyncMessage) :
    step (Party.next cfg) p (.message m) = p := by
  simp only [step, Party.next, ht, hph, hrole, hc, and_self, if_true]
  rfl

/-- **A reliable step keeps the course.** -/
theorem course_step {p : Party} {i : Input SyncMessage} (hrole : cfg.role = .client)
    (hdry : cfg.dryRun = false) (h : Course cfg is p) (hi : i ∈ is)
    (hrel : reliable cfg p i = true) : Course cfg is (step (Party.next cfg) p i) := by
  have he := step_effect cfg p i
  generalize step (Party.next cfg) p i = p' at he
  cases h with
  | waiting h =>
    cases he with
    | idle => exact .waiting h
    | act ht ha => exact waiting_act h ht ha
    | noIndex e _ => exact .failed e rfl rfl
    | index m ht _ =>
      refine waiting_index hrole hdry h m hi fun idx hm => ?_
      subst hm
      simpa [reliable, ht, h.phase] using hrel
    | complete _ ht hph => exact absurd (h.phase.symm.trans hph) (by simp)
    | broken _ ht hph => exact absurd (h.phase.symm.trans hph) (by simp)
    | message ht hph => exact absurd (h.phase.symm.trans hph) (by simp)
    | check _ ht hph => exact absurd (h.phase.symm.trans hph) (by simp)
    | stopped _ ht hph => exact absurd (h.phase.symm.trans hph) (by simp)
  | failed e hph ht =>
    cases he with
    | idle => exact .failed e hph ht
    | act ht' ha => exact absurd (ht.symm.trans ht') (by simp)
    | noIndex e _ => exact .failed e rfl rfl
    | index m _ hph' => exact absurd (hph.symm.trans hph') (by simp)
    | complete _ _ hph' => exact absurd (hph.symm.trans hph') (by simp)
    | broken _ _ hph' => exact absurd (hph.symm.trans hph') (by simp)
    | message _ hph' => exact absurd (hph.symm.trans hph') (by simp)
    | check _ _ hph' => exact absurd (hph.symm.trans hph') (by simp)
    | stopped _ _ hph' => exact absurd (hph.symm.trans hph') (by simp)
  | progress h =>
    cases he with
    | idle => exact .progress h
    | @act _ a rest _ ht ha =>
      refine progress_act h ht (fun path hp => ?_) ha
      subst hp
      simpa [reliable, ht] using hrel
    | noIndex e _ => exact .failed e rfl rfl
    | index m _ hph => exact absurd hph h.loops.1
    | complete _ ht hph _ hc =>
      exact .progress ⟨by simp, h.plan, h.pushes, h.acked, h.counted, h.distinct, h.expected, h.wet,
        fun _ => ⟨ht, hc⟩⟩
    | broken _ ht hph hlarge hgo =>
      -- only a client that is done may lose its peer
      have hc : p.complete = true := by
        cases i with
        | go => exact absurd rfl hgo
        | failed => simpa [reliable, ht, hph] using hrel
        | message m => simpa [reliable, ht, hph, hlarge m rfl] using hrel
      exact .progress ⟨by simp, h.plan, h.pushes, h.acked, h.counted, h.distinct, h.expected, h.wet,
        fun _ => ⟨ht, hc⟩⟩
    | @message m _ ht hph hc hm =>
      have hinc : p.complete = false := by simpa [hrole] using hc
      have hmsg : reliableMessage p m = true := by
        have hr : p.complete = true ∨ frameTooLarge cfg.serialize m = false ∧
            reliableMessage p m = true := by simpa [reliable, ht, hph] using hrel
        simpa [hinc] using (hr.resolve_left (by simp [hinc])).2
      exact progress_message hrole h ht hph hi hmsg hm
    | check _ ht hph => exact absurd hph h.loops.2
    | stopped _ ht hph =>
      have hleft := h.left (by simp [hph, Phase.isLeft])
      exact .progress ⟨by simp, h.plan, h.pushes, h.acked, h.counted, h.distinct, h.expected, h.wet,
        fun _ => hleft⟩

/-- A reliable step verifies what it commits. -/
theorem checked_of_reliable {p : Party} {i : Input SyncMessage} (hrole : cfg.role = .client)
    (h : Course cfg is p) (hv : Checked cfg p) (hrel : reliable cfg p i = true) :
    Checked cfg (step (Party.next cfg) p i) := by
  by_cases hk : chunkKnown p i = true
  · exact checked_step hv hk
  -- a chunk that completes a file not in the index: not reliable, so not read
  obtain ⟨c, ht, hph, rfl⟩ : ∃ c, p.todo = [] ∧ p.phase = .receiving ∧ i = .message (.fileChunk c) := by
    unfold chunkKnown at hk
    split at hk
    · exact ⟨_, ‹_›, ‹_›, rfl⟩
    · exact absurd rfl hk
  cases hc : p.complete with
  | true =>
    rw [step_complete ht hph hrole hc]
    exact hv
  | false =>
    refine absurd ?_ hk
    have hmsg : reliableMessage p (.fileChunk c) = true := by
      simp only [reliable, ht, hph, hc, Bool.false_or, Bool.and_eq_true] at hrel
      exact hrel.2
    have hprog : Progress cfg is p := by
      cases h with
      | waiting h => exact absurd (h.phase.symm.trans hph) (by simp)
      | failed e he _ => exact absurd (he.symm.trans hph) (by simp)
      | progress h => exact h
    obtain ⟨idx, -, -, hremote, -, hpull⟩ := hprog.plan
    simp only [reliableMessage, Bool.or_eq_true, decide_eq_true_eq] at hmsg
    simp only [chunkKnown, ht, hph, Bool.or_eq_true, decide_eq_true_eq]
    refine hmsg.imp id fun hin => ?_
    obtain ⟨e, he, hp⟩ := List.mem_map.mp hin.1
    rw [hpull] at he
    exact List.any_eq_true.mpr ⟨e, hremote ▸ mem_of_toPull _ he, by simpa using hp⟩

/-- What has been pushed and acknowledged, and pulled, is all of the plan. -/
theorem Progress.finished {p : Party} (h : Progress cfg is p) (hok : p.phase.isOk = true) :
    (∀ e ∈ p.toPush, e.path ∈ p.acked) ∧ ∀ e ∈ p.toPull, e.path ∈ p.committed.map (·.1) := by
  have hl : p.phase.isLeft = true := by
    unfold Phase.isOk at hok
    split at hok
    · rename_i hph
      rw [hph]
      rfl
    · cases hok
  obtain ⟨ht, hc⟩ := h.left hl
  have hpushes := h.pushes
  have hcount := h.counted
  have hdist := h.distinct
  have hexp := h.expected
  rw [ht] at hpushes hcount hdist hexp
  simp only [List.filterMap_nil, List.append_nil, List.length_nil, Nat.add_zero]
    at hpushes hcount hdist hexp
  simp only [Party.complete, Bool.and_eq_true, decide_eq_true_eq] at hc
  obtain ⟨⟨hack, hpull⟩, -⟩ := hc
  refine ⟨fun e he => ?_, fun e he => ?_⟩
  · -- as many Acks as pushed files, and for none else
    have hsub : p.acked ⊆ p.result.pushed.toFinset := fun x hx =>
      List.mem_toFinset.mpr (h.acked x hx).1
    have heq : p.acked = p.result.pushed.toFinset :=
      Finset.eq_of_subset_of_card_le hsub ((List.toFinset_card_le _).trans hack)
    rw [heq, List.mem_toFinset, hpushes]
    exact List.mem_map_of_mem he
  · -- as many commits as files to pull, each of another of them
    have hperm : (p.committed.map (·.1)).Perm (p.toPull.map (·.path)) := by
      refine (hdist.subperm hexp).perm_of_length_le ?_
      rw [List.length_map, List.length_map]
      omega
    exact hperm.mem_iff.mpr (List.mem_map_of_mem he)

theorem own_step (hrole : cfg.role = .client) (p : Party) (i : Input SyncMessage) :
    (step (Party.next cfg) p i).own = p.own := by
  have he := step_effect cfg p i
  generalize step (Party.next cfg) p i = p' at he
  cases he with
  | act ht ha => cases ha <;> rfl
  | index m ht hph =>
    unfold onIndex clientIndex
    rw [hrole]
    cases m with
    | index idx =>
      dsimp only
      split_ifs <;> rfl
    | _ => rfl
  | message ht hph hc hm =>
    cases hm with
    | chunk hc => cases hc <;> rfl
    | _ => rfl
  | _ => rfl

variable (is) in
theorem own_run (hrole : cfg.role = .client) (f : Folder) :
    (run (Party.next cfg) (start cfg f) is).own = buildProtocolIndex cfg.blake3 f cfg.deviceId := by
  have hstep : ∀ (p : Party) (i : Input SyncMessage),
      p.own = buildProtocolIndex cfg.blake3 f cfg.deviceId → True →
      (step (Party.next cfg) p i).own = buildProtocolIndex cfg.blake3 f cfg.deviceId :=
    fun p i h _ => (own_step hrole p i).trans h
  refine run_inv hstep ?_ fun _ _ => trivial
  unfold start
  rw [hrole]
  rfl

theorem waiting_start (hrole : cfg.role = .client) (f : Folder) : Waiting (start cfg f) := by
  unfold start
  rw [hrole]
  exact ⟨rfl, rfl, rfl, rfl, rfl, by simp [clientStart]⟩

end

/-- What a client's `Ok` is to mean, for the folder `f` it started with, what
has come (`is`) and its state at the end: every file its plan pushes has been
acknowledged with success, every file it pulls committed with the hash of the
peer's index. -/
def Synced (cfg : Config) (f : Folder) (is : List (Input SyncMessage)) (p : Party) : Prop :=
  ∃ idx, .message (.index idx) ∈ is ∧
    let own := buildProtocolIndex cfg.blake3 f cfg.deviceId
    let plan := clientPlan (clientOwn cfg own) idx cfg.folderId (cfg.order _ _)
    (∀ e ∈ plan.toPush, e.path ∈ p.acked ∧
      ∃ a, .message (.ack a) ∈ is ∧ a.path = e.path ∧ a.success = true) ∧
    ∀ e ∈ plan.toPull, ∃ data, (e.path, data) ∈ p.committed ∧ (cfg.blake3 data).bytes = e.hash

/-- **A reported success is a real one, if nothing goes wrong.** In every run
of the client whose steps are reliable, whatever else the peer does, `Ok` means
that every file has been pushed and acknowledged, or pulled and verified. -/
theorem ok_means_synced (cfg : Config) (hrole : cfg.role = .client) (hdry : cfg.dryRun = false)
    (f : Folder) (is : List (Input SyncMessage))
    (h : along (Party.next cfg) (reliable cfg) (start cfg f) is = true)
    (hok : (run (Party.next cfg) (start cfg f) is).phase.isOk = true) :
    Synced cfg f is (run (Party.next cfg) (start cfg f) is) := by
  have hown := own_run is hrole f
  have hboth : Course cfg is (run (Party.next cfg) (start cfg f) is) ∧
      Checked cfg (run (Party.next cfg) (start cfg f) is) := by
    refine along_inv (I := fun p => Course cfg is p ∧ Checked cfg p) (fun p i hi hp hr => ?_)
      ⟨.waiting (waiting_start hrole f), checked_start f⟩ h
    exact ⟨course_step hrole hdry hp.1 hi hr, checked_of_reliable hrole hp.1 hp.2 hr⟩
  generalize run (Party.next cfg) (start cfg f) is = p at hown hboth hok
  obtain ⟨hcourse, hcheck⟩ := hboth
  cases hcourse with
  | waiting h => rw [h.phase] at hok; cases hok
  | failed e he _ => rw [he] at hok; cases hok
  | progress h =>
    obtain ⟨hpush, hpull⟩ := h.finished hok
    obtain ⟨idx, hidx, hone, hremote, hto, hfrom⟩ := h.plan
    unfold Synced
    rw [← hown]
    refine ⟨idx, hidx, fun e he => ?_, fun e he => ?_⟩
    · have hmem : e ∈ p.toPush := hto ▸ he
      obtain ⟨-, a, ha, hap, has⟩ := h.acked e.path (hpush e hmem)
      exact ⟨hpush e hmem, a, ha, hap, has⟩
    · have hmem : e ∈ p.toPull := hfrom ▸ he
      obtain ⟨⟨path, data⟩, hin, hp⟩ := List.mem_map.mp (hpull e hmem)
      obtain rfl : path = e.path := hp
      refine ⟨data, hin, ?_⟩
      -- the hash checked is that of this entry: the index gives the path no other
      obtain ⟨e', he', hpath, hhash⟩ := hcheck.committed _ hin
      rw [hremote] at he'
      exact hhash.trans (hone e' he' e (mem_of_toPull _ he) hpath)

/-- What a peer sends that has a file `g`, takes `f` and sends `g`. -/
def sampleExchange : List (Input SyncMessage) :=
  let g := fileIndexEntry sampleBlake3 [⟨['g'], by decide, by decide, by decide, by decide, by decide⟩]
    ⟨[98], 1700000000000000000⟩
  [.go, .message (.index ⟨"1", "phone", none, [g]⟩), .go, .go, .go, .go, .go, .go,
    .message (.ack ⟨"f", true, none⟩), .message (.fileChunk ⟨"1", "g", 0, [98], 1⟩),
    .go, .go, .go, .go, .go, .failed]

theorem ok_means_synced_two :
    Synced (sampleConfig .client) (sampleFolder [(sampleName, [97])]) sampleExchange
      (run (Party.next (sampleConfig .client))
        (start (sampleConfig .client) (sampleFolder [(sampleName, [97])])) sampleExchange) :=
  ok_means_synced (sampleConfig .client) rfl rfl (sampleFolder [(sampleName, [97])]) sampleExchange
    (by decide +kernel) (by decide +kernel)

/-- A peer that sends an empty index, takes the chunk of `f` and closes. -/
def sampleLoss : List (Input SyncMessage) :=
  [.go, .message (.index ⟨"1", "phone", none, []⟩), .go, .go, .go, .go, .go, .go, .failed, .failed]

/-- The client returns `Ok`, and no Ack has come. -/
theorem ok_unsynced :
    ¬ ∀ is, (run (Party.next (sampleConfig .client))
        (start (sampleConfig .client) (sampleFolder [(sampleName, [97])])) is).phase.isOk = true →
      Synced (sampleConfig .client) (sampleFolder [(sampleName, [97])]) is
        (run (Party.next (sampleConfig .client))
          (start (sampleConfig .client) (sampleFolder [(sampleName, [97])])) is) := by
  intro h
  obtain ⟨idx, hidx, hpush, -⟩ := h sampleLoss (by decide +kernel)
  obtain rfl : idx = ⟨"1", "phone", none, []⟩ := by simpa [sampleLoss] using hidx
  have hplan : ((clientPlan (clientOwn (sampleConfig .client)
      (buildProtocolIndex sampleBlake3 (sampleFolder [(sampleName, [97])]) "laptop"))
      ⟨"1", "phone", none, []⟩ ⟨1⟩ (PathOrder.firstSeen _ _)).toPush).map (·.path) = ["f"] := by
    decide +kernel
  obtain ⟨e, he, -⟩ := List.mem_map.mp (hplan ▸ List.mem_singleton_self "f" : "f" ∈ _)
  obtain ⟨-, a, ha, -⟩ := hpush e he
  simp [sampleLoss] at ha

end FerriSync
