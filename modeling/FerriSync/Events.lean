/-
# Events and a receiver that does not read them

A session reports its progress if there is room in the channel, but waits for
room when it reports a file pushed or pulled or a conflict; so a receiver that
is kept and never read, as the engine's own is, can stall it.

With nobody to listen a session goes the same way, so no event changes which
files are transferred. On that way the events reported so far can be counted
(`Party.reported`): one at the start, two for each file pushed and each file
pulled, one for each conflict. No receiver can stall a session exactly if this
count, with what was queued before, stays below the channel's capacity whenever
a file or a conflict is to be reported (`events_stall_iff`). An engine's
channel holds 256 events (`events_stall`).

Key definitions: `Party.reported`, `Counted`.
Key theorems: `counted_step`, `events_stall_iff`.
-/
import FerriSync.Steps
import FerriSync.Lib.Reports

namespace FerriSync

open Machine

/-- The capacity of an engine's event channel. -/
def eventCapacity : ℕ := 256

/-- A file sent, still to be counted as pushed. -/
def Action.isUploaded : Action → Bool
  | .uploaded _ _ => true
  | _ => false

/-- An event that follows what it is counted with. -/
def Action.isLate : Action → Bool
  | .progress _ => true
  | .finishDry => true
  | .filePushed _ => true
  | _ => false

/-- What the counters of a session say of its events. -/
def Party.counted (p : Party) : ℕ :=
  1 + 2 * p.result.pushed.length + p.result.conflicts.length + p.result.pulled.length +
    p.receivedPulls

/-- The events a session has reported, or would have if there had been room:
those its counters tell of, but for the ones whose turn is still to come. -/
def Party.reported (p : Party) : ℕ :=
  p.counted + p.todo.countP Action.isUploaded - p.todo.countP Action.isLate

/-- A session that has reported `n` events: it waits for the index, it counts,
or it is a dry run or over, with nothing to report that must not be dropped. -/
inductive Counted (n : ℕ) (p : Party) : Prop
  | waiting : p.phase = .awaitIndex → n = 0 → p.counted = 1 →
      (∀ a ∈ p.todo, ∃ m, a = .write m) → Counted n p
  | counting : p.phase ≠ .awaitIndex → n + p.todo.countP Action.isLate =
      p.counted + p.todo.countP Action.isUploaded → Counted n p
  | dry (stage : String) : p.todo = [.progress stage, .finishDry] → Counted n p
  | dryDone : p.todo = [.finishDry] → Counted n p
  | finished (r : Except String Unit) : p.todo = [] → p.phase = .ended r → Counted n p

section

variable {cfg : Config}

theorem countP_append_none {g : Action → Bool} {as : List Action} (h : ∀ a ∈ as, g a = false)
    (bs : List Action) : (as ++ bs).countP g = bs.countP g := by
  have h0 : as.countP g = 0 := List.countP_eq_zero.mpr fun a ha => by simp [h a ha]
  rw [List.countP_append, h0, Nat.zero_add]

theorem chunkActions_countP {path : String} {data : Bytes} {g : Action → Bool}
    (hg : ∀ m, g (.write m) = false) (bs : List Action) :
    (chunkActions cfg path data ++ bs).countP g = bs.countP g := by
  refine countP_append_none (fun a ha => ?_) bs
  obtain ⟨c, -, rfl⟩ := List.mem_map.mp ha
  exact hg _

/-- An answer to an event: it goes through, or nothing changes. -/
theorem counted_report {n : ℕ} {p : Party} (p' : Party) {m : Move Party SyncMessage SyncEvent}
    {e : SyncEvent} (hm : m = .send e p' ∨ m = .trySend e p') (h : Counted n p) (h' : Counted (n + 1) p')
    (i : Input SyncMessage) : Counted (n + m.reports i) (m.answer p i) := by
  rcases hm with rfl | rfl <;> cases i <;> first | exact h' | exact h

/-- Doing a thing that reports nothing. -/
theorem counted_quiet {n : ℕ} {p q : Party} {a : Action} (h : Counted n p)
    (hm : ∀ i, (act cfg q a).reports i = 0) (h' : ∀ p', ActEffect cfg q a p' → Counted n p')
    (i : Input SyncMessage) :
    Counted (n + (act cfg q a).reports i) ((act cfg q a).answer p i) := by
  rw [hm i, Nat.add_zero]
  rcases act_effect p q a i with hp | he
  · rw [hp]
    exact h
  · exact h' _ he

theorem write_reports (q : Party) (m : SyncMessage) (i : Input SyncMessage) :
    (act cfg q (.write m)).reports i = 0 := by
  cases i <;> rfl

theorem tau_reports (s : Party) (i : Input SyncMessage) :
    (Move.tau s : Move Party SyncMessage SyncEvent).reports i = 0 := by
  cases i <;> rfl

/-- Reading a file, renaming one and counting one served report nothing. -/
theorem pushFile_reports (q : Party) (path : String) (i : Input SyncMessage) :
    (act cfg q (.pushFile path)).reports i = 0 := by
  simp only [act]
  split
  · exact tau_reports _ i
  · split <;> exact tau_reports _ i

theorem serve_reports (q : Party) (path : String) (i : Input SyncMessage) :
    (act cfg q (.serve path)).reports i = 0 := by
  simp only [act]
  split
  · exact tau_reports _ i
  · split <;> exact tau_reports _ i

theorem install_reports (q : Party) (path : String) (t : Target) (data : Bytes)
    (i : Input SyncMessage) : (act cfg q (.install path t data)).reports i = 0 := by
  simp only [act]
  split <;> exact tau_reports _ i

theorem served_reports (q : Party) (path : String) (len : ℕ) (i : Input SyncMessage) :
    (act cfg q (.served path len)).reports i = 0 :=
  tau_reports _ i

theorem Counted.fail (n : ℕ) (p : Party) (e : String) : Counted n (p.fail e) :=
  .finished (.error e) rfl rfl

/-- Doing one thing while counting. -/
theorem counting_act {n : ℕ} {p : Party} {a : Action} {rest : List Action}
    (hph : p.phase ≠ .awaitIndex) (ht : p.todo = a :: rest)
    (hn : n + p.todo.countP Action.isLate = p.counted + p.todo.countP Action.isUploaded)
    (i : Input SyncMessage) : Counted (n + (act cfg { p with todo := rest } a).reports i)
      ((act cfg { p with todo := rest } a).answer p i) := by
  have h : Counted n p := .counting hph hn
  rw [ht, List.countP_cons, List.countP_cons] at hn
  unfold Party.counted at hn
  cases a with
  | write m =>
    refine counted_quiet h (write_reports _ m) (fun p' he => ?_) i
    cases he with
    | failed _ e => exact .fail n _ e
    | write m => exact .counting hph hn
  | progress stage =>
    refine counted_report { p with todo := rest } (Or.inr rfl) h (.counting hph ?_) i
    simp only [Action.isLate, Action.isUploaded, Bool.false_eq_true, if_false, if_true] at hn
    simp only [Party.counted]
    omega
  | finishDry =>
    refine counted_report { p with todo := rest, phase := .ended (.ok ()) } (Or.inr rfl) h
      (.counting (by simp) ?_) i
    simp only [Action.isLate, Action.isUploaded, Bool.false_eq_true, if_false, if_true] at hn
    simp only [Party.counted]
    omega
  | filePushed path =>
    refine counted_report { p with todo := rest } (Or.inl rfl) h (.counting hph ?_) i
    simp only [Action.isLate, Action.isUploaded, Bool.false_eq_true, if_false, if_true] at hn
    simp only [Party.counted]
    omega
  | uploaded path len =>
    refine counted_report ({ p with todo := rest }.uploaded path len) (Or.inr rfl) h
      (.counting hph ?_) i
    simp only [Action.isLate, Action.isUploaded, Bool.false_eq_true, if_false, if_true] at hn
    simp only [Party.counted, Party.uploaded, List.length_append, List.length_singleton]
    omega
  | conflict path =>
    refine counted_report { p with
      todo := rest, result := { p.result with conflicts := p.result.conflicts ++ [path] } }
      (Or.inl rfl) h (.counting hph ?_) i
    simp only [Action.isLate, Action.isUploaded, Bool.false_eq_true, if_false] at hn
    simp only [Party.counted, List.length_append, List.length_singleton]
    omega
  | downloaded path len =>
    refine counted_report ({ p with todo := rest }.downloaded path len) (Or.inr rfl) h
      (.counting hph ?_) i
    simp only [Action.isLate, Action.isUploaded, Bool.false_eq_true, if_false] at hn
    simp only [Party.counted, Party.downloaded, List.length_append, List.length_singleton]
    omega
  | filePulled path =>
    refine counted_report { p with todo := rest, receivedPulls := p.receivedPulls + 1 } (Or.inl rfl)
      h (.counting hph ?_) i
    simp only [Action.isLate, Action.isUploaded, Bool.false_eq_true, if_false] at hn
    simp only [Party.counted]
    omega
  | pushFile path =>
    refine counted_quiet h (pushFile_reports _ path) (fun p' he => ?_) i
    cases he with
    | failed _ e => exact .fail n _ e
    | unreadable hj hr => exact .counting hph hn
    | @pushFile path t data hj hr =>
      refine .counting hph ?_
      dsimp only
      rw [chunkActions_countP fun _ => rfl, chunkActions_countP fun _ => rfl]
      simp only [List.countP_cons, Action.isLate, Action.isUploaded, Party.counted,
        Bool.false_eq_true, if_false, if_true] at hn ⊢
      omega
  | serve path =>
    refine counted_quiet h (serve_reports _ path) (fun p' he => ?_) i
    cases he with
    | failed _ e => exact .fail n _ e
    | unserved path => exact .counting hph hn
    | @serve path t data hj hr =>
      refine .counting hph ?_
      dsimp only
      rw [chunkActions_countP fun _ => rfl, chunkActions_countP fun _ => rfl]
      exact hn
  | install path t data =>
    refine counted_quiet h (install_reports _ path t data) (fun p' he => ?_) i
    cases he with
    | failed _ e => exact .fail n _ e
    | installFailed hi => exact .fail n _ _
    | install hi => exact .counting hph hn
  | served path len =>
    refine counted_quiet h (served_reports _ path len) (fun p' he => ?_) i
    cases he with
    | failed _ e => exact .fail n _ e
    | served path len => exact .counting hph hn

/-- Reading, and the turns of the loop, report nothing. -/
theorem idle_reports {p : Party} (ht : p.todo = []) (i : Input SyncMessage) :
    (Party.next cfg p).reports i = 0 := by
  unfold Party.next
  rw [ht]
  cases p.phase with
  | receiving =>
    dsimp only
    split_ifs
    · exact tau_reports _ i
    · cases i <;> rfl
  | _ => cases i <;> rfl

theorem pushFiles_countP {g : Action → Bool} (hpush : ∀ path, g (.pushFile path) = false)
    (entries : List IndexEntry) : (entries.map fun e => Action.pushFile e.path).countP g = 0 := by
  refine List.countP_eq_zero.mpr fun a ha => ?_
  obtain ⟨e, -, rfl⟩ := List.mem_map.mp ha
  simp [hpush]

/-- The index makes the plan, and the first event is due. -/
theorem counted_index {p : Party} (hcount : p.counted = 1) (m : SyncMessage) :
    Counted 0 (onIndex cfg p m) := by
  have hplan : ∀ entries : List IndexEntry, (Action.progress "starting" ::
        (entries.map (fun e => .pushFile e.path) ++ [.write sentinel])).countP Action.isLate = 1 ∧
      (Action.progress "starting" :: (entries.map (fun e => .pushFile e.path) ++
        [.write sentinel])).countP Action.isUploaded = 0 := by
    intro entries
    have hlate := pushFiles_countP (g := Action.isLate) (fun _ => rfl) entries
    have hup := pushFiles_countP (g := Action.isUploaded) (fun _ => rfl) entries
    constructor
    · rw [List.countP_cons, List.countP_append, hlate]
      rfl
    · rw [List.countP_cons, List.countP_append, hup]
      rfl
  have hwrite : ∀ (g : Action → Bool) {m : SyncMessage} {as : List Action}, g (.write m) = false →
      (Action.write m :: as).countP g = as.countP g := fun g m as hg =>
    List.countP_cons_of_neg (by simp [hg])
  unfold onIndex clientIndex serverIndex
  cases cfg.role with
  | client =>
    cases m with
    | index idx =>
      dsimp only
      split_ifs
      · exact .fail 0 _ _
      · exact .dry "starting" rfl
      · refine .counting (by simp) ?_
        dsimp only
        rw [(hplan _).1, (hplan _).2]
        exact (congrArg (· + 0) hcount).symm
    | _ => exact .fail 0 _ _
  | server =>
    cases m with
    | index idx =>
      dsimp only
      split_ifs
      · exact .fail 0 _ _
      · split
        · exact .fail 0 _ _
        · refine .counting (by simp) ?_
          dsimp only
          rw [hwrite Action.isLate rfl, hwrite Action.isUploaded rfl, (hplan _).1, (hplan _).2]
          exact (congrArg (· + 0) hcount).symm
    | _ => exact .fail 0 _ _

/-- With nothing to do, and not at its start or end, a session has reported
what its counters say. -/
theorem Counted.settled {n : ℕ} {p : Party} (h : Counted n p) (ht : p.todo = [])
    (hph : p.phase ≠ .awaitIndex) (hend : ∀ r, p.phase ≠ .ended r) : n = p.counted := by
  cases h with
  | waiting hw => exact absurd hw hph
  | counting _ hn =>
    rw [ht] at hn
    exact hn
  | dry stage hd => exact absurd (ht.symm.trans hd) (by simp)
  | dryDone hd => exact absurd (ht.symm.trans hd) (by simp)
  | finished r _ hr => exact absurd hr (hend r)

theorem Counted.of_settled {n : ℕ} {p : Party} (ht : p.todo = []) (hph : p.phase ≠ .awaitIndex)
    (hn : n = p.counted) : Counted n p :=
  .counting hph (by rw [ht, hn]; rfl)

/-- A turn of the loop counts nothing and leaves nothing to be counted late. -/
theorem counted_message {n : ℕ} {p p' : Party} {m : SyncMessage} (hph : p.phase = .receiving)
    (ht : p.todo = []) (hn : n = p.counted) (he : MessageEffect cfg p m p') : Counted n p' := by
  have hb : bottom cfg ≠ .awaitIndex := by
    unfold bottom
    cases cfg.role <;> simp
  have hsame : ∀ q : Party, q.counted = p.counted → q.phase ≠ .awaitIndex →
      (∀ a ∈ q.todo, a.isLate = false) → (∀ a ∈ q.todo, a.isUploaded = false) → Counted n q := by
    intro q hq hphase hlate hup
    have h1 : q.todo.countP Action.isLate = 0 :=
      List.countP_eq_zero.mpr fun a ha => by simp [hlate a ha]
    have h2 : q.todo.countP Action.isUploaded = 0 :=
      List.countP_eq_zero.mpr fun a ha => by simp [hup a ha]
    exact .counting hphase (by rw [h1, h2, hq, hn])
  have hnil : ∀ g : Action → Bool, ∀ a ∈ p.todo, g a = false := fun g a ha => by
    rw [ht] at ha
    cases ha
  cases he with
  | chunk hc =>
    cases hc with
    | metadata hm => exact hsame _ rfl (by simp) (hnil _) (hnil _)
    | refused e => exact .fail n _ e
    | more hr => exact hsame _ rfl hb (hnil _) (hnil _)
    | mismatch hr hh =>
      exact hsame _ rfl (by simp) (by simp [Action.isLate]) (by simp [Action.isUploaded])
    | unsafePath e => exact .fail n _ e
    | prepareFailed hne hr hh hj hp => exact .fail n _ _
    | @prepared inbox data t conflicted g hne hr hh hj hp =>
      refine hsame _ rfl hb ?_ ?_
      · unfold commitActions
        cases conflicted <;> cases cfg.role <;> simp [Action.isLate]
      · unfold commitActions
        cases conflicted <;> cases cfg.role <;> simp [Action.isUploaded]
  | ack => exact hsame _ rfl (by simp [hph]) (hnil _) (hnil _)
  | eof a => exact hsame _ rfl (by simp) (hnil _) (hnil _)
  | tooMany r => exact hsame _ rfl (by simp) (hnil _) (hnil _)
  | ignored m => exact hsame _ rfl (by simp [hph]) (hnil _) (hnil _)
  | unused m => exact hsame _ rfl (by simp) (hnil _) (hnil _)
  | request r paths =>
    exact hsame _ rfl hb (by simp [Action.isLate]) (by simp [Action.isUploaded])

theorem next_of_todo {p : Party} {a : Action} {rest : List Action} (ht : p.todo = a :: rest) :
    Party.next cfg p = act cfg { p with todo := rest } a := by
  simp only [Party.next, ht]

/-- **Each step counts the event it reports.** -/
theorem counted_step {n : ℕ} {p : Party} (h : Counted n p) (i : Input SyncMessage) :
    Counted (n + (Party.next cfg p).reports i) (step (Party.next cfg) p i) := by
  cases htodo : p.todo with
  | cons a rest =>
    rw [step, next_of_todo htodo]
    cases h with
    | waiting hph h0 hc hw =>
      obtain ⟨m, rfl⟩ := hw a (by rw [htodo]; exact List.mem_cons_self ..)
      refine counted_quiet (.waiting hph h0 hc hw) (write_reports _ m) (fun p' he => ?_) i
      cases he with
      | failed _ e => exact .fail n _ e
      | write m =>
        exact .waiting hph h0 hc fun b hb => hw b (by rw [htodo]; exact List.mem_cons_of_mem _ hb)
    | counting hph hn => exact counting_act hph htodo hn i
    | dry stage ht =>
      obtain ⟨rfl, rfl⟩ := List.cons.inj (htodo.symm.trans ht)
      exact counted_report { p with todo := [.finishDry] } (Or.inr rfl) (.dry stage ht) (.dryDone rfl) i
    | dryDone ht =>
      obtain ⟨rfl, rfl⟩ := List.cons.inj (htodo.symm.trans ht)
      exact counted_report { p with todo := [], phase := .ended (.ok ()) } (Or.inr rfl) (.dryDone ht)
        (.finished _ rfl rfl) i
    | finished r ht => exact absurd (htodo.symm.trans ht) (by simp)
  | nil =>
    rw [idle_reports htodo, Nat.add_zero]
    have he := step_effect cfg p i
    generalize step (Party.next cfg) p i = p' at he
    cases he with
    | idle => exact h
    | act ht => exact absurd (htodo.symm.trans ht) (by simp)
    | noIndex e _ => exact .fail n _ e
    | index m _ hph =>
      cases h with
      | waiting _ h0 hc _ => exact h0 ▸ counted_index hc m
      | counting hne _ => exact absurd hph hne
      | dry stage ht => exact absurd (htodo.symm.trans ht) (by simp)
      | dryDone ht => exact absurd (htodo.symm.trans ht) (by simp)
      | finished r _ hr => exact absurd (hph.symm.trans hr) (by simp)
    | complete _ _ hph =>
      exact .of_settled htodo (by simp) (h.settled htodo (by simp [hph]) (by simp [hph]))
    | broken _ _ hph =>
      exact .of_settled htodo (by simp) (h.settled htodo (by simp [hph]) (by simp [hph]))
    | message _ hph _ hm =>
      exact counted_message hph htodo (h.settled htodo (by simp [hph]) (by simp [hph])) hm
    | check _ _ hph =>
      have hn := h.settled htodo (by simp [hph]) (by simp [hph])
      refine .of_settled htodo ?_ hn
      dsimp only
      split_ifs <;> simp
    | stopped _ _ hph =>
      exact .of_settled htodo (by simp) (h.settled htodo (by simp [hph]) (by simp [hph]))

theorem counted_start (f : Folder) : Counted 0 (start cfg f) := by
  unfold start
  cases cfg.role with
  | client => exact .waiting rfl rfl rfl (by simp [clientStart])
  | server => exact .waiting rfl rfl rfl (by simp [serverStart])

/-- Before an event that must not be dropped, the events reported are those the
session's counters tell of. -/
theorem Counted.eq_reported {n : ℕ} {p : Party} (h : Counted n p)
    (hmust : (Party.next cfg p).mustReport = true) : n = p.reported := by
  cases htodo : p.todo with
  | nil =>
    -- a session with nothing to do reports nothing
    have hno : (Party.next cfg p).mustReport = false := by
      unfold Party.next
      rw [htodo]
      cases p.phase with
      | receiving =>
        dsimp only
        split_ifs <;> rfl
      | _ => rfl
    cases hno.symm.trans hmust
  | cons a rest =>
    rw [next_of_todo htodo] at hmust
    cases h with
    | waiting _ _ _ hw =>
      obtain ⟨m, rfl⟩ := hw a (by rw [htodo]; exact List.mem_cons_self ..)
      cases hmust
    | counting _ hn =>
      unfold Party.reported
      omega
    | dry stage ht =>
      obtain ⟨rfl, rfl⟩ := List.cons.inj (htodo.symm.trans ht)
      cases hmust
    | dryDone ht =>
      obtain ⟨rfl, rfl⟩ := List.cons.inj (htodo.symm.trans ht)
      cases hmust
    | finished r ht => exact absurd (htodo.symm.trans ht) (by simp)

end

/-- On its way a session counts the events it reports. -/
theorem counted_run (cfg : Config) (f : Folder) (is : List (Input SyncMessage)) :
    Counted (reports (Party.next cfg) (start cfg f) is) (run (Party.next cfg) (start cfg f) is) := by
  have hrun : Counted (0 + reports (Party.next cfg) (start cfg f) is)
      (run (Party.next cfg) (start cfg f) is) :=
    reports_inv (I := Counted) (fun _ _ i h => counted_step h i) (counted_start f) is
  rwa [Nat.zero_add] at hrun

/-- **When events can stall a session.** Take a session of either role, with
any answers of its peer and its connection, and a channel with some events
queued. No behaviour of the receiver, which keeps it for as long as it likes,
stalls the session exactly if, whenever a file pushed, a file pulled or a
conflict is to be reported, the events reported before and those queued at
first are fewer than the channel holds. And whatever the receiver does, the
session is where some of the answers lead it with nobody to listen: what it
reports changes nothing of what it transfers. -/
theorem events_stall_iff (cfg : Config) (f : Folder) (capacity queued : ℕ)
    (is : List (Input SyncMessage)) :
    ((∀ ts, answers ts <+: is →
        stalled (Party.next cfg) (turns (Party.next cfg) ⟨start cfg f, ⟨capacity, queued, true⟩⟩ ts) =
          false) ↔
      ∀ pre, pre <+: is →
        (Party.next cfg (run (Party.next cfg) (start cfg f) pre)).mustReport = true →
        queued + (run (Party.next cfg) (start cfg f) pre).reported < capacity) ∧
    ∀ ts, ∃ js, js.Sublist (answers ts) ∧
      (turns (Party.next cfg) ⟨start cfg f, ⟨capacity, queued, true⟩⟩ ts).machine =
        run (Party.next cfg) (start cfg f) js := by
  refine ⟨(never_stalled_iff _ _ rfl is).trans ?_, fun ts => turns_machine _ ts⟩
  refine forall_congr' fun pre => forall_congr' fun _ => forall_congr' fun hmust => ?_
  rw [(counted_run cfg f pre).eq_reported hmust]

/-- The turns of a client with one file to push and a receiver that does
nothing. -/
def sampleTurns : List (Turn SyncMessage) :=
  [.machine .go, .machine (.message (.index ⟨"1", "phone", none, []⟩)), .machine .go, .machine .go,
    .machine .go, .machine .go]

/-- An engine's channel that earlier sessions have left one place short of full
stalls the next push. -/
theorem events_stall :
    ¬ ∀ ts, stalled (Party.next (sampleConfig .client)) (turns (Party.next (sampleConfig .client))
      ⟨start (sampleConfig .client) (sampleFolder [(sampleName, [97])]),
        ⟨eventCapacity, 255, true⟩⟩ ts) = false := by
  intro h
  have hst := h sampleTurns
  revert hst
  decide +kernel

end FerriSync
