/-
# Progress events

What a session reports of its progress, along any run of it: the totals are to be
those of its plan and the same in every event, what is done is never to be more than
the total, and never less than in the event before (`WellFormed`).

`emit_progress` takes the files done, the files in all, the bytes done and the bytes
in all; its callers give it the files and bytes done first and the totals after. So
each event has the number of bytes done as its total of files and that of files as its
bytes done, and the events of a run are well formed only if there is nothing to
transfer and nothing is transferred (`progress_wellFormed_iff`).

Key definitions: `Report`, `progressReports`, `WellFormed`, `transfersNothing`.
Key theorems: `stage_step`, `progress_wellFormed_iff`.
-/
import FerriSync.Steps

namespace FerriSync

open Machine

/-- A progress event, with the totals of the plan of its session. -/
structure Report where
  filesDone : ℕ
  filesTotal : ℕ
  bytesDone : ℕ
  bytesTotal : ℕ
  plannedFiles : ℕ
  plannedBytes : ℕ
deriving DecidableEq

/-- The files that the plan has the session send and receive. -/
def Party.plannedFiles (p : Party) : ℕ := (p.toPush ++ p.toPull).length

def Party.plannedBytes (p : Party) : ℕ := ((p.toPush ++ p.toPull).map (·.size)).sum

section

variable (cfg : Config)

/-- The progress event that a step reports. -/
def reportOf (p : Party) (i : Input SyncMessage) : List Report :=
  match Party.next cfg p, i with
  | .trySend (.progress _ _ filesDone filesTotal bytesDone bytesTotal) _, .go =>
    [⟨filesDone, filesTotal, bytesDone, bytesTotal, p.plannedFiles, p.plannedBytes⟩]
  | _, _ => []

/-- The progress events of a run. -/
def progressReports (p : Party) : List (Input SyncMessage) → List Report
  | [] => []
  | i :: is => reportOf cfg p i ++ progressReports (step (Party.next cfg) p i) is

end

structure WellFormed (rs : List Report) : Prop where
  bounded : ∀ r ∈ rs, r.filesDone ≤ r.filesTotal ∧ r.bytesDone ≤ r.bytesTotal
  totals : ∀ r ∈ rs, r.filesTotal = r.plannedFiles ∧ r.bytesTotal = r.plannedBytes
  steady : rs.Pairwise fun a b => a.filesTotal = b.filesTotal ∧ a.bytesTotal = b.bytesTotal ∧
    a.filesDone ≤ b.filesDone ∧ a.bytesDone ≤ b.bytesDone

/-- If the step reports its progress, it is not that of a file sent or received, and
there is none to send or receive. -/
def transfersNothing (p : Party) (i : Input SyncMessage) : Bool :=
  match p.todo, i with
  | .progress _ :: _, .go | .finishDry :: _, .go => p.toPush.isEmpty && p.toPull.isEmpty
  | .uploaded _ _ :: _, .go | .downloaded _ _ :: _, .go => false
  | _, _ => true

/-! ### Lists of events -/

theorem WellFormed.of_append {rs rs' : List Report} (h : WellFormed (rs ++ rs')) :
    WellFormed rs ∧ WellFormed rs' := by
  obtain ⟨hl, hr, -⟩ := List.pairwise_append.mp h.steady
  exact ⟨⟨fun r hr => h.bounded r (List.mem_append_left _ hr),
      fun r hr => h.totals r (List.mem_append_left _ hr), hl⟩,
    ⟨fun r hr => h.bounded r (List.mem_append_right _ hr),
      fun r hr => h.totals r (List.mem_append_right _ hr), hr⟩⟩

/-- Events that all say that there is nothing to do. -/
theorem wellFormed_of_zero {rs : List Report} (h : ∀ r ∈ rs, r = ⟨0, 0, 0, 0, 0, 0⟩) :
    WellFormed rs where
  bounded r hr := by rw [h r hr]; exact ⟨le_rfl, le_rfl⟩
  totals r hr := by rw [h r hr]; exact ⟨rfl, rfl⟩
  steady := List.pairwise_of_forall_mem_list fun a ha b hb => by
    rw [h a ha, h b hb]
    exact ⟨rfl, rfl, le_rfl, le_rfl⟩

/-! ### How far a session is -/

/-- The thing to do is no first report. -/
def Action.isStart : Action → Bool
  | .progress _ => true
  | _ => false

/-- How far a session is with its first report: it waits for the index, it has the plan
and still has to write, it has made the report, and then `K` holds of it, or it has
ended. -/
inductive Stage (K : Party → Prop) (p : Party) : Prop
  | waiting : p.phase = .awaitIndex → (∀ a ∈ p.todo, ∃ m, a = .write m) →
      p.doneFiles = 0 → p.doneBytes = 0 → Stage K p
  | pending (writes : List SyncMessage) (stage : String) (rest : List Action) :
      p.phase ≠ .awaitIndex ∨ rest = [.finishDry] →
      p.todo = writes.map .write ++ .progress stage :: rest →
      (∀ a ∈ rest, a.isStart = false) → p.doneFiles = 0 → p.doneBytes = 0 → Stage K p
  | started : p.phase ≠ .awaitIndex ∨ p.todo = [.finishDry] →
      (∀ a ∈ p.todo, a.isStart = false) → K p → Stage K p
  | finished (r : Except String Unit) : p.todo = [] → p.phase = .ended r → Stage K p

/-- The totals are those of the plan. -/
def Totalled (p : Party) : Prop :=
  p.totalFiles = p.plannedFiles ∧ p.totalBytes = sumSizes (p.toPush ++ p.toPull)

/-- The plan and its totals are the same. -/
structure SamePlan (p p' : Party) : Prop where
  toPush : p'.toPush = p.toPush
  toPull : p'.toPull = p.toPull
  totalFiles : p'.totalFiles = p.totalFiles
  totalBytes : p'.totalBytes = p.totalBytes

theorem SamePlan.totalled {p p' : Party} (h : SamePlan p p') (ht : Totalled p) : Totalled p' := by
  unfold Totalled Party.plannedFiles
  rw [h.totalFiles, h.totalBytes, h.toPush, h.toPull]
  exact ht

section

variable {cfg : Config} {p p' : Party}

theorem chunkActions_isStart {path : String} {data : Bytes} {a : Action}
    (h : a ∈ chunkActions cfg path data) : a.isStart = false := by
  obtain ⟨c, -, rfl⟩ := List.mem_map.mp h
  rfl

/-- Doing one thing keeps the plan, and no first report comes of it. -/
theorem act_samePlan {a : Action} (h : ActEffect cfg p a p') : SamePlan p p' ∧
    (∀ b ∈ p'.todo, b ∈ p.todo ∨ b.isStart = false) ∧
    (p'.phase = p.phase ∨ ∃ r, p'.phase = .ended r) := by
  cases h with
  | failed _ e => exact ⟨⟨rfl, rfl, rfl, rfl⟩, by simp [Party.fail], Or.inr ⟨_, rfl⟩⟩
  | finishDry => exact ⟨⟨rfl, rfl, rfl, rfl⟩, fun b hb => Or.inl hb, Or.inr ⟨_, rfl⟩⟩
  | installFailed _ => exact ⟨⟨rfl, rfl, rfl, rfl⟩, by simp [Party.fail], Or.inr ⟨_, rfl⟩⟩
  | pushFile _ _ =>
    refine ⟨⟨rfl, rfl, rfl, rfl⟩, fun b hb => ?_, Or.inl rfl⟩
    rcases List.mem_append.mp hb with hb | hb
    · exact Or.inr (chunkActions_isStart hb)
    · rcases List.mem_cons.mp hb with rfl | hb
      · exact Or.inr rfl
      · rcases List.mem_cons.mp hb with rfl | hb
        · exact Or.inr rfl
        · exact Or.inl hb
  | serve _ _ =>
    refine ⟨⟨rfl, rfl, rfl, rfl⟩, fun b hb => ?_, Or.inl rfl⟩
    rcases List.mem_append.mp hb with hb | hb
    · exact Or.inr (chunkActions_isStart hb)
    · rcases List.mem_cons.mp hb with rfl | hb
      · exact Or.inr rfl
      · exact Or.inl hb
  | _ => exact ⟨⟨rfl, rfl, rfl, rfl⟩, fun b hb => Or.inl hb, Or.inl rfl⟩

/-- So does a turn of the loop. -/
theorem message_samePlan {m : SyncMessage} (h : MessageEffect cfg p m p') (ht : p.todo = []) :
    SamePlan p p' ∧ (∀ b ∈ p'.todo, b.isStart = false) ∧
      (p.phase ≠ .awaitIndex → p'.phase ≠ .awaitIndex) := by
  have hnil : ∀ b ∈ p.todo, b.isStart = false := by simp [ht]
  have hb : bottom cfg ≠ .awaitIndex := by
    unfold bottom
    cases cfg.role <;> simp
  cases h with
  | chunk hc =>
    cases hc with
    | metadata _ => exact ⟨⟨rfl, rfl, rfl, rfl⟩, hnil, fun _ => by simp⟩
    | refused e => exact ⟨⟨rfl, rfl, rfl, rfl⟩, by simp [Party.fail], fun _ => by simp [Party.fail]⟩
    | more _ => exact ⟨⟨rfl, rfl, rfl, rfl⟩, hnil, fun _ => hb⟩
    | mismatch _ _ => exact ⟨⟨rfl, rfl, rfl, rfl⟩, by simp [Action.isStart], fun _ => by simp⟩
    | unsafePath e => exact ⟨⟨rfl, rfl, rfl, rfl⟩, by simp [Party.fail], fun _ => by simp [Party.fail]⟩
    | prepareFailed _ _ _ _ _ =>
      exact ⟨⟨rfl, rfl, rfl, rfl⟩, by simp [Party.fail], fun _ => by simp [Party.fail]⟩
    | @prepared _ _ _ conflicted _ _ _ _ _ _ =>
      refine ⟨⟨rfl, rfl, rfl, rfl⟩, ?_, fun _ => hb⟩
      unfold commitActions
      cases conflicted <;> cases cfg.role <;> simp [Action.isStart]
  | request r paths => exact ⟨⟨rfl, rfl, rfl, rfl⟩, by simp [Action.isStart], fun _ => hb⟩
  | ack | ignored => exact ⟨⟨rfl, rfl, rfl, rfl⟩, hnil, fun h => h⟩
  | eof | tooMany | unused => exact ⟨⟨rfl, rfl, rfl, rfl⟩, hnil, fun _ => by simp⟩

theorem next_act {a : Action} {rest : List Action} (ht : p.todo = a :: rest) (i : Input SyncMessage) :
    step (Party.next cfg) p i = (act cfg { p with todo := rest } a).answer p i := by
  simp only [step, Party.next, ht]

/-- The index makes the plan, and the first report is to come. -/
theorem stage_index (K : Party → Prop) (hf : p.doneFiles = 0) (hb : p.doneBytes = 0)
    (m : SyncMessage) : Stage K (onIndex cfg p m) := by
  have hrest : ∀ (entries : List IndexEntry) (a : Action),
      a ∈ entries.map (fun e => Action.pushFile e.path) ++ [.write sentinel] → a.isStart = false := by
    intro entries a ha
    rcases List.mem_append.mp ha with ha | ha
    · obtain ⟨e, -, rfl⟩ := List.mem_map.mp ha
      rfl
    · rw [List.mem_singleton.mp ha]
      rfl
  have hfail : ∀ e, Stage K (p.fail e) := fun e => .finished _ rfl rfl
  unfold onIndex clientIndex serverIndex
  cases cfg.role with
  | client =>
    cases m with
    | index idx =>
      dsimp only
      split_ifs with hmax hdry
      · exact hfail _
      · exact .pending [] "starting" [.finishDry] (Or.inr rfl) rfl (by simp [Action.isStart]) hf hb
      · exact .pending [] "starting" _ (Or.inl (by simp)) rfl (hrest _) hf hb
    | _ => exact hfail _
  | server =>
    cases m with
    | index idx =>
      dsimp only
      split_ifs
      · exact hfail _
      · split
        · exact hfail _
        · exact .pending [_] "starting" _ (Or.inl (by simp)) rfl (hrest _) hf hb
    | _ => exact hfail _

/-- **How far a session is after a step.** Once it has made its first report it is past
it, with the same plan. -/
theorem stage_step {K : Party → Prop} (hK : ∀ {q q' : Party}, SamePlan q q' → K q → K q')
    (h : Stage K p) (i : Input SyncMessage)
    (hfirst : ∀ stage rest, p.todo = .progress stage :: rest → i = .go → K p) :
    Stage K (step (Party.next cfg) p i) := by
  cases htodo : p.todo with
  | cons a rest =>
    have hact := @act_effect cfg p { p with todo := rest } a i
    rw [← next_act htodo] at hact
    have hsame : SamePlan p { p with todo := rest } := ⟨rfl, rfl, rfl, rfl⟩
    generalize hstep : step (Party.next cfg) p i = p' at hact
    cases h with
    | waiting hph hw hf hb =>
      rcases hact with rfl | he
      · exact .waiting hph hw hf hb
      · obtain ⟨m, rfl⟩ := hw a (htodo ▸ List.mem_cons_self ..)
        have hwrest : ∀ b ∈ rest, ∃ m, b = Action.write m := fun b hmem =>
          hw b (htodo ▸ List.mem_cons_of_mem _ hmem)
        cases he with
        | failed _ e => exact .finished _ rfl rfl
        | write m => exact .waiting hph hwrest hf hb
    | pending writes stage rest' hph ht hns hf hb =>
      rw [htodo] at ht
      cases writes with
      | nil =>
        obtain ⟨rfl, rfl⟩ := List.cons.inj ht
        have hstay : p' = p → Stage K p' := by
          rintro rfl
          exact .pending [] stage _ hph htodo hns hf hb
        cases i with
        | go =>
          rw [next_act htodo] at hstep
          rw [← hstep]
          exact .started hph hns (hK hsame (hfirst stage _ htodo rfl))
        | message m => exact hstay (by rw [← hstep, next_act htodo]; rfl)
        | failed => exact hstay (by rw [← hstep, next_act htodo]; rfl)
      | cons m writes =>
        obtain ⟨rfl, rfl⟩ := List.cons.inj ht
        rcases hact with rfl | he
        · exact .pending (m :: writes) stage rest' hph htodo hns hf hb
        · cases he with
          | failed _ e => exact .finished _ rfl rfl
          | write m => exact .pending writes stage rest' hph rfl hns hf hb
    | started hph hns hk =>
      rcases hact with rfl | he
      · exact .started hph hns hk
      · obtain ⟨hplan, hmem, hphase⟩ := act_samePlan he
        have hnone : ∀ b ∈ p'.todo, b.isStart = false := fun b hb =>
          (hmem b hb).elim (fun h => hns b (htodo ▸ List.mem_cons_of_mem _ h)) id
        refine .started ?_ hnone (hK hplan (hK hsame hk))
        left
        rcases hph with hph | hdry
        · rcases hphase with h | ⟨r, h⟩
          · rw [h]
            exact hph
          · rw [h]
            simp
        · -- a dry run ends
          obtain ⟨rfl, rfl⟩ := List.cons.inj (htodo.symm.trans hdry)
          cases he with
          | failed _ e => simp [Party.fail]
          | finishDry => simp
    | finished r ht _ => exact absurd (htodo.symm.trans ht) (by simp)
  | nil =>
    have he := step_effect cfg p i
    generalize step (Party.next cfg) p i = p' at he
    cases h with
    | waiting hph hw hf hb =>
      cases he with
      | idle => exact .waiting hph hw hf hb
      | act ht => exact absurd (htodo.symm.trans ht) (by simp)
      | noIndex e _ => exact .finished _ rfl rfl
      | index m => exact stage_index K hf hb m
      | complete _ _ h | broken _ _ h | message _ h | check _ _ h | stopped _ _ h =>
        exact absurd (hph.symm.trans h) (by simp)
    | pending writes stage rest hph ht =>
      exact absurd (htodo.symm.trans ht) (by simp)
    | finished r _ hph =>
      cases he with
      | idle => exact .finished r htodo hph
      | act ht => exact absurd (htodo.symm.trans ht) (by simp)
      | noIndex _ h | index _ _ h | complete _ _ h | broken _ _ h | message _ h | check _ _ h
      | stopped _ _ h => exact absurd (hph.symm.trans h) (by simp)
    | started hph hns hk =>
      have hphase : p.phase ≠ .awaitIndex := hph.resolve_right (by simp [htodo])
      have hset : ∀ phase stamped, K { p with phase := phase, stamped := stamped } := by
        intro phase stamped
        have hplan : SamePlan p { p with phase := phase, stamped := stamped } := ⟨rfl, rfl, rfl, rfl⟩
        exact hK hplan hk
      cases he with
      | idle => exact .started hph hns hk
      | act ht => exact absurd (htodo.symm.trans ht) (by simp)
      | noIndex _ h | index _ _ h => exact absurd h hphase
      | complete | broken | stopped =>
        exact .started (Or.inl (by simp)) hns (hset _ _)
      | check =>
        refine .started (Or.inl ?_) hns (hset _ _)
        dsimp only
        split_ifs <;> simp
      | message _ _ _ hm =>
        obtain ⟨hplan, hnone, hph'⟩ := message_samePlan hm htodo
        exact .started (Or.inl (hph' hphase)) hnone (hK hplan hk)

theorem totalled_index (h : Totalled p) (m : SyncMessage) : Totalled (onIndex cfg p m) := by
  unfold onIndex clientIndex serverIndex
  cases cfg.role with
  | client =>
    cases m with
    | index idx =>
      dsimp only
      split_ifs
      · exact h
      · exact ⟨by simp [Party.plannedFiles], rfl⟩
      · exact ⟨by simp [Party.plannedFiles], rfl⟩
    | _ => exact h
  | server =>
    cases m with
    | index idx =>
      dsimp only
      split_ifs
      · exact h
      · split
        · exact h
        · exact ⟨by simp [Party.plannedFiles], rfl⟩
    | _ => exact h

theorem totalled_step (h : Totalled p) (i : Input SyncMessage) :
    Totalled (step (Party.next cfg) p i) := by
  have he := step_effect cfg p i
  generalize step (Party.next cfg) p i = p' at he
  cases he with
  | idle => exact h
  | act ht ha => exact (act_samePlan ha).1.totalled h
  | index m => exact totalled_index h m
  | message ht _ _ hm => exact (message_samePlan hm ht).1.totalled h
  | noIndex _ _ | complete _ _ _ | broken _ _ _ | check _ _ _ | stopped _ _ _ => exact h

/-- The event, in the numbers of the session. -/
theorem reportOf_eq (p : Party) (i : Input SyncMessage) : reportOf cfg p i =
    match p.todo, i with
    | .progress _ :: _, .go =>
      [⟨p.doneFiles, p.doneBytes, p.totalFiles, p.totalBytes, p.plannedFiles, p.plannedBytes⟩]
    | .finishDry :: _, .go =>
      [⟨p.totalFiles, p.totalBytes, p.totalFiles, p.totalBytes, p.plannedFiles, p.plannedBytes⟩]
    | .uploaded _ len :: _, .go | .downloaded _ len :: _, .go =>
      [⟨p.doneFiles + 1, p.doneBytes + len, p.totalFiles, p.totalBytes, p.plannedFiles,
        p.plannedBytes⟩]
    | _, _ => [] := by
  unfold reportOf
  cases htodo : p.todo with
  | nil =>
    simp only [Party.next, htodo]
    cases p.phase with
    | receiving =>
      dsimp only
      split_ifs
      · rfl
      · rfl
    | _ => rfl
  | cons a rest =>
    simp only [Party.next, htodo]
    cases a with
    | pushFile path | serve path =>
      simp only [act]
      split
      · rename_i hmove
        split at hmove
        · cases hmove
        · split at hmove <;> cases hmove
      · rfl
    | install path t data =>
      simp only [act]
      split
      · rename_i hmove
        split at hmove <;> cases hmove
      · rfl
    | _ => cases i <;> rfl

end

/-! ### Whole runs -/

section

variable {cfg : Config}

/-- The plan is empty. -/
def NothingPlanned (p : Party) : Prop := p.toPush = [] ∧ p.toPull = []

theorem SamePlan.nothingPlanned {p p' : Party} (h : SamePlan p p') (hp : NothingPlanned p) :
    NothingPlanned p' := ⟨h.toPush.trans hp.1, h.toPull.trans hp.2⟩

theorem Totalled.eq_zero {p : Party} (h : Totalled p) (hp : NothingPlanned p) :
    p.totalFiles = 0 ∧ p.totalBytes = 0 ∧ p.plannedFiles = 0 ∧ p.plannedBytes = 0 := by
  obtain ⟨hpush, hpull⟩ := hp
  have hfiles : p.plannedFiles = 0 := by simp [Party.plannedFiles, hpush, hpull]
  have hbytes : p.plannedBytes = 0 := by simp [Party.plannedBytes, hpush, hpull]
  refine ⟨h.1.trans hfiles, ?_, hfiles, hbytes⟩
  rw [h.2, hpush, hpull]
  rfl

theorem nothingPlanned_iff {p : Party} : NothingPlanned p ↔ p.plannedFiles = 0 := by
  simp [NothingPlanned, Party.plannedFiles]

/-- The first report comes before anything is done. -/
theorem Stage.done_zero {K : Party → Prop} {p : Party} (h : Stage K p) {stage : String}
    {rest : List Action} (ht : p.todo = .progress stage :: rest) :
    p.doneFiles = 0 ∧ p.doneBytes = 0 := by
  cases h with
  | waiting _ _ hf hb | pending _ _ _ _ _ _ hf hb => exact ⟨hf, hb⟩
  | started _ hns =>
    have hstart := hns (.progress stage) (ht ▸ List.mem_cons_self ..)
    cases hstart
  | finished r hnil _ => exact absurd (hnil.symm.trans ht) (by simp)

/-- Where nothing is transferred, an event says that there is nothing to do. -/
theorem reportOf_zero {p : Party} {i : Input SyncMessage} (h : Stage (fun _ => True) p)
    (htotal : Totalled p) (hnow : transfersNothing p i = true) :
    ∀ r ∈ reportOf cfg p i, r = ⟨0, 0, 0, 0, 0, 0⟩ := by
  intro r hr
  rw [reportOf_eq] at hr
  unfold transfersNothing at hnow
  cases htodo : p.todo with
  | nil =>
    rw [htodo] at hr
    cases hr
  | cons a rest =>
    rw [htodo] at hr hnow
    cases i with
    | message m | failed => cases a <;> cases hr
    | go =>
      have hplan : (p.toPush.isEmpty && p.toPull.isEmpty) = true → NothingPlanned p := by
        intro hempty
        rw [Bool.and_eq_true, List.isEmpty_iff, List.isEmpty_iff] at hempty
        exact hempty
      cases a with
      | progress stage =>
        obtain ⟨hf, hb⟩ := h.done_zero htodo
        obtain ⟨h1, h2, h3, h4⟩ := htotal.eq_zero (hplan hnow)
        rw [List.mem_singleton.mp hr, hf, hb, h1, h2, h3, h4]
      | finishDry =>
        obtain ⟨h1, h2, h3, h4⟩ := htotal.eq_zero (hplan hnow)
        rw [List.mem_singleton.mp hr, h1, h2, h3, h4]
      | uploaded path len | downloaded path len => cases hnow
      | _ => cases hr

theorem reports_zero {is : List (Input SyncMessage)} : ∀ {p : Party}, Stage (fun _ => True) p →
    Totalled p → along (Party.next cfg) transfersNothing p is = true →
    ∀ r ∈ progressReports cfg p is, r = ⟨0, 0, 0, 0, 0, 0⟩ := by
  induction is with
  | nil =>
    intro p _ _ _ r hr
    cases hr
  | cons i is ih =>
    intro p hstage htotal halong r hr
    rw [along, Bool.and_eq_true] at halong
    obtain ⟨hnow, hlater⟩ := halong
    rcases List.mem_append.mp hr with hr | hr
    · exact reportOf_zero hstage htotal hnow r hr
    · exact ih (stage_step (fun _ h => h) hstage i fun _ _ _ _ => trivial) (totalled_step htotal i)
        hlater r hr

/-- Anything but writing is done after the first report. -/
theorem Stage.past {K : Party → Prop} {p : Party} (h : Stage K p) {a : Action} {rest : List Action}
    (ht : p.todo = a :: rest) (hwrite : ∀ m, a ≠ .write m) (hstart : a.isStart = false) : K p := by
  cases h with
  | waiting _ hw =>
    obtain ⟨m, hm⟩ := hw a (ht ▸ List.mem_cons_self ..)
    exact absurd hm (hwrite m)
  | pending writes stage rest' _ ht' =>
    rw [ht] at ht'
    cases writes with
    | nil =>
      rw [(List.cons.inj ht').1] at hstart
      cases hstart
    | cons m writes => exact absurd (List.cons.inj ht').1 (hwrite m)
  | started _ _ hk => exact hk
  | finished r hnil _ => exact absurd (hnil.symm.trans ht) (by simp)

/-- A well formed event is that of a plan without files, and not that of a file. -/
theorem transfersNothing_of_wellFormed {p : Party} {i : Input SyncMessage}
    (hstage : Stage NothingPlanned p) (h : WellFormed (reportOf cfg p i)) :
    transfersNothing p i = true ∧
      ∀ stage rest, p.todo = .progress stage :: rest → i = .go → NothingPlanned p := by
  have hempty : NothingPlanned p → (p.toPush.isEmpty && p.toPull.isEmpty) = true := by
    rintro ⟨hpush, hpull⟩
    rw [hpush, hpull]
    rfl
  have hfile : ∀ {done bytes}, NothingPlanned p → ¬WellFormed
      [⟨done + 1, bytes, p.totalFiles, p.totalBytes, p.plannedFiles, p.plannedBytes⟩] := by
    intro done bytes hplan hformed
    have hle := (hformed.bounded _ (List.mem_singleton_self _)).1
    have htot := (hformed.totals _ (List.mem_singleton_self _)).1
    have hzero := nothingPlanned_iff.mp hplan
    dsimp only at hle htot
    omega
  rw [reportOf_eq] at h
  unfold transfersNothing
  cases htodo : p.todo with
  | nil => exact ⟨rfl, fun _ _ heq => by cases heq⟩
  | cons a rest =>
    rw [htodo] at h
    cases i with
    | message m | failed => cases a <;> exact ⟨rfl, fun _ _ _ hgo => by cases hgo⟩
    | go =>
      cases a with
      | progress stage =>
        have htot := (h.totals _ (List.mem_singleton_self _)).1
        rw [(hstage.done_zero htodo).2] at htot
        have hplan : NothingPlanned p := nothingPlanned_iff.mpr htot.symm
        exact ⟨hempty hplan, fun _ _ _ _ => hplan⟩
      | finishDry =>
        have hplan : NothingPlanned p := hstage.past htodo nofun rfl
        exact ⟨hempty hplan, fun _ _ _ _ => hplan⟩
      | uploaded path len | downloaded path len =>
        exact absurd h (hfile (hstage.past htodo nofun rfl))
      | _ => exact ⟨rfl, fun _ _ heq => by cases heq⟩

/-- Well formed events are those of a run that transfers nothing. -/
theorem along_of_wellFormed {is : List (Input SyncMessage)} : ∀ {p : Party}, Stage NothingPlanned p →
    Totalled p → WellFormed (progressReports cfg p is) →
    along (Party.next cfg) transfersNothing p is = true := by
  induction is with
  | nil => exact fun _ _ _ => rfl
  | cons i is ih =>
    intro p hstage htotal h
    obtain ⟨hnow, hlater⟩ := h.of_append
    obtain ⟨hquiet, hfirst⟩ := transfersNothing_of_wellFormed hstage hnow
    rw [along, hquiet, Bool.true_and]
    exact ih (stage_step SamePlan.nothingPlanned hstage i hfirst) (totalled_step htotal i) hlater

theorem stage_begin (K : Party → Prop) (f : Folder) : Stage K (start cfg f) := by
  unfold start
  cases cfg.role with
  | client => exact .waiting rfl (by simp [clientStart]) rfl rfl
  | server => exact .waiting rfl (by simp [serverStart]) rfl rfl

theorem totalled_start (f : Folder) : Totalled (start cfg f) := by
  unfold start
  cases cfg.role <;> exact ⟨rfl, rfl⟩

end

/-- **The progress events of a run are well formed** exactly if it has nothing to
transfer and transfers nothing, as far as it reports. -/
theorem progress_wellFormed_iff (cfg : Config) (f : Folder) (is : List (Input SyncMessage)) :
    WellFormed (progressReports cfg (start cfg f) is) ↔
      along (Party.next cfg) transfersNothing (start cfg f) is = true := by
  constructor
  · exact along_of_wellFormed (stage_begin _ f) (totalled_start f)
  · intro h
    exact wellFormed_of_zero (reports_zero (stage_begin _ f) (totalled_start f) h)

/-- A client that has one file of one byte, which its peer lacks: the first event says
that no file of none is done, and one byte of one. -/
theorem progress_swapped :
    ¬∀ (cfg : Config) (f : Folder) (is : List (Input SyncMessage)),
      WellFormed (progressReports cfg (start cfg f) is) := by
  intro h
  have hreports : progressReports (sampleConfig .client)
      (start (sampleConfig .client) (sampleFolder [(sampleName, [97])]))
      [.go, .message (.index ⟨"1", "phone", none, []⟩), .go] = [⟨0, 0, 1, 1, 1, 1⟩] := by
    decide +kernel
  have hformed := h (sampleConfig .client) (sampleFolder [(sampleName, [97])])
    [.go, .message (.index ⟨"1", "phone", none, []⟩), .go]
  rw [hreports] at hformed
  have htotal := (hformed.totals _ (List.mem_singleton_self _)).1
  cases htotal

end FerriSync
