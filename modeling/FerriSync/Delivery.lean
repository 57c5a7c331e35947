/-
# The chunks of a session

The receive loops of the two ends put together what `Reassembly` says: after
any run of an end, its inbox is that of the chunks it has read in its loop,
and each file it has committed is one of those handed over
(`run_follows`). So what is known of the chunks of a session holds of its
commits (`committed_whole`).

Key definitions: `chunksRead`, `Follows`.
Key theorems: `follows_step`, `run_follows`, `committed_whole`.
-/
import FerriSync.Integrity
import FerriSync.Exchange
import FerriSync.Reassembly

namespace FerriSync

open Machine

section

variable (cfg : Config)

/-- The chunk that an end reads in its loop. -/
def chunkRead (p : Party) : Input SyncMessage → Option FileChunk
  | .message (.fileChunk c) =>
    match p.todo, p.phase with
    | [], .receiving =>
      if (cfg.role = .client ∧ p.complete = true) ∨ frameTooLarge cfg.serialize (.fileChunk c) = true
      then none else some c
    | _, _ => none
  | _ => none

def chunksRead : Party → List (Input SyncMessage) → List FileChunk
  | _, [] => []
  | p, i :: is => (chunkRead cfg p i).toList ++ chunksRead (step (Party.next cfg) p i) is

end

variable {cfg : Config}

/-- An end has put together what its chunks say. -/
structure Follows (p : Party) (r : Reassembly) : Prop where
  inbox : p.inbox = r.inbox
  /-- A chunk refused is the end of the session. -/
  refused : r.refused = true → p.todo = [] ∧ ∃ result, p.phase = .ended result
  committed : ∀ x ∈ p.committed, ∃ d ∈ r.delivered, d.path = x.1 ∧ d.data = x.2
  pending : ∀ path t data, Action.install path t data ∈ p.todo →
    ∃ d ∈ r.delivered, d.path = path ∧ d.data = data

theorem follows_start (f : Folder) : Follows (start cfg f) {} := by
  unfold start
  cases cfg.role with
  | client => exact ⟨rfl, by simp, by simp [clientStart], by simp [clientStart]⟩
  | server => exact ⟨rfl, by simp, by simp [serverStart], by simp [serverStart]⟩

/-- A step that reads no chunk and commits nothing. -/
theorem Follows.of_sub {p p' : Party} {r : Reassembly} (h : Follows p r) (hi : p'.inbox = p.inbox)
    (hc : p'.committed = p.committed)
    (ht : ∀ path t data, Action.install path t data ∈ p'.todo → Action.install path t data ∈ p.todo)
    (hr : r.refused = false) : Follows p' r where
  inbox := hi.trans h.inbox
  refused hb := by
    rw [hr] at hb
    cases hb
  committed := by rw [hc]; exact h.committed
  pending path t data hm := h.pending path t data (ht path t data hm)

theorem Follows.fail {p : Party} {r : Reassembly} (h : Follows p r) (e : String) :
    Follows (p.fail e) r :=
  ⟨h.inbox, fun _ => ⟨rfl, _, rfl⟩, h.committed, fun _ _ _ hm => absurd hm List.not_mem_nil⟩

theorem follows_act {p p' : Party} {r : Reassembly} {a : Action} {rest : List Action}
    (h : Follows p r) (hr : r.refused = false) (ht : p.todo = a :: rest)
    (ha : ActEffect cfg { p with todo := rest } a p') : Follows p' r := by
  have hrest : ∀ path t data, Action.install path t data ∈ rest →
      Action.install path t data ∈ p.todo := fun path t data hm => by
    rw [ht]
    exact List.mem_cons_of_mem a hm
  have hq : Follows { p with todo := rest } r := h.of_sub rfl rfl hrest hr
  cases ha with
  | failed _ e => exact hq.fail e
  | pushFile | serve =>
    refine hq.of_sub rfl rfl (fun path t data hm => ?_) hr
    rcases List.mem_append.mp hm with hm | hm
    · obtain ⟨c, hc⟩ := mem_chunkActions hm
      cases hc
    · simpa using hm
  | installFailed hn =>
    exact ⟨hq.inbox, fun _ => ⟨rfl, _, rfl⟩, hq.committed, fun _ _ _ hm => absurd hm List.not_mem_nil⟩
  | @install path t data g hn =>
    have hin : Action.install path t data ∈ p.todo := by
      rw [ht]
      exact List.mem_cons_self ..
    refine ⟨hq.inbox, fun hb => ?_, fun x hx => ?_, hq.pending⟩
    · rw [hr] at hb
      cases hb
    · rcases List.mem_append.mp hx with hx | hx
      · exact h.committed x hx
      · rw [List.mem_singleton.mp hx]
        exact h.pending path t data hin
  | _ => exact hq.of_sub rfl rfl (fun _ _ _ => id) hr

/-- Reading the index touches no file. -/
theorem index_inbox (cfg : Config) (p : Party) (m : SyncMessage) : (onIndex cfg p m).inbox = p.inbox ∧
    (onIndex cfg p m).committed = p.committed ∧
    ∀ path t data, Action.install path t data ∉ (onIndex cfg p m).todo := by
  unfold onIndex clientIndex serverIndex
  cases cfg.role with
  | client =>
    cases m with
    | index remote =>
      dsimp only
      split_ifs with h1 h2
      · exact ⟨rfl, rfl, by simp [Party.fail]⟩
      · exact ⟨rfl, rfl, by simp⟩
      · exact ⟨rfl, rfl, by simp⟩
    | _ => exact ⟨rfl, rfl, by simp [Party.fail]⟩
  | server =>
    cases m with
    | index remote =>
      dsimp only
      split_ifs with h1
      · exact ⟨rfl, rfl, by simp [Party.fail]⟩
      · split
        · exact ⟨rfl, rfl, by simp [Party.fail]⟩
        · exact ⟨rfl, rfl, by simp⟩
    | _ => exact ⟨rfl, rfl, by simp [Party.fail]⟩

/-- A chunk read is taken, or is the end of the session. -/
theorem follows_chunk {p : Party} {r : Reassembly} (h : Follows p r) (hr : r.refused = false)
    (c : FileChunk) : Follows (onChunk cfg p c) (r.chunk c) := by
  have hinbox := h.inbox
  unfold onChunk Reassembly.chunk
  by_cases hm : c.path = "metadata.db"
  · rw [if_pos hm, if_pos (by simp [hm])]
    exact h.of_sub rfl rfl (fun _ _ _ => id) hr
  rw [if_neg hm, if_neg (by simp [hm, hr]), ← hinbox]
  cases hreceive : receiveChunk p.inbox c with
  | refused e =>
    exact ⟨rfl, fun _ => ⟨rfl, _, rfl⟩, h.committed, fun _ _ _ hin => absurd hin List.not_mem_nil⟩
  | more inbox =>
    refine ⟨rfl, fun hb => ?_, h.committed, h.pending⟩
    rw [hr] at hb
    cases hb
  | complete inbox data =>
    have hnot : ∀ {P : Prop}, r.refused = true → P := fun hb => by
      rw [hr] at hb
      cases hb
    have hcommitted : ∀ x ∈ p.committed, ∃ d ∈ r.delivered ++ [⟨c.path, data, r.parts c.path ++ [c]⟩],
        d.path = x.1 ∧ d.data = x.2 := fun x hx => by
      obtain ⟨d, hd, hdx⟩ := h.committed x hx
      exact ⟨d, List.mem_append_left _ hd, hdx⟩
    dsimp only
    split_ifs with hh
    · exact ⟨rfl, hnot, hcommitted, by simp⟩
    · cases hj : safeJoin c.path with
      | error e => exact ⟨rfl, hnot, hcommitted, fun _ _ _ hin => absurd hin List.not_mem_nil⟩
      | ok t =>
        dsimp only
        rcases hp : prepare cfg.blake3 (cfg.secs p.tick) cfg.label t data p.folder with ⟨_ | b, g⟩
        · exact ⟨rfl, hnot, hcommitted, fun _ _ _ hin => absurd hin List.not_mem_nil⟩
        · refine ⟨rfl, hnot, hcommitted, fun path t' data' hin => ?_⟩
          have hin' : Action.install path t' data' ∈ commitActions cfg c.path t data := by
            rcases List.mem_append.mp hin with hin | hin
            · cases b <;> simp at hin
            · exact hin
          obtain ⟨rfl, rfl, rfl⟩ := mem_commitActions hin'
          exact ⟨_, List.mem_append_right _ (List.mem_singleton_self _), rfl, rfl⟩

/-- The step that reads a chunk. -/
theorem step_of_chunkRead {p : Party} {i : Input SyncMessage} {c : FileChunk}
    (h : chunkRead cfg p i = some c) :
    p.todo = [] ∧ p.phase = .receiving ∧ step (Party.next cfg) p i = onChunk cfg p c := by
  unfold chunkRead at h
  split at h
  · split at h
    · rename_i ht hph
      split_ifs at h with hc
      cases h
      rw [not_or] at hc
      refine ⟨ht, hph, ?_⟩
      simp only [step, Party.next, ht, hph, if_neg hc.1, readMessage, Move.answer, if_neg hc.2]
      exact onMessage_chunk cfg p c
    · cases h
  · cases h

/-- Any other step. -/
theorem follows_other {p : Party} {r : Reassembly} {i : Input SyncMessage} (h : Follows p r)
    (hr : r.refused = false) (hn : chunkRead cfg p i = none) :
    Follows (step (Party.next cfg) p i) r := by
  cases ht : p.todo with
  | cons a rest =>
    have hstep : step (Party.next cfg) p i = (act cfg { p with todo := rest } a).answer p i := by
      simp only [step, Party.next, ht]
    rw [hstep]
    rcases act_effect p { p with todo := rest } a i with hsame | heffect
    · rw [hsame]
      exact h
    · exact follows_act h hr ht heffect
  | nil =>
    have he := step_effect cfg p i
    by_cases hread : ∃ c, i = .message (.fileChunk c) ∧ p.phase = .receiving
    · -- a chunk that is not taken: the loop is left
      obtain ⟨c, rfl, hph⟩ := hread
      simp only [chunkRead, ht, hph, ite_eq_left_iff, reduceCtorEq, imp_false, not_not] at hn
      simp only [step, Party.next, ht, hph]
      by_cases hc : cfg.role = .client ∧ p.complete = true
      · rw [if_pos hc]
        exact h
      · rw [if_neg hc]
        simp only [readMessage, Move.answer, if_pos (hn.resolve_left hc)]
        exact h.of_sub rfl rfl (fun _ _ _ hm => absurd hm List.not_mem_nil) hr
    · generalize step (Party.next cfg) p i = p' at he
      cases he with
      | idle => exact h
      | act hta ha => exact follows_act h hr hta ha
      | noIndex e hph => exact h.fail e
      | index m hti hph =>
        obtain ⟨hi, hc, hnone⟩ := index_inbox cfg p m
        exact h.of_sub hi hc (fun path t data hm => absurd hm (hnone path t data)) hr
      | message hti hph hc hm =>
        cases hm with
        | chunk hc => exact absurd ⟨_, rfl, hph⟩ hread
        | request q paths => exact h.of_sub rfl rfl (fun _ _ _ hm => by simp at hm) hr
        | _ => exact h.of_sub rfl rfl (fun _ _ _ => id) hr
      | _ => exact h.of_sub rfl rfl (fun _ _ _ => id) hr

/-- **Each step keeps the two together.** -/
theorem follows_step {p : Party} {r : Reassembly} (h : Follows p r) (i : Input SyncMessage) :
    Follows (step (Party.next cfg) p i) ((chunkRead cfg p i).toList.foldl Reassembly.chunk r) := by
  cases hread : chunkRead cfg p i with
  | some c =>
    obtain ⟨-, hph, hstep⟩ := step_of_chunkRead hread
    have hr : r.refused = false := by
      by_contra hb
      obtain ⟨-, result, hended⟩ := h.refused (by simpa using hb)
      rw [hph] at hended
      cases hended
    rw [hstep]
    exact follows_chunk h hr c
  | none =>
    by_cases hr : r.refused = true
    · obtain ⟨ht, result, hph⟩ := h.refused hr
      have hstep : step (Party.next cfg) p i = p := by
        simp only [step, Party.next, ht, hph]
        cases i <;> rfl
      rw [hstep]
      exact h
    · exact follows_other h (by simpa using hr) hread

theorem follows_run {p : Party} {r : Reassembly} (h : Follows p r) (is : List (Input SyncMessage)) :
    Follows (run (Party.next cfg) p is) ((chunksRead cfg p is).foldl Reassembly.chunk r) := by
  induction is generalizing p r with
  | nil => exact h
  | cons i is ih =>
    rw [chunksRead, List.foldl_append]
    exact ih (follows_step h i)

/-- **A run of an end puts together the chunks it reads.** -/
theorem run_follows (cfg : Config) (f : Folder) (is : List (Input SyncMessage)) :
    Follows (run (Party.next cfg) (start cfg f) is)
      (reassemble (chunksRead cfg (start cfg f) is)) :=
  follows_run (follows_start f) is

/-- A session whose chunks leave no gap commits whole files. -/
theorem committed_whole (cfg : Config) (f : Folder) (is : List (Input SyncMessage))
    (h : ∀ d ∈ (reassemble (chunksRead cfg (start cfg f) is)).delivered, d.gapless = true) :
    ∀ x ∈ (run (Party.next cfg) (start cfg f) is).committed,
      ∃ d ∈ (reassemble (chunksRead cfg (start cfg f) is)).delivered,
        d.path = x.1 ∧ d.data = x.2 ∧ d.Whole := by
  intro x hx
  obtain ⟨d, hd, hpath, hdata⟩ := (run_follows cfg f is).committed x hx
  exact ⟨d, hd, hpath, hdata, ((reassemble_buffered _).put d hd).whole_iff.mpr (h d hd)⟩

end FerriSync
