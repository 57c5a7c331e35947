/-
# Changes of files

What a `FileWatcher` reports goes through a `ChangeScheduler` (`watcher/mod.rs`), which holds
events back until none has come for a while, or there are enough, and merges those of one path
into one. Whatever has happened to the paths, the merged events say the same of them as all
events did (`coalesce_preserves`).

Key definitions: `ChangeEvent`, `mergeEvents`, `coalesce`, `ChangeEvent.apply`, `SameEffect`.
Key theorems: `net_concat`, `mem_foldl_apply`, `coalesce_preserves`.
-/
import Mathlib.Data.List.AList
import Mathlib.Data.Set.Insert
import FerriSync.Lib.Keyed
import FerriSync.Lib.Runs

namespace FerriSync

/-- File system change events from the watcher. -/
inductive ChangeEvent (P : Type)
  | created (path : P)
  | modified (path : P)
  | deleted (path : P)
  | renamed (src dst : P)
deriving DecidableEq, Repr

variable {P : Type}

/-- The primary path affected by the event. -/
def ChangeEvent.primaryPath : ChangeEvent P → P
  | created p | modified p | deleted p => p
  | renamed src _ => src

/-- Merge two events for the same path; one that is deleted after it was created leaves none. -/
def mergeEvents (prev : Option (ChangeEvent P)) (next : ChangeEvent P) : Option (ChangeEvent P) :=
  match prev, next with
  | some (.created _), .modified p => some (.created p)
  | some (.created _), .deleted _ => none
  | some (.modified _), .deleted p => some (.deleted p)
  | some (.deleted _), .created p => some (.modified p)
  | some (.deleted _), .modified p => some (.modified p)
  | _, other => some other

section

variable [DecidableEq P]

/-- The final state of each path, and the paths in the order in which they have come. -/
structure Coalescing (P : Type) where
  finalState : AList fun _ : P => Option (ChangeEvent P)
  order : List P

def Coalescing.add (c : Coalescing P) (event : ChangeEvent P) : Coalescing P where
  finalState := c.finalState.insert event.primaryPath
    (mergeEvents (c.finalState.lookup event.primaryPath).join event)
  order := if event.primaryPath ∈ c.finalState then c.order else c.order ++ [event.primaryPath]

/-- What is left of the paths, each of which is taken out. -/
def collectOrder (finalState : AList fun _ : P => Option (ChangeEvent P)) : List P → List (ChangeEvent P)
  | [] => []
  | p :: order =>
    match (finalState.lookup p).join with
    | some event => event :: collectOrder (finalState.erase p) order
    | none => collectOrder (finalState.erase p) order

def coalesce (events : List (ChangeEvent P)) : List (ChangeEvent P) :=
  if events.isEmpty then []
  else
    let c := events.foldl Coalescing.add ⟨∅, []⟩
    collectOrder c.finalState c.order

end

/-! ### What events say of the paths -/

namespace ChangeEvent

/-- A path is created only when absent, and modified or deleted only when present; the watcher
reports nothing as renamed. -/
def Possible (present : Set P) : ChangeEvent P → Prop
  | created p => p ∉ present
  | modified p | deleted p => p ∈ present
  | renamed _ _ => False

/-- The paths after an event. -/
def apply (present : Set P) : ChangeEvent P → Set P
  | created p => insert p present
  | modified _ => present
  | deleted p => present \ {p}
  | renamed src dst => insert dst (present \ {src})

end ChangeEvent

/-- Every event is possible when it comes. -/
def PossibleFrom (present : Set P) (events : List (ChangeEvent P)) : Prop :=
  Runs.Meets ChangeEvent.apply (fun s e => e.Possible s) present events

/-- The merged events say the same of the paths as the events did. -/
structure SameEffect [DecidableEq P] (present : Set P) (events batch : List (ChangeEvent P)) : Prop where
  once : (batch.map ChangeEvent.primaryPath).Nodup
  /-- In the order in which the paths have come first. -/
  order : (batch.map ChangeEvent.primaryPath).Sublist
    (Keyed.keepFirst id (events.map ChangeEvent.primaryPath))
  possible : PossibleFrom present batch
  changed : ∀ p, ¬(p ∈ present ↔ p ∈ events.foldl ChangeEvent.apply present) →
    p ∈ batch.map ChangeEvent.primaryPath
  touched : ∀ p ∈ events.foldl ChangeEvent.apply present,
    .created p ∈ events ∨ .modified p ∈ events → p ∈ batch.map ChangeEvent.primaryPath
  paths : batch.foldl ChangeEvent.apply present = events.foldl ChangeEvent.apply present

/-! ### One path -/

/-- What the events have come to for a path: it was there before, and is there now, as the
event that is left for it says; if none is left, it has never come, or has come and gone. -/
def Net (present now : Set P) (come : Prop) (p : P) : Option (ChangeEvent P) → Prop
  | none => (p ∈ present ↔ p ∈ now) ∧ (come → p ∉ now)
  | some (.created q) => q = p ∧ p ∉ present ∧ p ∈ now
  | some (.modified q) => q = p ∧ p ∈ present ∧ p ∈ now
  | some (.deleted q) => q = p ∧ p ∈ present ∧ p ∉ now
  | some (.renamed _ _) => False

section

variable {present now : Set P} {come come' : Prop} {p : P} {e : ChangeEvent P} {state : Option (ChangeEvent P)}

/-- Another path's event. -/
theorem mem_apply_of_ne (hpossible : e.Possible now) (hne : e.primaryPath ≠ p) : p ∈ e.apply now ↔ p ∈ now := by
  cases e with
  | created q =>
    show p ∈ insert q now ↔ _
    rw [Set.mem_insert_iff]
    exact or_iff_right (Ne.symm hne)
  | modified q => exact Iff.rfl
  | deleted q =>
    show p ∈ now ∧ p ∉ ({q} : Set P) ↔ _
    exact and_iff_left (Ne.symm hne)
  | renamed src dst => exact hpossible.elim

theorem net_other (h : Net present now come p state) (hpossible : e.Possible now)
    (hne : e.primaryPath ≠ p) (hcome : come' → come) : Net present (e.apply now) come' p state := by
  have hmem := mem_apply_of_ne hpossible hne
  cases state with
  | none => exact ⟨h.1.trans hmem.symm, fun hc hp => h.2 (hcome hc) (hmem.mp hp)⟩
  | some state =>
    cases state with
    | created q => exact ⟨h.1, h.2.1, hmem.mpr h.2.2⟩
    | modified q => exact ⟨h.1, h.2.1, hmem.mpr h.2.2⟩
    | deleted q => exact ⟨h.1, h.2.1, fun hp => h.2.2 (hmem.mp hp)⟩
    | renamed src dst => exact h

/-- **The path's own event** is merged into what is left for it. -/
theorem net_merge (h : Net present now come p state) (hpossible : e.Possible now)
    (hpath : e.primaryPath = p) : Net present (e.apply now) True p (mergeEvents state e) := by
  subst hpath
  cases e with
  | renamed src dst => exact hpossible.elim
  | created q =>
    have hnow : q ∈ insert q now := Set.mem_insert q now
    have habsent : q ∉ now := hpossible
    cases state with
    | none => exact ⟨rfl, fun hp => habsent (h.1.mp hp), hnow⟩
    | some state =>
      cases state with
      | created r => exact absurd h.2.2 habsent
      | modified r => exact absurd h.2.2 habsent
      | deleted r => exact ⟨rfl, h.2.1, hnow⟩
      | renamed src dst => exact h.elim
  | modified q =>
    have hthere : q ∈ now := hpossible
    cases state with
    | none => exact ⟨rfl, h.1.mpr hthere, hthere⟩
    | some state =>
      cases state with
      | created r => exact ⟨rfl, h.2.1, hthere⟩
      | modified r => exact ⟨rfl, h.2.1, hthere⟩
      | deleted r => exact absurd hthere h.2.2
      | renamed src dst => exact h.elim
  | deleted q =>
    have hthere : q ∈ now := hpossible
    have hgone : q ∉ now \ {q} := fun hp => hp.2 rfl
    cases state with
    | none => exact ⟨rfl, h.1.mpr hthere, hgone⟩
    | some state =>
      cases state with
      | created r => exact ⟨iff_of_false h.2.1 hgone, fun _ => hgone⟩
      | modified r => exact ⟨rfl, h.2.1, hgone⟩
      | deleted r => exact absurd hthere h.2.2
      | renamed src dst => exact h.elim

end

/-! ### Events of different paths -/

section

variable {present : Set P} {batch : List (ChangeEvent P)} {e : ChangeEvent P} {p : P}

/-- An event of a path with nothing left says what is left. -/
theorem Net.path {now : Set P} {come : Prop} (h : Net present now come p (some e)) : e.primaryPath = p := by
  cases e with
  | created q => exact h.1
  | modified q => exact h.1
  | deleted q => exact h.1
  | renamed src dst => exact h.elim

theorem Net.possible {now : Set P} {come : Prop} (h : Net present now come p (some e)) :
    e.Possible present := by
  cases e with
  | created q => exact h.1 ▸ h.2.1
  | modified q => exact h.1 ▸ h.2.1
  | deleted q => exact h.1 ▸ h.2.1
  | renamed src dst => exact h.elim

theorem Net.mem_apply {now : Set P} {come : Prop} (h : Net present now come p (some e)) :
    p ∈ e.apply present ↔ p ∈ now := by
  cases e with
  | created q => exact iff_of_true (h.1 ▸ Set.mem_insert _ _) h.2.2
  | modified q => exact iff_of_true h.2.1 h.2.2
  | deleted q => exact iff_of_false (fun hp => hp.2 h.1.symm) h.2.2
  | renamed src dst => exact h.elim

theorem possible_apply_of_ne {e' : ChangeEvent P} (he : e.Possible present) (he' : e'.Possible present)
    (hne : e.primaryPath ≠ e'.primaryPath) : e'.Possible (e.apply present) := by
  have hmem : e'.primaryPath ∈ e.apply present ↔ e'.primaryPath ∈ present := mem_apply_of_ne he hne
  cases e' with
  | created q => exact fun hp => he' (hmem.mp hp)
  | modified q => exact hmem.mpr he'
  | deleted q => exact hmem.mpr he'
  | renamed src dst => exact he'

/-- **Events of different paths** do not get in each other's way. -/
theorem possibleFrom_of_distinct (hnodup : (batch.map ChangeEvent.primaryPath).Nodup)
    (hall : ∀ e ∈ batch, e.Possible present) : PossibleFrom present batch := by
  induction batch generalizing present with
  | nil => exact Runs.meets_nil
  | cons e batch ih =>
    obtain ⟨hnew, hrest⟩ := List.nodup_cons.mp hnodup
    obtain ⟨he, hall⟩ := List.forall_mem_cons.mp hall
    refine Runs.meets_cons.mpr ⟨he, ih hrest fun e' he' => ?_⟩
    exact possible_apply_of_ne he (hall e' he') fun heq => hnew (List.mem_map.mpr ⟨e', he', heq.symm⟩)

theorem mem_foldl_of_untouched (hpossible : PossibleFrom present batch)
    (hnone : p ∉ batch.map ChangeEvent.primaryPath) :
    p ∈ batch.foldl ChangeEvent.apply present ↔ p ∈ present := by
  induction batch generalizing present with
  | nil => exact Iff.rfl
  | cons e batch ih =>
    obtain ⟨he, hrest⟩ := Runs.meets_cons.mp hpossible
    obtain ⟨hne, hnone⟩ := not_or.mp (List.mem_cons.not.mp hnone)
    exact (ih hrest hnone).trans (mem_apply_of_ne he (Ne.symm hne))

/-- Whether a path is there after its own event depends on the path only. -/
theorem mem_apply_congr {now : Set P} (h : e.primaryPath ∈ present ↔ e.primaryPath ∈ now)
    (hpossible : e.Possible present) : e.primaryPath ∈ e.apply present ↔ e.primaryPath ∈ e.apply now := by
  cases e with
  | created q => exact iff_of_true (Set.mem_insert _ _) (Set.mem_insert _ _)
  | modified q => exact h
  | deleted q => exact iff_of_false (fun hp => hp.2 rfl) fun hp => hp.2 rfl
  | renamed src dst => exact hpossible.elim

theorem mem_foldl_apply (hnodup : (batch.map ChangeEvent.primaryPath).Nodup)
    (hall : ∀ e ∈ batch, e.Possible present) (he : e ∈ batch) :
    e.primaryPath ∈ batch.foldl ChangeEvent.apply present ↔ e.primaryPath ∈ e.apply present := by
  induction batch generalizing present with
  | nil => cases he
  | cons e' batch ih =>
    obtain ⟨hnew, hrest⟩ := List.nodup_cons.mp hnodup
    obtain ⟨he', hlater⟩ := List.forall_mem_cons.mp hall
    have hpossible := possibleFrom_of_distinct hnodup hall
    rw [List.foldl_cons]
    rcases List.mem_cons.mp he with rfl | he
    · exact mem_foldl_of_untouched (Runs.meets_cons.mp hpossible).2 hnew
    · have hne : e'.primaryPath ≠ e.primaryPath := fun heq => hnew (List.mem_map.mpr ⟨e, he, heq.symm⟩)
      rw [ih hrest (fun e'' he'' => possible_apply_of_ne he' (hlater e'' he'') fun heq =>
        hnew (List.mem_map.mpr ⟨e'', he'', heq.symm⟩)) he]
      exact (mem_apply_congr (mem_apply_of_ne he' hne).symm (hlater e he)).symm

end

/-! ### All paths -/

section

variable [DecidableEq P] {present : Set P} {events : List (ChangeEvent P)} {c : Coalescing P}
  {e : ChangeEvent P}

/-- What the loop has made of the events so far. -/
structure Coalesced (present : Set P) (events : List (ChangeEvent P)) (c : Coalescing P) : Prop where
  keys : ∀ p, p ∈ c.finalState ↔ p ∈ c.order
  order : c.order = Keyed.keepFirst id (events.map ChangeEvent.primaryPath)
  net : ∀ p, Net present (events.foldl ChangeEvent.apply present) (p ∈ events.map ChangeEvent.primaryPath) p
    (c.finalState.lookup p).join

theorem keepFirst_concat (paths : List P) (p : P) : Keyed.keepFirst id (paths ++ [p]) =
    if p ∈ Keyed.keepFirst id paths then Keyed.keepFirst id paths else Keyed.keepFirst id paths ++ [p] := by
  have hfold : Keyed.keepFirst id (paths ++ [p]) = Keyed.addFirst id (Keyed.keepFirst id paths) p :=
    List.foldl_concat ..
  rw [hfold]
  split_ifs with hmem
  · exact Keyed.addFirst_of_mem (by rwa [List.map_id])
  · exact Keyed.addFirst_of_notMem (by rwa [List.map_id])

theorem coalesced_add (h : Coalesced present events c)
    (hpossible : e.Possible (events.foldl ChangeEvent.apply present)) :
    Coalesced present (events ++ [e]) (c.add e) := by
  have hmem : e.primaryPath ∈ c.finalState ↔
      e.primaryPath ∈ Keyed.keepFirst id (events.map ChangeEvent.primaryPath) := by
    rw [h.keys, h.order]
  constructor
  case keys =>
    intro p
    unfold Coalescing.add
    rw [AList.mem_insert, h.keys]
    split_ifs with hthere
    · exact or_iff_right_of_imp fun heq => heq ▸ (h.keys _).mp hthere
    · rw [List.mem_append, List.mem_singleton, or_comm]
  case order =>
    unfold Coalescing.add
    rw [List.map_append, List.map_singleton, keepFirst_concat, h.order]
    simp only [hmem]
  case net =>
    intro p
    unfold Coalescing.add
    rw [List.foldl_concat]
    by_cases hpath : e.primaryPath = p
    · subst hpath
      rw [AList.lookup_insert]
      have hmerged := net_merge (h.net e.primaryPath) hpossible rfl
      cases hstate : mergeEvents (c.finalState.lookup e.primaryPath).join e with
      | none =>
        rw [hstate] at hmerged
        exact ⟨hmerged.1, fun _ => hmerged.2 trivial⟩
      | some state =>
        rw [hstate] at hmerged
        cases state with
        | _ => exact hmerged
    · rw [AList.lookup_insert_ne (Ne.symm hpath)]
      refine net_other (h.net p) hpossible hpath fun hcome => ?_
      rw [List.map_append, List.map_singleton, List.mem_append, List.mem_singleton] at hcome
      exact hcome.resolve_right (Ne.symm hpath)

/-- **What the loop makes of any events.** -/
theorem coalesced_foldl (hpossible : PossibleFrom present events) :
    Coalesced present events (events.foldl Coalescing.add ⟨∅, []⟩) := by
  induction events using List.reverseRecOn with
  | nil =>
    refine ⟨fun p => iff_of_false (AList.notMem_empty p) List.not_mem_nil, rfl, fun p => ?_⟩
    exact ⟨Iff.rfl, fun hcome => absurd hcome List.not_mem_nil⟩
  | append_singleton events e ih =>
    obtain ⟨hbefore, he⟩ := Runs.meets_concat.mp hpossible
    rw [List.foldl_concat]
    exact coalesced_add (ih hbefore) he

theorem collectOrder_eq {finalState : AList fun _ : P => Option (ChangeEvent P)} {order : List P}
    (hnodup : order.Nodup) :
    collectOrder finalState order = order.filterMap fun p => (finalState.lookup p).join := by
  induction order generalizing finalState with
  | nil => rfl
  | cons p order ih =>
    obtain ⟨hnew, hrest⟩ := List.nodup_cons.mp hnodup
    have htail : collectOrder (finalState.erase p) order =
        order.filterMap fun p => (finalState.lookup p).join := by
      rw [ih hrest]
      refine List.filterMap_congr fun q hq => ?_
      have hne : q ≠ p := fun heq => hnew (heq ▸ hq)
      rw [AList.lookup_erase_ne hne]
    unfold collectOrder
    rw [List.filterMap_cons, htail]
    cases (finalState.lookup p).join <;> rfl

end

theorem filterMap_sublist {α β : Type} {f : α → Option β} {key : β → α} (hkey : ∀ a b, f a = some b → key b = a)
    (as : List α) : ((as.filterMap f).map key).Sublist as := by
  induction as with
  | nil => exact List.Sublist.slnil
  | cons a as ih =>
    rw [List.filterMap_cons]
    cases hb : f a with
    | none => exact ih.cons a
    | some b =>
      dsimp only
      rw [List.map_cons, hkey a b hb]
      exact ih.cons_cons a

/-- **Merging the events of each path keeps what they say**, whatever is created, modified and
deleted in whatever order. -/
theorem coalesce_preserves [DecidableEq P] (present : Set P) (events : List (ChangeEvent P))
    (hpossible : PossibleFrom present events) : SameEffect present events (coalesce events) := by
  obtain ⟨hkeys, horder, hnet⟩ := coalesced_foldl hpossible
  let c := events.foldl Coalescing.add ⟨∅, []⟩
  have hnodup : c.order.Nodup := by
    have h := @Keyed.keepFirst_nodup P P id _ (events.map ChangeEvent.primaryPath)
    rwa [List.map_id, ← horder] at h
  have hbatch : coalesce events = c.order.filterMap fun p => (c.finalState.lookup p).join := by
    unfold coalesce
    split_ifs with hempty
    · rw [List.isEmpty_iff] at hempty
      rw [show c.order = [] by rw [horder, hempty]; rfl]
      rfl
    · exact collectOrder_eq hnodup
  have hpath : ∀ p e, (c.finalState.lookup p).join = some e → e.primaryPath = p := by
    intro p e he
    have h := hnet p
    rw [he] at h
    exact h.path
  have hsub : ((coalesce events).map ChangeEvent.primaryPath).Sublist c.order := by
    rw [hbatch]
    exact filterMap_sublist hpath c.order
  have hmem : ∀ p e, (c.finalState.lookup p).join = some e → e ∈ coalesce events := by
    intro p e he
    have hthere : p ∈ c.finalState := by
      rw [← AList.lookup_isSome, Option.isSome_iff_ne_none]
      intro hnone
      rw [hnone] at he
      cases he
    rw [hbatch]
    exact List.mem_filterMap.mpr ⟨p, (hkeys p).mp hthere, he⟩
  have hlisted : ∀ p, (c.finalState.lookup p).join ≠ none → p ∈ (coalesce events).map ChangeEvent.primaryPath := by
    intro p hp
    obtain ⟨e, he⟩ := Option.ne_none_iff_exists'.mp hp
    exact List.mem_map.mpr ⟨e, hmem p e he, hpath p e he⟩
  have hall : ∀ e ∈ coalesce events, e.Possible present := by
    intro e he
    rw [hbatch] at he
    obtain ⟨p, _, hp⟩ := List.mem_filterMap.mp he
    have h := hnet p
    rw [hp] at h
    exact h.possible
  have hdistinct := hnodup.sublist hsub
  have hpossible := possibleFrom_of_distinct hdistinct hall
  refine ⟨hdistinct, horder ▸ hsub, hpossible, fun p hchanged => ?_, fun p hnow htouched => ?_, ?_⟩
  · refine hlisted p fun hnone => hchanged ?_
    have h := hnet p
    rw [hnone] at h
    exact h.1
  · refine hlisted p fun hnone => ?_
    have h := hnet p
    rw [hnone] at h
    refine h.2 ?_ hnow
    rcases htouched with hin | hin
    · exact List.mem_map.mpr ⟨_, hin, rfl⟩
    · exact List.mem_map.mpr ⟨_, hin, rfl⟩
  · ext p
    have h := hnet p
    cases hstate : (c.finalState.lookup p).join with
    | none =>
      rw [hstate] at h
      refine (mem_foldl_of_untouched hpossible fun hin => ?_).trans h.1
      obtain ⟨e, he, rfl⟩ := List.mem_map.mp hin
      rw [hbatch] at he
      obtain ⟨q, _, hq⟩ := List.mem_filterMap.mp he
      rw [hpath q e hq, hq] at hstate
      cases hstate
    | some e =>
      rw [hstate] at h
      have hfold := mem_foldl_apply hdistinct hall (hmem p e hstate)
      rw [hpath p e hstate] at hfold
      exact hfold.trans h.mem_apply

/-- A draft is saved, another file is replaced, and a third comes and goes. -/
def savedDraft : List (ChangeEvent String) :=
  [.created "draft", .deleted "song", .created "tmp", .modified "draft", .created "song", .deleted "tmp"]

theorem coalesce_preserves_draft : PossibleFrom {"song"} savedDraft ∧
    SameEffect {"song"} savedDraft (coalesce savedDraft) := by
  have hpossible : PossibleFrom {"song"} savedDraft := by
    unfold PossibleFrom savedDraft
    simp only [Runs.meets_cons, ChangeEvent.Possible, ChangeEvent.apply, Set.mem_insert_iff,
      Set.mem_singleton_iff, Set.mem_sdiff]
    refine ⟨by simp, by simp, by simp, by simp, by simp, by simp, Runs.meets_nil⟩
  exact ⟨hpossible, coalesce_preserves _ _ hpossible⟩

example : coalesce savedDraft = [.created "draft", .modified "song"] := by decide +kernel

end FerriSync
