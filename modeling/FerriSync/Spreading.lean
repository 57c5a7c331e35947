/-
# How copies spread

Sessions alone, with no edit in between. When one device, the hub, meets each of the
others three times, all have the same content at every path that one of them had
(`hub_rounds_agree`), whatever the modification times: a device that has met the hub has
its content, or the hub has received another one since, whose time is that of its commit
(`NotAhead`). A hub that has the path need not be told, and two times are enough.

Where no session has a rival (`Unrivalled`) the latest edit spreads along any chain of
sessions (`latest_edit_spreads`): a device that it can have reached holds it, or what was
written there since.

Key definitions: `HubSession`, `Round`, `NotAhead`, `Spread`.
Key theorems: `HubSession.prevails`, `Round.notAhead`, `hub_rounds_agree`, `latest_edit_spreads`.
-/
import FerriSync.Edits

namespace FerriSync

open Machine

/-! ### What a session chooses -/

section

variable {e : Ends} {u : RelPath}

/-- The client's copy is kept if no other is there that has another content and a time
not before it. -/
theorem Ends.chosen_client {a : FileEntry} (ha : e.clientFolder.entry u = some a)
    (hlabels : e.client.deviceId = e.server.deviceId)
    (hlater : ∀ b, e.serverFolder.entry u = some b → a.data = b.data ∨ b.recorded < a.recorded)
    (hfaithful : ∀ b, e.serverFolder.entry u = some b →
      e.client.blake3 a.data = e.client.blake3 b.data → a.data = b.data) :
    e.chosen u = some a.data := by
  have hcontent : e.clientFolder.content u = some a.data := Folder.content_eq_some.mpr ⟨a, ha, rfl⟩
  cases hb : e.serverFolder.entry u with
  | none =>
    unfold Ends.chosen Ends.verdict
    rw [ha, hb]
    exact hcontent
  | some b =>
    by_cases heq : e.client.blake3 a.data = e.client.blake3 b.data
    · unfold Ends.chosen Ends.verdict
      rw [ha, hb]
      dsimp only
      rw [if_pos heq, hfaithful b hb heq]
      exact Folder.content_eq_some.mpr ⟨b, hb, rfl⟩
    · rw [Ends.chosen_of_differ ha hb heq]
      rcases hlater b hb with hdata | hlt
      · exact absurd (congrArg e.client.blake3 hdata) heq
      · rw [if_pos ⟨hlt, Or.inl hlabels⟩]

/-- And so is the server's. -/
theorem Ends.chosen_server {b : FileEntry} (hb : e.serverFolder.entry u = some b)
    (hlater : ∀ a, e.clientFolder.entry u = some a → b.data = a.data ∨ a.recorded < b.recorded) :
    e.chosen u = some b.data := by
  have hcontent : e.serverFolder.content u = some b.data := Folder.content_eq_some.mpr ⟨b, hb, rfl⟩
  cases ha : e.clientFolder.entry u with
  | none =>
    unfold Ends.chosen Ends.verdict
    rw [ha, hb]
    exact hcontent
  | some a =>
    by_cases heq : e.client.blake3 a.data = e.client.blake3 b.data
    · unfold Ends.chosen Ends.verdict
      rw [ha, hb]
      dsimp only
      rw [if_pos heq]
      exact hcontent
    · rw [Ends.chosen_of_differ ha hb heq]
      rcases hlater a ha with hdata | hlt
      · exact absurd (congrArg e.client.blake3 hdata.symm) heq
      · rw [if_neg fun hc => UInt64.lt_asymm hc.1 hlt]

end

/-! ### The times of the copies -/

variable {D : Type}

/-- No copy is older than the epoch or younger than the clock. -/
structure Timely (w : World D) : Prop where
  inTime : w.clock ≤ maxTime
  past : ∀ d u c, w.Copy d u c → 0 ≤ c.mtime ∧ c.mtime ≤ w.clock

theorem Timely.recorded_lt {w : World D} (h : Timely w) {d : D} {u : RelPath} {c c' : FileEntry}
    (hc : w.Copy d u c) (hnew : (w.clock : ℤ) < c'.mtime) (hmax : c'.mtime ≤ maxTime) :
    c.recorded < c'.recorded := by
  obtain ⟨hpos, hpast⟩ := h.past d u c hc
  exact FerriSync.recorded_lt hpos hmax (by omega)

variable [DecidableEq D] {w w' : World D}

theorem timely_step {allowed : World D → D → D → Ends → Prop} (h : Timely w)
    (hstep : World.Step allowed w w') : Timely w' := by
  have hupdate : ∀ {d : D} {u : RelPath} {g : Folder} {written : RelPath → ℕ} {t : ℕ}, w.clock < t →
      t ≤ maxTime → (∀ c, g.entry u = some c → c.mtime = t) →
      (∀ v, v ≠ u → g.entry v = (w.device d).folder.entry v) →
      Timely (w.update d ⟨g, written⟩ t) := by
    intro d u g written t ht hmax hu hothers
    refine ⟨hmax, fun d' v c hc => ?_⟩
    show 0 ≤ c.mtime ∧ c.mtime ≤ (t : ℤ)
    unfold World.Copy World.update at hc
    dsimp only at hc
    by_cases hd : d' = d
    · rw [if_pos hd] at hc
      by_cases hv : v = u
      · subst hv
        have := hu c hc
        omega
      · have hpast := h.past d v c ((hothers v hv).symm.trans hc)
        omega
    · rw [if_neg hd] at hc
      have hpast := h.past d' v c hc
      omega
  cases hstep with
  | edit d u ht hmax hu hothers =>
    refine hupdate ht hmax (fun c hc => ?_) hothers
    rw [hu] at hc
    cases hc
    rfl
  | delete d u ht hmax hu hothers =>
    refine hupdate ht hmax (fun c hc => ?_) hothers
    rw [hu] at hc
    cases hc
  | @session x y e z t hs hmax _ =>
    have hclock : w.clock < t := by
      obtain ⟨hlo, hhi⟩ := hs.clientClock 0
      omega
    refine ⟨hmax, fun d v c hc => ?_⟩
    show 0 ≤ c.mtime ∧ c.mtime ≤ (t : ℤ)
    obtain ⟨s, u, c₀, hold, -, -, hmtime⟩ := after_source hs hc
    obtain ⟨hpos, hpast⟩ := h.past s u c₀ hold
    rcases hmtime with rfl | ⟨hlo, hhi⟩ <;> omega

omit [DecidableEq D] in
theorem timely_empty : Timely (World.empty : World D) :=
  ⟨Nat.zero_le _, fun _ _ _ h => by cases h⟩

theorem timely_run {allowed : World D → D → D → Ends → Prop} (h : Timely w)
    (hrun : Relation.ReflTransGen (World.Step allowed) w w') : Timely w' := by
  induction hrun with
  | refl => exact h
  | tail _ hstep ih => exact timely_step ih hstep

/-! ### Sessions with the hub -/

/-- A session of the hub with another device, whichever of the two starts it. -/
inductive HubSession (hub : D) (w : World D) (d : D) : World D → Prop
  | starts {e : Ends} {z : Duplex Party Party SyncMessage} {t : ℕ} : Session w hub d e z t →
      t ≤ maxTime → HubSession hub w d (w.after hub d e z t)
  | answers {e : Ends} {z : Duplex Party Party SyncMessage} {t : ℕ} : Session w d hub e z t →
      t ≤ maxTime → HubSession hub w d (w.after d hub e z t)

/-- The hub's sessions with the devices of a list, one after another. -/
inductive Round (hub : D) : World D → List D → World D → Prop
  | done (w : World D) : Round hub w [] w
  | next {w w' w'' : World D} {d : D} {ds : List D} : HubSession hub w d w' → Round hub w' ds w'' →
      Round hub w (d :: ds) w''

namespace World

/-- What a device has at a path. -/
def content (w : World D) (d : D) (u : RelPath) : Option Bytes := (w.device d).folder.content u

omit [DecidableEq D] in
theorem content_eq_some {d : D} {u : RelPath} {b : Bytes} :
    w.content d u = some b ↔ ∃ c, w.Copy d u c ∧ c.data = b :=
  Folder.content_eq_some

end World

theorem after_left {x y : D} {e : Ends} {z : Duplex Party Party SyncMessage} {t : ℕ} (u : RelPath) :
    (w.after x y e z t).content x u = z.left.folder.content u := by
  unfold World.content World.after
  dsimp only
  rw [if_pos rfl]

theorem after_right {x y : D} {e : Ends} {z : Duplex Party Party SyncMessage} {t : ℕ} (h : x ≠ y)
    (u : RelPath) : (w.after x y e z t).content y u = z.right.folder.content u := by
  unfold World.content World.after
  dsimp only
  rw [if_neg h.symm, if_pos rfl]

theorem after_other {x y : D} {e : Ends} {z : Duplex Party Party SyncMessage} {t : ℕ} {d : D} (hx : d ≠ x)
    (hy : d ≠ y) : (w.after x y e z t).device d = w.device d := by
  unfold World.after
  dsimp only
  rw [if_neg hx, if_neg hy]

section

variable {x y : D} {e : Ends} {z : Duplex Party Party SyncMessage} {t : ℕ} {u : RelPath}

omit [DecidableEq D] in
theorem Session.files_left (hs : Session w x y e z t) {c : FileEntry} (hc : w.Copy x u c) : e.files u :=
  Or.inl (by rw [hs.client]; exact Option.isSome_of_eq_some hc)

omit [DecidableEq D] in
theorem Session.files_right (hs : Session w x y e z t) {c : FileEntry} (hc : w.Copy y u c) : e.files u :=
  Or.inr (by rw [hs.server]; exact Option.isSome_of_eq_some hc)

/-- Both ends of a session have what it chooses. -/
theorem Session.both_chosen (hs : Session w x y e z t) (hu : e.files u) : ∃ b, e.chosen u = some b ∧
    (w.after x y e z t).content x u = some b ∧ (w.after x y e z t).content y u = some b := by
  obtain ⟨-, -, hcontent, -⟩ := hs.regular.converges.2 z hs.reach hs.final
  obtain ⟨b, hb, hleft, hright⟩ := hcontent u hu
  exact ⟨b, hb, (after_left u).trans hleft, (after_right hs.distinct u).trans hright⟩

/-- Of a file that one of the ends has, each of them has its own copy after a session, or one
that it has received. -/
theorem Session.kept_or_new (hs : Session w x y e z t) (hu : e.files u) {d : D} {c : FileEntry}
    (hc : (w.after x y e z t).Copy d u c) : w.Copy d u c ∨ (w.clock : ℤ) < c.mtime := by
  rcases after_copy hs hc with ⟨rfl, hcopied, -⟩ | ⟨rfl, hcopied, -⟩ | ⟨-, -, hold, -⟩
  · cases hcopied with
    | received n _ _ => exact Or.inr (hs.clientClock n).1
    | kept _ _ hown => exact Or.inl hown
    | backup n hnot _ _ _ _ _ => exact absurd hu hnot
  · cases hcopied with
    | received n _ _ => exact Or.inr (hs.serverClock n).1
    | kept _ _ hown => exact Or.inl hown
    | backup n hnot _ _ _ _ _ => exact absurd hu hnot
  · exact Or.inl hold

end

namespace HubSession

variable {hub d : D}

theorem step (h : HubSession hub w d w') : World.Step (fun _ _ _ _ => True) w w' := by
  cases h with
  | starts hs hmax => exact .session hs hmax trivial
  | answers hs hmax => exact .session hs hmax trivial

theorem distinct (h : HubSession hub w d w') : d ≠ hub := by
  cases h with
  | starts hs _ => exact hs.distinct.symm
  | answers hs _ => exact hs.distinct

/-- A third device stays as it is. -/
theorem others (h : HubSession hub w d w') {d' : D} (hhub : d' ≠ hub) (hd : d' ≠ d) :
    w'.device d' = w.device d' := by
  cases h with
  | starts hs _ => exact after_other hhub hd
  | answers hs _ => exact after_other hd hhub

/-- What one of the two had, both have afterwards, with one content. -/
theorem agree (h : HubSession hub w d w') {u : RelPath}
    (hu : (∃ c, w.Copy hub u c) ∨ ∃ c, w.Copy d u c) :
    ∃ b, w'.content hub u = some b ∧ w'.content d u = some b := by
  cases h with
  | starts hs _ =>
    obtain ⟨b, -, hleft, hright⟩ := hs.both_chosen
      (hu.elim (fun hc => hs.files_left hc.choose_spec) fun hc => hs.files_right hc.choose_spec)
    exact ⟨b, hleft, hright⟩
  | answers hs _ =>
    obtain ⟨b, -, hleft, hright⟩ := hs.both_chosen
      (hu.elim (fun hc => hs.files_right hc.choose_spec) fun hc => hs.files_left hc.choose_spec)
    exact ⟨b, hright, hleft⟩

/-- The hub keeps its copy, or has one that is newer than all before. -/
theorem kept_or_new (h : HubSession hub w d w') {u : RelPath} {a a' : FileEntry} (ha : w.Copy hub u a)
    (ha' : w'.Copy hub u a') : w.Copy hub u a' ∨ (w.clock : ℤ) < a'.mtime := by
  cases h with
  | starts hs _ => exact hs.kept_or_new (hs.files_left ha) ha'
  | answers hs _ => exact hs.kept_or_new (hs.files_right ha) ha'

/-- **The hub's copy prevails** over none, one of its content, and one of an earlier time. -/
theorem prevails (h : HubSession hub w d w') {u : RelPath} {a : FileEntry} (ha : w.Copy hub u a)
    (hlater : ∀ b, w.Copy d u b → a.data = b.data ∨ b.recorded < a.recorded) :
    w'.content hub u = some a.data ∧ w'.content d u = some a.data := by
  cases h with
  | @starts e z t hs _ =>
    have ha' : e.clientFolder.entry u = some a := by rw [hs.client]; exact ha
    obtain ⟨b, hb, hleft, hright⟩ := hs.both_chosen (Or.inl (Option.isSome_of_eq_some ha'))
    rw [Ends.chosen_client ha' hs.labels (fun b hb => hlater b (by rw [hs.server] at hb; exact hb))
      (fun b hb heq => hs.regular.faithful u _ _ (Folder.content_eq_some.mpr ⟨a, ha', rfl⟩)
        (Folder.content_eq_some.mpr ⟨b, hb, rfl⟩) heq)] at hb
    cases hb
    exact ⟨hleft, hright⟩
  | @answers e z t hs _ =>
    have ha' : e.serverFolder.entry u = some a := by rw [hs.server]; exact ha
    obtain ⟨b, hb, hleft, hright⟩ := hs.both_chosen (Or.inr (Option.isSome_of_eq_some ha'))
    rw [Ends.chosen_server ha' fun b hb => hlater b (by rw [hs.client] at hb; exact hb)] at hb
    cases hb
    exact ⟨hright, hleft⟩

end HubSession

/-! ### Rounds -/

/-- A device has, at a path, what the hub has, or something of an earlier time. -/
def NotAhead (w : World D) (hub : D) (u : RelPath) (d : D) : Prop :=
  ∀ b, w.Copy d u b → ∃ a, w.Copy hub u a ∧ (a.data = b.data ∨ b.recorded < a.recorded)

section

variable {hub d : D} {u : RelPath}

theorem HubSession.hub_copy (h : HubSession hub w d w') (hu : ∃ a, w.Copy hub u a) :
    ∃ a, w'.Copy hub u a := by
  obtain ⟨b, hb, -⟩ := h.agree (Or.inl hu)
  obtain ⟨a, ha, -⟩ := World.content_eq_some.mp hb
  exact ⟨a, ha⟩

/-- The device that the hub has met is not ahead of it. -/
theorem HubSession.not_ahead_met (h : HubSession hub w d w') (hu : ∃ a, w.Copy hub u a) :
    NotAhead w' hub u d := by
  intro b hb
  obtain ⟨data, hhub, hd⟩ := h.agree (Or.inl hu)
  obtain ⟨a, ha, rfl⟩ := World.content_eq_some.mp hhub
  obtain ⟨b', hb', hdata⟩ := World.content_eq_some.mp hd
  obtain rfl : b = b' := Option.some.inj (hb.symm.trans hb')
  exact ⟨a, ha, Or.inl hdata.symm⟩

/-- A device that is not ahead of the hub stays so. -/
theorem HubSession.notAhead (h : HubSession hub w d w') (htimely : Timely w)
    (hu : ∃ a, w.Copy hub u a) {d' : D} (hhub : d' ≠ hub) (hd' : NotAhead w hub u d') :
    NotAhead w' hub u d' := by
  by_cases hd : d' = d
  · subst hd
    exact h.not_ahead_met hu
  · intro b hb
    have hb' : w.Copy d' u b := by
      unfold World.Copy at hb ⊢
      rwa [h.others hhub hd] at hb
    obtain ⟨a, ha, hearlier⟩ := hd' b hb'
    obtain ⟨a', ha'⟩ := h.hub_copy hu
    refine ⟨a', ha', ?_⟩
    rcases h.kept_or_new ha ha' with hold | hnew
    · obtain rfl : a = a' := Option.some.inj (ha.symm.trans hold)
      exact hearlier
    · have hafter := timely_step htimely h.step
      have hmax := (hafter.past hub u a' ha').2
      have hclock := hafter.inTime
      exact Or.inr (htimely.recorded_lt hb' hnew (by omega))

theorem Round.timely {ds : List D} (h : Round hub w ds w') (htimely : Timely w) : Timely w' := by
  induction h with
  | done w => exact htimely
  | next hsession _ ih => exact ih (timely_step htimely hsession.step)

/-- After a round none of the devices it goes to is ahead, and of the others none that was not. -/
theorem Round.notAhead {ds : List D} (h : Round hub w ds w') (htimely : Timely w)
    (hu : ∃ a, w.Copy hub u a) : (∃ a, w'.Copy hub u a) ∧
      ∀ d, d ≠ hub → d ∈ ds ∨ NotAhead w hub u d → NotAhead w' hub u d := by
  induction h with
  | done w =>
    refine ⟨hu, fun d _ hd => ?_⟩
    rcases hd with hmem | hnotAhead
    · exact absurd hmem List.not_mem_nil
    · exact hnotAhead
  | next hsession hround ih =>
    obtain ⟨hu', hnotAhead⟩ := ih (timely_step htimely hsession.step) (hsession.hub_copy hu)
    refine ⟨hu', fun d hhub hd => hnotAhead d hhub ?_⟩
    rcases hd with hmem | hbefore
    · rcases List.mem_cons.mp hmem with rfl | hlater
      · exact Or.inr (hsession.not_ahead_met hu)
      · exact Or.inl hlater
    · exact Or.inr (hsession.notAhead htimely hu hhub hbefore)

/-- Where none is ahead, a session leaves the hub's content and gives it to the other. -/
theorem HubSession.gives (h : HubSession hub w d w') {b : Bytes} (hb : w.content hub u = some b)
    (hnotAhead : NotAhead w hub u d) : w'.content hub u = some b ∧ w'.content d u = some b := by
  obtain ⟨a, ha, rfl⟩ := World.content_eq_some.mp hb
  refine h.prevails ha fun c hc => ?_
  obtain ⟨a', ha', hearlier⟩ := hnotAhead c hc
  obtain rfl : a = a' := Option.some.inj (ha.symm.trans ha')
  exact hearlier

/-- **A round in which none is ahead** leaves the hub's content, and gives it to all. -/
theorem Round.gives {ds : List D} (h : Round hub w ds w') (htimely : Timely w) {b : Bytes}
    (hb : w.content hub u = some b) (hnotAhead : ∀ d, d ≠ hub → NotAhead w hub u d) :
    w'.content hub u = some b ∧ ∀ d, d ∈ ds ∨ w.content d u = some b → w'.content d u = some b := by
  induction h with
  | done w =>
    refine ⟨hb, fun d hd => ?_⟩
    rcases hd with hmem | hhas
    · exact absurd hmem List.not_mem_nil
    · exact hhas
  | @next w w' w'' d ds hsession hround ih =>
    have hu : ∃ a, w.Copy hub u a := (World.content_eq_some.mp hb).imp fun _ ha => ha.1
    obtain ⟨hhub, hgiven⟩ := hsession.gives hb (hnotAhead d hsession.distinct)
    obtain ⟨hhub', hothers⟩ := ih (timely_step htimely hsession.step) hhub
      fun d' hd' => hsession.notAhead htimely hu hd' (hnotAhead d' hd')
    refine ⟨hhub', fun d' hd' => hothers d' ?_⟩
    by_cases heq : d' = d
    · rw [heq]
      exact Or.inr hgiven
    by_cases hishub : d' = hub
    · rw [hishub]
      exact Or.inr hhub
    · rcases hd' with hmem | hhas
      · exact Or.inl ((List.mem_cons.mp hmem).resolve_left heq)
      · refine Or.inr ?_
        unfold World.content
        rw [hsession.others hishub heq]
        exact hhas

/-- Two rounds through a hub that has the path. -/
theorem two_rounds_agree {w₁ w₂ : World D} {first second : List D} (htimely : Timely w)
    (hu : ∃ a, w.Copy hub u a) (h₁ : Round hub w first w₁) (h₂ : Round hub w₁ second w₂)
    (hfirst : ∀ d, d ≠ hub → d ∈ first) (hsecond : ∀ d, d ≠ hub → d ∈ second) :
    ∃ b, ∀ d, w₂.content d u = some b := by
  obtain ⟨⟨a, ha⟩, hnotAhead⟩ := h₁.notAhead htimely hu
  have hb : w₁.content hub u = some a.data := World.content_eq_some.mpr ⟨a, ha, rfl⟩
  obtain ⟨hhub, hothers⟩ := h₂.gives (h₁.timely htimely) hb fun d hd => hnotAhead d hd (Or.inl (hfirst d hd))
  refine ⟨a.data, fun d => ?_⟩
  by_cases hd : d = hub
  · rw [hd]
    exact hhub
  · exact hothers d (Or.inl (hsecond d hd))

/-- A round to a device that has the path brings it to the hub. -/
theorem Round.brings {ds : List D} (h : Round hub w ds w')
    (hu : (∃ a, w.Copy hub u a) ∨ d ∈ ds ∧ ∃ c, w.Copy d u c) : ∃ a, w'.Copy hub u a := by
  induction h with
  | done w => exact hu.resolve_right fun hd => absurd hd.1 List.not_mem_nil
  | @next w w' w'' d' ds hsession hround ih =>
    refine ih ?_
    rcases hu with hhub | ⟨hmem, c, hc⟩
    · exact Or.inl (hsession.hub_copy hhub)
    · by_cases heq : d = d'
      · subst heq
        obtain ⟨b, hb, -⟩ := hsession.agree (Or.inr ⟨c, hc⟩)
        exact Or.inl ((World.content_eq_some.mp hb).imp fun _ ha => ha.1)
      · have hmem' : d ∈ ds := (List.mem_cons.mp hmem).resolve_left heq
        by_cases hishub : d = hub
        · subst hishub
          exact Or.inl (hsession.hub_copy ⟨c, hc⟩)
        · refine Or.inr ⟨hmem', c, ?_⟩
          unfold World.Copy
          rw [hsession.others hishub heq]
          exact hc

end

/-- **Three rounds through a hub**: from then on all devices have the same content at every
path that one of them had, whatever edits and sessions came before. -/
theorem hub_rounds_agree {allowed : World D → D → D → Ends → Prop} {w w₁ w₂ w₃ : World D} {hub : D}
    {first second third : List D} (hrun : Relation.ReflTransGen (World.Step allowed) World.empty w)
    (h₁ : Round hub w first w₁) (h₂ : Round hub w₁ second w₂) (h₃ : Round hub w₂ third w₃)
    (hfirst : ∀ d, d ≠ hub → d ∈ first) (hsecond : ∀ d, d ≠ hub → d ∈ second)
    (hthird : ∀ d, d ≠ hub → d ∈ third) (u : RelPath) (hu : ∃ d c, w.Copy d u c) :
    ∃ b, ∀ d, w₃.content d u = some b := by
  have htimely := timely_run timely_empty hrun
  obtain ⟨d, c, hc⟩ := hu
  have hhub : ∃ a, w₁.Copy hub u a := by
    refine h₁.brings (d := d) ?_
    by_cases hd : d = hub
    · subst hd
      exact Or.inl ⟨c, hc⟩
    · exact Or.inr ⟨hfirst d hd, c, hc⟩
  exact two_rounds_agree (h₁.timely htimely) hhub h₂ h₃ hsecond hthird

/-! ### Chains of sessions -/

/-- What may have come of a device's copy at a path that nobody deletes: the devices that it
can have reached along the sessions held since, and the contents of it and of what was written
at the path since. -/
inductive Spread (u : RelPath) (w₀ : World D) (d₀ : D) : World D → Set D → Set Bytes → Prop
  | start {c : FileEntry} : w₀.Copy d₀ u c → Spread u w₀ d₀ w₀ {d₀} {c.data}
  | edit {w : World D} {reached : Set D} {contents : Set Bytes} (d : D) (v : RelPath) {data : Bytes}
      {t : ℕ} {g : Folder} : Spread u w₀ d₀ w reached contents → w.clock < t → t ≤ maxTime →
      g.entry v = some ⟨data, t⟩ → (∀ v', v' ≠ v → g.entry v' = (w.device d).folder.entry v') →
      Spread u w₀ d₀ (w.update d ⟨g, fun v' => if v' = v then t else (w.device d).written v'⟩ t)
        {d' | d' ∈ reached ∨ d' = d ∧ v = u} {b | b ∈ contents ∨ b = data ∧ v = u}
  | delete {w : World D} {reached : Set D} {contents : Set Bytes} (d : D) (v : RelPath) {t : ℕ}
      {g : Folder} : Spread u w₀ d₀ w reached contents → w.clock < t → t ≤ maxTime → v ≠ u →
      g.entry v = none → (∀ v', v' ≠ v → g.entry v' = (w.device d).folder.entry v') →
      Spread u w₀ d₀ (w.update d ⟨g, (w.device d).written⟩ t) reached contents
  | session {w : World D} {reached : Set D} {contents : Set Bytes} {x y : D} {e : Ends}
      {z : Duplex Party Party SyncMessage} {t : ℕ} : Spread u w₀ d₀ w reached contents →
      Session w x y e z t → t ≤ maxTime → Unrivalled w x y e →
      Spread u w₀ d₀ (w.after x y e z t)
        {d | d ∈ reached ∨ (x ∈ reached ∨ y ∈ reached) ∧ (d = x ∨ d = y)} contents

/-- What a device has reached is content from that time on: so is every copy of an edit as late,
and there is one. -/
structure Carried (u : RelPath) (o : ℕ) (w : World D) (reached : Set D) (contents : Set Bytes) :
    Prop where
  ordered : Ordered w
  latest : ∀ d c, w.Copy d u c → o ≤ (w.device d).written u → c.data ∈ contents
  present : ∃ d c, w.Copy d u c ∧ o ≤ (w.device d).written u
  held : ∀ d ∈ reached, ∃ c, w.Copy d u c ∧ c.data ∈ contents

section

variable {u : RelPath} {o : ℕ} {reached : Set D} {contents : Set Bytes}

/-- A copy at another path, or on another device, is still there after a user's change. -/
theorem copy_update {d : D} {v : RelPath} {g : Folder} {written : RelPath → ℕ} {t : ℕ}
    (hothers : ∀ v', v' ≠ v → g.entry v' = (w.device d).folder.entry v')
    (hwritten : ∀ v', v' ≠ v → written v' = (w.device d).written v') {d' : D} {c : FileEntry}
    (hc : w.Copy d' u c) (hne : d' ≠ d ∨ v ≠ u) :
    (w.update d ⟨g, written⟩ t).Copy d' u c ∧
      ((w.update d ⟨g, written⟩ t).device d').written u = (w.device d').written u := by
  unfold World.Copy World.update
  dsimp only
  by_cases hd : d' = d
  · subst hd
    have hv : u ≠ v := (hne.resolve_left fun h => h rfl).symm
    rw [if_pos rfl]
    exact ⟨(hothers u hv).trans hc, hwritten u hv⟩
  · rw [if_neg hd]
    exact ⟨hc, rfl⟩

theorem Carried.edit (h : Carried u o w reached contents) {d : D} {v : RelPath} {data : Bytes} {t : ℕ}
    {g : Folder} (ht : w.clock < t) (hmax : t ≤ maxTime) (hv : g.entry v = some ⟨data, t⟩)
    (hothers : ∀ v', v' ≠ v → g.entry v' = (w.device d).folder.entry v') :
    Carried u o (w.update d ⟨g, fun v' => if v' = v then t else (w.device d).written v'⟩ t)
      {d' | d' ∈ reached ∨ d' = d ∧ v = u} {b | b ∈ contents ∨ b = data ∧ v = u} := by
  have hwritten : ∀ v', v' ≠ v → (if v' = v then t else (w.device d).written v') = (w.device d).written v' :=
    fun v' hne => if_neg hne
  have hold : ∀ d' c, w.Copy d' u c → d' ≠ d ∨ v ≠ u → _ := fun d' c hc hne =>
    copy_update (t := t) hothers hwritten hc hne
  have hnew : v = u → (w.update d ⟨g, fun v' => if v' = v then t else (w.device d).written v'⟩ t).Copy d u
        ⟨data, t⟩ ∧
      ((w.update d ⟨g, fun v' => if v' = v then t else (w.device d).written v'⟩ t).device d).written u = t := by
    rintro rfl
    unfold World.Copy World.update
    dsimp only
    rw [if_pos rfl]
    exact ⟨hv, if_pos rfl⟩
  refine ⟨ordered_edit h.ordered ht hmax hv hothers, fun d' c hc hle => ?_, ?_, fun d' hd' => ?_⟩
  · rcases update_copy hothers hwritten hc with ⟨huv, hentry, -⟩ | ⟨hcopy, hsame⟩
    · rw [hv] at hentry
      cases hentry
      exact Or.inr ⟨rfl, huv.symm⟩
    · exact Or.inl (h.latest d' c hcopy (hsame ▸ hle))
  · obtain ⟨d', c, hc, hle⟩ := h.present
    by_cases hne : d' ≠ d ∨ v ≠ u
    · obtain ⟨hcopy, hsame⟩ := hold d' c hc hne
      exact ⟨d', c, hcopy, hsame ▸ hle⟩
    · rw [not_or, not_ne_iff, not_ne_iff] at hne
      obtain ⟨hcopy, hlate⟩ := hnew hne.2
      have hpast := (h.ordered.past d' u c hc).1
      exact ⟨d, _, hcopy, by rw [hlate]; omega⟩
  · by_cases hne : d' ≠ d ∨ v ≠ u
    · have hmem : d' ∈ reached := hd'.resolve_right fun hd => hne.elim (· hd.1) (· hd.2)
      obtain ⟨c, hc, hcontents⟩ := h.held d' hmem
      exact ⟨c, (hold d' c hc hne).1, Or.inl hcontents⟩
    · rw [not_or, not_ne_iff, not_ne_iff] at hne
      rw [hne.1]
      exact ⟨_, (hnew hne.2).1, Or.inr ⟨rfl, hne.2⟩⟩

theorem Carried.delete (h : Carried u o w reached contents) {d : D} {v : RelPath} {t : ℕ} {g : Folder}
    (ht : w.clock < t) (hmax : t ≤ maxTime) (hne : v ≠ u) (hv : g.entry v = none)
    (hothers : ∀ v', v' ≠ v → g.entry v' = (w.device d).folder.entry v') :
    Carried u o (w.update d ⟨g, (w.device d).written⟩ t) reached contents := by
  have hold : ∀ d' c, w.Copy d' u c → _ := fun d' c hc =>
    copy_update (t := t) hothers (fun _ _ => rfl) hc (Or.inr hne)
  refine ⟨ordered_delete h.ordered ht hmax hv hothers, fun d' c hc hle => ?_, ?_, fun d' hd' => ?_⟩
  · rcases update_copy hothers (fun _ _ => rfl) hc with ⟨huv, -, -⟩ | ⟨hcopy, hsame⟩
    · exact absurd huv.symm hne
    · exact h.latest d' c hcopy (hsame ▸ hle)
  · obtain ⟨d', c, hc, hle⟩ := h.present
    obtain ⟨hcopy, hsame⟩ := hold d' c hc
    exact ⟨d', c, hcopy, hsame ▸ hle⟩
  · obtain ⟨c, hc, hcontents⟩ := h.held d' hd'
    exact ⟨c, (hold d' c hc).1, hcontents⟩

variable {x y : D} {e : Ends} {z : Duplex Party Party SyncMessage} {t : ℕ}

omit [DecidableEq D] in
/-- In order, a session sends no copy to one of a later edit. -/
theorem Ordered.verdict_order (h : Ordered w) (hs : Session w x y e z t) {a b : FileEntry}
    (ha : w.Copy x u a) (hb : w.Copy y u b) :
    (e.verdict u = .server → (w.device x).written u ≤ (w.device y).written u) ∧
      (e.verdict u = .client → (w.device y).written u ≤ (w.device x).written u) := by
  have hverdict : e.verdict u =
      if e.client.blake3 a.data = e.client.blake3 b.data then .same
      else if (fileVersion e.client.deviceId a).dominates (fileVersion e.server.deviceId b) then .client
      else .server := by
    unfold Ends.verdict
    rw [hs.client, hs.server, show (w.device x).folder.entry u = some a from ha,
      show (w.device y).folder.entry u = some b from hb]
  have hdom := dominates_fileVersion e.client.deviceId e.server.deviceId a b
  rw [hverdict]
  constructor
  · intro hv
    by_contra hlt
    have hrecorded := h.none_outranked y x u b a hb ha (by omega)
    split at hv
    · cases hv
    · rw [if_pos (hdom.mpr ⟨hrecorded, Or.inl hs.labels⟩)] at hv
      cases hv
  · intro hv
    by_contra hlt
    have hrecorded := h.none_outranked x y u a b ha hb (by omega)
    split at hv
    · cases hv
    · split at hv
      · rename_i hd
        exact UInt64.lt_asymm hrecorded (hdom.mp hd).1
      · cases hv

/-- A path that is not named like a backup is not that of one. -/
theorem ne_backupName (hregular : Regular e) (hplain : u.original = u) {cfg : Config} {v : RelPath}
    (hv : e.files v) (n : ℕ) (data : Bytes) : u ≠ backupName cfg n (v, data) := by
  intro heq
  have hne := hregular.apart.ne_nil v hv
  rw [heq, backupName, RelPath.original_backup hne] at hplain
  exact RelPath.backup_ne hne _ _ _ hplain.symm

/-- Where a copy of a file comes from in a session: from an end, with its edit, and from the other
one only if that is whose copy is chosen. -/
theorem after_origin (hs : Session w x y e z t) (hplain : u.original = u) {d : D} {c : FileEntry}
    (hc : (w.after x y e z t).Copy d u c) : ∃ s c₀, w.Copy s u c₀ ∧ c₀.data = c.data ∧
      ((w.after x y e z t).device d).written u = (w.device s).written u ∧
      (s = d ∨ d = x ∧ s = y ∧ e.verdict u = .server ∨ d = y ∧ s = x ∧ e.verdict u = .client) := by
  rcases after_copy hs hc with ⟨rfl, hcopied, hw⟩ | ⟨rfl, hcopied, hw⟩ | ⟨-, -, hold, hw⟩
  · cases hcopied with
    | @received b n hv hb =>
      rw [writtenAfter, if_pos hv] at hw
      exact ⟨y, b, hb, rfl, hw, Or.inr (Or.inl ⟨rfl, rfl, hv⟩)⟩
    | kept hfiles hv hown =>
      rw [writtenAfter, if_neg hv, if_pos hfiles] at hw
      exact ⟨d, c, hown, rfl, hw, Or.inl rfl⟩
    | backup n _ hv _ _ _ hname =>
      exact absurd hname (ne_backupName hs.regular hplain (files_of_verdict (by decide) hv) n _)
  · cases hcopied with
    | @received b n hv hb =>
      rw [writtenAfter, if_pos hv] at hw
      exact ⟨x, b, hb, rfl, hw, Or.inr (Or.inr ⟨rfl, rfl, hv⟩)⟩
    | kept hfiles hv hown =>
      rw [writtenAfter, if_neg hv, if_pos hfiles] at hw
      exact ⟨d, c, hown, rfl, hw, Or.inl rfl⟩
    | backup n _ hv _ _ _ hname =>
      exact absurd hname (ne_backupName hs.regular hplain (files_of_verdict (by decide) hv) n _)
  · exact ⟨d, c, hold, rfl, hw, Or.inl rfl⟩

/-- A copy of an edit as late is still there after a session. -/
theorem Carried.present_session (h : Carried u o w reached contents) (hs : Session w x y e z t)
    (hplain : u.original = u) :
    ∃ d c, (w.after x y e z t).Copy d u c ∧ o ≤ ((w.after x y e z t).device d).written u := by
  obtain ⟨d, c, hc, hle⟩ := h.present
  -- whoever had it has one that comes from there or from a later edit
  have hstays : ∀ {c'}, (w.after x y e z t).Copy d u c' →
      o ≤ ((w.after x y e z t).device d).written u := by
    intro c' hc'
    obtain ⟨s, c₀, hs₀, -, hwritten, horigin⟩ := after_origin hs hplain hc'
    rw [hwritten]
    rcases horigin with rfl | ⟨rfl, rfl, hv⟩ | ⟨rfl, rfl, hv⟩
    · exact hle
    · exact hle.trans ((h.ordered.verdict_order hs hc hs₀).1 hv)
    · exact hle.trans ((h.ordered.verdict_order hs hs₀ hc).2 hv)
  have hexists : ∃ c', (w.after x y e z t).Copy d u c' := by
    by_cases hx : d = x
    · subst hx
      obtain ⟨b, -, hleft, -⟩ := hs.both_chosen (hs.files_left hc)
      exact (World.content_eq_some.mp hleft).imp fun _ hc' => hc'.1
    by_cases hy : d = y
    · subst hy
      obtain ⟨b, -, -, hright⟩ := hs.both_chosen (hs.files_right hc)
      exact (World.content_eq_some.mp hright).imp fun _ hc' => hc'.1
    · refine ⟨c, ?_⟩
      unfold World.Copy
      rw [after_other hx hy]
      exact hc
  obtain ⟨c', hc'⟩ := hexists
  exact ⟨d, c', hc', hstays hc'⟩

/-- What a session with a device that is reached chooses is as late. -/
theorem Carried.chosen_session (h : Carried u o w reached contents) (hs : Session w x y e z t)
    (hclear : Unrivalled w x y e) (hreached : x ∈ reached ∨ y ∈ reached) :
    e.files u ∧ ∀ b, e.chosen u = some b → b ∈ contents := by
  obtain ⟨d, c, hc, hle⟩ := h.present
  -- the copy that is sent is of an edit as late
  have hserver : ∀ b, w.Copy y u b → e.verdict u = .server → b.data ∈ contents := by
    intro b hb hv
    refine h.latest y b hb ?_
    by_cases hx : d = x
    · subst hx
      exact hle.trans ((h.ordered.verdict_order hs hc hb).1 hv)
    by_cases hy : d = y
    · rwa [← hy]
    · exact hle.trans (hclear.toClient u hv d hx hy c hc)
  have hclient : ∀ a, w.Copy x u a → e.verdict u = .client → a.data ∈ contents := by
    intro a ha hv
    refine h.latest x a ha ?_
    by_cases hx : d = x
    · rwa [← hx]
    by_cases hy : d = y
    · subst hy
      exact hle.trans ((h.ordered.verdict_order hs ha hc).2 hv)
    · exact hle.trans (hclear.toServer u hv d hx hy c hc)
  have hfiles : e.files u := by
    rcases hreached with hx | hy
    · obtain ⟨a, ha, -⟩ := h.held x hx
      exact hs.files_left ha
    · obtain ⟨a, ha, -⟩ := h.held y hy
      exact hs.files_right ha
  refine ⟨hfiles, fun b hb => ?_⟩
  unfold Ends.chosen at hb
  cases hv : e.verdict u with
  | client =>
    rw [hv, hs.client] at hb
    obtain ⟨a, ha, rfl⟩ := Folder.content_eq_some.mp hb
    exact hclient a ha hv
  | server =>
    rw [hv, hs.server] at hb
    obtain ⟨a, ha, rfl⟩ := Folder.content_eq_some.mp hb
    exact hserver a ha hv
  | same =>
    obtain ⟨a', b', ha', hb', hash⟩ := Ends.contents_of_same hfiles hv
    have hsame := hs.regular.faithful u a' b' ha' hb' hash
    rw [hv, hb', Option.some.injEq] at hb
    rw [hs.client] at ha'
    rw [hs.server] at hb'
    rcases hreached with hx | hy
    · obtain ⟨a, ha, hcontents⟩ := h.held x hx
      obtain ⟨a₁, ha₁, rfl⟩ := Folder.content_eq_some.mp ha'
      obtain rfl : a = a₁ := Option.some.inj (ha.symm.trans ha₁)
      rw [← hb, ← hsame]
      exact hcontents
    · obtain ⟨a, ha, hcontents⟩ := h.held y hy
      obtain ⟨a₁, ha₁, rfl⟩ := Folder.content_eq_some.mp hb'
      obtain rfl : a = a₁ := Option.some.inj (ha.symm.trans ha₁)
      rw [← hb]
      exact hcontents

theorem Carried.session (h : Carried u o w reached contents) (hs : Session w x y e z t)
    (hmax : t ≤ maxTime) (hclear : Unrivalled w x y e) (hplain : u.original = u) :
    Carried u o (w.after x y e z t)
      {d | d ∈ reached ∨ (x ∈ reached ∨ y ∈ reached) ∧ (d = x ∨ d = y)} contents := by
  refine ⟨ordered_session h.ordered hs hmax hclear, fun d c hc hle => ?_,
    h.present_session hs hplain, fun d hd => ?_⟩
  · obtain ⟨s, c₀, hold, hdata, hwritten, -⟩ := after_origin hs hplain hc
    rw [← hdata]
    exact h.latest s c₀ hold (hwritten ▸ hle)
  · by_cases hends : d = x ∨ d = y
    · have hreached : x ∈ reached ∨ y ∈ reached := by
        rcases hd with hmem | ⟨hreached, -⟩
        · exact hends.imp (fun heq : d = x => heq ▸ hmem) fun heq : d = y => heq ▸ hmem
        · exact hreached
      obtain ⟨hfiles, hchosen⟩ := h.chosen_session hs hclear hreached
      obtain ⟨b, hb, hleft, hright⟩ := hs.both_chosen hfiles
      have hhas : (w.after x y e z t).content d u = some b := by
        rcases hends with rfl | rfl
        · exact hleft
        · exact hright
      obtain ⟨c, hc, rfl⟩ := World.content_eq_some.mp hhas
      exact ⟨c, hc, hchosen _ hb⟩
    · obtain ⟨hx, hy⟩ := not_or.mp hends
      obtain ⟨c, hc, hcontents⟩ := h.held d (hd.resolve_right fun hd' => hends hd'.2)
      refine ⟨c, ?_, hcontents⟩
      unfold World.Copy
      rw [after_other hx hy]
      exact hc

end

/-- **The latest edit spreads**: in runs whose sessions have no rival, a device that it can have
reached has its content, or that of an edit made there since. -/
theorem latest_edit_spreads {w₀ w : World D} {d₀ : D} {u : RelPath} {reached : Set D}
    {contents : Set Bytes} (hrun : Relation.ReflTransGen (World.Step Unrivalled) World.empty w₀)
    (hplain : u.original = u)
    (hlatest : ∀ d c, w₀.Copy d u c → (w₀.device d).written u ≤ (w₀.device d₀).written u)
    (hspread : Spread u w₀ d₀ w reached contents) :
    ∀ d ∈ reached, ∃ b ∈ contents, w.content d u = some b := by
  have hcarried : Carried u ((w₀.device d₀).written u) w reached contents := by
    induction hspread with
    | @start c hc =>
      have hordered := ordered_run ordered_empty hrun
      refine ⟨hordered, fun d c' hc' hle => ?_, ⟨d₀, c, hc, Nat.le_refl _⟩, fun d hd => ?_⟩
      · exact hordered.source d d₀ u u c' c hc' hc (Nat.le_antisymm (hlatest d c' hc') hle)
      · rw [Set.mem_singleton_iff.mp hd]
        exact ⟨c, hc, rfl⟩
    | edit d v _ ht hmax hv hothers ih => exact ih.edit ht hmax hv hothers
    | delete d v _ ht hmax hne hv hothers ih => exact ih.delete ht hmax hne hv hothers
    | session _ hs hmax hclear ih => exact ih.session hs hmax hclear hplain
  intro d hd
  obtain ⟨c, hc, hcontents⟩ := hcarried.held d hd
  exact ⟨c.data, hcontents, World.content_eq_some.mpr ⟨c, hc, rfl⟩⟩

/-! ### Two devices -/

/-- `f` is written on the first of two devices. -/
def oneEdit : World Bool :=
  World.empty.update false ⟨topFolder [(sampleName, ⟨[97], 1⟩)], fun v => if v = [sampleName] then 1 else 0⟩ 1

theorem oneEdit_copy : oneEdit.Copy false [sampleName] ⟨[97], 1⟩ :=
  show (topFolder [(sampleName, ⟨[97], 1⟩)]).entry [sampleName] = some ⟨[97], 1⟩ by decide +kernel

theorem oneEdit_run (allowed : World Bool → Bool → Bool → Ends → Prop) :
    Relation.ReflTransGen (World.Step allowed) World.empty oneEdit := by
  refine .single (.edit false [sampleName] (by decide) (by decide) oneEdit_copy fun v hv => ?_)
  show (topFolder [(sampleName, ⟨[97], 1⟩)]).entry v = none
  by_contra hsome
  obtain ⟨c, hc⟩ := Option.ne_none_iff_exists'.mp hsome
  obtain ⟨y, hy, hvy, -⟩ := (atRoot_topFolder _).entry v c hc
  rw [List.mem_singleton.mp hy] at hvy
  exact hv hvy

theorem oneEdit_session {z : Duplex Party Party SyncMessage}
    (hreach : Reach (Party.next firstSession.client) (Party.next firstSession.server) firstSession.start z)
    (hfinal : RandomDescent.Final
      (Step (Party.next firstSession.client) (Party.next firstSession.server)) z) :
    Session oneEdit false true firstSession z 3 :=
  have hclock : ((1 : ℕ) : ℤ) < 3 ∧ (3 : ℤ) ≤ ((3 : ℕ) : ℤ) := by decide
  ⟨by decide, rfl, rfl, firstSession_regular, rfl, fun _ => hclock, fun _ => hclock, hreach, hfinal⟩

theorem latest_edit_spreads_two : ∃ w : World Bool, w.content true [sampleName] = some [97] := by
  obtain ⟨z, hreach, hfinal⟩ := firstSession_regular.converges.exists_end
  have hnone : ∀ d : Bool, d ≠ false → d ≠ true → False := by decide
  have hspread := Spread.session (Spread.start oneEdit_copy) (oneEdit_session hreach hfinal) (by decide)
    ⟨fun _ _ d hx hy => (hnone d hx hy).elim, fun _ _ d hx hy => (hnone d hx hy).elim,
      fun _ _ _ _ _ _ _ _ d hx hy => (hnone d hx hy).elim,
      fun _ _ _ _ _ _ _ _ d hx hy => (hnone d hx hy).elim⟩
  obtain ⟨b, hb, hcontent⟩ := latest_edit_spreads (oneEdit_run _) (by decide +kernel)
    (fun d c hc => by
      have hd : d = false := by
        by_contra hne
        have hother : oneEdit.device d = (World.empty : World Bool).device d := if_neg hne
        unfold World.Copy at hc
        rw [hother] at hc
        cases hc
      rw [hd]) hspread true (Or.inr ⟨Or.inl rfl, Or.inr rfl⟩)
  rw [Set.mem_singleton_iff.mp hb] at hcontent
  exact ⟨_, hcontent⟩

/-- A folder with `f` only, of some time. -/
structure HasOne (f : Folder) (m : ℤ) : Prop where
  root : AtRoot f [(sampleName, ⟨[97], m⟩)]
  entry : f.entry [sampleName] = some ⟨[97], m⟩

theorem HasOne.entries {f : Folder} {m : ℤ} (h : HasOne f m) :
    f.files.entries = [⟨[sampleName], ⟨[97], m⟩⟩] :=
  entries_of_only h.entry fun v c hc => by
    obtain ⟨y, hy, hvy, -⟩ := h.root.entry v c hc
    rw [hvy, List.mem_singleton.mp hy]

theorem HasOne.at {f : Folder} {m : ℤ} (h : HasOne f m) {v : RelPath} {c : FileEntry}
    (hc : f.entry v = some c) : v = [sampleName] ∧ c = ⟨[97], m⟩ := by
  obtain ⟨y, hy, hvy, hcy⟩ := h.root.entry v c hc
  rw [List.mem_singleton.mp hy] at hvy hcy
  exact ⟨hvy, hcy⟩

/-- A folder that has `f` only, after a session in which there was no other file. -/
theorem hasOne_of_clean {f : Folder} {m : ℤ} {files moved : RelPath → Prop}
    (honly : ∀ v c, f.entry v = some c → v = [sampleName] ∧ c = ⟨[97], m⟩)
    (hentry : f.entry [sampleName] = some ⟨[97], m⟩) (hfiles : ∀ u, files u → u = [sampleName])
    (hclean : Clean files moved f) : HasOne f m := by
  refine ⟨⟨fun v c hc => ?_, fun d hd => ?_⟩, hentry⟩
  · obtain ⟨hv, hcv⟩ := honly v c hc
    exact ⟨_, List.mem_singleton_self _, hv, hcv⟩
  · obtain ⟨u, hu, hpre, hne⟩ := hclean.dirs d hd
    rw [hfiles u hu] at hpre hne
    rcases List.prefix_cons_iff.mp hpre with hnil | ⟨d', rfl, hd'⟩
    · exact ⟨hnil, _, by rw [hentry]; rfl⟩
    · rw [List.prefix_nil.mp hd'] at hne
      exact absurd rfl hne

section

variable {e : Ends} (h : Regular e) {z : Duplex Party Party SyncMessage}
  (hreach : Reach (Party.next e.client) (Party.next e.server) e.start z)
  (hfinal : RandomDescent.Final (Step (Party.next e.client) (Party.next e.server)) z)
  (hfiles : ∀ u, e.files u → u = [sampleName])
include h hreach hfinal hfiles

/-- A client that receives nothing keeps `f`. -/
theorem hasOne_left {m : ℤ} (hone : HasOne e.clientFolder m)
    (hverdict : e.verdict [sampleName] ≠ .server) : HasOne z.left.folder m := by
  have honly : ∀ v c, z.left.folder.entry v = some c → v = [sampleName] ∧ c = ⟨[97], m⟩ := by
    have hnot : ∀ u, e.verdict u ≠ .server := fun u hu =>
      hverdict (hfiles u (files_of_verdict (by decide) hu) ▸ hu)
    intro v c hc
    cases copied_client h hreach hfinal hc with
    | received n ht _ => exact absurd ht (hnot _)
    | kept _ _ hown => exact hone.at hown
    | backup n _ ht _ _ _ _ => exact absurd ht (hnot _)
  obtain ⟨-, -, hcontent, -⟩ := h.converges.2 z hreach hfinal
  obtain ⟨b, -, hleft, -⟩ := hcontent [sampleName] (Ends.files_of_client hone.entry)
  obtain ⟨c, hc, -⟩ := Folder.content_eq_some.mp hleft
  obtain ⟨xs, ys, hs⟩ := exists_sends h.toUndisturbed
  obtain ⟨qc, qs, hqc, -, -, hends⟩ := h.outcome hs
  obtain ⟨-, -, hfolder, -, -, -⟩ := hends z hreach hfinal
  exact hasOne_of_clean honly (by rw [hc, (honly _ _ hc).2]) hfiles (hfolder ▸ hqc.clean)

/-- And so does a server. -/
theorem hasOne_right {m : ℤ} (hone : HasOne e.serverFolder m)
    (hverdict : e.verdict [sampleName] ≠ .client) : HasOne z.right.folder m := by
  have honly : ∀ v c, z.right.folder.entry v = some c → v = [sampleName] ∧ c = ⟨[97], m⟩ := by
    have hnot : ∀ u, e.verdict u ≠ .client := fun u hu =>
      hverdict (hfiles u (files_of_verdict (by decide) hu) ▸ hu)
    intro v c hc
    cases copied_server h hreach hfinal hc with
    | received n ht _ => exact absurd ht (hnot _)
    | kept _ _ hown => exact hone.at hown
    | backup n _ ht _ _ _ _ => exact absurd ht (hnot _)
  obtain ⟨-, -, hcontent, -⟩ := h.converges.2 z hreach hfinal
  obtain ⟨b, -, -, hright⟩ := hcontent [sampleName] (Or.inr (Option.isSome_of_eq_some hone.entry))
  obtain ⟨c, hc, -⟩ := Folder.content_eq_some.mp hright
  obtain ⟨xs, ys, hs⟩ := exists_sends h.toUndisturbed
  obtain ⟨qc, qs, -, hqs, -, hends⟩ := h.outcome hs
  obtain ⟨-, -, -, hfolder, -, -⟩ := hends z hreach hfinal
  exact hasOne_of_clean honly (by rw [hc, (honly _ _ hc).2]) hfiles (hfolder ▸ hqs.clean)

end

/-- The two devices meet again. -/
def againSession (f g : Folder) (t : ℤ) : Ends := labelledEnds "laptop" "laptop" (fun _ => t) f g

section

variable {f g : Folder} (hf : HasOne f 1) (hg : HasOne g 3) (t : ℤ)
include hf hg

theorem againSession_regular : Regular (againSession f g t) := by
  have hclient : (againSession f g t).clientIndex =
      (againSession (topFolder [(sampleName, ⟨[97], 1⟩)]) ⟨∅, ∅⟩ 4).clientIndex := by
    simp only [againSession, labelledEnds, Ends.clientIndex, buildProtocolIndex_eq, hf.entries]
    rfl
  have hserver : (againSession f g t).serverIndex =
      (againSession ⟨∅, ∅⟩ (topFolder [(sampleName, ⟨[97], 3⟩)]) 4).serverIndex := by
    simp only [againSession, labelledEnds, Ends.serverIndex, buildProtocolIndex_eq, hg.entries]
    rfl
  refine regular_labelledEnds _ _ _ hf.root hg.root (by decide +kernel) (by decide +kernel) ?_ ?_
  · show (againSession f g t).clientIndex.entries.length ≤ maxIndexEntries ∧
      (againSession f g t).serverIndex.entries.length ≤ maxIndexEntries
    rw [hclient, hserver]
    decide +kernel
  · show frameTooLarge Bincode.serialize (.index (againSession f g t).clientIndex) = false ∧
      frameTooLarge Bincode.serialize (.index (againSession f g t).serverIndex) = false
    rw [hclient, hserver]
    decide +kernel

/-- Then there is nothing to do. -/
theorem againSession_keeps : ∃ z, Reach (Party.next (againSession f g t).client)
    (Party.next (againSession f g t).server) (againSession f g t).start z ∧
    RandomDescent.Final
      (Step (Party.next (againSession f g t).client) (Party.next (againSession f g t).server)) z ∧
    HasOne z.left.folder 1 ∧ HasOne z.right.folder 3 := by
  have hregular := againSession_regular hf hg t
  obtain ⟨z, hreach, hfinal⟩ := hregular.converges.exists_end
  have hfiles : ∀ u, (againSession f g t).files u → u = [sampleName] := by
    intro u hu
    rcases hu with hu | hu
    · obtain ⟨c, hc⟩ := Option.isSome_iff_exists.mp hu
      exact (hf.at hc).1
    · obtain ⟨c, hc⟩ := Option.isSome_iff_exists.mp hu
      exact (hg.at hc).1
  have hverdict : (againSession f g t).verdict [sampleName] = .same := by
    unfold Ends.verdict
    rw [show (againSession f g t).clientFolder.entry [sampleName] = _ from hf.entry,
      show (againSession f g t).serverFolder.entry [sampleName] = _ from hg.entry]
    exact if_pos rfl
  exact ⟨z, hreach, hfinal, hasOne_left hregular hreach hfinal hfiles hf (by rw [hverdict]; decide),
    hasOne_right hregular hreach hfinal hfiles hg (by rw [hverdict]; decide)⟩

end

/-- Two devices that both have `f` meet, and both have it still. -/
theorem exists_again {w : World Bool} (h₀ : HasOne (w.device false).folder 1)
    (h₁ : HasOne (w.device true).folder 3) {t : ℕ} (ht : w.clock < t) (hmax : t ≤ maxTime) :
    ∃ w', HubSession false w true w' ∧ HasOne (w'.device false).folder 1 ∧ HasOne (w'.device true).folder 3 ∧
      w'.clock = t := by
  obtain ⟨z, hreach, hfinal, hleft, hright⟩ := againSession_keeps h₀ h₁ t
  have hclock : (w.clock : ℤ) < t ∧ (t : ℤ) ≤ t := ⟨by omega, Int.le_refl _⟩
  exact ⟨_, .starts ⟨by decide, rfl, rfl, againSession_regular h₀ h₁ t, rfl, fun _ => hclock,
    fun _ => hclock, hreach, hfinal⟩ hmax, hleft, hright, rfl⟩

theorem hub_rounds_agree_two : ∃ w : World Bool, ∃ b, ∀ d, w.content d [sampleName] = some b := by
  obtain ⟨z, hreach, hfinal⟩ := firstSession_regular.converges.exists_end
  have hone : HasOne firstSession.clientFolder 1 := ⟨atRoot_topFolder _, oneEdit_copy⟩
  have hfiles : ∀ u, firstSession.files u → u = [sampleName] := by
    intro u hu
    rcases hu with hu | hu
    · obtain ⟨c, hc⟩ := Option.isSome_iff_exists.mp hu
      exact (hone.at hc).1
    · cases hu
  have hleft := hasOne_left firstSession_regular hreach hfinal hfiles hone (by decide +kernel)
  obtain ⟨hroot, hentry⟩ := firstSession_received hreach hfinal
  obtain ⟨w₂, hsession₂, hleft₂, hright₂, hclock₂⟩ :=
    exists_again (w := oneEdit.after false true firstSession z 3) (t := 4) hleft ⟨hroot, hentry⟩
      (show 3 < 4 by decide) (by decide)
  obtain ⟨w₃, hsession₃, -, -, -⟩ :=
    exists_again (t := 5) hleft₂ hright₂ (by rw [hclock₂]; decide) (by decide)
  have hall : ∀ d : Bool, d ≠ false → d ∈ [true] := by decide
  exact ⟨w₃, hub_rounds_agree (oneEdit_run fun _ _ _ _ => True)
    (.next (.starts (oneEdit_session hreach hfinal) (by decide)) (.done _)) (.next hsession₂ (.done _))
    (.next hsession₃ (.done _)) hall hall hall [sampleName] ⟨false, _, oneEdit_copy⟩⟩

end FerriSync
