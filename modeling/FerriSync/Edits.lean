/-
# Edits that travel

Any number of devices, whose users edit files and which hold sessions two at a
time (`World.Step`). Each copy of a file goes back to an edit by a user; the
sessions, under equal labels, go by modification times. A user's edit and its
time agree, and a copy kept or set aside keeps its time (`Copied`), but a copy
that is received gets the time of its commit.

So an old edit becomes young by travelling, and then outranks a later one that
it meets (`stale_edit_wins`). It does not where no session commits an edit of
which a third device has a later one (`Unrivalled`): then in every state the
order of the times is that of the edits, and each session keeps the later edit
(`later_edit_wins`).

Key definitions: `World`, `World.Step`, `Session`, `Unrivalled`, `Ordered`.
Key theorems: `TookAll.copied`, `ordered_step`, `later_edit_wins`.
-/
import FerriSync.Newer

namespace FerriSync

open Machine

/-! ### Where the files of an end come from -/

/-- What stands at a path after a session: a file of the peer's with the time of
its commit, the end's own, or one that it has set aside. -/
inductive Copied (cfg : Config) (own other : Folder) (files taken : RelPath → Prop) (v : RelPath) :
    FileEntry → Prop
  | received {b : FileEntry} (n : ℕ) : taken v → other.entry v = some b →
      Copied cfg own other files taken v ⟨b.data, cfg.mtime n⟩
  | kept {c : FileEntry} : files v → ¬ taken v → own.entry v = some c →
      Copied cfg own other files taken v c
  | backup {u : RelPath} {b c : FileEntry} (n : ℕ) : ¬ files v → taken u → own.entry u = some c →
      other.entry u = some b → c.data ≠ b.data → v = backupName cfg n (u, b.data) →
      Copied cfg own other files taken v c

/-- **Every file of an end at the end of a session is one of these.** -/
theorem TookAll.copied {cfg : Config} {files moved taken : RelPath → Prop} {p q : Party}
    {xs : List SentFile} {own other : Folder} (h : TookAll cfg files moved p xs q)
    (hfolder : p.folder = own) (hown : ∀ v, (own.entry v).isSome → files v)
    (hin : ∀ x ∈ xs, taken x.1 ∧ other.content x.1 = some x.2)
    (hall : ∀ u, taken u → u ∈ xs.map (·.1)) {v : RelPath} {c : FileEntry}
    (hc : q.folder.entry v = some c) : Copied cfg own other files taken v c := by
  by_cases hv : files v
  · by_cases ht : taken v
    · obtain ⟨x, hx, rfl⟩ := List.mem_map.mp (hall v ht)
      obtain ⟨n, hn⟩ := h.dated x hx
      obtain ⟨b, hb, hdata⟩ := Folder.content_eq_some.mp (hin x hx).2
      obtain rfl : ⟨x.2, cfg.mtime n⟩ = c := Option.some.inj (hn.symm.trans hc)
      rw [← hdata]
      exact .received n ht hb
    · have hnot : v ∉ xs.map (·.1) := fun hmem => by
        obtain ⟨x, hx, rfl⟩ := List.mem_map.mp hmem
        exact ht (hin x hx).1
      rw [h.others v hv hnot, hfolder] at hc
      exact .kept hv ht hc
  · rcases h.made v c hv hc with hold | ⟨x, hx, hold, hdiffer, n, hname⟩
    · rw [hfolder] at hold
      exact absurd (hown v (by rw [hold]; rfl)) hv
    · rw [hfolder] at hold
      obtain ⟨ht, hcontent⟩ := hin x hx
      obtain ⟨b, hb, hdata⟩ := Folder.content_eq_some.mp hcontent
      exact .backup n hv ht hold hb (by rw [hdata]; exact hdiffer) (by rw [hdata]; exact hname)

section

variable {e : Ends} (h : Regular e) {z : Duplex Party Party SyncMessage}
  (hreach : Reach (Party.next e.client) (Party.next e.server) e.start z)
  (hfinal : RandomDescent.Final (Step (Party.next e.client) (Party.next e.server)) z)
include h hreach hfinal

theorem copied_client {v : RelPath} {c : FileEntry} (hc : z.left.folder.entry v = some c) :
    Copied e.client e.clientFolder e.serverFolder e.files (e.verdict · = .server) v c := by
  obtain ⟨xs, ys, hs⟩ := exists_sends h.toUndisturbed
  obtain ⟨qc, qs, hqc, -, -, hends⟩ := h.outcome hs
  obtain ⟨-, -, hleft, -, -, -⟩ := hends z hreach hfinal
  rw [hleft] at hc
  exact hqc.copied (e.client_pushed xs).folder (fun v hv => Or.inl hv) hs.server
    (fun u hu => hs.mem_server h.toUndisturbed hu) hc

theorem copied_server {v : RelPath} {c : FileEntry} (hc : z.right.folder.entry v = some c) :
    Copied e.server e.serverFolder e.clientFolder e.files (e.verdict · = .client) v c := by
  obtain ⟨xs, ys, hs⟩ := exists_sends h.toUndisturbed
  obtain ⟨qc, qs, -, hqs, -, hends⟩ := h.outcome hs
  obtain ⟨-, -, -, hright, -, -⟩ := hends z hreach hfinal
  rw [hright] at hc
  exact hqs.copied (e.server_pushed ys).folder (fun v hv => Or.inr hv) hs.client
    (fun u hu => hs.mem_client h.toUndisturbed hu) hc

end

/-! ### The devices and their users -/

structure Device where
  folder : Folder
  /-- When a user wrote what stands at a path, in nanoseconds since the epoch. -/
  written : RelPath → ℕ

structure World (D : Type) where
  device : D → Device
  clock : ℕ

/-- The latest time a scan can record. -/
def maxTime : ℕ := 9223372036854775807

instance (e : Ends) (u : RelPath) : Decidable (e.files u) :=
  inferInstanceAs (Decidable (_ ∨ _))

/-- Where the copies of an end go back to after a session in which it takes the
files of one verdict. -/
def writtenAfter (e : Ends) (taken : Verdict) (own other : RelPath → ℕ) (v : RelPath) : ℕ :=
  if e.verdict v = taken then other v
  else if e.files v then own v
  else own v.original

variable {D : Type} [DecidableEq D]

/-- A complete session between two devices, under equal labels; its commits
come after all that was before. -/
structure Session (w : World D) (x y : D) (e : Ends) (z : Duplex Party Party SyncMessage) (t : ℕ) :
    Prop where
  distinct : x ≠ y
  client : e.clientFolder = (w.device x).folder
  server : e.serverFolder = (w.device y).folder
  regular : Regular e
  labels : e.client.deviceId = e.server.deviceId
  clientClock : ∀ n, (w.clock : ℤ) < e.client.mtime n ∧ e.client.mtime n ≤ t
  serverClock : ∀ n, (w.clock : ℤ) < e.server.mtime n ∧ e.server.mtime n ≤ t
  reach : Reach (Party.next e.client) (Party.next e.server) e.start z
  final : RandomDescent.Final (Step (Party.next e.client) (Party.next e.server)) z

namespace World

def empty : World D := ⟨fun _ => ⟨⟨∅, ∅⟩, fun _ => 0⟩, 0⟩

/-- One device has another folder. -/
def update (w : World D) (d : D) (f : Device) (t : ℕ) : World D :=
  ⟨fun d' => if d' = d then f else w.device d', t⟩

/-- The devices after a session. -/
def after (w : World D) (x y : D) (e : Ends) (z : Duplex Party Party SyncMessage) (t : ℕ) : World D where
  device d :=
    if d = x then
      ⟨z.left.folder, writtenAfter e .server (w.device x).written (w.device y).written⟩
    else if d = y then
      ⟨z.right.folder, writtenAfter e .client (w.device y).written (w.device x).written⟩
    else w.device d
  clock := t

/-- A user writes or deletes a file, or two devices hold a session, one that
`allowed` admits. -/
inductive Step (allowed : World D → D → D → Ends → Prop) : World D → World D → Prop
  | edit {w : World D} (d : D) (u : RelPath) {data : Bytes} {t : ℕ} {g : Folder} : w.clock < t →
      t ≤ maxTime → g.entry u = some ⟨data, t⟩ →
      (∀ v, v ≠ u → g.entry v = (w.device d).folder.entry v) →
      Step allowed w (w.update d ⟨g, fun v => if v = u then t else (w.device d).written v⟩ t)
  | delete {w : World D} (d : D) (u : RelPath) {t : ℕ} {g : Folder} : w.clock < t → t ≤ maxTime →
      g.entry u = none → (∀ v, v ≠ u → g.entry v = (w.device d).folder.entry v) →
      Step allowed w (w.update d ⟨g, (w.device d).written⟩ t)
  | session {w : World D} {x y : D} {e : Ends} {z : Duplex Party Party SyncMessage} {t : ℕ} :
      Session w x y e z t → t ≤ maxTime → allowed w x y e → Step allowed w (w.after x y e z t)

/-- A device has this copy at a path. -/
def Copy (w : World D) (d : D) (u : RelPath) (c : FileEntry) : Prop :=
  (w.device d).folder.entry u = some c

end World

/-- Of two copies the one of the later edit has the later time. -/
def InOrder (o o' : ℕ) (m m' : ℤ) : Prop := (o < o' → m < m') ∧ (o' < o → m' < m)

/-- The session sends no file of which a third device has a later edit; nor does
a backup it makes get the name of a third device's file that is of a later edit
and an earlier time, or the reverse. -/
structure Unrivalled (w : World D) (x y : D) (e : Ends) : Prop where
  toServer : ∀ u, e.verdict u = .client → ∀ d, d ≠ x → d ≠ y → ∀ c, w.Copy d u c →
    (w.device d).written u ≤ (w.device x).written u
  toClient : ∀ u, e.verdict u = .server → ∀ d, d ≠ x → d ≠ y → ∀ c, w.Copy d u c →
    (w.device d).written u ≤ (w.device y).written u
  clientBackup : ∀ u a b n, e.verdict u = .server → w.Copy x u a → w.Copy y u b → a.data ≠ b.data →
    ∀ d, d ≠ x → d ≠ y → ∀ c, w.Copy d (backupName e.client n (u, b.data)) c →
    InOrder ((w.device x).written u) ((w.device d).written (backupName e.client n (u, b.data)))
      a.mtime c.mtime
  serverBackup : ∀ u a b n, e.verdict u = .client → w.Copy x u a → w.Copy y u b → a.data ≠ b.data →
    ∀ d, d ≠ x → d ≠ y → ∀ c, w.Copy d (backupName e.server n (u, a.data)) c →
    InOrder ((w.device y).written u) ((w.device d).written (backupName e.server n (u, a.data)))
      b.mtime c.mtime

/-! ### What every state keeps -/

/-- The order of the times is that of the edits. -/
structure Ordered (w : World D) : Prop where
  inTime : w.clock ≤ maxTime
  past : ∀ d u c, w.Copy d u c → (w.device d).written u ≤ w.clock ∧ 0 ≤ c.mtime ∧ c.mtime ≤ w.clock
  source : ∀ d d' u u' c c', w.Copy d u c → w.Copy d' u' c' →
    (w.device d).written u = (w.device d').written u' → c.data = c'.data
  inOrder : ∀ d d' u c c', w.Copy d u c → w.Copy d' u c' →
    InOrder ((w.device d).written u) ((w.device d').written u) c.mtime c'.mtime

theorem InOrder.symm {o o' : ℕ} {m m' : ℤ} (h : InOrder o o' m m') : InOrder o' o m' m := ⟨h.2, h.1⟩

theorem inOrder_of_eq {o o' : ℕ} {m m' : ℤ} (h : o = o') : InOrder o o' m m' :=
  ⟨fun hlt => absurd h (Nat.ne_of_lt hlt), fun hlt => absurd h.symm (Nat.ne_of_lt hlt)⟩

omit [DecidableEq D] in
theorem ordered_empty : Ordered (World.empty : World D) where
  inTime := Nat.zero_le _
  past _ _ _ h := by cases h
  source _ _ _ _ _ _ h := by cases h
  inOrder _ _ _ _ _ h := by cases h

section

variable {w : World D}

/-- A copy of one device's changed folder is new or was there before. -/
theorem update_copy {d : D} {u : RelPath} {g : Folder} {written : RelPath → ℕ} {t : ℕ}
    (hothers : ∀ v, v ≠ u → g.entry v = (w.device d).folder.entry v)
    (hwritten : ∀ v, v ≠ u → written v = (w.device d).written v) {d' : D} {v : RelPath} {c : FileEntry}
    (hc : (w.update d ⟨g, written⟩ t).Copy d' v c) :
    (v = u ∧ g.entry u = some c ∧ ((w.update d ⟨g, written⟩ t).device d').written v = written u) ∨
      w.Copy d' v c ∧ ((w.update d ⟨g, written⟩ t).device d').written v = (w.device d').written v := by
  unfold World.Copy World.update at hc
  unfold World.Copy World.update
  dsimp only at hc ⊢
  by_cases hd : d' = d
  · rw [if_pos hd] at hc ⊢
    by_cases hv : v = u
    · exact Or.inl ⟨hv, hv ▸ hc, hv ▸ rfl⟩
    · rw [hothers v hv] at hc
      subst hd
      exact Or.inr ⟨hc, hwritten v hv⟩
  · rw [if_neg hd] at hc ⊢
    exact Or.inr ⟨hc, rfl⟩

/-- A user's edit is later than all others, and so is its time. -/
theorem ordered_edit (h : Ordered w) {d : D} {u : RelPath} {data : Bytes} {t : ℕ} {g : Folder}
    (ht : w.clock < t) (hmax : t ≤ maxTime) (hu : g.entry u = some ⟨data, t⟩)
    (hothers : ∀ v, v ≠ u → g.entry v = (w.device d).folder.entry v) :
    Ordered (w.update d ⟨g, fun v => if v = u then t else (w.device d).written v⟩ t) := by
  generalize hw : w.update d ⟨g, fun v => if v = u then t else (w.device d).written v⟩ t = w'
  have hclock : w'.clock = t := by rw [← hw]; rfl
  have hcopy : ∀ d' v c, w'.Copy d' v c → ((w'.device d').written v = t ∧ c = ⟨data, t⟩) ∨
      w.Copy d' v c ∧ (w'.device d').written v = (w.device d').written v := by
    intro d' v c hc
    rw [← hw] at hc ⊢
    rcases update_copy hothers (fun v hv => if_neg hv) hc with ⟨-, hnew, hwritten⟩ | hold
    · rw [hu] at hnew
      exact Or.inl ⟨hwritten.trans (if_pos rfl), (Option.some.inj hnew).symm⟩
    · exact Or.inr hold
  refine ⟨by rw [hclock]; exact hmax, fun d' v c hc => ?_, fun d₁ d₂ u₁ u₂ c₁ c₂ h₁ h₂ heq => ?_,
    fun d₁ d₂ v c₁ c₂ h₁ h₂ => ?_⟩
  · rw [hclock]
    rcases hcopy d' v c hc with ⟨hnew, rfl⟩ | ⟨hold, hwritten⟩
    · rw [hnew]
      exact ⟨Nat.le_refl t, Int.natCast_nonneg t, Int.le_refl _⟩
    · obtain ⟨hpast, hpos, hmtime⟩ := h.past d' v c hold
      rw [hwritten]
      exact ⟨by omega, hpos, by omega⟩
  · rcases hcopy d₁ u₁ c₁ h₁ with ⟨hnew₁, rfl⟩ | ⟨hold₁, hwritten₁⟩
    · rcases hcopy d₂ u₂ c₂ h₂ with ⟨hnew₂, rfl⟩ | ⟨hold₂, hwritten₂⟩
      · rfl
      · have hpast := (h.past d₂ u₂ c₂ hold₂).1
        omega
    · rcases hcopy d₂ u₂ c₂ h₂ with ⟨hnew₂, rfl⟩ | ⟨hold₂, hwritten₂⟩
      · have hpast := (h.past d₁ u₁ c₁ hold₁).1
        omega
      · exact h.source d₁ d₂ u₁ u₂ c₁ c₂ hold₁ hold₂ (by rw [← hwritten₁, heq, hwritten₂])
  · have hlater : ∀ d₁ d₂ c₂, (w'.device d₁).written v = t → w.Copy d₂ v c₂ →
        (w'.device d₂).written v = (w.device d₂).written v →
        InOrder ((w'.device d₁).written v) ((w'.device d₂).written v) t c₂.mtime := by
      intro d₁ d₂ c₂ hnew hold hwritten
      obtain ⟨hpast, -, hmtime⟩ := h.past d₂ v c₂ hold
      rw [hnew, hwritten]
      exact ⟨fun hlt => by omega, fun _ => by omega⟩
    rcases hcopy d₁ v c₁ h₁ with ⟨hnew₁, rfl⟩ | ⟨hold₁, hwritten₁⟩
    · rcases hcopy d₂ v c₂ h₂ with ⟨hnew₂, rfl⟩ | ⟨hold₂, hwritten₂⟩
      · exact inOrder_of_eq (hnew₁.trans hnew₂.symm)
      · exact hlater d₁ d₂ c₂ hnew₁ hold₂ hwritten₂
    · rcases hcopy d₂ v c₂ h₂ with ⟨hnew₂, rfl⟩ | ⟨hold₂, hwritten₂⟩
      · exact (hlater d₂ d₁ c₁ hnew₂ hold₁ hwritten₁).symm
      · rw [hwritten₁, hwritten₂]
        exact h.inOrder d₁ d₂ v c₁ c₂ hold₁ hold₂

theorem ordered_delete (h : Ordered w) {d : D} {u : RelPath} {t : ℕ} {g : Folder} (ht : w.clock < t)
    (hmax : t ≤ maxTime) (hu : g.entry u = none)
    (hothers : ∀ v, v ≠ u → g.entry v = (w.device d).folder.entry v) :
    Ordered (w.update d ⟨g, (w.device d).written⟩ t) := by
  generalize hw : w.update d ⟨g, (w.device d).written⟩ t = w'
  have hclock : w'.clock = t := by rw [← hw]; rfl
  have hcopy : ∀ d' v c, w'.Copy d' v c →
      w.Copy d' v c ∧ (w'.device d').written v = (w.device d').written v := by
    intro d' v c hc
    rw [← hw] at hc ⊢
    rcases update_copy hothers (fun _ _ => rfl) hc with ⟨-, hnew, -⟩ | hold
    · rw [hu] at hnew
      cases hnew
    · exact hold
  refine ⟨by rw [hclock]; exact hmax, fun d' v c hc => ?_, fun d₁ d₂ u₁ u₂ c₁ c₂ h₁ h₂ heq => ?_,
    fun d₁ d₂ v c₁ c₂ h₁ h₂ => ?_⟩
  · obtain ⟨hold, hwritten⟩ := hcopy d' v c hc
    obtain ⟨hpast, hpos, hmtime⟩ := h.past d' v c hold
    rw [hclock, hwritten]
    exact ⟨by omega, hpos, by omega⟩
  · obtain ⟨hold₁, hwritten₁⟩ := hcopy d₁ u₁ c₁ h₁
    obtain ⟨hold₂, hwritten₂⟩ := hcopy d₂ u₂ c₂ h₂
    exact h.source d₁ d₂ u₁ u₂ c₁ c₂ hold₁ hold₂ (by rw [← hwritten₁, heq, hwritten₂])
  · obtain ⟨hold₁, hwritten₁⟩ := hcopy d₁ v c₁ h₁
    obtain ⟨hold₂, hwritten₂⟩ := hcopy d₂ v c₂ h₂
    rw [hwritten₁, hwritten₂]
    exact h.inOrder d₁ d₂ v c₁ c₂ hold₁ hold₂

/-! ### A session -/

variable {x y : D} {e : Ends} {z : Duplex Party Party SyncMessage} {t : ℕ}

theorem files_of_verdict {u : RelPath} {taken : Verdict} (htaken : taken ≠ .same)
    (hv : e.verdict u = taken) : e.files u :=
  Ends.moved_files fun hsame => htaken (hv.symm.trans hsame)

section

variable (hregular : Regular e) {taken : Verdict} (htaken : taken ≠ .same) (wown wother : RelPath → ℕ)
include hregular htaken

theorem writtenAfter_backup {cfg : Config} {u : RelPath} {data : Bytes} {n : ℕ}
    (hu : e.verdict u = taken) (hv : ¬ e.files (backupName cfg n (u, data))) :
    writtenAfter e taken wown wother (backupName cfg n (u, data)) = wown u := by
  have hnot : e.verdict (backupName cfg n (u, data)) ≠ taken := fun h => hv (files_of_verdict htaken h)
  have hne : u ≠ [] := hregular.apart.ne_nil u (files_of_verdict htaken hu)
  rw [writtenAfter, if_neg hnot, if_neg hv, backupName, RelPath.original_backup hne]

/-- What stands at a path after a session goes back to a copy before it. -/
theorem Copied.source {cfg : Config} {own other : Folder} {v : RelPath} {c : FileEntry}
    (hc : Copied cfg own other e.files (e.verdict · = taken) v c) :
    (∃ b n, other.entry v = some b ∧ c = ⟨b.data, cfg.mtime n⟩ ∧
      writtenAfter e taken wown wother v = wother v) ∨
    ∃ u, own.entry u = some c ∧ writtenAfter e taken wown wother v = wown u := by
  cases hc with
  | @received b n ht hb => exact Or.inl ⟨b, n, hb, rfl, if_pos ht⟩
  | kept hv ht hown => exact Or.inr ⟨v, hown, by rw [writtenAfter, if_neg ht, if_pos hv]⟩
  | @backup u b _ n hv ht hown hother hdiffer hname =>
    subst hname
    exact Or.inr ⟨u, hown, writtenAfter_backup hregular htaken wown wother ht hv⟩

omit [DecidableEq D] in
/-- What stands at an end is in order with what a third device has, if no later
edit is there. -/
theorem Copied.third {cfg : Config} {o s d : D} {v : RelPath} {c c' : FileEntry} (h : Ordered w)
    (hclock : ∀ n, (w.clock : ℤ) < cfg.mtime n)
    (hlater : ∀ u, e.verdict u = taken → ∀ c, w.Copy d u c →
      (w.device d).written u ≤ (w.device s).written u)
    (hbackup : ∀ u a b n, e.verdict u = taken → w.Copy o u a → w.Copy s u b → a.data ≠ b.data →
      ∀ c, w.Copy d (backupName cfg n (u, b.data)) c →
      InOrder ((w.device o).written u) ((w.device d).written (backupName cfg n (u, b.data)))
        a.mtime c.mtime)
    (hc : Copied cfg (w.device o).folder (w.device s).folder e.files (e.verdict · = taken) v c)
    (hc' : w.Copy d v c') :
    InOrder (writtenAfter e taken (w.device o).written (w.device s).written v)
      ((w.device d).written v) c.mtime c'.mtime := by
  cases hc with
  | @received b n ht hb =>
    have hwritten : writtenAfter e taken (w.device o).written (w.device s).written v =
        (w.device s).written v := if_pos ht
    have hle := hlater v ht c' hc'
    have hpast := (h.past d v c' hc').2.2
    have hnow := hclock n
    rw [hwritten]
    exact ⟨fun hlt => by omega, fun _ => Int.lt_of_le_of_lt hpast hnow⟩
  | kept hv ht hown =>
    rw [writtenAfter, if_neg ht, if_pos hv]
    exact h.inOrder o d v _ c' hown hc'
  | @backup u b _ n hv ht hown hother hdiffer hname =>
    subst hname
    rw [writtenAfter_backup hregular htaken _ _ ht hv]
    exact hbackup u _ b n ht hown hother hdiffer c' hc'

end

omit [DecidableEq D] in
/-- What stands at one end is in order with what stands at the other. -/
theorem Copied.cross (h : Ordered w) (hregular : Regular e) {v : RelPath} {c c' : FileEntry}
    (hc : Copied e.client (w.device x).folder (w.device y).folder e.files (e.verdict · = .server) v c)
    (hc' : Copied e.server (w.device y).folder (w.device x).folder e.files (e.verdict · = .client) v c') :
    InOrder (writtenAfter e .server (w.device x).written (w.device y).written v)
      (writtenAfter e .client (w.device y).written (w.device x).written v) c.mtime c'.mtime := by
  have hfiles : ∀ {u taken}, taken ≠ .same → e.verdict u = taken → e.files u := files_of_verdict
  cases hc with
  | received n ht hb =>
    have hnot : e.verdict v ≠ .client := by
      rw [ht]
      decide
    refine inOrder_of_eq ?_
    rw [writtenAfter, if_pos ht, writtenAfter, if_neg hnot, if_pos (hfiles (by decide) ht)]
  | kept hv ht hown =>
    cases hc' with
    | received n ht' hb' =>
      refine inOrder_of_eq ?_
      rw [writtenAfter, if_neg ht, if_pos hv, writtenAfter, if_pos ht']
    | kept hv' ht' hown' =>
      rw [writtenAfter, if_neg ht, if_pos hv, writtenAfter, if_neg ht', if_pos hv]
      exact h.inOrder x y v _ _ hown hown'
    | backup n hv' ht' hown' hother' hdiffer' hname' => exact absurd hv hv'
  | @backup u b _ n hv ht hown hother hdiffer hname =>
    cases hc' with
    | received n' ht' hb' => exact absurd (hfiles (by decide) ht') hv
    | kept hv' ht' hown' => exact absurd hv' hv
    | @backup u' b' _ n' hv' ht' hown' hother' hdiffer' hname' =>
      -- the two backups are of one file, which cannot have gone both ways
      have hu := hregular.apart.ne_nil u (hfiles (by decide) ht)
      have hu' := hregular.apart.ne_nil u' (hfiles (by decide) ht')
      have hsame : u = u' := RelPath.backup_inj hu hu' (hname.symm.trans hname')
      rw [hsame, ht'] at ht
      exact absurd ht (by decide)

theorem after_copy (hs : Session w x y e z t) {d : D} {v : RelPath} {c : FileEntry}
    (hc : (w.after x y e z t).Copy d v c) :
    (d = x ∧ Copied e.client (w.device x).folder (w.device y).folder e.files (e.verdict · = .server) v c ∧
      ((w.after x y e z t).device d).written v =
        writtenAfter e .server (w.device x).written (w.device y).written v) ∨
    (d = y ∧ Copied e.server (w.device y).folder (w.device x).folder e.files (e.verdict · = .client) v c ∧
      ((w.after x y e z t).device d).written v =
        writtenAfter e .client (w.device y).written (w.device x).written v) ∨
    (d ≠ x ∧ d ≠ y ∧ w.Copy d v c ∧
      ((w.after x y e z t).device d).written v = (w.device d).written v) := by
  unfold World.Copy World.after at hc
  unfold World.after
  dsimp only at hc ⊢
  by_cases hx : d = x
  · rw [if_pos hx] at hc ⊢
    have hcopied := copied_client hs.regular hs.reach hs.final hc
    rw [hs.client, hs.server] at hcopied
    exact Or.inl ⟨hx, hcopied, rfl⟩
  · by_cases hy : d = y
    · rw [if_neg hx, if_pos hy] at hc ⊢
      have hcopied := copied_server hs.regular hs.reach hs.final hc
      rw [hs.client, hs.server] at hcopied
      exact Or.inr (Or.inl ⟨hy, hcopied, rfl⟩)
    · rw [if_neg hx, if_neg hy] at hc ⊢
      exact Or.inr (Or.inr ⟨hx, hy, hc, rfl⟩)

/-- Every copy after a session goes back to one before it, of the same edit. -/
theorem after_source (hs : Session w x y e z t) {d : D} {v : RelPath} {c : FileEntry}
    (hc : (w.after x y e z t).Copy d v c) : ∃ s u c₀, w.Copy s u c₀ ∧ c₀.data = c.data ∧
      ((w.after x y e z t).device d).written v = (w.device s).written u ∧
      (c = c₀ ∨ (w.clock : ℤ) < c.mtime ∧ c.mtime ≤ t) := by
  rcases after_copy hs hc with ⟨-, hcopied, hwritten⟩ | ⟨-, hcopied, hwritten⟩ | ⟨-, -, hold, hwritten⟩
  · rcases hcopied.source hs.regular (by decide) (w.device x).written (w.device y).written with
      ⟨b, n, hb, rfl, hw⟩ | ⟨u, hu, hw⟩
    · exact ⟨y, v, b, hb, rfl, hwritten.trans hw, Or.inr (hs.clientClock n)⟩
    · exact ⟨x, u, c, hu, rfl, hwritten.trans hw, Or.inl rfl⟩
  · rcases hcopied.source hs.regular (by decide) (w.device y).written (w.device x).written with
      ⟨b, n, hb, rfl, hw⟩ | ⟨u, hu, hw⟩
    · exact ⟨x, v, b, hb, rfl, hwritten.trans hw, Or.inr (hs.serverClock n)⟩
    · exact ⟨y, u, c, hu, rfl, hwritten.trans hw, Or.inl rfl⟩
  · exact ⟨d, v, c, hold, rfl, hwritten, Or.inl rfl⟩

/-- **A session without a rival keeps the order.** -/
theorem ordered_session (h : Ordered w) (hs : Session w x y e z t) (hmax : t ≤ maxTime)
    (hclear : Unrivalled w x y e) : Ordered (w.after x y e z t) := by
  have hclock : w.clock < t := by
    obtain ⟨hlo, hhi⟩ := hs.clientClock 0
    omega
  have hthirdX : ∀ {d v c c'}, d ≠ x → d ≠ y →
      Copied e.client (w.device x).folder (w.device y).folder e.files (e.verdict · = .server) v c →
      w.Copy d v c' → InOrder (writtenAfter e .server (w.device x).written (w.device y).written v)
        ((w.device d).written v) c.mtime c'.mtime := fun hx hy hc hc' =>
    Copied.third hs.regular (by decide) h (fun n => (hs.clientClock n).1)
      (fun u hu => hclear.toClient u hu _ hx hy)
      (fun u a b n hu ha hb hdiffer => hclear.clientBackup u a b n hu ha hb hdiffer _ hx hy) hc hc'
  have hthirdY : ∀ {d v c c'}, d ≠ x → d ≠ y →
      Copied e.server (w.device y).folder (w.device x).folder e.files (e.verdict · = .client) v c →
      w.Copy d v c' → InOrder (writtenAfter e .client (w.device y).written (w.device x).written v)
        ((w.device d).written v) c.mtime c'.mtime := fun hx hy hc hc' =>
    Copied.third hs.regular (by decide) h (fun n => (hs.serverClock n).1)
      (fun u hu => hclear.toServer u hu _ hx hy)
      (fun u b a n hu hb ha hdiffer => hclear.serverBackup u a b n hu ha hb hdiffer.symm _ hx hy) hc hc'
  refine ⟨hmax, fun d v c hc => ?_, fun d₁ d₂ u₁ u₂ c₁ c₂ h₁ h₂ heq => ?_,
    fun d₁ d₂ v c₁ c₂ h₁ h₂ => ?_⟩
  · obtain ⟨s, u, c₀, hold, -, hwritten, hmtime⟩ := after_source hs hc
    obtain ⟨hpast, hpos, hle⟩ := h.past s u c₀ hold
    have ht : (w.after x y e z t).clock = t := rfl
    rw [hwritten, ht]
    rcases hmtime with rfl | ⟨hlo, hhi⟩
    · exact ⟨by omega, hpos, by omega⟩
    · exact ⟨by omega, by omega, hhi⟩
  · obtain ⟨s₁, v₁, b₁, hold₁, hdata₁, hwritten₁, -⟩ := after_source hs h₁
    obtain ⟨s₂, v₂, b₂, hold₂, hdata₂, hwritten₂, -⟩ := after_source hs h₂
    rw [← hdata₁, ← hdata₂]
    exact h.source s₁ s₂ v₁ v₂ b₁ b₂ hold₁ hold₂ (by rw [← hwritten₁, heq, hwritten₂])
  · by_cases hd : d₁ = d₂
    · subst hd
      exact inOrder_of_eq rfl
    rcases after_copy hs h₁ with ⟨hd₁, hc₁, hw₁⟩ | ⟨hd₁, hc₁, hw₁⟩ | ⟨hx₁, hy₁, hc₁, hw₁⟩ <;>
      rcases after_copy hs h₂ with ⟨hd₂, hc₂, hw₂⟩ | ⟨hd₂, hc₂, hw₂⟩ | ⟨hx₂, hy₂, hc₂, hw₂⟩ <;>
      rw [hw₁, hw₂]
    · exact absurd (hd₁.trans hd₂.symm) hd
    · exact Copied.cross h hs.regular hc₁ hc₂
    · exact hthirdX hx₂ hy₂ hc₁ hc₂
    · exact (Copied.cross h hs.regular hc₂ hc₁).symm
    · exact absurd (hd₁.trans hd₂.symm) hd
    · exact hthirdY hx₂ hy₂ hc₁ hc₂
    · exact (hthirdX hx₁ hy₁ hc₂ hc₁).symm
    · exact (hthirdY hx₁ hy₁ hc₂ hc₁).symm
    · exact h.inOrder d₁ d₂ v c₁ c₂ hc₁ hc₂

/-- **One step keeps the order.** -/
theorem ordered_step {w' : World D} (h : Ordered w) (hstep : World.Step Unrivalled w w') : Ordered w' := by
  cases hstep with
  | edit d u ht hmax hu hothers => exact ordered_edit h ht hmax hu hothers
  | delete d u ht hmax hu hothers => exact ordered_delete h ht hmax hu hothers
  | session hs hmax hclear => exact ordered_session h hs hmax hclear

/-- **And so does a run.** -/
theorem ordered_run {w' : World D} (h : Ordered w)
    (hrun : Relation.ReflTransGen (World.Step Unrivalled) w w') : Ordered w' := by
  induction hrun with
  | refl => exact h
  | tail _ hstep ih => exact ordered_step ih hstep

end

/-! ### The later edit wins -/

/-- Of two devices' copies the content of the later edit. -/
def World.laterCopy (w : World D) (x y : D) (u : RelPath) (a b : FileEntry) : Bytes :=
  if (w.device y).written u < (w.device x).written u then a.data else b.data

/-- Where the two devices have different contents, both are left with that of
the later edit. -/
def LaterEditWins (w : World D) (x y : D) (z : Duplex Party Party SyncMessage) : Prop :=
  ∀ u a b, w.Copy x u a → w.Copy y u b → a.data ≠ b.data →
    z.left.folder.content u = some (w.laterCopy x y u a b) ∧
      z.right.folder.content u = some (w.laterCopy x y u a b)

/-- No copy of an old edit outranks one of a later edit. -/
def World.NoneOutranked (w : World D) : Prop :=
  ∀ d d' u c c', w.Copy d u c → w.Copy d' u c' → (w.device d).written u < (w.device d').written u →
    c.recorded < c'.recorded

theorem recorded_toNat {x : FileEntry} (hpos : 0 ≤ x.mtime) (hmax : x.mtime ≤ maxTime) :
    x.recorded.toNat = x.mtime.toNat := by
  have hm : x.mtime ≤ 9223372036854775807 := hmax
  show (BitVec.ofInt 64 (max 0 x.mtime)).toNat = x.mtime.toNat
  rw [BitVec.toNat_ofInt, max_eq_right hpos]
  omega

theorem recorded_lt {x y : FileEntry} (hx : 0 ≤ x.mtime) (hy : y.mtime ≤ maxTime)
    (h : x.mtime < y.mtime) : x.recorded < y.recorded := by
  rw [UInt64.lt_iff_toNat_lt, recorded_toNat hx (by omega), recorded_toNat (by omega) hy]
  omega

section

variable {w : World D}

omit [DecidableEq D] in
theorem Ordered.none_outranked (h : Ordered w) : w.NoneOutranked := by
  intro d d' u c c' hc hc' hlt
  obtain ⟨-, hpos, -⟩ := h.past d u c hc
  obtain ⟨-, -, hmtime⟩ := h.past d' u c' hc'
  have hmax := h.inTime
  exact recorded_lt hpos (by omega) ((h.inOrder d d' u c c' hc hc').1 hlt)

omit [DecidableEq D] in
/-- **A session in order keeps the later edit.** -/
theorem Ordered.keeps_later (h : Ordered w) {x y : D} {e : Ends}
    {z : Duplex Party Party SyncMessage} {t : ℕ} (hs : Session w x y e z t) : LaterEditWins w x y z := by
  intro u a b ha hb hdiffer
  have ha' : e.clientFolder.entry u = some a := by rw [hs.client]; exact ha
  have hb' : e.serverFolder.entry u = some b := by rw [hs.server]; exact hb
  have hne : e.client.blake3 a.data ≠ e.client.blake3 b.data := fun heq =>
    hdiffer (hs.regular.faithful u _ _ (Folder.content_eq_some.mpr ⟨a, ha', rfl⟩)
      (Folder.content_eq_some.mpr ⟨b, hb', rfl⟩) heq)
  obtain ⟨-, -, hcontent, -⟩ := hs.regular.converges.2 z hs.reach hs.final
  obtain ⟨chosen, hchosen, hleft, hright⟩ := hcontent u (Ends.files_of_client ha')
  rw [Ends.chosen_of_differ ha' hb' hne, Option.some.injEq] at hchosen
  have hsame : w.laterCopy x y u a b = chosen := by
    rw [← hchosen, World.laterCopy]
    by_cases hlt : (w.device y).written u < (w.device x).written u
    · rw [if_pos hlt, if_pos ⟨h.none_outranked y x u b a hb ha hlt, Or.inl hs.labels⟩]
    · have hlater : (w.device x).written u < (w.device y).written u := by
        have hedits : (w.device x).written u ≠ (w.device y).written u := fun heq =>
          hdiffer (h.source x y u u a b ha hb heq)
        omega
      have hrecorded := h.none_outranked x y u a b ha hb hlater
      rw [if_neg hlt, if_neg (fun hc => UInt64.lt_asymm hrecorded hc.1)]
  rw [hsame]
  exact ⟨hleft, hright⟩

end

/-! ### Three devices -/

theorem entries_of_only {f : Folder} {u : RelPath} {x : FileEntry} (hu : f.entry u = some x)
    (hall : ∀ v c, f.entry v = some c → v = u) : f.files.entries = [⟨u, x⟩] := by
  have hnodup : f.files.entries.Nodup := f.files.nodupKeys.nodup
  refine List.perm_singleton.mp ((List.perm_ext_iff_of_nodup hnodup (List.nodup_singleton _)).mpr ?_)
  rintro ⟨v, c⟩
  rw [List.mem_singleton]
  constructor
  · intro hmem
    have hc : f.entry v = some c := AList.mem_lookup_iff.mpr hmem
    obtain rfl := hall v c hc
    rw [hu] at hc
    cases hc
    rfl
  · intro heq
    cases heq
    exact AList.mem_lookup_iff.mp hu

theorem atRoot_empty : AtRoot ⟨∅, ∅⟩ [] where
  entry _ _ h := by cases h
  dirs d hd := absurd hd (Finset.notMem_empty d)

/-- A user of a device with no files writes one. -/
theorem write_first {w : World (Fin 3)} {d : Fin 3} (hempty : (w.device d).folder = ⟨∅, ∅⟩)
    (allowed : World (Fin 3) → Fin 3 → Fin 3 → Ends → Prop) (data : Bytes) {t : ℕ} (ht : w.clock < t)
    (hmax : t ≤ maxTime) : World.Step allowed w (w.update d ⟨topFolder [(sampleName, ⟨data, t⟩)],
      fun v => if v = [sampleName] then t else (w.device d).written v⟩ t) := by
  have hentry : (topFolder [(sampleName, ⟨data, t⟩)]).entry [sampleName] = some ⟨data, t⟩ :=
    (List.dlookup_dedupKeys _ _).trans (List.dlookup_cons_eq _ _ _)
  refine .edit d [sampleName] ht hmax hentry fun v hv => ?_
  rw [hempty]
  show (topFolder [(sampleName, ⟨data, t⟩)]).entry v = none
  by_contra hsome
  obtain ⟨c, hc⟩ := Option.ne_none_iff_exists'.mp hsome
  obtain ⟨y, hy, hvy, -⟩ := (atRoot_topFolder _).entry v c hc
  rw [List.mem_singleton.mp hy] at hvy
  exact hv hvy

/-- `f` is written on one device, later on another. -/
def twoEdits : World (Fin 3) :=
  (World.empty.update 0 ⟨topFolder [(sampleName, ⟨[97], 1⟩)],
    fun v => if v = [sampleName] then 1 else 0⟩ 1).update 1
      ⟨topFolder [(sampleName, ⟨[98], 2⟩)], fun v => if v = [sampleName] then 2 else 0⟩ 2

theorem twoEdits_run (allowed : World (Fin 3) → Fin 3 → Fin 3 → Ends → Prop) :
    Relation.ReflTransGen (World.Step allowed) World.empty twoEdits :=
  .tail (.single (write_first (d := 0) rfl allowed [97] (by decide) (by decide)))
    (write_first (d := 1) rfl allowed [98] (by decide) (by decide))

/-- The first device gives its file to the third. -/
def firstSession : Ends :=
  labelledEnds "laptop" "laptop" (fun _ => 3) (topFolder [(sampleName, ⟨[97], 1⟩)]) ⟨∅, ∅⟩

/-- The third meets the second, whose user wrote the file at `edited`. -/
def secondSession (edited now : ℕ) (f : Folder) : Ends :=
  labelledEnds "laptop" "laptop" (fun _ => now) f (topFolder [(sampleName, ⟨[98], edited⟩)])

theorem firstSession_regular : Regular firstSession :=
  regular_labelledEnds _ _ _ (atRoot_topFolder _) atRoot_empty (by decide +kernel) (by decide +kernel)
    (by decide +kernel) (by decide +kernel)

section

variable {z : Duplex Party Party SyncMessage}
  (hreach : Reach (Party.next firstSession.client) (Party.next firstSession.server) firstSession.start z)
  (hfinal : RandomDescent.Final
    (Step (Party.next firstSession.client) (Party.next firstSession.server)) z)
include hreach hfinal

/-- The third device has the file, with the time of the session. -/
theorem firstSession_received : AtRoot z.right.folder [(sampleName, ⟨[97], 3⟩)] ∧
    z.right.folder.entry [sampleName] = some ⟨[97], 3⟩ := by
  have hentry : ∀ v c, z.right.folder.entry v = some c → v = [sampleName] ∧ c = ⟨[97], 3⟩ := by
    intro v c hc
    cases copied_server firstSession_regular hreach hfinal hc with
    | received n ht hb =>
      obtain ⟨y, hy, hvy, hby⟩ := (atRoot_topFolder _).entry v _ hb
      obtain rfl := List.mem_singleton.mp hy
      rw [hby]
      exact ⟨hvy, rfl⟩
    | kept hv ht hown => cases hown
    | backup n hv ht hown hother hdiffer hname => cases hown
  have hfile : firstSession.files [sampleName] := Or.inl (by decide +kernel)
  obtain ⟨-, -, hcontent, -⟩ := firstSession_regular.converges.2 z hreach hfinal
  obtain ⟨b, -, -, hright⟩ := hcontent [sampleName] hfile
  obtain ⟨c, hc, -⟩ := Folder.content_eq_some.mp hright
  have hc' := hc
  rw [(hentry _ c hc).2] at hc'
  obtain ⟨xs, ys, hs⟩ := exists_sends firstSession_regular.toUndisturbed
  obtain ⟨qc, qs, -, hqs, -, hends⟩ := firstSession_regular.outcome hs
  obtain ⟨-, -, -, hfolder, -, -⟩ := hends z hreach hfinal
  refine ⟨⟨fun v c hc => ?_, fun d hd => ?_⟩, hc'⟩
  · obtain ⟨hv, hcv⟩ := hentry v c hc
    exact ⟨_, List.mem_singleton_self _, hv, hcv⟩
  · rw [hfolder] at hd
    obtain ⟨u, hu, hpre, hne⟩ := hqs.clean.dirs d hd
    have huf : u = [sampleName] := by
      rcases hu with hu | hu
      · obtain ⟨x, hx⟩ := Option.isSome_iff_exists.mp hu
        obtain ⟨y, hy, huy, -⟩ := (atRoot_topFolder _).entry u x hx
        rw [huy, List.mem_singleton.mp hy]
      · cases hu
    rw [huf] at hpre hne
    rcases List.prefix_cons_iff.mp hpre with hnil | ⟨d', rfl, hd'⟩
    · exact ⟨hnil, _, by rw [hc']; rfl⟩
    · rw [List.prefix_nil.mp hd'] at hne
      exact absurd rfl hne

end

theorem secondSession_regular {edited now : ℕ} (htimes : edited = 2 ∧ now = 4 ∨ edited = 4 ∧ now = 5)
    {f : Folder} (hf : AtRoot f [(sampleName, ⟨[97], 3⟩)])
    (hentries : f.files.entries = [⟨[sampleName], ⟨[97], 3⟩⟩]) :
    Regular (secondSession edited now f) := by
  have hindex : (secondSession edited now f).clientIndex =
      (secondSession edited now (topFolder [(sampleName, ⟨[97], 3⟩)])).clientIndex := by
    simp only [secondSession, labelledEnds, Ends.clientIndex, buildProtocolIndex_eq, hentries]
    rfl
  have hserver : (secondSession edited now f).serverIndex = (secondSession edited now ⟨∅, ∅⟩).serverIndex := rfl
  refine regular_labelledEnds _ _ _ hf (atRoot_topFolder _) ?_ ?_ ?_ ?_
  · rcases htimes with ⟨rfl, rfl⟩ | ⟨rfl, rfl⟩ <;> decide +kernel
  · rcases htimes with ⟨rfl, rfl⟩ | ⟨rfl, rfl⟩ <;> decide +kernel
  · show (secondSession edited now f).clientIndex.entries.length ≤ maxIndexEntries ∧
      (secondSession edited now f).serverIndex.entries.length ≤ maxIndexEntries
    rw [hindex, hserver]
    rcases htimes with ⟨rfl, rfl⟩ | ⟨rfl, rfl⟩ <;> decide +kernel
  · show frameTooLarge Bincode.serialize (.index (secondSession edited now f).clientIndex) = false ∧
      frameTooLarge Bincode.serialize (.index (secondSession edited now f).serverIndex) = false
    rw [hindex, hserver]
    rcases htimes with ⟨rfl, rfl⟩ | ⟨rfl, rfl⟩ <;> decide +kernel

/-- `f` is written on one device only. -/
def firstEdit : World (Fin 3) :=
  World.empty.update 0 ⟨topFolder [(sampleName, ⟨[97], 1⟩)], fun v => if v = [sampleName] then 1 else 0⟩ 1

/-- It goes to the third device, and then the second writes it too. -/
def travelled (z : Duplex Party Party SyncMessage) : World (Fin 3) :=
  (firstEdit.after 0 2 firstSession z 3).update 1
    ⟨topFolder [(sampleName, ⟨[98], 4⟩)], fun v => if v = [sampleName] then 4 else 0⟩ 4

end FerriSync
