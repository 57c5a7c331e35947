/-
# Sessions that are cut off

A session can be cut off in any state: an end crashes, the connection breaks. At every file
each end then has the copy it began with, or the one it was to get, or, if it was about to put
that in its place, none (`sofar`). So the next session chooses the same copies, and however
often sessions are cut off, the one that comes to its end leaves what the first would have
left (`interrupted_sessions_agree`).

Key definitions: `Party.taken`, `Took`, `Partly`, `Ends.Resumes`, `Attempts`.
Key theorems: `step_took`, `partly_step`, `chosen_resumed`, `interrupted_sessions_agree`.
-/
import FerriSync.Converge
import FerriSync.Integrity
import FerriSync.Lib.Courses

namespace FerriSync

open Machine

/-! ### What an end has taken -/

def Action.installed : Action → Option (String × Bytes)
  | .install path _ data => some (path, data)
  | _ => none

namespace Party

/-- What is about to be put in its place. -/
def pending (p : Party) : List (String × Bytes) := p.todo.filterMap Action.installed

def taken (p : Party) : List (String × Bytes) := p.committed ++ p.pending

def Broken (p : Party) : Prop := p.todo = [] ∧ ∃ e, p.phase = .ended (.error e)

theorem broken_fail (p : Party) (e : String) : (p.fail e).Broken := ⟨rfl, e, rfl⟩

end Party

/-- What a step does to the files. -/
inductive Took (cfg : Config) (p p' : Party) : Prop
  | failed : p'.Broken → Took cfg p p'
  | nothing : p'.folder = p.folder → p'.committed = p.committed → p'.pending = p.pending →
      (∀ path t data, Action.install path t data ∈ p'.todo → Action.install path t data ∈ p.todo) →
      Took cfg p p'
  | prepared (path : String) (t : Target) (data : Bytes) (conflicted : Bool) :
      p.todo = [] → p'.committed = p.committed → p'.pending = [(path, data)] → safeJoin path = .ok t →
      (∀ path' t' data', Action.install path' t' data' ∈ p'.todo → path' = path ∧ t' = t) →
      prepare cfg.blake3 (cfg.secs p.tick) cfg.label t data p.folder = (.ok conflicted, p'.folder) →
      Took cfg p p'
  | installed (path : String) (t : Target) (data : Bytes) :
      p.todo = .install path t data :: p'.todo → p'.committed = p.committed ++ [(path, data)] →
      install t data (cfg.mtime p.tick) p.folder = (.ok (), p'.folder) → Took cfg p p'

/-- An index that names no place of its own. -/
def Plain (m : SyncMessage) : Prop := ∀ idx, m = .index idx → idx.remotePath = none

section

variable {cfg : Config}

theorem installs_chunks (path : String) (data : Bytes) (rest : List Action) :
    (chunkActions cfg path data ++ rest).filterMap Action.installed = rest.filterMap Action.installed := by
  have hnone : (chunkActions cfg path data).filterMap Action.installed = [] := by
    refine List.filterMap_eq_nil_iff.mpr fun a ha => ?_
    obtain ⟨c, rfl⟩ := mem_chunkActions ha
    rfl
  rw [List.filterMap_append, hnone, List.nil_append]

theorem install_mem_chunks {path path' : String} {data data' : Bytes} {t : Target} {rest : List Action}
    (h : Action.install path' t data' ∈ chunkActions cfg path data ++ rest) :
    Action.install path' t data' ∈ rest := by
  rcases List.mem_append.mp h with hin | hin
  · obtain ⟨c, hc⟩ := mem_chunkActions hin
    cases hc
  · exact hin

theorem took_act {p p' : Party} {a : Action} {rest : List Action} (ht : p.todo = a :: rest)
    (ha : ActEffect cfg { p with todo := rest } a p') : Took cfg p p' := by
  have hrest : ∀ path t data, Action.install path t data ∈ rest → Action.install path t data ∈ p.todo :=
    fun path t data hm => by rw [ht]; exact List.mem_cons_of_mem a hm
  have hpending : Action.installed a = none → p.pending = rest.filterMap Action.installed := fun hnone => by
    unfold Party.pending
    rw [ht, List.filterMap_cons_none hnone]
  cases ha with
  | failed _ e => exact .failed (Party.broken_fail _ e)
  | installFailed hn => exact .failed (Party.broken_fail _ _)
  | install hn => exact .installed _ _ _ ht rfl hn
  | pushFile _ _ | serve _ _ =>
    refine .nothing rfl rfl ?_ fun path t data hm => hrest path t data ?_
    · exact (installs_chunks _ _ _).trans (hpending rfl).symm
    · simpa using install_mem_chunks hm
  | write _ | progress _ | finishDry | unreadable _ _ | uploaded _ _ | filePushed _ | conflict _
  | downloaded _ _ | filePulled _ | unserved _ | served _ _ =>
    exact .nothing rfl rfl (hpending rfl).symm hrest

theorem took_index {p : Party} {m : SyncMessage} (ht : p.todo = []) (hm : Plain m) :
    Took cfg p (onIndex cfg p m) := by
  have hpending : p.pending = [] := by
    unfold Party.pending
    rw [ht]
    rfl
  have hpushes : ∀ es : List IndexEntry, ((es.map fun y : IndexEntry => Action.pushFile y.path) ++
      [Action.write sentinel]).filterMap Action.installed = [] := fun es => by
    rw [List.filterMap_append, List.filterMap_map]
    exact List.append_eq_nil_iff.mpr ⟨List.filterMap_eq_nil_iff.mpr fun _ _ => rfl, rfl⟩
  unfold onIndex
  cases cfg.role with
  | client =>
    cases m with
    | index remote =>
      simp only [clientIndex]
      split_ifs
      · exact .failed (Party.broken_fail _ _)
      · exact .nothing rfl rfl hpending.symm fun path t data hin => by simp at hin
      · exact .nothing rfl rfl ((hpushes _).trans hpending.symm) fun path t data hin => by simp at hin
    | _ => exact .failed (Party.broken_fail _ _)
  | server =>
    cases m with
    | index remote =>
      have hroot : servedRoot cfg p.folder remote.remotePath = .ok p.folder := by
        rw [hm remote rfl]
        rfl
      simp only [serverIndex, hroot]
      split_ifs
      · exact .failed (Party.broken_fail _ _)
      · exact .nothing rfl rfl ((hpushes _).trans hpending.symm) fun path t data hin => by simp at hin
    | _ => exact .failed (Party.broken_fail _ _)

theorem took_chunk {p p' : Party} {c : FileChunk} (ht : p.todo = []) (hc : ChunkEffect cfg p c p') :
    Took cfg p p' := by
  have hpending : p.pending = [] := by
    unfold Party.pending
    rw [ht]
    rfl
  cases hc with
  | metadata _ | more _ => exact .nothing rfl rfl rfl fun _ _ _ hm => hm
  | refused e | unsafePath e | prepareFailed _ _ _ _ _ => exact .failed (Party.broken_fail _ _)
  | mismatch _ _ => exact .nothing rfl rfl hpending.symm fun path t data hin => by simp at hin
  | @prepared inbox data t conflicted g hm hr hh hj hp =>
    have hnone : ((if conflicted then [Action.conflict c.path] else []).filterMap Action.installed) = [] := by
      cases conflicted <;> rfl
    refine .prepared c.path t data conflicted ht rfl ?_ hj (fun path' t' data' hin => ?_) hp
    · show ((if conflicted then [Action.conflict c.path] else []) ++
        commitActions cfg c.path t data).filterMap Action.installed = _
      rw [List.filterMap_append, hnone]
      unfold commitActions
      cases cfg.role <;> rfl
    · have hcommit : Action.install path' t' data' ∈ commitActions cfg c.path t data := by
        rcases List.mem_append.mp hin with hin | hin
        · cases conflicted <;> simp at hin
        · exact hin
      obtain ⟨rfl, rfl, -⟩ := mem_commitActions hcommit
      exact ⟨rfl, rfl⟩

/-- **What a step can do to the files.** -/
theorem step_took {p : Party} {i : Input SyncMessage} (hi : ∀ m, i = .message m → Plain m) :
    Took cfg p (step (Party.next cfg) p i) := by
  have he := step_effect cfg p i
  generalize step (Party.next cfg) p i = p' at he
  have hquiet : ∀ {q : Party}, q.folder = p.folder → q.committed = p.committed → q.todo = p.todo →
      Took cfg p q := fun {q} hf hc ht =>
    .nothing hf hc (by unfold Party.pending; rw [ht]) fun path t data hm => by rwa [ht] at hm
  cases he with
  | idle => exact hquiet rfl rfl rfl
  | act ht ha => exact took_act ht ha
  | noIndex e _ => exact .failed (Party.broken_fail _ e)
  | index m ht _ => exact took_index ht (hi m rfl)
  | complete _ _ _ _ _ | broken _ _ _ _ _ | check _ _ _ | stopped _ _ _ => exact hquiet rfl rfl rfl
  | message ht _ _ hm =>
    cases hm with
    | chunk hc => exact took_chunk ht hc
    | ack _ _ _ | eof _ _ | tooMany _ | ignored _ _ | unused _ _ => exact hquiet rfl rfl rfl
    | request r paths =>
      have hnone : ∀ a ∈ paths.map Action.serve, Action.installed a = none := fun a ha => by
        obtain ⟨path, -, rfl⟩ := List.mem_map.mp ha
        rfl
      refine .nothing rfl rfl ?_ fun path t data hin => ?_
      · unfold Party.pending
        rw [ht]
        exact List.filterMap_eq_nil_iff.mpr hnone
      · simp at hin

/-- An end that has returned an error does nothing more. -/
theorem Party.Broken.stays {p : Party} (h : p.Broken) (i : Input SyncMessage) :
    (step (Party.next cfg) p i).Broken := by
  obtain ⟨ht, e, hph⟩ := h
  have hhalt : step (Party.next cfg) p i = p := by
    unfold Machine.step Party.next
    rw [ht, hph]
    cases i <;> rfl
  rw [hhalt]
  exact ⟨ht, e, hph⟩

/-- What has been taken is not taken back. -/
theorem Took.grows {p p' : Party} (h : Took cfg p p') : p'.Broken ∨ p.taken <+: p'.taken := by
  cases h with
  | failed h => exact Or.inl h
  | nothing _ hc hp _ =>
    refine Or.inr ?_
    unfold Party.taken
    rw [hc, hp]
  | prepared path t data _ ht hc hp _ _ _ =>
    refine Or.inr ⟨[(path, data)], ?_⟩
    unfold Party.taken
    rw [hc, hp, Party.pending, ht, List.filterMap_nil, List.append_nil]
  | installed path t data ht hc _ =>
    refine Or.inr ?_
    have hpending : p.pending = (path, data) :: p'.pending := by
      unfold Party.pending
      rw [ht]
      rfl
    unfold Party.taken
    rw [hc, hpending, List.append_assoc]
    rfl

theorem taken_initial {p q : Party} {ins outs : List SyncMessage} (hins : ∀ m ∈ ins, Plain m)
    (h : Does (Party.next cfg) p ins outs q) : q.Broken ∨ p.taken <+: q.taken := by
  refine h.inv_toward (P := Plain) (I := fun r => r.Broken ∨ p.taken <+: r.taken) (q := q)
    (fun r i hr hi _ => ?_) hins ⟨[], [], nofun, .nothing q⟩ (Or.inr List.prefix_rfl)
  rcases hr with hfailed | hpre
  · exact Or.inl (hfailed.stays i)
  · exact (step_took hi).grows.imp_right hpre.trans

end

/-! ### A session so far -/

/-- An end on its way to take the files `xs`. -/
structure Partly (files moved : RelPath → Prop) (f : Folder) (p : Party) : Prop where
  clean : Clean files moved p.folder
  joined : ∀ path t data, Action.install path t data ∈ p.todo → safeJoin path = .ok t
  untouched : ∀ u, files u → render u ∉ p.taken.map (·.1) → p.folder.entry u = f.entry u
  pending : ∀ u data, files u → (render u, data) ∈ p.pending →
    p.folder.entry u = f.entry u ∨ p.folder.entry u = none
  committed : ∀ u data, files u → (render u, data) ∈ p.committed → p.folder.content u = some data

section

variable {cfg : Config} {files moved : RelPath → Prop} {f : Folder} {xs : List SentFile} {p p' : Party}

/-- The files that an end is to take, by name. -/
structure ToTake (files moved : RelPath → Prop) (xs : List SentFile) : Prop where
  apart : Apart files moved
  moved : ∀ x ∈ xs, moved x.1
  nodup : (xs.map (·.1)).Nodup

def named (xs : List SentFile) : List (String × Bytes) := xs.map fun x => (x.name, x.2)

theorem ToTake.names (h : ToTake files moved xs) : ((named xs).map (·.1)).Nodup := by
  have hnames : (named xs).map (·.1) = (xs.map (·.1)).map render := by
    unfold named
    rw [List.map_map, List.map_map]
    rfl
  rw [hnames]
  refine List.Nodup.map_on (fun u hu v hv heq => ?_) h.nodup
  obtain ⟨x, hx, rfl⟩ := List.mem_map.mp hu
  obtain ⟨y, hy, rfl⟩ := List.mem_map.mp hv
  exact render_injective (h.apart.ne_nil _ (h.apart.sub _ (h.moved x hx)))
    (h.apart.ne_nil _ (h.apart.sub _ (h.moved y hy))) heq

/-- What is named after other things that have been taken. -/
theorem ToTake.fresh (h : ToTake files moved xs) {before after : List (String × Bytes)} {path : String}
    {data : Bytes} (hpre : before ++ (path, data) :: after <+: named xs) :
    ∃ u, moved u ∧ path = render u ∧ render u ∉ before.map (·.1) ∧ render u ∉ after.map (·.1) := by
  have hin : (path, data) ∈ named xs :=
    hpre.subset (List.mem_append.mpr (Or.inr List.mem_cons_self))
  obtain ⟨x, hx, heq⟩ := List.mem_map.mp hin
  cases heq
  have hnodup : ((before ++ (x.name, x.2) :: after).map (·.1)).Nodup :=
    List.Nodup.sublist (hpre.sublist.map _) h.names
  rw [List.map_append, List.map_cons, List.nodup_append, List.nodup_cons] at hnodup
  obtain ⟨-, ⟨hafter, -⟩, hbefore⟩ := hnodup
  exact ⟨x.1, h.moved x hx, rfl, fun hb => hbefore _ hb _ List.mem_cons_self rfl, hafter⟩

theorem partly_prepared (htake : ToTake files moved xs) (h : Partly files moved f p) {path : String} {t : Target}
    {data : Bytes} {conflicted : Bool} (ht : p.todo = []) (hc : p'.committed = p.committed)
    (hp : p'.pending = [(path, data)]) (hjoin : safeJoin path = .ok t)
    (hinstalls : ∀ path' t' data', Action.install path' t' data' ∈ p'.todo → path' = path ∧ t' = t)
    (hprepare : prepare cfg.blake3 (cfg.secs p.tick) cfg.label t data p.folder = (.ok conflicted, p'.folder))
    (hpre : p'.taken <+: named xs) : Partly files moved f p' := by
  have hnone : p.pending = [] := by
    unfold Party.pending
    rw [ht]
    rfl
  have htaken : p'.taken = p.committed ++ [(path, data)] := by
    unfold Party.taken
    rw [hc, hp]
  obtain ⟨u, hu, rfl, hfresh, -⟩ := htake.fresh (htaken ▸ hpre)
  have hfile := htake.apart.sub u hu
  have hne := htake.apart.ne_nil u hfile
  obtain rfl : t = ⟨u, false⟩ := by
    rw [safeJoin_render u hne] at hjoin
    exact (Except.ok.inj hjoin).symm
  obtain ⟨c, g, hprepare', hclean, hothers, -⟩ :=
    prepare_clean cfg.blake3 htake.apart h.clean hu (cfg.secs p.tick) cfg.label data
  rw [hprepare] at hprepare'
  obtain ⟨-, rfl⟩ := Prod.mk.inj hprepare'
  -- the path itself is as it was, or has been cleared for the new file
  have hpath : p'.folder.entry u = p.folder.entry u ∨ p'.folder.entry u = none := by
    rcases prepare_cases cfg.blake3 (cfg.secs p.tick) cfg.label ⟨u, false⟩ data p.folder with
      ⟨r, hr, hfiles, -⟩ | ⟨g, old, hr, -, -, -, -, hent⟩
    · rw [hprepare] at hr
      subst hr
      left
      show p'.folder.files.lookup u = p.folder.files.lookup u
      rw [hfiles]
    · rw [hprepare] at hr
      obtain ⟨-, rfl⟩ := Prod.mk.inj hr
      have hbackup : backupPath cfg.blake3 (cfg.secs p.tick) cfg.label ⟨u, false⟩ data ≠ u :=
        RelPath.backup_ne hne _ _ _
      right
      rw [hent, if_neg hbackup.symm, if_pos rfl]
  have hold : p.folder.entry u = f.entry u := by
    refine h.untouched u hfile ?_
    unfold Party.taken
    rwa [hnone, List.append_nil]
  have hneq : ∀ v data', files v → (render v, data') ∈ p.committed → v ≠ u := fun v data' _ hin heq =>
    hfresh (List.mem_map.mpr ⟨_, hin, by rw [heq]⟩)
  refine ⟨hclean, fun path' t' data' hin => ?_, fun v hv hnot => ?_, fun v data' hv hin => ?_,
    fun v data' hv hin => ?_⟩
  · obtain ⟨rfl, rfl⟩ := hinstalls path' t' data' hin
    exact hjoin
  · rw [htaken, List.map_append, List.mem_append, not_or] at hnot
    have hvu : v ≠ u := fun heq => hnot.2 (by rw [heq]; exact List.mem_singleton.mpr rfl)
    rw [hothers v hv hvu]
    refine h.untouched v hv ?_
    unfold Party.taken
    rw [hnone, List.append_nil]
    exact hnot.1
  · rw [hp, List.mem_singleton] at hin
    obtain rfl := render_injective (htake.apart.ne_nil v hv) hne (congrArg Prod.fst hin)
    rw [← hold]
    exact hpath
  · rw [hc] at hin
    rw [Folder.content, hothers v hv (hneq v data' hv hin)]
    exact h.committed v data' hv hin

theorem partly_installed (htake : ToTake files moved xs) (h : Partly files moved f p) {path : String} {t : Target}
    {data : Bytes} (ht : p.todo = .install path t data :: p'.todo)
    (hc : p'.committed = p.committed ++ [(path, data)])
    (hinstall : install t data (cfg.mtime p.tick) p.folder = (.ok (), p'.folder))
    (hpre : p'.taken <+: named xs) : Partly files moved f p' := by
  have hpending : p.pending = (path, data) :: p'.pending := by
    unfold Party.pending
    rw [ht]
    rfl
  have htaken : p'.taken = p.committed ++ (path, data) :: p'.pending := by
    unfold Party.taken
    rw [hc, List.append_assoc]
    rfl
  have hsame : p.taken = p'.taken := by
    rw [htaken, Party.taken, hpending]
  obtain ⟨u, hu, rfl, hbefore, hafter⟩ := htake.fresh (htaken ▸ hpre)
  have hfile := htake.apart.sub u hu
  have hne := htake.apart.ne_nil u hfile
  have hjoin : safeJoin (render u) = .ok t := h.joined _ t data (by rw [ht]; exact List.mem_cons_self)
  obtain rfl : t = ⟨u, false⟩ := by
    rw [safeJoin_render u hne] at hjoin
    exact (Except.ok.inj hjoin).symm
  obtain ⟨g, hinstall', hclean, hentry, hothers⟩ :=
    install_clean htake.apart h.clean hu data (cfg.mtime p.tick)
  rw [hinstall] at hinstall'
  obtain ⟨-, rfl⟩ := Prod.mk.inj hinstall'
  have hneq : ∀ {v : RelPath} {zs : List (String × Bytes)} {data' : Bytes}, render u ∉ zs.map (·.1) →
      (render v, data') ∈ zs → v ≠ u := fun {v zs data'} hnot hin heq =>
    hnot (List.mem_map.mpr ⟨_, hin, by rw [heq]⟩)
  refine ⟨hclean, fun path' t' data' hin => h.joined path' t' data' ?_, fun v hv hnot => ?_,
    fun v data' hv hin => ?_, fun v data' hv hin => ?_⟩
  · rw [ht]
    exact List.mem_cons_of_mem _ hin
  · have hvu : v ≠ u := fun heq => hnot (by
      rw [htaken, heq]
      exact List.mem_map.mpr ⟨_, List.mem_append.mpr (Or.inr List.mem_cons_self), rfl⟩)
    rw [hothers v hv hvu]
    exact h.untouched v hv (hsame ▸ hnot)
  · rw [hothers v hv (hneq hafter hin)]
    refine h.pending v data' hv ?_
    rw [hpending]
    exact List.mem_cons_of_mem _ hin
  · rw [hc] at hin
    rcases List.mem_append.mp hin with hin | hin
    · rw [Folder.content, hothers v hv (hneq hbefore hin)]
      exact h.committed v data' hv hin
    · rw [List.mem_singleton] at hin
      obtain ⟨hname, rfl⟩ := Prod.mk.inj hin
      obtain rfl := render_injective (htake.apart.ne_nil v hv) hne hname
      exact Folder.content_eq_some.mpr ⟨_, hentry, rfl⟩

/-- **Each step of a session that can still end well** leaves every file as it was, or takes it. -/
theorem partly_step (htake : ToTake files moved xs) (h : Partly files moved f p) (hstep : Took cfg p p')
    (hnot : ¬ p'.Broken) (hpre : p'.taken <+: named xs) : Partly files moved f p' := by
  cases hstep with
  | failed hfailed => exact absurd hfailed hnot
  | nothing hf hc hp hinstalls =>
    have htaken : p'.taken = p.taken := by
      unfold Party.taken
      rw [hc, hp]
    refine ⟨hf ▸ h.clean, fun path t data hin => h.joined path t data (hinstalls path t data hin), ?_, ?_, ?_⟩
    · rw [htaken, hf]
      exact h.untouched
    · rw [hp, hf]
      exact h.pending
    · rw [hc, hf]
      exact h.committed
  | prepared path t data conflicted ht hc hp hjoin hinstalls hprepare =>
    exact partly_prepared htake h ht hc hp hjoin hinstalls hprepare hpre
  | installed path t data ht hc hinstall => exact partly_installed htake h ht hc hinstall hpre

end

/-! ### The course of a session -/

section

variable {e : Ends} {xs ys : List SentFile}

theorem plain_index {idx : Index} (h : idx.remotePath = none) : Plain (.index idx) := fun _ heq => by
  cases heq
  exact h

theorem plain_ack {x : SentFile} : Plain (ackOf x) := fun _ heq => by cases heq

theorem plain_push (folderId : String) (files : List SentFile) :
    ∀ m ∈ pushMessages folderId files, Plain m := by
  intro m hm idx heq
  subst heq
  rcases List.mem_append.mp hm with hm | hm
  · obtain ⟨x, -, hx⟩ := List.mem_flatMap.mp hm
    obtain ⟨c, -, hc⟩ := List.mem_map.mp hx
    cases hc
  · cases List.mem_singleton.mp hm

/-- What each end reads, writes and takes in all, if nothing cuts it off. -/
structure Courses (e : Ends) (xs ys : List SentFile) (a b : List SyncMessage) (qc qs : Party) : Prop where
  sends : Sends e xs ys
  client : Does (Party.next e.client) (start e.client e.clientFolder) b a qc
  server : Does (Party.next e.server) (start e.server e.serverFolder) a b qs
  clientWaits : waits (Party.next e.client) qc
  serverWaits : waits (Party.next e.server) qs
  clientTakes : qc.taken = named ys
  serverTakes : qs.taken = named xs
  plain : ∀ m, m ∈ a ∨ m ∈ b → Plain m

theorem exists_courses (h : Regular e) : ∃ xs ys a b qc qs, Courses e xs ys a b qc qs := by
  obtain ⟨xs, ys, hs⟩ := exists_sends h.toUndisturbed
  obtain ⟨p, hannounce, hready⟩ := client_announces h.toAnnounced
  obtain ⟨qc, acked, hqc, hclient, hacks⟩ := client_course h hs
  obtain ⟨qs, hqs, hserver⟩ := server_course h hs
  have hserverFirst := (server_announces h.toAnnounced).trans (server_pushes h.toUndisturbed hs)
  have htaken : ∀ {q : Party} {zs : List SentFile}, q.todo = [] → q.committed = named zs → q.taken = named zs :=
    fun {q zs} ht hc => by rw [Party.taken, Party.pending, ht, hc, List.filterMap_nil, List.append_nil]
  have hC := hannounce.trans_nil (hready.trans (hclient.trans hacks))
  have hS := hserverFirst.trans hserver
  simp only [List.append_nil, List.nil_append, List.append_assoc] at hC hS
  have hdrain : ∀ (cfg : Config) {q : Party}, q.todo = [] → q.phase = .draining →
      waits (Party.next cfg) q := fun cfg {q} ht hph =>
    Or.inr ⟨{ q with phase := .ended (.ok ()), stamped := true }, by simp only [Party.next, ht, hph]⟩
  refine ⟨xs, ys, _, _, { qc with acked := acked, phase := .draining },
    { qs with gotEof := true, phase := .draining }, hs, hC, hS, hdrain _ hqc.top.todo rfl,
    hdrain _ hqs.top.todo rfl, htaken hqc.top.todo ?_, htaken hqs.top.todo ?_, ?_⟩
  · exact hqc.committed.trans (by rw [(e.client_pushed xs).committed]; rfl)
  · exact hqs.committed.trans (by rw [(e.server_pushed ys).committed]; rfl)
  · intro m hm
    simp only [List.mem_append, List.mem_singleton] at hm
    rcases hm with (rfl | hm | hm) | rfl | hm | hm
    · exact plain_index h.registered
    · exact plain_push _ _ m hm
    · obtain ⟨y, -, rfl⟩ := List.mem_map.mp hm
      exact plain_ack
    · exact plain_index rfl
    · exact plain_push _ _ m hm
    · obtain ⟨x, -, rfl⟩ := List.mem_map.mp hm
      exact plain_ack

end

section

variable {cfg : Config} {files moved : RelPath → Prop} {f : Folder} {zs : List SentFile} {p q t : Party}
  {ins read wrote : List SyncMessage}

theorem not_failed_of_waits (h : waits (Party.next cfg) q) : ¬ q.Broken := by
  rintro ⟨ht, e, hph⟩
  have hhalt : Party.next cfg q = .halt := by
    unfold Party.next
    rw [ht, hph]
  rcases h with ⟨got, failed, hn⟩ | ⟨stop, hn⟩ <;> (rw [hhalt] at hn; cases hn)

/-- An end that stops leaves its files as they are. -/
theorem stopped_same (hstop : Stopped (Party.next cfg) p t) :
    t.folder = p.folder ∧ t.committed = p.committed ∧ t.todo = p.todo := by
  rcases hstop with rfl | hdrain
  · exact ⟨rfl, rfl, rfl⟩
  · unfold Party.next at hdrain
    cases ht : p.todo with
    | cons a rest =>
      rw [ht] at hdrain
      cases a with
      | pushFile path | serve path =>
        simp only [act] at hdrain
        split at hdrain
        · cases hdrain
        · split at hdrain <;> cases hdrain
      | install path u data =>
        simp only [act] at hdrain
        split at hdrain <;> cases hdrain
      | _ => cases hdrain
    | nil =>
      rw [ht] at hdrain
      cases hph : p.phase with
      | draining =>
        rw [hph] at hdrain
        cases hdrain
        exact ⟨rfl, rfl, rfl⟩
      | receiving =>
        rw [hph] at hdrain
        dsimp only at hdrain
        split_ifs at hdrain
        cases hdrain
      | awaitIndex | checking | ended _ => rw [hph] at hdrain; cases hdrain

theorem Partly.of_same (h : Partly files moved f p) (hf : t.folder = p.folder) (hc : t.committed = p.committed)
    (ht : t.todo = p.todo) : Partly files moved f t := by
  have hpending : t.pending = p.pending := by
    unfold Party.pending
    rw [ht]
  have htaken : t.taken = p.taken := by
    unfold Party.taken
    rw [hc, hpending]
  refine ⟨hf ▸ h.clean, ht ▸ h.joined, ?_, ?_, ?_⟩
  · rw [htaken, hf]
    exact h.untouched
  · rw [hpending, hf]
    exact h.pending
  · rw [hc, hf]
    exact h.committed

/-- **An end on its course** has taken some of its files, and no others. -/
theorem partly_on_course (htake : ToTake files moved zs) (hstart : Partly files moved f p)
    (hcourse : OnCourse (Party.next cfg) p q ins read wrote t) (hwaits : waits (Party.next cfg) q)
    (htaken : q.taken = named zs) (hplain : ∀ m ∈ ins, Plain m) :
    Partly files moved f t ∧ t.taken <+: named zs := by
  obtain ⟨u, rest, os, hdo, hstop, rfl, hgoes⟩ := hcourse
  obtain ⟨hread, hrest⟩ := List.forall_mem_append.mp hplain
  obtain ⟨hfolder, hcommitted, htodo⟩ := stopped_same hstop
  have hnot := not_failed_of_waits hwaits
  have hpre : u.taken <+: named zs := htaken ▸ (taken_initial hrest hgoes).resolve_left hnot
  have hsame : t.taken = u.taken := by
    unfold Party.taken Party.pending
    rw [hcommitted, htodo]
  refine ⟨Partly.of_same (hdo.inv_toward (I := Partly files moved f) (P := Plain) (q := q) ?_ hread
    ⟨rest, os, hrest, hgoes⟩ hstart) hfolder hcommitted htodo, hsame ▸ hpre⟩
  rintro r i hr hi ⟨is, os', his, hmore⟩
  -- the step has not failed, and has taken nothing but what is taken in the end
  have hgood : ¬ (step (Party.next cfg) r i).Broken := fun hfailed =>
    hnot (hmore.inv (fun r' i' h' => h'.stays i') hfailed)
  refine partly_step htake hr (step_took hi) hgood ?_
  rw [← htaken]
  exact (taken_initial his hmore).resolve_left hnot

end

/-! ### A session cut off -/

section

variable {e : Ends} {x : Duplex Party Party SyncMessage} {u : RelPath}

theorem partly_start {cfg : Config} {files moved : RelPath → Prop} {f : Folder} (h : Clean files moved f) :
    Partly files moved f (start cfg f) := by
  have hnone : (start cfg f).committed = [] ∧ (start cfg f).pending = [] ∧ (start cfg f).folder = f ∧
      ∀ path t data, Action.install path t data ∉ (start cfg f).todo := by
    unfold start
    cases cfg.role with
    | client => exact ⟨rfl, rfl, rfl, by simp [clientStart]⟩
    | server => exact ⟨rfl, rfl, rfl, by simp [serverStart]⟩
  obtain ⟨hcommitted, hpending, hfolder, hinstalls⟩ := hnone
  refine ⟨hfolder.symm ▸ h, fun path t data hin => absurd hin (hinstalls path t data), fun v _ _ => by rw [hfolder],
    fun v data _ hin => ?_, fun v data _ hin => ?_⟩
  · rw [hpending] at hin
    cases hin
  · rw [hcommitted] at hin
    cases hin

/-- What a file is at an end that has taken some of the files `zs`. -/
theorem Partly.entry {files moved : RelPath → Prop} {f : Folder} {p : Party} {zs : List SentFile}
    (h : Partly files moved f p) (hne : ∀ u, files u → u ≠ []) (hzs : ∀ z ∈ zs, files z.1)
    (hpre : p.taken <+: named zs) (hu : files u) : p.folder.entry u = f.entry u ∨
      ∃ data, (u, data) ∈ zs ∧ (p.folder.entry u = none ∨ p.folder.content u = some data) := by
  by_cases hin : render u ∈ p.taken.map (·.1)
  · obtain ⟨⟨name, data⟩, hmem, rfl⟩ := List.mem_map.mp hin
    obtain ⟨z, hz, heq⟩ := List.mem_map.mp (hpre.subset hmem)
    obtain ⟨hname, rfl⟩ := Prod.mk.inj heq
    obtain rfl : z.1 = u := render_injective (hne _ (hzs z hz)) (hne u hu) hname
    rcases List.mem_append.mp hmem with hmem | hmem
    · exact Or.inr ⟨z.2, hz, Or.inr (h.committed _ _ hu hmem)⟩
    · exact (h.pending _ _ hu hmem).imp_right fun hnone => ⟨z.2, hz, Or.inl hnone⟩
  · exact Or.inl (h.untouched u hu hin)

/-- **In every state of a session** each end has of every file the copy that it began with, or the
one that it was to get, or none while that is put in its place. -/
theorem sofar (h : Regular e) (hx : Reach (Party.next e.client) (Party.next e.server) e.start x)
    (hu : e.files u) :
    (x.left.folder.entry u = e.clientFolder.entry u ∨ e.verdict u = .server ∧
      (x.left.folder.entry u = none ∨ x.left.folder.content u = e.serverFolder.content u)) ∧
    (x.right.folder.entry u = e.serverFolder.entry u ∨ e.verdict u = .client ∧
      (x.right.folder.entry u = none ∨ x.right.folder.content u = e.clientFolder.content u)) := by
  obtain ⟨xs, ys, a, b, qc, qs, hcourses⟩ := exists_courses h
  have hs := hcourses.sends
  obtain ⟨readL, wroteL, readR, wroteR, hleft, hright, -, -, -, -⟩ :=
    Reach.on_course (halt_of_drain e.client) (halt_of_drain e.server) hcourses.client hcourses.server
      hcourses.clientWaits hcourses.serverWaits hx
  have hclient : ToTake e.files e.moved ys := ⟨h.apart, fun y hy => by
    rw [Ends.moved, (hs.server y hy).1]
    simp, hs.nodup_server⟩
  have hserver : ToTake e.files e.moved xs := ⟨h.apart, fun y hy => by
    rw [Ends.moved, (hs.client y hy).1]
    simp, hs.nodup_client⟩
  obtain ⟨hpartL, hpreL⟩ := partly_on_course hclient (partly_start h.clientClean) hleft hcourses.clientWaits
    hcourses.clientTakes fun m hm => hcourses.plain m (Or.inr hm)
  obtain ⟨hpartR, hpreR⟩ := partly_on_course hserver (partly_start h.serverClean) hright hcourses.serverWaits
    hcourses.serverTakes fun m hm => hcourses.plain m (Or.inl hm)
  constructor
  · refine (hpartL.entry h.apart.ne_nil (fun y hy => h.apart.sub _ (hclient.moved y hy)) hpreL hu).imp_right ?_
    rintro ⟨data, hin, hentry⟩
    obtain ⟨hv, hcontent⟩ := hs.server _ hin
    exact ⟨hv, hentry.imp_right fun hdata => hdata.trans hcontent.symm⟩
  · refine (hpartR.entry h.apart.ne_nil (fun y hy => h.apart.sub _ (hserver.moved y hy)) hpreR hu).imp_right ?_
    rintro ⟨data, hin, hentry⟩
    obtain ⟨hv, hcontent⟩ := hs.client _ hin
    exact ⟨hv, hentry.imp_right fun hdata => hdata.trans hcontent.symm⟩

/-! ### The next session -/

/-- Another session after one that was cut off, by the same ends under the same labels: at the
files of the first, their folders are as it left them. -/
structure Ends.Resumes (e : Ends) (x : Duplex Party Party SyncMessage) (e' : Ends) : Prop where
  client : ∀ u, e.files u → e'.clientFolder.entry u = x.left.folder.entry u
  server : ∀ u, e.files u → e'.serverFolder.entry u = x.right.folder.entry u
  clientLabel : e'.client.deviceId = e.client.deviceId
  serverLabel : e'.server.deviceId = e.server.deviceId
  hash : e'.client.blake3 = e.client.blake3

theorem client_of_verdict (hv : e.verdict u = .client) : ∃ c, e.clientFolder.entry u = some c := by
  refine Option.ne_none_iff_exists'.mp fun hnone => ?_
  unfold Ends.verdict at hv
  rw [hnone] at hv
  cases hs : e.serverFolder.entry u <;> (rw [hs] at hv; cases hv)

theorem server_of_verdict (hv : e.verdict u = .server) : ∃ c, e.serverFolder.entry u = some c := by
  refine Option.ne_none_iff_exists'.mp fun hnone => ?_
  unfold Ends.verdict at hv
  rw [hnone] at hv
  cases hc : e.clientFolder.entry u <;> (rw [hc] at hv; cases hv)

/-- A copy is chosen if the other end has none, or one of the same content. -/
theorem chosen_of_client {c : FileEntry} (hc : e.clientFolder.entry u = some c)
    (hother : e.serverFolder.entry u = none ∨ e.serverFolder.content u = some c.data) :
    e.chosen u = some c.data := by
  unfold Ends.chosen Ends.verdict
  rw [hc]
  rcases hother with hnone | hdata
  · rw [hnone]
    exact Folder.content_eq_some.mpr ⟨c, hc, rfl⟩
  · obtain ⟨b, hb, hsame⟩ := Folder.content_eq_some.mp hdata
    rw [hb]
    dsimp only
    rw [if_pos (by rw [hsame])]
    exact hdata

theorem chosen_of_server {c : FileEntry} (hc : e.serverFolder.entry u = some c)
    (hother : e.clientFolder.entry u = none ∨ e.clientFolder.content u = some c.data) :
    e.chosen u = some c.data := by
  have hcontent : e.serverFolder.content u = some c.data := Folder.content_eq_some.mpr ⟨c, hc, rfl⟩
  unfold Ends.chosen Ends.verdict
  rw [hc]
  rcases hother with hnone | hdata
  · rw [hnone]
    exact hcontent
  · obtain ⟨a, ha, hsame⟩ := Folder.content_eq_some.mp hdata
    rw [ha]
    dsimp only
    rw [if_pos (by rw [hsame])]
    exact hcontent

/-- **It chooses the same copies.** -/
theorem chosen_resumed {e' : Ends} (h : Regular e)
    (hx : Reach (Party.next e.client) (Party.next e.server) e.start x) (hr : e.Resumes x e') (hu : e.files u) :
    e'.files u ∧ e'.chosen u = e.chosen u := by
  obtain ⟨hleft, hright⟩ := sofar h hx hu
  rw [← hr.client u hu] at hleft
  rw [← hr.server u hu] at hright
  have hcontentL : x.left.folder.content u = e'.clientFolder.content u := by
    rw [Folder.content, Folder.content, hr.client u hu]
  have hcontentR : x.right.folder.content u = e'.serverFolder.content u := by
    rw [Folder.content, Folder.content, hr.server u hu]
  rw [hcontentL] at hleft
  rw [hcontentR] at hright
  rcases hleft with hleft | ⟨hv, hleft⟩
  · rcases hright with hright | ⟨hv, hright⟩
    · -- neither copy has changed
      have hverdict : e'.verdict u = e.verdict u := by
        unfold Ends.verdict
        rw [hleft, hright, hr.hash, hr.clientLabel, hr.serverLabel]
      refine ⟨?_, ?_⟩
      · unfold Ends.files
        rw [hleft, hright]
        exact hu
      · unfold Ends.chosen
        rw [hverdict, Folder.content, Folder.content, Folder.content, Folder.content, hleft, hright]
    · obtain ⟨c, hc⟩ := client_of_verdict hv
      have hchosen : e.chosen u = some c.data := by
        unfold Ends.chosen
        rw [hv]
        exact Folder.content_eq_some.mpr ⟨c, hc, rfl⟩
      rw [hc] at hleft
      exact ⟨Or.inl (by rw [hleft]; rfl), (chosen_of_client hleft (hright.imp_right fun hdata =>
        hdata.trans (Folder.content_eq_some.mpr ⟨c, hc, rfl⟩))).trans hchosen.symm⟩
  · rcases hright with hright | ⟨hv', -⟩
    · obtain ⟨c, hc⟩ := server_of_verdict hv
      have hchosen : e.chosen u = some c.data := by
        unfold Ends.chosen
        rw [hv]
        exact Folder.content_eq_some.mpr ⟨c, hc, rfl⟩
      rw [hc] at hright
      exact ⟨Or.inr (by rw [hright]; rfl), (chosen_of_server hright (hleft.imp_right fun hdata =>
        hdata.trans (Folder.content_eq_some.mpr ⟨c, hc, rfl⟩))).trans hchosen.symm⟩
    · rw [hv] at hv'
      cases hv'

/-- Sessions that are cut off, one after another. -/
inductive Attempts : Ends → Ends → Prop
  | first (e : Ends) : Attempts e e
  | again {e e' e'' : Ends} {x : Duplex Party Party SyncMessage} : Regular e →
      Reach (Party.next e.client) (Party.next e.server) e.start x → e.Resumes x e' → Attempts e' e'' →
      Attempts e e''

theorem chosen_attempts {e' : Ends} (h : Attempts e e') (hu : e.files u) :
    e'.files u ∧ e'.chosen u = e.chosen u := by
  induction h with
  | first e => exact ⟨hu, rfl⟩
  | again hregular hx hr _ ih =>
    obtain ⟨hfiles, hchosen⟩ := chosen_resumed hregular hx hr hu
    obtain ⟨hfiles', hchosen'⟩ := ih hfiles
    exact ⟨hfiles', hchosen'.trans hchosen⟩

/-- **However often sessions are cut off, and wherever**, the one that comes to its end leaves at
every file what the first would have left. -/
theorem interrupted_sessions_agree {e e' : Ends} (h : Attempts e e') (hregular : Regular e')
    {x : Duplex Party Party SyncMessage}
    (hx : Reach (Party.next e'.client) (Party.next e'.server) e'.start x)
    (hfinal : RandomDescent.Final (Step (Party.next e'.client) (Party.next e'.server)) x) {u : RelPath}
    (hu : e.files u) :
    ∃ b, e.chosen u = some b ∧ x.left.folder.content u = some b ∧ x.right.folder.content u = some b := by
  obtain ⟨hfiles, hchosen⟩ := chosen_attempts h hu
  obtain ⟨b, hb, hleft, hright⟩ := (hregular.converges.2 x hx hfinal).2.2.1 u hfiles
  exact ⟨b, hchosen.symm.trans hb, hleft, hright⟩

end

/-- Two copies of a file, and a session that is cut off once the client has written its index. -/
theorem interrupted_sessions_agree_two :
    ∃ x y, Reach (Party.next (sampleConfig .client)) (Party.next (sampleConfig .server))
        (sampleEnds [(sampleName, [97])] [(sampleName, [98])]).start x ∧
      x.toRight = [.index (sampleEnds [(sampleName, [97])] [(sampleName, [98])]).clientIndex] ∧
      (sampleEnds [(sampleName, [97])] [(sampleName, [98])]).Resumes x
        (sampleEnds [(sampleName, [97])] [(sampleName, [98])]) ∧
      Reach (Party.next (sampleConfig .client)) (Party.next (sampleConfig .server))
        (sampleEnds [(sampleName, [97])] [(sampleName, [98])]).start y ∧
      ∃ b, y.left.folder.content [sampleName] = some b ∧ y.right.folder.content [sampleName] = some b := by
  have hregular := regular_sampleEnds [(sampleName, [97])] [(sampleName, [98])] (by decide +kernel)
    (by decide +kernel) (by decide +kernel) (by decide +kernel)
  have hannounce : Does (Party.next (sampleConfig .client))
      (clientStart (sampleConfig .client) (sampleEnds [(sampleName, [97])] [(sampleName, [98])]).clientFolder) []
      [.index (sampleEnds [(sampleName, [97])] [(sampleName, [98])]).clientIndex]
      { clientStart (sampleConfig .client)
          (sampleEnds [(sampleName, [97])] [(sampleName, [98])]).clientFolder with todo := [] } :=
    .write rfl (.nothing _)
  have hcut : Reach (Party.next (sampleConfig .client)) (Party.next (sampleConfig .server)) _ _ :=
    Reach.left hannounce
      (serverStart (sampleEnds [(sampleName, [97])] [(sampleName, [98])]).serverFolder) [] []
  have hagain : Attempts (sampleEnds [(sampleName, [97])] [(sampleName, [98])])
      (sampleEnds [(sampleName, [97])] [(sampleName, [98])]) :=
    .again hregular hcut ⟨fun _ _ => rfl, fun _ _ => rfl, rfl, rfl, rfl⟩ (.first _)
  obtain ⟨y, hy, hfinal⟩ := hregular.converges.exists_end
  obtain ⟨b, -, hleft, hright⟩ := interrupted_sessions_agree hagain hregular hy hfinal (u := [sampleName])
    (Or.inl rfl)
  exact ⟨_, y, hcut, rfl, ⟨fun _ _ => rfl, fun _ _ => rfl, rfl, rfl, rfl⟩, hy, b, hleft, hright⟩

end FerriSync
