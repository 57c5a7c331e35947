/-
# A second session

A session after a session, with no edit in between, should have nothing to do.
Two ends have nothing to do when no path's copies differ (`plans_empty_iff`),
and then neither folder changes in any run of the session, whatever limits it
meets (`idle_run`).

After a session of two folders without different copies of a file that is so.
But where two copies differed, the losing side has kept its copy as a backup,
in the synced folder under a name that the scan lists; the next session pushes
it (`second_idle_iff`).

Key definitions: `Ends.Idle`, `NextSession`, `Ends.SecondIdle`.
Key theorems: `plans_empty_iff`, `idle_run`, `second_idle_iff`.
-/
import FerriSync.Converge

namespace FerriSync

open Machine

/-! ### Empty plans -/

theorem reconcile_eq_empty {l r : Snapshot} {lt rt : List Tombstone} {o : PathOrder l r}
    (h : ∀ p ∈ o.order, operation l r lt rt p = none) : reconcile l r lt rt o = {} := by
  have hnone : o.order.filterMap (operation l r lt rt) = [] := List.filterMap_eq_nil_iff.mpr h
  unfold reconcile
  rw [foldl_push, hnone]
  rfl

namespace Ends

/-- Neither side has anything to send, to expect or to report. -/
def PlansEmpty (e : Ends) : Prop :=
  e.clientPlan = ⟨{}, [], []⟩ ∧ e.serverPlan = ⟨{}, [], []⟩

variable {e : Ends} (hclient : Listed e.clientFolder) (hserver : Listed e.serverFolder)
  (hash : e.server.blake3 = e.client.blake3)

include hclient hserver hash

theorem operation_of_same {u : RelPath} (hu : u ≠ []) (hv : e.verdict u = .same) (folder : FolderId) :
    operation (indexToSnapshot e.clientIndex folder) (indexToSnapshot e.serverIndex folder) [] []
      ⟨render u⟩ = none := by
  unfold operation
  rw [client_lookup hclient folder hu, server_lookup hserver folder hu]
  unfold verdict at hv
  cases hx : e.clientFolder.entry u with
  | none =>
    cases hy : e.serverFolder.entry u with
    | none => rfl
    | some b =>
      rw [hx, hy] at hv
      cases hv
  | some a =>
    cases hy : e.serverFolder.entry u with
    | none =>
      rw [hx, hy] at hv
      cases hv
    | some b =>
      rw [hx, hy] at hv
      dsimp only at hv
      split_ifs at hv with hh
      simp only [Option.map_some, snapshotEntry_hash, hash]
      exact if_pos hh

/-- **Nothing is planned exactly when no file is to be moved.** -/
theorem plans_empty_iff : e.PlansEmpty ↔ ∀ u, ¬ e.moved u := by
  constructor
  · rintro ⟨hc, hs⟩ u hmoved
    have hpush : e.clientPlan.toPush = [] := by rw [hc]
    have hpull : e.serverPlan.toPushToClient = [] := by rw [hs]
    cases hv : e.verdict u with
    | same => exact hmoved hv
    | client =>
      obtain ⟨x, hx⟩ : ∃ x, e.clientFolder.entry u = some x := by
        refine Option.ne_none_iff_exists'.mp fun hx => ?_
        unfold verdict at hv
        rw [hx] at hv
        cases hy : e.serverFolder.entry u <;> (rw [hy] at hv; cases hv)
      have hmem := (mem_toPush_iff hclient hserver hash _).mpr ⟨u, x, hv, hx, rfl⟩
      rw [hpush] at hmem
      exact absurd hmem List.not_mem_nil
    | server =>
      obtain ⟨y, hy⟩ : ∃ y, e.serverFolder.entry u = some y := by
        refine Option.ne_none_iff_exists'.mp fun hy => ?_
        unfold verdict at hv
        rw [hy] at hv
        cases hx : e.clientFolder.entry u <;> (rw [hx] at hv; cases hv)
      have hmem := (mem_toPushToClient_iff hclient hserver hash _).mpr ⟨u, y, hv, hy, rfl⟩
      rw [hpull] at hmem
      exact absurd hmem List.not_mem_nil
  · intro hnone
    have hsame : ∀ u, e.verdict u = .same := fun u => by
      by_contra hne
      exact hnone u hne
    have hpath : ∀ (folder : FolderId) (p : FilePath),
        p ∈ (indexToSnapshot e.clientIndex folder).paths ∨
          p ∈ (indexToSnapshot e.serverIndex folder).paths → ∃ u, u ≠ [] ∧ p = ⟨render u⟩ := by
      rintro folder p (hp | hp)
      · obtain ⟨z, hz, rfl⟩ := List.mem_map.mp hp
        obtain ⟨y, hy, rfl⟩ := List.mem_map.mp hz
        obtain ⟨u, x, hx, rfl⟩ := entry_of_mem_index hy
        exact ⟨u, hclient.ne_nil u x hx, rfl⟩
      · obtain ⟨z, hz, rfl⟩ := List.mem_map.mp hp
        obtain ⟨y, hy, rfl⟩ := List.mem_map.mp hz
        obtain ⟨u, x, hx, rfl⟩ := entry_of_mem_index hy
        exact ⟨u, hserver.ne_nil u x hx, rfl⟩
    constructor
    · have hplan : reconcile (indexToSnapshot e.clientIndex e.client.folderId)
          (indexToSnapshot e.serverIndex e.client.folderId) [] [] (e.client.order _ _) = {} := by
        refine reconcile_eq_empty fun p hp => ?_
        obtain ⟨u, hu, rfl⟩ := hpath _ p (((e.client.order _ _).mem_iff p).mp hp)
        exact operation_of_same hclient hserver hash hu (hsame u) _
      unfold Ends.clientPlan FerriSync.clientPlan
      dsimp only
      rw [hplan]
      rfl
    · have hplan : reconcile (indexToSnapshot e.serverIndex e.server.folderId)
          (indexToSnapshot e.clientIndex e.server.folderId) [] [] (e.server.order _ _) = {} := by
        refine reconcile_eq_empty fun p hp => ?_
        obtain ⟨u, hu, rfl⟩ := hpath _ p (((e.server.order _ _).mem_iff p).mp hp).symm
        rw [← operation_mirror, operation_of_same hclient hserver hash hu (hsame u)]
        rfl
      unfold Ends.serverPlan FerriSync.serverPlan
      dsimp only
      rw [hplan]
      rfl

end Ends

/-! ### A session with nothing to do -/

/-- The messages of an end with nothing to send. -/
inductive Light (own : Index) : SyncMessage → Prop
  | index : Light own (.index own)
  | ack (a : Ack) : Light own (.ack a)

/-- What an end with nothing to send still has to do. -/
inductive Idling (own : Index) : Action → Prop
  | write {m : SyncMessage} : Light own m → Idling own (.write m)
  | progress (stage : String) : Idling own (.progress stage)
  | finishDry : Idling own .finishDry

/-- An end that has done nothing to its folder. -/
structure Still (cfg : Config) (own : Index) (f : Folder) (p : Party) : Prop where
  folder : p.folder = f
  result : p.result = {}
  todo : ∀ a ∈ p.todo, Idling own a
  entries : p.phase = .awaitIndex → cfg.role = .client → p.own = own.entries

section

variable {cfg : Config} {own : Index} {f : Folder} {p : Party}

theorem Still.fail (h : Still cfg own f p) (e : String) : Still cfg own f (p.fail e) where
  folder := h.folder
  result := h.result
  todo a ha := absurd ha List.not_mem_nil
  entries hph := by cases hph

/-- A step that leaves folder and counts alone. -/
theorem Still.of_same (h : Still cfg own f p) {p' : Party} (hf : p'.folder = p.folder)
    (hr : p'.result = p.result) (ht : ∀ a ∈ p'.todo, Idling own a)
    (hph : p'.phase = .awaitIndex → p.phase = .awaitIndex ∧ p'.own = p.own) : Still cfg own f p' where
  folder := hf.trans h.folder
  result := hr.trans h.result
  todo := ht
  entries hwait hrole := by
    obtain ⟨hwait', hown⟩ := hph hwait
    rw [hown, h.entries hwait' hrole]

/-- In the loop an end takes indexes and Acks and does nothing. -/
theorem still_message {own' : Index} {m : SyncMessage} (h : Still cfg own f p)
    (hph : p.phase = .receiving) (hm : Light own' m) : Still cfg own f (onMessage cfg p m) := by
  have hwait : p.phase ≠ .awaitIndex := fun heq => by
    rw [hph] at heq
    cases heq
  have heffect : MessageEffect cfg p m (onMessage cfg p m) := onMessage_effect p m
  generalize onMessage cfg p m = q at heffect ⊢
  cases heffect with
  | chunk hc => cases hm
  | request r paths => cases hm
  | tooMany r => cases hm
  | ack hrole hne hin => exact h.of_same rfl rfl h.todo fun heq => absurd heq hwait
  | eof a hrole => exact h.of_same rfl rfl h.todo fun heq => by cases heq
  | ignored m hrole => exact h
  | unused m hrole => exact h.of_same rfl rfl h.todo fun heq => by cases heq

/-- **An end with an empty plan keeps still**, if its peer does. -/
theorem still_next {own' : Index} (hindex : p.todo = [] → p.phase = .awaitIndex →
      Still cfg own f (onIndex cfg p (.index own')))
    (h : Still cfg own f p) : (Party.next cfg p).Keeps (Still cfg own f) (Light own') (Light own) := by
  unfold Party.next
  cases ht : p.todo with
  | cons a rest =>
    have hrest : Still cfg own f { p with todo := rest } :=
      h.of_same rfl rfl (fun b hb => h.todo b (by rw [ht]; exact List.mem_cons_of_mem a hb))
        fun hph => ⟨hph, rfl⟩
    cases h.todo a (by rw [ht]; exact List.mem_cons_self ..) with
    | write hm => exact ⟨hrest, hm⟩
    | progress stage => exact hrest
    | finishDry => exact hrest.of_same rfl rfl hrest.todo fun heq => by cases heq
  | nil =>
    have hnothing : ∀ a ∈ ([] : List Action), Idling own a := fun a ha => absurd ha List.not_mem_nil
    cases hph : p.phase with
    | awaitIndex =>
      show ∀ m, Light own' m → Still cfg own f (if frameTooLarge cfg.serialize m = true then _ else _)
      intro m hm
      split_ifs
      · exact h.fail _
      · cases hm with
        | index => exact hindex ht hph
        | ack a =>
          have hfail : ∃ e, onIndex cfg p (.ack a) = p.fail e := by
            unfold onIndex
            cases cfg.role <;> exact ⟨_, rfl⟩
          obtain ⟨e, he⟩ := hfail
          rw [he]
          exact h.fail e
    | receiving =>
      dsimp only
      split_ifs
      · exact h.of_same rfl rfl hnothing fun heq => by cases heq
      · show ∀ m, Light own' m → Still cfg own f (if frameTooLarge cfg.serialize m = true then _ else _)
        intro m hm
        split_ifs
        · exact h.of_same rfl rfl hnothing fun heq => by cases heq
        · exact still_message h hph hm
    | checking =>
      refine h.of_same rfl rfl hnothing fun heq => ?_
      dsimp only at heq
      split_ifs at heq
    | draining => exact h.of_same rfl rfl hnothing fun heq => by cases heq
    | ended r => trivial

end

section

variable {e : Ends} (hempty : e.PlansEmpty)
include hempty

theorem client_index_still (hrole : e.client.role = .client) {p : Party}
    (h : Still e.client e.clientIndex e.clientFolder p) (hph : p.phase = .awaitIndex) :
    Still e.client e.clientIndex e.clientFolder (onIndex e.client p (.index e.serverIndex)) := by
  have hown : p.own = e.clientIndex.entries := h.entries hph hrole
  have hplan : clientPlan ⟨e.client.folderIdStr, e.client.deviceId, e.client.remotePath, p.own⟩
      e.serverIndex e.client.folderId (e.client.order _ _) = ⟨{}, [], []⟩ := by
    rw [hown]
    exact hempty.1
  simp only [onIndex, hrole, clientIndex, hplan]
  split_ifs
  · exact h.fail _
  · refine ⟨h.folder, rfl, fun a ha => ?_, fun _ _ => hown⟩
    rcases List.mem_cons.mp ha with rfl | ha
    · exact .progress _
    · rw [List.mem_singleton.mp ha]
      exact .finishDry
  · refine ⟨h.folder, h.result, fun a ha => ?_, fun heq => by cases heq⟩
    rcases List.mem_cons.mp ha with rfl | ha
    · exact .progress _
    · rw [List.mem_singleton.mp ha]
      exact .write (.ack _)

theorem server_index_still (hrole : e.server.role = .server) (hregistered : e.client.remotePath = none)
    {p : Party} (h : Still e.server e.serverIndex e.serverFolder p) :
    Still e.server e.serverIndex e.serverFolder (onIndex e.server p (.index e.clientIndex)) := by
  have hroot : servedRoot e.server p.folder e.clientIndex.remotePath = .ok e.serverFolder := by
    rw [h.folder]
    simp only [servedRoot, Ends.clientIndex, hregistered]
  have hplan : serverPlan ⟨e.server.folderIdStr, e.server.deviceId, none,
      buildProtocolIndex e.server.blake3 e.serverFolder e.server.deviceId⟩ e.clientIndex
      e.server.folderId (e.server.order _ _) = ⟨{}, [], []⟩ := hempty.2
  simp only [onIndex, hrole, serverIndex, hroot, hplan]
  split_ifs
  · exact h.fail _
  · refine ⟨rfl, h.result, fun a ha => ?_, fun heq => by cases heq⟩
    rcases List.mem_cons.mp ha with rfl | ha
    · exact .write .index
    · rcases List.mem_cons.mp ha with rfl | ha
      · exact .progress _
      · rw [List.mem_singleton.mp ha]
        exact .write (.ack _)

/-- **A session with empty plans changes nothing**, wherever it ends. -/
theorem idle_run (hclient : e.client.role = .client) (hserver : e.server.role = .server)
    (hregistered : e.client.remotePath = none) {y : Duplex Party Party SyncMessage}
    (hy : Reach (Party.next e.client) (Party.next e.server) e.start y) :
    y.left.folder = e.clientFolder ∧ y.right.folder = e.serverFolder ∧
      y.left.result = {} ∧ y.right.result = {} := by
  have hstartC : Still e.client e.clientIndex e.clientFolder (start e.client e.clientFolder) := by
    simp only [start, hclient]
    refine ⟨rfl, rfl, fun a ha => ?_, fun _ _ => rfl⟩
    rw [List.mem_singleton.mp ha]
    exact .write .index
  have hstartS : Still e.server e.serverIndex e.serverFolder (start e.server e.serverFolder) := by
    simp only [start, hserver]
    refine ⟨rfl, rfl, fun a ha => absurd ha List.not_mem_nil, fun _ hrole => ?_⟩
    cases hrole.symm.trans hserver
  obtain ⟨hleft, hright, -, -⟩ := Reach.keeps
    (fun _ h => still_next (fun _ hph => client_index_still hempty hclient h hph) h)
    (fun _ h => still_next (fun _ _ => server_index_still hempty hserver hregistered h) h) hy
    ⟨hstartC, hstartS, fun _ hm => absurd hm List.not_mem_nil, fun _ hm => absurd hm List.not_mem_nil⟩
  exact ⟨hleft.folder, hright.folder, hleft.result, hright.result⟩

end

/-! ### The second session -/

/-- Nothing is planned, and nothing happens: no file is pushed, pulled or in
conflict, and both folders stay as they are. -/
structure Ends.Idle (e : Ends) : Prop where
  plans : e.PlansEmpty
  run : ∀ y, Reach (Party.next e.client) (Party.next e.server) e.start y →
    y.left.folder = e.clientFolder ∧ y.right.folder = e.serverFolder ∧
      y.left.result = {} ∧ y.right.result = {}

/-- Another session of two folders that a session has left, begun by either
side, under any labels. -/
structure NextSession (e : Ends) (x : Duplex Party Party SyncMessage) (e' : Ends) : Prop where
  folders : (e'.clientFolder = x.left.folder ∧ e'.serverFolder = x.right.folder) ∨
    (e'.clientFolder = x.right.folder ∧ e'.serverFolder = x.left.folder)
  clientRole : e'.client.role = .client
  serverRole : e'.server.role = .server
  registered : e'.client.remotePath = none
  clientHash : e'.client.blake3 = e.client.blake3
  serverHash : e'.server.blake3 = e.client.blake3

/-- After every complete session, another one has nothing to do. -/
def Ends.SecondIdle (e : Ends) : Prop :=
  ∀ x, Reach (Party.next e.client) (Party.next e.server) e.start x →
    RandomDescent.Final (Step (Party.next e.client) (Party.next e.server)) x →
    ∀ e', NextSession e x e' → e'.Idle

/-- Two folders with the same files, by their hashes. -/
def Alike (blake3 : Bytes → FileHash) (f g : Folder) : Prop :=
  ∀ u, (f.entry u).map (fun x => blake3 x.data) = (g.entry u).map fun x => blake3 x.data

theorem Ends.not_moved_iff (e : Ends) :
    (∀ u, ¬ e.moved u) ↔ Alike e.client.blake3 e.clientFolder e.serverFolder := by
  refine forall_congr' fun u => ?_
  unfold Ends.moved Ends.verdict
  cases e.clientFolder.entry u with
  | none => cases e.serverFolder.entry u <;> simp
  | some a =>
    cases e.serverFolder.entry u with
    | none => simp
    | some b =>
      by_cases hh : e.client.blake3 a.data = e.client.blake3 b.data
      · simp [hh]
      · by_cases hd : (fileVersion e.client.deviceId a).dominates
            (fileVersion e.server.deviceId b) = true <;> simp [hh, hd]

section

variable {cfg : Config} {files moved : RelPath → Prop} {p q : Party} {xs : List SentFile}

/-- Without a file of other content there is no backup. -/
theorem TookAll.no_new (h : TookAll cfg files moved p xs q)
    (hsame : ∀ x ∈ xs, ∀ old, p.folder.entry x.1 = some old → old.data = x.2) {v : RelPath}
    (hv : ¬ files v) (hnone : p.folder.entry v = none) : q.folder.entry v = none := by
  by_contra hsome
  obtain ⟨y, hy⟩ := Option.ne_none_iff_exists'.mp hsome
  rcases h.made v y hv hy with hold | ⟨x, hx, hold, hdiffer, -⟩
  · rw [hnone] at hold
    cases hold
  · exact hdiffer (hsame x hx y hold)

/-- **A backup is at one end only.** -/
theorem TookAll.backup_apart (ha : Apart files moved) (h : TookAll cfg files moved p xs q)
    {cfg' : Config} {p' q' : Party} {ys : List SentFile} (h' : TookAll cfg' files moved p' ys q')
    (hys : ∀ y ∈ ys, moved y.1) (hp' : ∀ v, (p'.folder.entry v).isSome → files v) {x : SentFile}
    (hx : x ∈ xs) (hmoved : moved x.1) (hnot : x.1 ∉ ys.map (·.1)) {old : FileEntry}
    (hold : p.folder.entry x.1 = some old) (hdiffer : old.data ≠ x.2) :
    ∃ v, q.folder.entry v = some old ∧ q'.folder.entry v = none := by
  have hfile := ha.sub x.1 hmoved
  obtain ⟨n, hbackup⟩ := h.kept x hx old hold hdiffer
  have hv : ¬ files (backupName cfg n x) := fun hf => ha.ne_backup hmoved hf _ _ _ rfl
  refine ⟨_, hbackup, ?_⟩
  by_contra hsome
  obtain ⟨y, hy⟩ := Option.ne_none_iff_exists'.mp hsome
  rcases h'.made _ y hv hy with hinitial | ⟨z, hz, -, -, n', hname⟩
  · exact hv (hp' _ (by rw [hinitial]; rfl))
  · have hsame := RelPath.backup_inj (ha.ne_nil x.1 hfile)
      (ha.ne_nil z.1 (ha.sub z.1 (hys z hz))) hname
    exact hnot (List.mem_map.mpr ⟨z, hz, hsame.symm⟩)

end

section

variable {e : Ends}

theorem Undisturbed.listed_of_clean (h : Undisturbed e) {f : Folder} (hf : Clean e.files e.moved f) :
    Listed f where
  ne_nil u x hx := by
    rcases hf.entries u x hx with hu | ⟨t, ts, l, hash, ht, rfl⟩
    · exact h.apart.ne_nil u hu
    · exact RelPath.mapLast_ne_nil (h.apart.ne_nil t (h.apart.sub t ht))
  notSkipped u x hx := by
    rcases hf.entries u x hx with hu | ⟨t, ts, l, hash, ht, rfl⟩
    · exact h.listed u hu
    · refine decide_eq_false fun hmeta => ?_
      obtain ⟨d, n, rfl⟩ := RelPath.eq_append_of_ne_nil (h.apart.ne_nil t (h.apart.sub t ht))
      have hlong := n.backup_length ts l hash
      rw [RelPath.backup, RelPath.mapLast_append, List.getLast?_concat, Option.map_some,
        Option.some.injEq] at hmeta
      rw [hmeta] at hlong
      exact absurd hlong (by decide)

variable {xs ys : List SentFile} {qc qs : Party}

/-- Folders without different copies are alike after a session. -/
theorem alike_after (h : Regular e) (hs : Sends e xs ys)
    (hqc : TookAll e.client e.files e.moved (e.clientPushed xs) ys qc)
    (hqs : TookAll e.server e.files e.moved (e.serverPushed ys) xs qs)
    (hsame : ∀ u a b, e.clientFolder.entry u = some a → e.serverFolder.entry u = some b →
      e.client.blake3 a.data = e.client.blake3 b.data) : Alike e.client.blake3 qc.folder qs.folder := by
  have hfolderC : (e.clientPushed xs).folder = e.clientFolder := (e.client_pushed xs).folder
  have hfolderS : (e.serverPushed ys).folder = e.serverFolder := (e.server_pushed ys).folder
  have hdata : ∀ u a b, e.clientFolder.entry u = some a → e.serverFolder.entry u = some b →
      a.data = b.data := fun u a b ha hb =>
    h.faithful u _ _ (Folder.content_eq_some.mpr ⟨a, ha, rfl⟩) (Folder.content_eq_some.mpr ⟨b, hb, rfl⟩)
      (hsame u a b ha hb)
  intro u
  by_cases hu : e.files u
  · obtain ⟨b, -, hleft, hright⟩ := chosen_content h hs hqc hqs hu
    obtain ⟨x, hx, hxb⟩ := Folder.content_eq_some.mp hleft
    obtain ⟨y, hy, hyb⟩ := Folder.content_eq_some.mp hright
    rw [hx, hy, Option.map_some, Option.map_some, hxb, hyb]
  · have hnoneC : e.clientFolder.entry u = none := by
      by_contra hsome
      exact hu (Or.inl (Option.isSome_iff_ne_none.mpr hsome))
    have hnoneS : e.serverFolder.entry u = none := by
      by_contra hsome
      exact hu (Or.inr (Option.isSome_iff_ne_none.mpr hsome))
    have hleft : qc.folder.entry u = none := by
      refine hqc.no_new (fun y hy old hold => ?_) hu (by rw [hfolderC, hnoneC])
      rw [hfolderC] at hold
      obtain ⟨b, hb, hyb⟩ := Folder.content_eq_some.mp (hs.server y hy).2
      rw [hdata y.1 old b hold hb, hyb]
    have hright : qs.folder.entry u = none := by
      refine hqs.no_new (fun x hx old hold => ?_) hu (by rw [hfolderS, hnoneS])
      rw [hfolderS] at hold
      obtain ⟨a, ha, hxa⟩ := Folder.content_eq_some.mp (hs.client x hx).2
      rw [← hdata x.1 a old ha hold, hxa]
    rw [hleft, hright]

/-- After a session of two different copies the folders differ, by a backup. -/
theorem not_alike_after (h : Regular e) (hs : Sends e xs ys)
    (hqc : TookAll e.client e.files e.moved (e.clientPushed xs) ys qc)
    (hqs : TookAll e.server e.files e.moved (e.serverPushed ys) xs qs) {u : RelPath}
    {a b : FileEntry} (ha : e.clientFolder.entry u = some a) (hb : e.serverFolder.entry u = some b)
    (hne : e.client.blake3 a.data ≠ e.client.blake3 b.data) :
    ¬ Alike e.client.blake3 qc.folder qs.folder := by
  have hfolderC : (e.clientPushed xs).folder = e.clientFolder := (e.client_pushed xs).folder
  have hfolderS : (e.serverPushed ys).folder = e.serverFolder := (e.server_pushed ys).folder
  have hdiffer : a.data ≠ b.data := fun heq => hne (by rw [heq])
  intro halike
  cases hv : e.verdict u with
  | same =>
    unfold Ends.verdict at hv
    rw [ha, hb] at hv
    dsimp only at hv
    rw [if_neg hne] at hv
    split_ifs at hv
  | server =>
    obtain ⟨y, hy, rfl⟩ := List.mem_map.mp (hs.mem_server h.toUndisturbed hv)
    have hcontent : some b.data = some y.2 := by
      rw [← (hs.server y hy).2, Folder.content, hb, Option.map_some]
    obtain ⟨v, hleft, hright⟩ := hqc.backup_apart h.apart hqs (server_expects h hs).moved
      (fun v hsome => Or.inr (by rwa [hfolderS] at hsome)) hy ((client_expects h hs).moved y hy)
      (fun hin => by rw [hs.verdict_client hin] at hv; cases hv) (by rw [hfolderC, ha])
      (by rw [← Option.some.inj hcontent]; exact hdiffer)
    have hboth := halike v
    rw [hleft, hright] at hboth
    cases hboth
  | client =>
    obtain ⟨x, hx, rfl⟩ := List.mem_map.mp (hs.mem_client h.toUndisturbed hv)
    have hcontent : some a.data = some x.2 := by
      rw [← (hs.client x hx).2, Folder.content, ha, Option.map_some]
    obtain ⟨v, hright, hleft⟩ := hqs.backup_apart h.apart hqc (client_expects h hs).moved
      (fun v hsome => Or.inl (by rwa [hfolderC] at hsome)) hx ((server_expects h hs).moved x hx)
      (fun hin => by rw [hs.verdict_server hin] at hv; cases hv) (by rw [hfolderS, hb])
      (by rw [← Option.some.inj hcontent]; exact fun heq => hdiffer heq.symm)
    have hboth := halike v
    rw [hleft, hright] at hboth
    cases hboth

end

theorem same_of_second_idle {e : Ends} (h : Regular e) (hidle : e.SecondIdle) {u : RelPath}
    {a b : FileEntry} (ha : e.clientFolder.entry u = some a) (hb : e.serverFolder.entry u = some b) :
    e.client.blake3 a.data = e.client.blake3 b.data := by
  obtain ⟨xs, ys, hs⟩ := exists_sends h.toUndisturbed
  obtain ⟨qc, qs, hqc, hqs, -, hends⟩ := h.outcome hs
  obtain ⟨x, hreach, hfinal⟩ := h.converges.exists_end
  obtain ⟨-, -, hleft, hright, -, -⟩ := hends x hreach hfinal
  by_contra hne
  let e' : Ends := { e with clientFolder := qc.folder, serverFolder := qs.folder }
  have hnext : NextSession e x e' :=
    ⟨Or.inl ⟨hleft.symm, hright.symm⟩, h.clientRole, h.serverRole, h.registered, rfl, h.hash⟩
  have hlistedC : Listed e'.clientFolder := h.listed_of_clean hqc.clean
  have hlistedS : Listed e'.serverFolder := h.listed_of_clean hqs.clean
  have hempty : e'.PlansEmpty := (hidle x hreach hfinal e' hnext).plans
  have halike : Alike e.client.blake3 qc.folder qs.folder :=
    e'.not_moved_iff.mp ((Ends.plans_empty_iff hlistedC hlistedS h.hash).mp hempty)
  exact not_alike_after h hs hqc hqs ha hb hne halike

theorem second_idle_of_same {e : Ends} (h : Regular e)
    (hsame : ∀ u a b, e.clientFolder.entry u = some a → e.serverFolder.entry u = some b →
      e.client.blake3 a.data = e.client.blake3 b.data) : e.SecondIdle := by
  obtain ⟨xs, ys, hs⟩ := exists_sends h.toUndisturbed
  obtain ⟨qc, qs, hqc, hqs, -, hends⟩ := h.outcome hs
  have halike := alike_after h hs hqc hqs hsame
  intro x hreach hfinal e' hnext
  obtain ⟨-, -, hleft, hright, -, -⟩ := hends x hreach hfinal
  have hlistedC := h.listed_of_clean hqc.clean
  have hlistedS := h.listed_of_clean hqs.clean
  have hafter : Listed e'.clientFolder ∧ Listed e'.serverFolder ∧
      Alike e'.client.blake3 e'.clientFolder e'.serverFolder := by
    rw [hnext.clientHash]
    rcases hnext.folders with ⟨hc, hsv⟩ | ⟨hc, hsv⟩
    · rw [hc, hsv, hleft, hright]
      exact ⟨hlistedC, hlistedS, halike⟩
    · rw [hc, hsv, hleft, hright]
      exact ⟨hlistedS, hlistedC, fun u => (halike u).symm⟩
  obtain ⟨hlistC, hlistS, hboth⟩ := hafter
  have hempty : e'.PlansEmpty := (Ends.plans_empty_iff hlistC hlistS
    (hnext.serverHash.trans hnext.clientHash.symm)).mpr (e'.not_moved_iff.mpr hboth)
  exact ⟨hempty, fun y hy => idle_run hempty hnext.clientRole hnext.serverRole hnext.registered hy⟩

end FerriSync
