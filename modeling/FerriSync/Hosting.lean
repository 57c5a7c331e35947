/-
# Serving every folder

The app (`init_engine` in `api/mod.rs`), the shell (`auto_serve_existing` and
`start_all_servers` in `repl/state.rs`) and the command line (`serve_all_configured` in
`serve.rs`) go through the enabled pairs and serve a folder when it comes up for the first
time. All of them serve the same folders, each path once, as the folder that its sessions
are recorded under (`hosts_each_path_once`).

The port goes up by one for each folder on the command line, and in the others for each
pair. So a folder is where another program would have it exactly if no folder before it
has a second pair (`same_ports_iff`).

Key definitions: `hostings`, `initEngineHostings`, `serveAllHostings`, `registerFolder`.
Key theorems: `hostings_rows`, `hosts_each_path_once`, `same_ports_iff`.
-/
import FerriSync.Adoption
import FerriSync.Background
import FerriSync.Bulk
import FerriSync.Lib.Keyed

namespace FerriSync

open Keyed Transactions

/-- A folder that is to be served, and the port that is asked for. -/
structure Hosting where
  folderId : ℕ
  localPath : String
  port : ℕ
deriving DecidableEq, Repr

/-- `u16::try_from(9847 + i).unwrap_or(9847)`, for the i-th pair. -/
def rowPort (i : ℕ) : ℕ := if defaultPort + i < 2 ^ 16 then defaultPort + i else defaultPort

/-- `start_port.saturating_add(i as u16)`, for the i-th folder. -/
def folderPort (startPort i : ℕ) : ℕ := min (startPort + i % 2 ^ 16) (2 ^ 16 - 1)

/-- The folders in the order in which they come up, with a port made from the numbers of the
pair and of the folder. -/
def hostings (port : ℕ → ℕ → ℕ) : List SyncPair → ℕ → List (ℕ × String) → List Hosting
  | [], _, _ => []
  | row :: rows, i, seen =>
    if seen.any fun x => decide (x.1 = row.id) || decide (x.2 = row.localPath) then
      hostings port rows (i + 1) seen
    else ⟨row.id, row.localPath, port i seen.length⟩ ::
      hostings port rows (i + 1) (seen ++ [(row.id, row.localPath)])

namespace Database

def initEngineHostings (db : Database) : List Hosting :=
  hostings (fun i _ => rowPort i) db.listSyncFolders 0 []

def serveAllHostings (startPort : ℕ) (db : Database) : List Hosting :=
  hostings (fun _ n => folderPort startPort n) db.listSyncFolders 0 []

/-- Reuse an existing row for this path, or create one owned by this device. -/
def registerFolder (blake3 : Bytes → FileHash) (processId : ℕ) (deviceInfo : DeviceInfo) (folder : String) :
    Sql ℕ := do
  match ← query fun db => db.listSyncFolders.find? fun row => decide (row.localPath = folder) with
  | some row => return row.id
  | none =>
    upsertDevice deviceInfo.id deviceInfo.name none none
    addSyncFolder blake3 processId folder deviceInfo.id "bidirectional"

end Database

namespace ReplState

/-- Serve every folder already configured; a folder whose port is taken is skipped. -/
def autoServeExisting (s : ReplState) (bindings : ℕ → Binding) : ReplState :=
  s.host.db.val.initEngineHostings.foldl (fun s h => s.startServer h.localPath h.port (bindings h.port)) s

/-- Serve every configured folder. -/
def startAllServers (s : ReplState) (port : ℕ) (bindings : ℕ → Binding) : Except String ReplState :=
  if port ≠ defaultPort then .error "--port only applies when serving a single folder"
  else if s.host.db.val.initEngineHostings = [] then
    .error ("no folders are configured to serve — use `serve <folder>` or `add <folder>` first")
  else .ok (s.autoServeExisting bindings)

end ReplState

/-! ### The folders -/

/-- Rows of one folder have one path. -/
def Consistent (rows : List SyncPair) : Prop :=
  ∀ row ∈ rows, ∀ row' ∈ rows, row.id = row'.id → row.localPath = row'.localPath

def SyncPair.idPath (row : SyncPair) : ℕ × String := (row.id, row.localPath)

section

variable {rows out : List SyncPair} {row : SyncPair} {port port' : ℕ → ℕ → ℕ} {i : ℕ}

/-- One folder's rows are told by the path. -/
theorem seen_iff (h : Consistent (out ++ row :: rows)) :
    ((out.map SyncPair.idPath).any fun x => decide (x.1 = row.id) || decide (x.2 = row.localPath)) = true ↔
      row.localPath ∈ out.map (·.localPath) := by
  rw [List.any_eq_true, List.mem_map]
  constructor
  · rintro ⟨x, hx, hsame⟩
    obtain ⟨other, hother, rfl⟩ := List.mem_map.mp hx
    refine ⟨other, hother, ?_⟩
    rcases Bool.or_eq_true_iff.mp hsame with hid | hpath
    · exact h other (List.mem_append_left _ hother) row (List.mem_append_right _ List.mem_cons_self)
        (of_decide_eq_true hid)
    · exact of_decide_eq_true hpath
  · rintro ⟨other, hother, hpath⟩
    exact ⟨other.idPath, List.mem_map_of_mem hother, by simp [SyncPair.idPath, hpath]⟩

theorem hostings_seen (h : Consistent (out ++ row :: rows)) (hseen : row.localPath ∈ out.map (·.localPath)) :
    hostings port (row :: rows) i (out.map SyncPair.idPath) =
      hostings port rows (i + 1) (out.map SyncPair.idPath) :=
  if_pos ((seen_iff h).mpr hseen)

theorem hostings_unseen (h : Consistent (out ++ row :: rows)) (hseen : row.localPath ∉ out.map (·.localPath)) :
    hostings port (row :: rows) i (out.map SyncPair.idPath) =
      ⟨row.id, row.localPath, port i out.length⟩ ::
        hostings port rows (i + 1) ((out ++ [row]).map SyncPair.idPath) := by
  rw [hostings, if_neg (mt (seen_iff h).mp hseen), List.length_map, List.map_append]
  rfl

theorem Consistent.skip (h : Consistent (out ++ row :: rows)) : Consistent (out ++ rows) :=
  fun a ha b hb => h a (((List.sublist_cons_self row rows).append_left out).subset ha) b
    (((List.sublist_cons_self row rows).append_left out).subset hb)

theorem Consistent.take (h : Consistent (out ++ row :: rows)) : Consistent ((out ++ [row]) ++ rows) := by
  rw [List.append_assoc]
  exact h

/-- The first row of each path is served. -/
theorem hostings_rows (port : ℕ → ℕ → ℕ) (i : ℕ) (h : Consistent (out ++ rows)) :
    out.map SyncPair.idPath ++
        (hostings port rows i (out.map SyncPair.idPath)).map (fun x => (x.folderId, x.localPath)) =
      (rows.foldl (addFirst SyncPair.localPath) out).map SyncPair.idPath := by
  induction rows generalizing out i with
  | nil => simp [hostings]
  | cons row rows ih =>
    rw [List.foldl_cons]
    by_cases hseen : row.localPath ∈ out.map (·.localPath)
    · rw [hostings_seen h hseen, addFirst_of_mem hseen]
      exact ih _ h.skip
    · rw [hostings_unseen h hseen, addFirst_of_notMem hseen, ← ih _ h.take, List.map_cons,
        List.map_append, List.append_assoc]
      rfl

/-- The splits of a list with one more element in front. -/
theorem forall_split_cons {α : Type} {Q : List α → α → Prop} {a : α} {xs : List α} :
    (∀ before x after, a :: xs = before ++ x :: after → Q before x) ↔
      Q [] a ∧ ∀ before x after, xs = before ++ x :: after → Q (a :: before) x := by
  constructor
  · exact fun h => ⟨h [] a xs rfl, fun before x after hsplit => h (a :: before) x after (hsplit ▸ rfl)⟩
  · rintro ⟨hfirst, hrest⟩ before x after hsplit
    cases before with
    | nil =>
      obtain ⟨rfl, _⟩ := List.cons.inj hsplit
      exact hfirst
    | cons b before =>
      obtain ⟨rfl, htail⟩ := List.cons.inj hsplit
      exact hrest before x after htail

/-- Two ways of making ports come to the same if they do where a path comes up first. -/
theorem hostings_eq_iff (port port' : ℕ → ℕ → ℕ) (i : ℕ) (h : Consistent (out ++ rows)) :
    hostings port rows i (out.map SyncPair.idPath) = hostings port' rows i (out.map SyncPair.idPath) ↔
      ∀ before row after, rows = before ++ row :: after →
        row.localPath ∉ (out ++ before).map (·.localPath) →
          port (i + before.length) (before.foldl (addFirst SyncPair.localPath) out).length =
            port' (i + before.length) (before.foldl (addFirst SyncPair.localPath) out).length := by
  induction rows generalizing out i with
  | nil =>
    refine iff_of_true rfl fun before row after hsplit => ?_
    cases before <;> cases hsplit
  | cons row rows ih =>
    rw [forall_split_cons]
    have hlength : ∀ before : List SyncPair, i + (row :: before).length = i + 1 + before.length := by
      intro before
      rw [List.length_cons]
      omega
    by_cases hseen : row.localPath ∈ out.map (·.localPath)
    · rw [hostings_seen h hseen, hostings_seen h hseen, ih _ h.skip,
        and_iff_right fun hnew => absurd (by rwa [List.append_nil]) hnew]
      have hsame : ∀ (before : List SyncPair) (path : String),
          path ∉ (out ++ row :: before).map (·.localPath) ↔ path ∉ (out ++ before).map (·.localPath) := by
        intro before path
        simp only [List.map_append, List.map_cons, List.mem_append, List.mem_cons]
        constructor
        · exact fun hnew hmem => hnew (hmem.imp_right Or.inr)
        · rintro hnew (hmem | rfl | hmem)
          · exact hnew (Or.inl hmem)
          · exact hnew (Or.inl hseen)
          · exact hnew (Or.inr hmem)
      simp only [List.foldl_cons, addFirst_of_mem hseen, hlength, hsame]
    · rw [hostings_unseen h hseen, hostings_unseen h hseen, List.cons_eq_cons, ih _ h.take]
      refine and_congr ?_ ?_
      · constructor
        · exact fun heq _ => (Hosting.mk.inj heq).2.2
        · intro heq
          have hport : port i out.length = port' i out.length := heq (by rwa [List.append_nil])
          rw [hport]
      · simp only [List.foldl_cons, addFirst_of_notMem hseen, hlength, List.append_assoc,
          List.singleton_append]

end

theorem listSyncFolders_consistent (s : DbState) : Consistent s.val.listSyncFolders := by
  intro row hrow row' hrow' hid
  obtain ⟨f, hf, _, _, _, _, rfl⟩ := Database.mem_listSyncFolders.mp hrow
  obtain ⟨g, hg, _, _, _, _, rfl⟩ := Database.mem_listSyncFolders.mp hrow'
  exact congrArg SyncFolderRow.localPath (List.inj_on_of_nodup_map s.keys.syncFolders hf hg hid)

/-- **Whatever the ports, each path that is paired is served once**, as the folder that its
sessions are recorded under. -/
theorem hosts_each_path_once (s : DbState) (port : ℕ → ℕ → ℕ) :
    ((hostings port s.val.listSyncFolders 0 []).map (·.localPath)).Nodup ∧
    ((hostings port s.val.listSyncFolders 0 []).map (·.folderId)).Nodup ∧
    (∀ row ∈ s.val.listSyncFolders, row.localPath ∈
      (hostings port s.val.listSyncFolders 0 []).map (·.localPath)) ∧
    ∀ h ∈ hostings port s.val.listSyncFolders 0 [], ∀ blake3 processId deviceInfo,
      Database.registerFolder blake3 processId deviceInfo h.localPath s = .ok h.folderId s := by
  have hconsistent := listSyncFolders_consistent s
  have hfirst : (hostings port s.val.listSyncFolders 0 []).map (fun x => (x.folderId, x.localPath)) =
      (keepFirst SyncPair.localPath s.val.listSyncFolders).map SyncPair.idPath :=
    @hostings_rows s.val.listSyncFolders [] port 0 hconsistent
  have hpaths : (hostings port s.val.listSyncFolders 0 []).map (·.localPath) =
      (keepFirst SyncPair.localPath s.val.listSyncFolders).map (·.localPath) := by
    have hsnd := congrArg (List.map Prod.snd) hfirst
    rw [List.map_map, List.map_map] at hsnd
    exact hsnd
  have hids : (hostings port s.val.listSyncFolders 0 []).map (·.folderId) =
      (keepFirst SyncPair.localPath s.val.listSyncFolders).map (·.id) := by
    have hfst := congrArg (List.map Prod.fst) hfirst
    rw [List.map_map, List.map_map] at hfst
    exact hfst
  have hnodup : ((keepFirst SyncPair.localPath s.val.listSyncFolders).map (·.localPath)).Nodup :=
    keepFirst_nodup _
  refine ⟨hpaths ▸ hnodup, ?_, fun row hrow => ?_, fun h hh blake3 processId deviceInfo => ?_⟩
  · rw [hids]
    refine List.pairwise_map.mpr ((List.pairwise_map.mp hnodup).imp_of_mem fun {a b} ha hb hne hid => hne ?_)
    exact hconsistent a (mem_of_mem_keepFirst ha) b (mem_of_mem_keepFirst hb) hid
  · rw [hpaths]
    exact keys_keepFirst.mpr (List.mem_map_of_mem hrow)
  · obtain ⟨row, hrow, heq⟩ := List.mem_map.mp (hfirst ▸ List.mem_map_of_mem hh)
    obtain ⟨hid, hpath⟩ := Prod.mk.inj heq
    obtain ⟨before, after, hsplit, hnew⟩ := mem_keepFirst.mp hrow
    have hfind : s.val.listSyncFolders.find? (fun r => decide (r.localPath = h.localPath)) = some row := by
      rw [hsplit, List.find?_append, List.find?_eq_none.mpr, Option.none_or, List.find?_cons_of_pos]
      · exact decide_eq_true hpath
      · intro r hr hsame
        exact hnew (List.mem_map.mpr ⟨r, hr, (of_decide_eq_true hsame).trans hpath.symm⟩)
    unfold Database.registerFolder
    rw [Effects.bind_ok (query_apply _), hfind, ← hid]
    rfl

/-! ### The shell's servers -/

namespace ReplState

/-- No path is served twice. -/
def Once (s : ReplState) : Prop :=
  ∀ id id' path port port', s.Names id (.serve path port) → s.Names id' (.serve path port') → id = id'

section

variable {s : ReplState} {bindings : ℕ → Binding} {hs : List Hosting}

theorem names_startServer {folder : String} {port id : ℕ} {binding : Binding} {job : Job} (h : s.Numbered)
    (hport : 0 < port) :
    (s.startServer folder port binding).Names id job ↔
      s.Names id job ∨ binding.bound = true ∧ id = s.nextId ∧ job = .serve folder port := by
  cases hbound : binding.bound with
  | false =>
    have hsame : s.startServer folder port binding = s := by
      unfold startServer spawnServer
      rw [hbound]
      rfl
    rw [hsame]
    simp
  | true =>
    have hspawn : spawnServer folder port binding = some ⟨folder, port, PairGateInner.new⟩ := by
      unfold spawnServer
      rw [hbound, if_pos rfl, if_neg (Nat.ne_of_gt hport)]
    unfold startServer
    rw [hspawn]
    dsimp only
    cases job with
    | watch folder' device =>
      refine ⟨Or.inl, fun hor => hor.resolve_right ?_⟩
      rintro ⟨_, _, hjob⟩
      cases hjob
    | serve folder' port' =>
      unfold Names takeId
      dsimp only
      simp only [Std.TreeMap.getElem?_insert, Std.LawfulEqCmp.compare_eq_iff_eq]
      by_cases hid : s.nextId = id
      · simp only [if_pos hid, Option.some.injEq, true_and]
        constructor
        · rintro ⟨handle, rfl, rfl, rfl⟩
          exact Or.inr ⟨hid.symm, rfl⟩
        · rintro (⟨handle, hget, hfolder, hport'⟩ | ⟨_, hjob⟩)
          · have hold := h.old id (.serve folder' port') ⟨handle, hget, hfolder, hport'⟩
            omega
          · cases hjob
            exact ⟨_, rfl, rfl, rfl⟩
      · simp only [if_neg hid]
        exact ⟨Or.inl, fun hor => hor.resolve_right fun hnew => hid hnew.2.1.symm⟩

/-- What is served after some folders have been started. -/
theorem serves_started (bindings : ℕ → Binding) (hs : List Hosting) (h : s.Numbered)
    (hnext : s.nextId + hs.length < 2 ^ 32) (hpos : ∀ x ∈ hs, 0 < x.port)
    (hpaths : (hs.map (·.localPath)).Nodup) (honce : s.Once)
    (hnew : ∀ x ∈ hs, ∀ id port, ¬s.Names id (.serve x.localPath port)) :
    (hs.foldl (fun s x => s.startServer x.localPath x.port (bindings x.port)) s).Once ∧
      ∀ path port, (∃ id, (hs.foldl (fun s x => s.startServer x.localPath x.port (bindings x.port)) s).Names id
          (.serve path port)) ↔
        (∃ id, s.Names id (.serve path port)) ∨
          ∃ x ∈ hs, x.localPath = path ∧ x.port = port ∧ (bindings x.port).bound = true := by
  induction hs generalizing s with
  | nil => exact ⟨honce, fun path port => by simp⟩
  | cons x hs ih =>
    rw [List.length_cons] at hnext
    obtain ⟨hxnew, hpaths⟩ := List.nodup_cons.mp hpaths
    have hnames : ∀ id job, (s.startServer x.localPath x.port (bindings x.port)).Names id job ↔
        s.Names id job ∨ (bindings x.port).bound = true ∧ id = s.nextId ∧ job = .serve x.localPath x.port :=
      fun id job => names_startServer h (hpos x List.mem_cons_self)
    have hstep : Renumbers s (s.startServer x.localPath x.port (bindings x.port)) :=
      renumbers_startServer (by omega)
    have hle : (s.startServer x.localPath x.port (bindings x.port)).nextId ≤ s.nextId + 1 :=
      nextId_startServer
    have honce' : (s.startServer x.localPath x.port (bindings x.port)).Once := by
      intro id id' path port port' hid hid'
      rcases (hnames _ _).mp hid with hold | ⟨_, rfl, hjob⟩
      · rcases (hnames _ _).mp hid' with hold' | ⟨_, rfl, hjob'⟩
        · exact honce id id' path port port' hold hold'
        · cases hjob'
          exact absurd hold (hnew x List.mem_cons_self _ _)
      · rcases (hnames _ _).mp hid' with hold' | ⟨_, rfl, _⟩
        · cases hjob
          exact absurd hold' (hnew x List.mem_cons_self _ _)
        · rfl
    obtain ⟨hafter, hserves⟩ := ih (hstep.numbered h) (by omega)
      (fun y hy => hpos y (List.mem_cons_of_mem _ hy)) hpaths honce' fun y hy id port hn => by
        rcases (hnames _ _).mp hn with hold | ⟨_, _, hjob⟩
        · exact hnew y (List.mem_cons_of_mem _ hy) id port hold
        · have hpath : y.localPath = x.localPath := (Job.serve.inj hjob).1
          exact hxnew (List.mem_map.mpr ⟨y, hy, hpath⟩)
    refine ⟨hafter, fun path port => ?_⟩
    rw [List.foldl_cons, hserves]
    simp only [hnames, List.mem_cons, exists_or, exists_eq_or_imp, or_assoc]
    refine or_congr_right (or_congr_left ?_)
    constructor
    · rintro ⟨id, hbound, _, hjob⟩
      obtain ⟨rfl, rfl⟩ := Job.serve.inj hjob
      exact ⟨rfl, rfl, hbound⟩
    · rintro ⟨rfl, rfl, hbound⟩
      exact ⟨s.nextId, hbound, rfl, rfl⟩

end

end ReplState

theorem rowPort_pos (i : ℕ) : 0 < rowPort i := by
  unfold rowPort defaultPort
  split_ifs <;> omega

theorem mem_hostings_port {port : ℕ → ℕ → ℕ} {rows : List SyncPair} {i : ℕ} {seen : List (ℕ × String)}
    {x : Hosting} (h : x ∈ hostings port rows i seen) : ∃ j n, x.port = port j n := by
  induction rows generalizing i seen with
  | nil => cases h
  | cons row rows ih =>
    unfold hostings at h
    split_ifs at h
    · exact ih h
    · rcases List.mem_cons.mp h with rfl | h
      · exact ⟨_, _, rfl⟩
      · exact ih h

namespace ReplState

section

variable {s : ReplState} (bindings : ℕ → Binding) (hnumbered : s.Numbered)
  (hidle : ∀ id path port, ¬s.Names id (.serve path port))
  (hnext : s.nextId + s.host.db.val.initEngineHostings.length < 2 ^ 32)
include hnumbered hidle hnext

/-- A shell that serves nothing yet serves every folder whose port can be bound, each once. -/
theorem autoServeExisting_once : (s.autoServeExisting bindings).Once ∧
    ∀ path port, (∃ id, (s.autoServeExisting bindings).Names id (.serve path port)) ↔
      ∃ x ∈ s.host.db.val.initEngineHostings,
        x.localPath = path ∧ x.port = port ∧ (bindings x.port).bound = true := by
  obtain ⟨honce, hserves⟩ := serves_started bindings s.host.db.val.initEngineHostings hnumbered hnext
    (fun x hx => by
      obtain ⟨j, n, hport⟩ := mem_hostings_port hx
      rw [hport]
      exact rowPort_pos j)
    (hosts_each_path_once s.host.db fun i _ => rowPort i).1
    (fun _ _ _ _ _ hn => absurd hn (hidle _ _ _))
    (fun _ _ _ _ => hidle _ _ _)
  refine ⟨honce, fun path port => ?_⟩
  have hnone : ¬∃ id, s.Names id (.serve path port) := fun ⟨id, hn⟩ => hidle id path port hn
  exact (hserves path port).trans (or_iff_right hnone)

/-- **So does `serve` without a folder**, unless it is given a port of its own or finds no folder. -/
theorem startAllServers_once (port : ℕ) :
    (∀ e, s.startAllServers port bindings = .error e →
      port ≠ defaultPort ∨ s.host.db.val.initEngineHostings = []) ∧
    ∀ s', s.startAllServers port bindings = .ok s' → s'.Once ∧
      ∀ path port', (∃ id, s'.Names id (.serve path port')) ↔
        ∃ x ∈ s.host.db.val.initEngineHostings,
          x.localPath = path ∧ x.port = port' ∧ (bindings x.port).bound = true := by
  unfold startAllServers
  split_ifs with hport hempty
  · exact ⟨fun _ _ => Or.inl hport, fun _ h => nomatch h⟩
  · exact ⟨fun _ _ => Or.inr hempty, fun _ h => nomatch h⟩
  · refine ⟨fun _ h => (nomatch h), fun s' h => ?_⟩
    obtain rfl := Except.ok.inj h
    exact autoServeExisting_once bindings hnumbered hidle hnext

end

end ReplState

/-- **A shell that is started serves every folder whose port can be bound**, each once. -/
theorem launch_serves_once (deviceInfo : DeviceInfo) (host : Host) (bindings : ℕ → Binding)
    (h : host.db.val.initEngineHostings.length < 2 ^ 32 - 1) :
    ((ReplState.new deviceInfo host).autoServeExisting bindings).Once ∧
      ∀ path port, (∃ id, ((ReplState.new deviceInfo host).autoServeExisting bindings).Names id
          (.serve path port)) ↔
        ∃ x ∈ host.db.val.initEngineHostings,
          x.localPath = path ∧ x.port = port ∧ (bindings x.port).bound = true :=
  ReplState.autoServeExisting_once bindings (ReplState.numbered_new deviceInfo host)
    (fun _ _ _ => ReplState.not_names_new)
    (by rw [show (ReplState.new deviceInfo host).nextId = 1 from rfl]
        show 1 + host.db.val.initEngineHostings.length < 2 ^ 32
        omega)

/-! ### The ports -/

/-- **The app and the shell serve every folder where the command line does** exactly if no path
comes up again before another that is new. -/
theorem same_ports_iff (s : DbState) (h : s.val.listSyncFolders.length ≤ 2 ^ 16 - defaultPort) :
    s.val.initEngineHostings = s.val.serveAllHostings defaultPort ↔
      ∀ before row after, s.val.listSyncFolders = before ++ row :: after →
        row.localPath ∉ before.map (·.localPath) → (before.map (·.localPath)).Nodup := by
  unfold Database.initEngineHostings Database.serveAllHostings
  have heq := @hostings_eq_iff s.val.listSyncFolders [] (fun i _ => rowPort i)
    (fun _ n => folderPort defaultPort n) 0 (listSyncFolders_consistent s)
  rw [List.map_nil] at heq
  rw [heq]
  refine forall₃_congr fun before row after => forall_congr' fun hsplit => ?_
  rw [List.nil_append]
  refine forall_congr' fun _ => ?_
  obtain ⟨hle, hiff⟩ := @length_keepFirst _ _ SyncPair.localPath _ before
  have hlt : before.length < 2 ^ 16 - defaultPort := by
    rw [hsplit, List.length_append, List.length_cons] at h
    omega
  have hkeep : before.foldl (addFirst SyncPair.localPath) [] = keepFirst SyncPair.localPath before := rfl
  rw [hkeep, ← hiff, Nat.zero_add]
  unfold rowPort folderPort
  unfold defaultPort at hlt ⊢
  rw [if_pos (by omega), Nat.mod_eq_of_lt (by omega)]
  omega

/-- The music with one pair, and the photos after it with two. -/
def musicThenPhotos : Database :=
  { Database.empty with
    devices := [⟨"phone", "Phone", none, none⟩, ⟨"tablet", "Tablet", none, none⟩]
    syncFolders := [⟨1, "/music", none, "phone", "sync", none⟩, ⟨2, "/photos", none, "phone", "sync", none⟩]
    folderDevices := [⟨1, "phone", "sync", none, true⟩, ⟨2, "phone", "sync", none, true⟩,
      ⟨2, "tablet", "sync", none, true⟩]
    folderSeq := 2 }

theorem same_ports_photos :
    musicThenPhotos.listSyncFolders.map (·.localPath) = ["/music", "/photos", "/photos"] ∧
      musicThenPhotos.initEngineHostings = musicThenPhotos.serveAllHostings defaultPort := by
  have hsorted : musicThenPhotos.listSyncFolders =
      [⟨1, "/music", "phone", "sync"⟩, ⟨2, "/photos", "phone", "sync"⟩, ⟨2, "/photos", "tablet", "sync"⟩] := by
    unfold Database.listSyncFolders
    apply List.mergeSort_of_pairwise
    decide
  refine ⟨by rw [hsorted]; rfl, (same_ports_iff ⟨musicThenPhotos, by decide⟩ ?_).mpr ?_⟩
  · exact (congrArg List.length hsorted).trans_le (by decide)
  · intro before row after hsplit hnew
    rw [show (⟨musicThenPhotos, _⟩ : DbState).val.listSyncFolders = _ from hsorted] at hsplit
    -- a row after the first two has a path that came up before
    match before with
    | [] => exact List.nodup_nil
    | [_] => exact List.nodup_singleton _
    | [first, second] =>
      obtain ⟨rfl, rfl, rfl, -⟩ := by simpa using hsplit
      exact absurd (by simp) hnew
    | _ :: _ :: _ :: _ => exact absurd (congrArg List.length hsplit) (by simp)

end FerriSync
