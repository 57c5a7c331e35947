/-
# The list of conflicts, read from the disk

`list_conflicts` as it meets the directories: any of them, an entry, its kind or the metadata
of a backup may not be readable, and then there is no list at all, whatever other folders
hold. A name may be any bytes; a file whose own name is no text is never taken for a backup,
and a backup is recognised by its relative path as it is displayed, in which all bytes that
are no character's have become the same. So the list is complete exactly if all this can be
read, the backups' own names are text, and no two backups, of one folder or of several, are
displayed alike (`listing_complete_iff`).

Where everything can be read and all names are text, the walk is the one in which a folder is
what its files are (`listConflicts_shown`).

Key definitions: `DirEntries`, `WalkedRoot`, `ConflictWalk.listConflicts`, `CompleteListing`,
`Listable`.
Key theorems: `listed_of_ok`, `listing_complete_iff`, `listConflicts_shown`.
-/
import FerriSync.Conflicts
import FerriSync.Scanning

namespace FerriSync

open LastSplit

/-- A name that an entry can have. -/
abbrev DirName := {n : OsStr // EntryName n}

/-- What reading a directory gives, entry by entry. -/
inductive DirEntries
  | done
  /-- The directory cannot be opened, or its next entry or that one's kind cannot be read. -/
  | failed (e : String)
  | file (name : DirName) (metadata : Except String FileMeta) (rest : DirEntries)
  | dir (name : DirName) (below rest : DirEntries)
  /-- A link, or whatever else is no file. -/
  | other (name : DirName) (rest : DirEntries)

/-- A file as the walk meets it. -/
structure FoundFile where
  dir : List DirName
  name : DirName
  metadata : Except String FileMeta

namespace DirEntries

/-- The names in the directory. -/
def names : DirEntries → List DirName
  | done | failed _ => []
  | file n _ rest | dir n _ rest | other n rest => n :: rest.names

/-- No directory has two entries of one name. -/
def Distinct : DirEntries → Prop
  | done | failed _ => True
  | file n _ rest | other n rest => n ∉ rest.names ∧ rest.Distinct
  | dir n below rest => n ∉ rest.names ∧ below.Distinct ∧ rest.Distinct

/-- All directories can be read to their ends. -/
def Readable : DirEntries → Prop
  | done => True
  | failed _ => False
  | file _ _ rest | other _ rest => rest.Readable
  | dir _ below rest => below.Readable ∧ rest.Readable

/-- The files in the directory, which is `at_`, and below, in the order in which they are met. -/
def files (at_ : List DirName) : DirEntries → List FoundFile
  | done | failed _ => []
  | file n metadata rest => ⟨at_, n, metadata⟩ :: rest.files at_
  | dir n below rest => below.files (at_ ++ [n]) ++ rest.files at_
  | other _ rest => rest.files at_

end DirEntries

/-- A folder that can be opened. -/
structure WalkedRoot where
  entries : DirEntries
  distinct : entries.Distinct
  /-- What the system says of a path string below the root. -/
  metadata : String → Option FileMeta

/-- `OsStr::to_str`. -/
def toStr : OsStr → Option (List Char)
  | [] => some []
  | .char c :: n => (toStr n).map (c :: ·)
  | .malformed _ :: _ => none

namespace FoundFile

variable (x : FoundFile)

/-- Where the file is below the root. -/
def place : List OsStr := (x.dir ++ [x.name]).map (·.val)

/-- Its relative path, `to_string_lossy`. -/
def path : String := displayed [] x.place

/-- `to_str`, or nothing, of the file's own name. -/
def fileName : List Char := (toStr x.name.val).getD []

/-- Its name is that of a backup. -/
def isBackup : Bool := (parseConflictSuffix (lossy x.name.val)).isSome

end FoundFile

namespace ConflictWalk

/-- One conflict backup, with metadata for both versions. -/
def conflict (root : WalkedRoot) (folderId : ℕ) (x : FoundFile) (label winner : List Char)
    (backupMeta : FileMeta) : ConflictEntry :=
  let winnerMeta := root.metadata (String.ofList winner)
  { folderId := folderId
    path := String.ofList winner
    backupPath := x.path
    loserLabel := String.ofList label
    winnerMtimeSecs := mtimeSecs winnerMeta
    winnerSize := (winnerMeta.map (·.len)).getD 0
    loserMtimeSecs := mtimeSecs (some backupMeta)
    loserSize := backupMeta.len }

/-- A file as the walk meets it. -/
def visit (root : WalkedRoot) (folderId : ℕ) (out : List ConflictEntry) (x : FoundFile) :
    Except String (List ConflictEntry) :=
  match parseConflictSuffix x.fileName with
  | none => .ok out
  | some (_, label, _) =>
    if out.any fun c => decide (c.backupPath = x.path) then .ok out
    else
      match winnerRelativePath x.path.toList with
      | none => .ok out
      | some winner =>
        match x.metadata with
        | .error e => .error e
        | .ok backupMeta => .ok (out ++ [conflict root folderId x label winner backupMeta])

/-- Walk a folder tree, collecting every conflict backup. -/
def walkDir (root : WalkedRoot) (folderId : ℕ) :
    List DirName → DirEntries → List ConflictEntry → Except String (List ConflictEntry)
  | _, .done, out => .ok out
  | _, .failed e, _ => .error e
  | at_, .file n metadata rest, out =>
    match visit root folderId out ⟨at_, n, metadata⟩ with
    | .error e => .error e
    | .ok out => walkDir root folderId at_ rest out
  | at_, .dir n below rest, out =>
    match walkDir root folderId (at_ ++ [n]) below out with
    | .error e => .error e
    | .ok out => walkDir root folderId at_ rest out
  | at_, .other _ rest, out => walkDir root folderId at_ rest out

section

variable (db : Database) (roots : String → Option WalkedRoot)

/-- One row of the configured folders. -/
def walkRow (out : List ConflictEntry) (row : SyncPair) : Except String (List ConflictEntry) :=
  match roots row.localPath with
  | none => .ok out
  | some root => walkDir root row.id [] root.entries out

/-- List every conflict backup across all configured sync folders; `roots` are those that can be
opened. -/
def listConflicts : Except String (List ConflictEntry) := db.listSyncFolders.foldlM (walkRow roots) []

/-- Per-folder conflict counts. -/
def folderConflictCounts : Except String (AList fun _ : ℕ => ℕ) :=
  (listConflicts db roots).map fun cs =>
    cs.foldl (fun counts c => counts.insert c.folderId ((counts.lookup c.folderId).getD 0 + 1)) ∅

/-- The backups of a folder that is listed and can be opened. -/
def backupsOf (folderId : ℕ) : List FoundFile :=
  match db.listSyncFolders.find? fun row => decide (row.id = folderId) with
  | none => []
  | some row =>
    match roots row.localPath with
    | none => []
    | some root => (root.entries.files []).filter (·.isBackup)

/-- What is listed of a file is what its name and the system say of it. -/
def Reported (root : WalkedRoot) (folderId : ℕ) (x : FoundFile) (c : ConflictEntry) : Prop :=
  ∃ ts label hash winner backupMeta, parseConflictSuffix x.fileName = some (ts, label, hash) ∧
    winnerRelativePath x.path.toList = some winner ∧ x.metadata = .ok backupMeta ∧
      c = conflict root folderId x label winner backupMeta

/-- The list has every backup of every folder once, under its folder, and the counts are its. -/
structure CompleteListing (cs : List ConflictEntry) : Prop where
  once : ∀ folderId, ((cs.filter fun c => decide (c.folderId = folderId)).map (·.backupPath)).Perm
    ((backupsOf db roots folderId).map (·.path))
  only : ∀ c ∈ cs, ∃ row ∈ db.listSyncFolders, ∃ root, roots row.localPath = some root ∧
    ∃ x ∈ root.entries.files [], Reported root row.id x c
  counts : ∃ counts, folderConflictCounts db roots = .ok counts ∧
    ∀ folderId, (counts.lookup folderId).getD 0 = cs.countP fun c => decide (c.folderId = folderId)

/-- All can be read, the backups' own names are text, and no two backups are displayed alike. -/
structure Listable : Prop where
  readable : ∀ row ∈ db.listSyncFolders, ∀ root, roots row.localPath = some root → root.entries.Readable
  text : ∀ folderId, ∀ x ∈ backupsOf db roots folderId, ∃ cs, x.name.val = osStr cs
  known : ∀ folderId, ∀ x ∈ backupsOf db roots folderId, ∃ backupMeta, x.metadata = .ok backupMeta
  apart : ∀ folderId folderId', ∀ x ∈ backupsOf db roots folderId, ∀ x' ∈ backupsOf db roots folderId',
    x.path = x'.path → folderId = folderId' ∧ x.place = x'.place

end

/-! ### Names and paths -/

theorem entryName_osName (n : FileName) : EntryName (osName n) where
  ne_nil h := n.ne_nil (List.map_eq_nil_iff.mp h)
  no_slash h := by
    obtain ⟨c, hc, heq⟩ := List.mem_map.mp h
    cases heq
    exact n.no_slash hc
  no_nul h := by
    obtain ⟨c, hc, heq⟩ := List.mem_map.mp h
    cases heq
    exact n.no_nul hc
  not_dot h := n.not_dot (List.map_injective_iff.mpr (fun _ _ => OsChar.char.inj) h)
  not_dotdot h := n.not_dotdot (List.map_injective_iff.mpr (fun _ _ => OsChar.char.inj) h)

theorem toStr_osStr (cs : List Char) : toStr (osStr cs) = some cs := by
  unfold osStr
  induction cs with
  | nil => rfl
  | cons c cs ih => rw [List.map_cons, toStr, ih, Option.map_some]

theorem toStr_eq_some {n : OsStr} {cs : List Char} : toStr n = some cs ↔ n = osStr cs := by
  refine ⟨fun h => ?_, fun h => h ▸ toStr_osStr cs⟩
  induction n generalizing cs with
  | nil =>
    cases h
    rfl
  | cons c n ih =>
    cases c with
    | char c =>
      obtain ⟨cs', hcs', rfl⟩ := Option.map_eq_some_iff.mp h
      rw [ih hcs']
      rfl
    | malformed bytes => cases h

theorem lossy_osStr (cs : List Char) : lossy (osStr cs) = cs := by
  unfold lossy osStr
  rw [List.map_map]
  exact List.map_id cs

section

variable {root : WalkedRoot} {folderId : ℕ} {x : FoundFile} {c : ConflictEntry} {out out' : List ConflictEntry}

/-- The walk takes for backups those whose own names are text. -/
theorem parses_iff : (parseConflictSuffix x.fileName).isSome = true ↔
    x.isBackup = true ∧ ∃ cs, x.name.val = osStr cs := by
  unfold FoundFile.fileName FoundFile.isBackup
  constructor
  · intro h
    cases htext : toStr x.name.val with
    | none =>
      rw [htext] at h
      cases h
    | some cs =>
      rw [htext] at h
      have hname := toStr_eq_some.mp htext
      rw [hname, lossy_osStr]
      exact ⟨h, cs, rfl⟩
  · rintro ⟨h, cs, hname⟩
    rw [hname, lossy_osStr] at h
    rwa [hname, toStr_osStr]

/-- The path is that of displayed names. -/
theorem exists_path (x : FoundFile) : ∃ (d : RelPath) (m : FileName),
    x.path = render (d ++ [m]) ∧ m.chars = lossy x.name.val := by
  have hnames : ∀ {l : List DirName}, ∀ n ∈ l.map (·.val), EntryName n := by
    intro l n hn
    obtain ⟨m, _, rfl⟩ := List.mem_map.mp hn
    exact m.property
  obtain ⟨d, hd⟩ := exists_relPath (hnames (l := x.dir))
  obtain ⟨m, hm⟩ := exists_fileName x.name.property
  refine ⟨d, m, ?_, hm⟩
  have hchars : (d ++ [m]).map (·.chars) = x.place.map lossy := by
    unfold FoundFile.place
    rw [List.map_append, List.map_append, List.map_append, hd, List.map_singleton, List.map_singleton,
      List.map_singleton, hm]
  unfold render
  rw [hchars]
  rfl

/-- A backup's winner has a name. -/
theorem exists_winner (h : x.isBackup = true) : ∃ winner, winnerRelativePath x.path.toList = some winner := by
  obtain ⟨d, m, hpath, hm⟩ := exists_path x
  unfold FoundFile.isBackup at h
  rw [← hm] at h
  obtain ⟨original, tail, hsplit⟩ := exists_splitLast h
  rw [hpath]
  exact ⟨_, winnerRelativePath_render hsplit⟩

/-! ### One file -/

theorem backupPath_of_reported (h : Reported root folderId x c) :
    c.backupPath = x.path ∧ c.folderId = folderId := by
  obtain ⟨_, _, _, _, _, _, _, _, rfl⟩ := h
  exact ⟨rfl, rfl⟩

/-- **A visit** appends the file if it is a backup of a path not listed yet, or changes nothing. -/
theorem visit_ok (h : visit root folderId out x = .ok out') :
    ((parseConflictSuffix x.fileName).isSome = true → x.path ∈ out'.map (·.backupPath)) ∧
      (out' = out ∨ ∃ c, Reported root folderId x c ∧ x.path ∉ out.map (·.backupPath) ∧ out' = out ++ [c]) := by
  unfold visit at h
  cases hparsed : parseConflictSuffix x.fileName with
  | none =>
    rw [hparsed] at h
    cases h
    exact ⟨nofun, Or.inl rfl⟩
  | some parsed =>
    obtain ⟨ts, label, hash⟩ := parsed
    rw [hparsed] at h
    dsimp only at h
    split_ifs at h with hlisted
    · cases h
      obtain ⟨c, hc, hpath⟩ := List.any_eq_true.mp hlisted
      exact ⟨fun _ => List.mem_map.mpr ⟨c, hc, of_decide_eq_true hpath⟩, Or.inl rfl⟩
    · obtain ⟨winner, hwinner⟩ := exists_winner (parses_iff.mp (by rw [hparsed]; rfl)).1
      rw [hwinner] at h
      dsimp only at h
      cases hmeta : x.metadata with
      | error e =>
        rw [hmeta] at h
        cases h
      | ok backupMeta =>
        rw [hmeta] at h
        cases h
        refine ⟨fun _ => ?_,
          Or.inr ⟨_, ⟨ts, label, hash, winner, backupMeta, hparsed, hwinner, hmeta, rfl⟩, ?_, rfl⟩⟩
        · rw [List.map_append]
          exact List.mem_append_right _ (List.mem_singleton_self _)
        · intro hmem
          obtain ⟨c, hc, hpath⟩ := List.mem_map.mp hmem
          exact hlisted (List.any_eq_true.mpr ⟨c, hc, decide_eq_true hpath⟩)

/-- A visit fails only at a backup whose metadata cannot be read. -/
theorem exists_visit (h : x.isBackup = true → ∃ backupMeta, x.metadata = .ok backupMeta)
    (out : List ConflictEntry) : ∃ out', visit root folderId out x = .ok out' := by
  unfold visit
  cases hparsed : parseConflictSuffix x.fileName with
  | none => exact ⟨out, rfl⟩
  | some parsed =>
    have hbackup := (parses_iff.mp (by rw [hparsed]; rfl)).1
    obtain ⟨winner, hwinner⟩ := exists_winner hbackup
    obtain ⟨backupMeta, hmeta⟩ := h hbackup
    dsimp only
    split_ifs
    · exact ⟨out, rfl⟩
    · rw [hwinner, hmeta]
      exact ⟨_, rfl⟩

end

/-! ### Whole walks -/

/-- What has been listed once certain files have been seen. -/
structure Listed (seen : WalkedRoot → ℕ → FoundFile → Prop) (out : List ConflictEntry) : Prop where
  nodup : (out.map (·.backupPath)).Nodup
  only : ∀ c ∈ out, ∃ root folderId x, seen root folderId x ∧ Reported root folderId x c
  covers : ∀ root folderId x, seen root folderId x → (parseConflictSuffix x.fileName).isSome = true →
    x.path ∈ out.map (·.backupPath)

section

variable {seen seen' : WalkedRoot → ℕ → FoundFile → Prop} {root : WalkedRoot} {folderId : ℕ} {x : FoundFile}
  {out out' : List ConflictEntry} {es : DirEntries} {at_ : List DirName}

theorem Listed.congr (h : Listed seen out)
    (hsame : ∀ root folderId x, seen root folderId x ↔ seen' root folderId x) : Listed seen' out where
  nodup := h.nodup
  only c hc := by
    obtain ⟨root, folderId, x, hseen, hreported⟩ := h.only c hc
    exact ⟨root, folderId, x, (hsame _ _ _).mp hseen, hreported⟩
  covers root folderId x hseen := h.covers root folderId x ((hsame _ _ _).mpr hseen)

theorem Listed.visit (h : Listed seen out) (hvisit : visit root folderId out x = .ok out') :
    Listed (fun r i y => seen r i y ∨ r = root ∧ i = folderId ∧ y = x) out' := by
  obtain ⟨hcovered, hcases⟩ := visit_ok hvisit
  have hold : ∀ path ∈ out.map (·.backupPath), path ∈ out'.map (·.backupPath) := by
    rcases hcases with rfl | ⟨c, _, _, rfl⟩
    · exact fun _ hpath => hpath
    · intro path hpath
      rw [List.map_append]
      exact List.mem_append_left _ hpath
  refine ⟨?_, fun c hc => ?_, ?_⟩
  · rcases hcases with rfl | ⟨c, hreported, hnew, rfl⟩
    · exact h.nodup
    · rw [List.map_append, List.nodup_append]
      refine ⟨h.nodup, List.nodup_singleton _, fun a ha b hb heq => ?_⟩
      have hpath : a = x.path := (heq.trans (List.mem_singleton.mp hb)).trans (backupPath_of_reported hreported).1
      exact hnew (hpath ▸ ha)
  · have hbefore : c ∈ out → ∃ r i y, (seen r i y ∨ r = root ∧ i = folderId ∧ y = x) ∧ Reported r i y c := by
      intro hc
      obtain ⟨r, i, y, hseen, hreported⟩ := h.only c hc
      exact ⟨r, i, y, Or.inl hseen, hreported⟩
    rcases hcases with rfl | ⟨c', hreported, _, rfl⟩
    · exact hbefore hc
    · rcases List.mem_append.mp hc with hc | hc
      · exact hbefore hc
      · rw [List.mem_singleton.mp hc]
        exact ⟨root, folderId, x, Or.inr ⟨rfl, rfl, rfl⟩, hreported⟩
  · rintro r i y (hseen | ⟨rfl, rfl, rfl⟩) hparses
    · exact hold _ (h.covers r i y hseen hparses)
    · exact hcovered hparses

/-- **A walk that goes through** has seen all files of the folder, and all of it could be read. -/
theorem Listed.walkDir (h : Listed seen out) (hwalk : walkDir root folderId at_ es out = .ok out') :
    es.Readable ∧ Listed (fun r i y => seen r i y ∨ r = root ∧ i = folderId ∧ y ∈ es.files at_) out' := by
  induction es generalizing seen at_ out out' with
  | done =>
    cases hwalk
    exact ⟨trivial, h.congr fun _ _ _ => by simp [DirEntries.files]⟩
  | failed e => cases hwalk
  | file n metadata rest ih =>
    unfold ConflictWalk.walkDir at hwalk
    cases hvisit : ConflictWalk.visit root folderId out ⟨at_, n, metadata⟩ with
    | error e =>
      rw [hvisit] at hwalk
      cases hwalk
    | ok mid =>
      rw [hvisit] at hwalk
      obtain ⟨hreadable, hlisted⟩ := ih (h.visit hvisit) hwalk
      refine ⟨hreadable, hlisted.congr fun r i y => ?_⟩
      rw [DirEntries.files, List.mem_cons]
      tauto
  | dir n below rest ihbelow ihrest =>
    unfold ConflictWalk.walkDir at hwalk
    cases hdir : ConflictWalk.walkDir root folderId (at_ ++ [n]) below out with
    | error e =>
      rw [hdir] at hwalk
      cases hwalk
    | ok mid =>
      rw [hdir] at hwalk
      obtain ⟨hbelow, hmid⟩ := ihbelow h hdir
      obtain ⟨hrest, hlisted⟩ := ihrest hmid hwalk
      refine ⟨⟨hbelow, hrest⟩, hlisted.congr fun r i y => ?_⟩
      rw [DirEntries.files, List.mem_append]
      tauto
  | other n rest ih => exact ih h hwalk

/-- A walk fails only where something cannot be read. -/
theorem exists_walkDir (hreadable : es.Readable)
    (h : ∀ x ∈ es.files at_, x.isBackup = true → ∃ backupMeta, x.metadata = .ok backupMeta)
    (out : List ConflictEntry) : ∃ out', walkDir root folderId at_ es out = .ok out' := by
  induction es generalizing at_ out with
  | done => exact ⟨out, rfl⟩
  | failed e => exact hreadable.elim
  | file n metadata rest ih =>
    obtain ⟨mid, hmid⟩ : ∃ mid, ConflictWalk.visit root folderId out ⟨at_, n, metadata⟩ = .ok mid :=
      exists_visit (h _ List.mem_cons_self) out
    unfold walkDir
    rw [hmid]
    exact ih hreadable (fun x hx => h x (List.mem_cons_of_mem _ hx)) mid
  | dir n below rest ihbelow ihrest =>
    obtain ⟨mid, hmid⟩ := ihbelow hreadable.1 (fun x hx => h x (List.mem_append_left _ hx)) out
    unfold walkDir
    rw [hmid]
    exact ihrest hreadable.2 (fun x hx => h x (List.mem_append_right _ hx)) mid
  | other n rest ih => exact ih hreadable h out

variable {roots : String → Option WalkedRoot} {rows : List SyncPair}

/-- The files of the folders of certain rows. -/
def SeenIn (roots : String → Option WalkedRoot) (rows : List SyncPair) (root : WalkedRoot) (folderId : ℕ)
    (x : FoundFile) : Prop :=
  ∃ row ∈ rows, roots row.localPath = some root ∧ folderId = row.id ∧ x ∈ root.entries.files []

theorem Listed.walkRows (h : Listed seen out) (hwalk : rows.foldlM (walkRow roots) out = .ok out') :
    (∀ row ∈ rows, ∀ root, roots row.localPath = some root → root.entries.Readable) ∧
      Listed (fun r i y => seen r i y ∨ SeenIn roots rows r i y) out' := by
  induction rows generalizing seen out with
  | nil =>
    cases hwalk
    exact ⟨nofun, h.congr fun _ _ _ => by simp [SeenIn]⟩
  | cons row rows ih =>
    rw [List.foldlM_cons] at hwalk
    cases hrow : walkRow roots out row with
    | error e =>
      rw [hrow] at hwalk
      cases hwalk
    | ok mid =>
      rw [hrow] at hwalk
      unfold walkRow at hrow
      cases hroot : roots row.localPath with
      | none =>
        rw [hroot] at hrow
        cases hrow
        obtain ⟨hreadable, hlisted⟩ := ih h hwalk
        refine ⟨fun row' hrow' root' hroot' => ?_, hlisted.congr fun r i y => ?_⟩
        · rcases List.mem_cons.mp hrow' with rfl | hrow'
          · rw [hroot] at hroot'
            cases hroot'
          · exact hreadable row' hrow' root' hroot'
        · simp [SeenIn, hroot]
      | some root =>
        rw [hroot] at hrow
        obtain ⟨hfirst, hmid⟩ := h.walkDir hrow
        obtain ⟨hreadable, hlisted⟩ := ih hmid hwalk
        refine ⟨fun row' hrow' root' hroot' => ?_, hlisted.congr fun r i y => ?_⟩
        · rcases List.mem_cons.mp hrow' with rfl | hrow'
          · rw [hroot] at hroot'
            cases hroot'
            exact hfirst
          · exact hreadable row' hrow' root' hroot'
        · unfold SeenIn
          simp only [List.exists_mem_cons_iff, hroot, Option.some.injEq, or_assoc]
          refine or_congr_right (or_congr_left ?_)
          constructor
          · rintro ⟨rfl, hi, hy⟩
            exact ⟨rfl, hi, hy⟩
          · rintro ⟨rfl, hi, hy⟩
            exact ⟨rfl, hi, hy⟩

theorem exists_walkRows (h : ∀ row ∈ rows, ∀ root, roots row.localPath = some root → root.entries.Readable ∧
      ∀ x ∈ root.entries.files [], x.isBackup = true → ∃ backupMeta, x.metadata = .ok backupMeta)
    (out : List ConflictEntry) : ∃ out', rows.foldlM (walkRow roots) out = .ok out' := by
  induction rows generalizing out with
  | nil => exact ⟨out, rfl⟩
  | cons row rows ih =>
    obtain ⟨mid, hmid⟩ : ∃ mid, walkRow roots out row = .ok mid := by
      unfold walkRow
      cases hroot : roots row.localPath with
      | none => exact ⟨out, rfl⟩
      | some root =>
        obtain ⟨hreadable, hknown⟩ := h row List.mem_cons_self root hroot
        exact exists_walkDir hreadable hknown out
    rw [List.foldlM_cons, hmid]
    exact ih (fun row' hrow' => h row' (List.mem_cons_of_mem _ hrow')) mid

end

/-! ### Places -/

section

variable {es : DirEntries} {at_ : List DirName} {x : FoundFile}

/-- A file that is met stands at or below an entry of the directory. -/
theorem files_below (h : x ∈ es.files at_) : ∃ n rest, n ∈ es.names ∧ x.dir ++ [x.name] = at_ ++ n :: rest := by
  induction es generalizing at_ with
  | done | failed e => cases h
  | file n metadata rest ih =>
    rcases List.mem_cons.mp h with rfl | h
    · exact ⟨n, [], List.mem_cons_self, rfl⟩
    · obtain ⟨m, tail, hm, hplace⟩ := ih h
      exact ⟨m, tail, List.mem_cons_of_mem _ hm, hplace⟩
  | dir n below rest ihbelow ihrest =>
    rcases List.mem_append.mp h with h | h
    · obtain ⟨m, tail, _, hplace⟩ := ihbelow h
      refine ⟨n, m :: tail, List.mem_cons_self, ?_⟩
      rw [hplace, List.append_assoc]
      rfl
    · obtain ⟨m, tail, hm, hplace⟩ := ihrest h
      exact ⟨m, tail, List.mem_cons_of_mem _ hm, hplace⟩
  | other n rest ih =>
    obtain ⟨m, tail, hm, hplace⟩ := ih h
    exact ⟨m, tail, List.mem_cons_of_mem _ hm, hplace⟩

/-- What stands at or below an entry is not met in the rest of the directory. -/
theorem files_ne {n : DirName} {tail : List DirName} {rest : DirEntries} (hn : n ∉ rest.names)
    (h : x ∈ rest.files at_) : x.dir ++ [x.name] ≠ at_ ++ n :: tail := by
  intro hplace
  obtain ⟨m, tail', hm, hplace'⟩ := files_below h
  have hsame : m = n := (List.cons.inj (List.append_cancel_left (hplace'.symm.trans hplace))).1
  exact hn (hsame ▸ hm)

/-- **No file is met twice.** -/
theorem files_nodup (h : es.Distinct) (at_ : List DirName) :
    ((es.files at_).map fun x => x.dir ++ [x.name]).Nodup := by
  induction es generalizing at_ with
  | done | failed e => exact List.nodup_nil
  | file n metadata rest ih =>
    rw [DirEntries.files, List.map_cons, List.nodup_cons]
    refine ⟨fun hmem => ?_, ih h.2 at_⟩
    obtain ⟨x, hx, hplace⟩ := List.mem_map.mp hmem
    exact files_ne h.1 hx hplace
  | dir n below rest ihbelow ihrest =>
    rw [DirEntries.files, List.map_append, List.nodup_append]
    refine ⟨ihbelow h.2.1 _, ihrest h.2.2 at_, fun a ha b hb heq => ?_⟩
    obtain ⟨x, hx, rfl⟩ := List.mem_map.mp ha
    obtain ⟨y, hy, rfl⟩ := List.mem_map.mp hb
    obtain ⟨m, tail, _, hplace⟩ := files_below hx
    rw [List.append_assoc] at hplace
    exact files_ne h.1 hy (heq.symm.trans hplace)
  | other n rest ih => exact ih h.2 at_

theorem places_nodup (h : es.Distinct) : ((es.files []).map FoundFile.place).Nodup := by
  have hmap : (es.files []).map FoundFile.place =
      ((es.files []).map fun x => x.dir ++ [x.name]).map fun l => l.map (·.val) := by
    rw [List.map_map]
    rfl
  rw [hmap]
  exact (files_nodup h []).map (List.map_injective_iff.mpr Subtype.val_injective)

end

/-! ### Completeness -/

section

variable {s : DbState} {roots : String → Option WalkedRoot} {folderId : ℕ} {x : FoundFile}
  {cs : List ConflictEntry}

/-- The rows of a folder have one path. -/
theorem localPath_of_id {row row' : SyncPair} (hrow : row ∈ s.val.listSyncFolders)
    (hrow' : row' ∈ s.val.listSyncFolders) (hid : row.id = row'.id) : row.localPath = row'.localPath := by
  obtain ⟨f, hf, p, _, _, _, rfl⟩ := Database.mem_listSyncFolders.mp hrow
  obtain ⟨g, hg, q, _, _, _, rfl⟩ := Database.mem_listSyncFolders.mp hrow'
  rw [List.inj_on_of_nodup_map s.keys.syncFolders hf hg hid]

theorem mem_backupsOf : x ∈ backupsOf s.val roots folderId ↔ x.isBackup = true ∧
    ∃ root, SeenIn roots s.val.listSyncFolders root folderId x := by
  unfold backupsOf SeenIn
  cases hfound : s.val.listSyncFolders.find? fun row => decide (row.id = folderId) with
  | none =>
    refine iff_of_false List.not_mem_nil ?_
    rintro ⟨_, _, row, hrow, _, rfl, _⟩
    exact List.find?_eq_none.mp hfound row hrow (decide_eq_true rfl)
  | some first =>
    have hfirst : first ∈ s.val.listSyncFolders := List.mem_of_find?_eq_some hfound
    have hid : first.id = folderId := by simpa using List.find?_some hfound
    dsimp only
    constructor
    · intro hx
      cases hroot : roots first.localPath with
      | none =>
        rw [hroot] at hx
        cases hx
      | some root =>
        rw [hroot] at hx
        obtain ⟨hmem, hbackup⟩ := List.mem_filter.mp hx
        exact ⟨hbackup, root, first, hfirst, hroot, hid.symm, hmem⟩
    · rintro ⟨hbackup, root, row, hrow, hroot, rfl, hmem⟩
      rw [localPath_of_id hfirst hrow hid, hroot]
      exact List.mem_filter.mpr ⟨hmem, hbackup⟩

/-- The backups of a folder are at different places. -/
theorem backupsOf_nodup (folderId : ℕ) : ((backupsOf s.val roots folderId).map FoundFile.place).Nodup := by
  unfold backupsOf
  split
  · exact List.nodup_nil
  · split
    · exact List.nodup_nil
    · rename_i root _
      exact (places_nodup root.distinct).sublist (List.filter_sublist.map _)

/-- **A list that is returned** has each path once, of a file that was seen, and that of each file
whose name is that of a backup; and all directories could be read. -/
theorem listed_of_ok (h : listConflicts s.val roots = .ok cs) :
    (∀ row ∈ s.val.listSyncFolders, ∀ root, roots row.localPath = some root → root.entries.Readable) ∧
      Listed (SeenIn roots s.val.listSyncFolders) cs := by
  have hstart : Listed (fun _ _ _ => False) ([] : List ConflictEntry) := ⟨List.nodup_nil, nofun, nofun⟩
  obtain ⟨hreadable, hlisted⟩ := hstart.walkRows h
  exact ⟨hreadable, hlisted.congr fun _ _ _ => Iff.of_eq (false_or _)⟩

/-- What is listed is a backup of its folder, and its name is text. -/
theorem backup_of_reported {root : WalkedRoot} {c : ConflictEntry}
    (hseen : SeenIn roots s.val.listSyncFolders root folderId x) (h : Reported root folderId x c) :
    x ∈ backupsOf s.val roots folderId ∧ (∃ cs, x.name.val = osStr cs) ∧
      ∃ backupMeta, x.metadata = .ok backupMeta := by
  obtain ⟨_, _, _, _, backupMeta, hparsed, _, hmeta, _⟩ := h
  obtain ⟨hbackup, htext⟩ := parses_iff.mp (by rw [hparsed]; rfl)
  exact ⟨mem_backupsOf.mpr ⟨hbackup, root, hseen⟩, htext, backupMeta, hmeta⟩

/-- The counts are those of the list. -/
theorem counts_of_ok (h : listConflicts s.val roots = .ok cs) : ∃ counts,
    folderConflictCounts s.val roots = .ok counts ∧
      ∀ folderId, (counts.lookup folderId).getD 0 = cs.countP fun c => decide (c.folderId = folderId) := by
  unfold folderConflictCounts
  rw [h]
  exact ⟨_, rfl, lookup_counts cs⟩

/-- A file that a complete list has under its path and folder is the only backup displayed so. -/
theorem listable_of_complete (h : listConflicts s.val roots = .ok cs)
    (hcomplete : CompleteListing s.val roots cs) : Listable s.val roots := by
  obtain ⟨hreadable, hlisted⟩ := listed_of_ok h
  -- the one entry of a path is of the folder of any backup that is displayed so
  have hentry : ∀ folderId, ∀ x ∈ backupsOf s.val roots folderId, ∃ c ∈ cs, c.folderId = folderId ∧
      c.backupPath = x.path := by
    intro folderId x hx
    have hmem : x.path ∈ (cs.filter fun c => decide (c.folderId = folderId)).map (·.backupPath) :=
      (hcomplete.once folderId).mem_iff.mpr (List.mem_map_of_mem hx)
    obtain ⟨c, hc, hpath⟩ := List.mem_map.mp hmem
    obtain ⟨hc, hid⟩ := List.mem_filter.mp hc
    exact ⟨c, hc, of_decide_eq_true hid, hpath⟩
  have hapart : ∀ folderId folderId', ∀ x ∈ backupsOf s.val roots folderId,
      ∀ x' ∈ backupsOf s.val roots folderId', x.path = x'.path → folderId = folderId' ∧ x = x' := by
    intro folderId folderId' x hx x' hx' hpath
    obtain ⟨c, hc, hid, hcpath⟩ := hentry folderId x hx
    obtain ⟨c', hc', hid', hcpath'⟩ := hentry folderId' x' hx'
    have hsame : c = c' := List.inj_on_of_nodup_map hlisted.nodup hc hc'
      (hcpath.trans (hpath.trans hcpath'.symm))
    have hfolder : folderId = folderId' := hid.symm.trans ((congrArg (·.folderId) hsame).trans hid')
    subst hfolder
    have hnodup : ((backupsOf s.val roots folderId).map (·.path)).Nodup :=
      (hcomplete.once folderId).nodup_iff.mp (hlisted.nodup.sublist (List.filter_sublist.map _))
    exact ⟨rfl, List.inj_on_of_nodup_map hnodup hx hx' hpath⟩
  have hsource : ∀ folderId, ∀ x ∈ backupsOf s.val roots folderId, (∃ cs, x.name.val = osStr cs) ∧
      ∃ backupMeta, x.metadata = .ok backupMeta := by
    intro folderId x hx
    obtain ⟨c, hc, hid, hcpath⟩ := hentry folderId x hx
    obtain ⟨root, i, y, hseen, hreported⟩ := hlisted.only c hc
    obtain ⟨hy, hgood⟩ := backup_of_reported hseen hreported
    have hpath : y.path = x.path := (backupPath_of_reported hreported).1.symm.trans hcpath
    rwa [← (hapart i folderId y hy x hx hpath).2]
  exact ⟨hreadable, fun folderId x hx => (hsource folderId x hx).1,
    fun folderId x hx => (hsource folderId x hx).2,
    fun folderId folderId' x hx x' hx' hpath =>
      (hapart folderId folderId' x hx x' hx' hpath).imp_right fun heq => congrArg _ heq⟩

theorem complete_of_listable (h : Listable s.val roots) :
    ∃ cs, listConflicts s.val roots = .ok cs ∧ CompleteListing s.val roots cs := by
  have hseen : ∀ {root folderId x}, SeenIn roots s.val.listSyncFolders root folderId x → x.isBackup = true →
      x ∈ backupsOf s.val roots folderId := fun hseen hbackup => mem_backupsOf.mpr ⟨hbackup, _, hseen⟩
  obtain ⟨cs, hok⟩ : ∃ cs, listConflicts s.val roots = .ok cs := by
    refine exists_walkRows (fun row hrow root hroot => ⟨h.readable row hrow root hroot, ?_⟩) []
    intro x hx hbackup
    exact h.known row.id x (hseen ⟨row, hrow, hroot, rfl, hx⟩ hbackup)
  obtain ⟨_, hlisted⟩ := listed_of_ok hok
  refine ⟨cs, hok, fun folderId => ?_, fun c hc => ?_, counts_of_ok hok⟩
  · have hleft : ((cs.filter fun c => decide (c.folderId = folderId)).map (·.backupPath)).Nodup :=
      hlisted.nodup.sublist (List.filter_sublist.map _)
    have hright : ((backupsOf s.val roots folderId).map (·.path)).Nodup := by
      refine (backupsOf_nodup folderId).of_map.map_on fun x hx y hy hpath => ?_
      have hplace := (h.apart folderId folderId x hx y hy hpath).2
      exact List.inj_on_of_nodup_map (backupsOf_nodup folderId) hx hy hplace
    refine (List.perm_ext_iff_of_nodup hleft hright).mpr fun path => ?_
    constructor
    · intro hmem
      obtain ⟨c, hc, rfl⟩ := List.mem_map.mp hmem
      obtain ⟨hc, hid⟩ := List.mem_filter.mp hc
      obtain ⟨root, i, x, hx, hreported⟩ := hlisted.only c hc
      obtain ⟨hpath, hfolder⟩ := backupPath_of_reported hreported
      have hi : i = folderId := hfolder.symm.trans (of_decide_eq_true hid)
      rw [hpath]
      exact List.mem_map_of_mem (hi ▸ (backup_of_reported hx hreported).1)
    · intro hmem
      obtain ⟨x, hx, rfl⟩ := List.mem_map.mp hmem
      obtain ⟨hbackup, root, hx'⟩ := mem_backupsOf.mp hx
      have hparses := parses_iff.mpr ⟨hbackup, h.text folderId x hx⟩
      obtain ⟨c, hc, hcpath⟩ := List.mem_map.mp (hlisted.covers root folderId x hx' hparses)
      obtain ⟨root', i, y, hy, hreported⟩ := hlisted.only c hc
      obtain ⟨hpath, hfolder⟩ := backupPath_of_reported hreported
      have hi : i = folderId :=
        (h.apart i folderId y (backup_of_reported hy hreported).1 x hx (hpath.symm.trans hcpath)).1
      refine List.mem_map.mpr ⟨c, List.mem_filter.mpr ⟨hc, decide_eq_true (hfolder.trans hi)⟩, hcpath⟩
  · obtain ⟨root, i, x, ⟨row, hrow, hroot, rfl, hx⟩, hreported⟩ := hlisted.only c hc
    exact ⟨row, hrow, root, hroot, x, hx, hreported⟩

end

/-- **The list is complete** exactly if all can be read, the backups' own names are text, and no
two backups are displayed alike. -/
theorem listing_complete_iff (s : DbState) (roots : String → Option WalkedRoot) :
    (∃ cs, listConflicts s.val roots = .ok cs ∧ CompleteListing s.val roots cs) ↔ Listable s.val roots :=
  ⟨fun ⟨_, hok, hcomplete⟩ => listable_of_complete hok hcomplete, complete_of_listable⟩

/-- Two folders that each hold a backup, under one name. -/
def sampleRoot : WalkedRoot where
  entries := .file ⟨osName sampleBackup, entryName_osName sampleBackup⟩ (.ok ⟨0, 1⟩) .done
  distinct := ⟨List.not_mem_nil, trivial⟩
  metadata _ := none

theorem backup_hidden : ¬∃ cs, listConflicts photosAndMusic (fun _ => some sampleRoot) = .ok cs ∧
    CompleteListing photosAndMusic (fun _ => some sampleRoot) cs := by
  let s : DbState := ⟨photosAndMusic, by decide⟩
  rintro ⟨cs, hok, hcomplete⟩
  have h : Listable s.val fun _ => some sampleRoot := listable_of_complete hok hcomplete
  have hrow : ∀ row ∈ [(⟨1, "/photos", "phone", "sync"⟩ : SyncPair), ⟨2, "/music", "phone", "sync"⟩],
      row ∈ s.val.listSyncFolders := by
    intro row hrow
    rw [Database.mem_listSyncFolders]
    revert row
    decide
  let x : FoundFile := ⟨[], ⟨osName sampleBackup, entryName_osName sampleBackup⟩, .ok ⟨0, 1⟩⟩
  have hfile : x ∈ sampleRoot.entries.files [] := List.mem_singleton_self x
  have hbackup : x.isBackup = true := by decide +kernel
  have hmem : ∀ row ∈ [(⟨1, "/photos", "phone", "sync"⟩ : SyncPair), ⟨2, "/music", "phone", "sync"⟩],
      x ∈ backupsOf s.val (fun _ => some sampleRoot) row.id := fun row hr =>
    mem_backupsOf.mpr ⟨hbackup, sampleRoot, row, hrow row hr, rfl, rfl, hfile⟩
  have hsame := (h.apart 1 2 x (hmem _ List.mem_cons_self) x (hmem _ (List.mem_cons_of_mem _ List.mem_cons_self))
    rfl).1
  exact absurd hsame (by decide)

/-! ### Folders that are what their files are -/

/-- A folder that can be read through holds these files, under names that are text. -/
structure Shows (metadata : Folder → String → Option FileMeta) (root : WalkedRoot) (f : Folder) : Prop where
  readable : root.entries.Readable
  metadata : root.metadata = metadata f
  files : (root.entries.files []).map (fun x => (x.place, x.metadata)) =
    f.files.entries.map fun y => (y.1.map osName, .ok ⟨y.2.mtime, y.2.data.length⟩)

section

variable {metadata : Folder → String → Option FileMeta} {root : WalkedRoot} {f : Folder} {folderId : ℕ}

theorem path_of_place {x : FoundFile} {d : RelPath} {n : FileName} (hplace : x.place = (d ++ [n]).map osName) :
    x.path = render (d ++ [n]) ∧ x.fileName = n.chars := by
  unfold FoundFile.place at hplace
  rw [List.map_append, List.map_append, List.map_singleton, List.map_singleton] at hplace
  obtain ⟨hdir, hname⟩ := List.append_inj' hplace rfl
  have hname : x.name.val = osStr n.chars := List.singleton_inj.mp hname
  constructor
  · have hchars : x.place.map lossy = (d ++ [n]).map (·.chars) := by
      unfold FoundFile.place
      rw [List.map_append, hdir, List.map_singleton, hname, List.map_append, List.map_map, List.map_append,
        List.map_singleton, List.map_singleton, lossy_osStr]
      congr 1
      exact List.map_congr_left fun m _ => lossy_osStr m.chars
    show String.ofList (['/'].intercalate (x.place.map lossy)) = _
    rw [hchars]
    rfl
  · unfold FoundFile.fileName
    rw [hname, toStr_osStr]
    rfl

/-- A visit of such a file. -/
theorem visit_shown {x : FoundFile} {p : RelPath} {e : FileEntry} (hmetadata : root.metadata = metadata f)
    (hplace : x.place = p.map osName) (hmeta : x.metadata = .ok ⟨e.mtime, e.data.length⟩)
    (out : List ConflictEntry) :
    visit root folderId out x = .ok (FerriSync.visit metadata f folderId out p e) := by
  obtain ⟨d, n, rfl⟩ : ∃ d n, p = d ++ [n] := by
    refine RelPath.eq_append_of_ne_nil ?_
    rintro rfl
    simp [FoundFile.place] at hplace
  obtain ⟨hpath, hname⟩ := path_of_place hplace
  unfold visit FerriSync.visit conflictEntry
  rw [hname, lastName_concat, hpath, hmeta]
  cases parseConflictSuffix n.chars with
  | none => rfl
  | some parsed =>
    dsimp only
    cases winnerRelativePath (render (d ++ [n])).toList with
    | none =>
      dsimp only
      split_ifs <;> rfl
    | some winner =>
      dsimp only
      split_ifs
      · rfl
      · unfold conflict
        rw [hpath, hmetadata]

theorem walkDir_readable {es : DirEntries} {at_ : List DirName} (h : es.Readable) (out : List ConflictEntry) :
    walkDir root folderId at_ es out = (es.files at_).foldlM (visit root folderId) out := by
  induction es generalizing at_ out with
  | done => rfl
  | failed e => exact h.elim
  | file n metadata rest ih =>
    unfold walkDir
    rw [DirEntries.files, List.foldlM_cons]
    cases visit root folderId out ⟨at_, n, metadata⟩ with
    | error e => rfl
    | ok mid => exact ih h mid
  | dir n below rest ihbelow ihrest =>
    unfold walkDir
    rw [DirEntries.files, List.foldlM_append, ihbelow h.1]
    cases (below.files (at_ ++ [n])).foldlM (visit root folderId) out with
    | error e => rfl
    | ok mid => exact ihrest h.2 mid
  | other n rest ih => exact ih h out

/-- A walk through such a folder. -/
theorem walkDir_shown (h : Shows metadata root f) (out : List ConflictEntry) :
    walkDir root folderId [] root.entries out = .ok (FerriSync.walkDir metadata f folderId out) := by
  rw [walkDir_readable h.readable]
  unfold FerriSync.walkDir
  have hfiles := h.files
  generalize root.entries.files [] = xs at hfiles
  generalize f.files.entries = ys at hfiles ⊢
  induction xs generalizing ys out with
  | nil =>
    rw [List.map_eq_nil_iff.mp hfiles.symm]
    rfl
  | cons x xs ih =>
    obtain ⟨y, ys, rfl, hhead, htail⟩ := List.map_eq_cons_iff.mp hfiles.symm
    obtain ⟨hplace, hmeta⟩ := Prod.mk.inj hhead
    rw [List.foldlM_cons, visit_shown h.metadata hplace.symm hmeta.symm]
    exact ih _ ys htail.symm

end

/-- **Where all can be read and all names are text**, the list is that of the folders' files. -/
theorem listConflicts_shown (metadata : Folder → String → Option FileMeta) (db : Database)
    (roots : String → Option WalkedRoot) (folders : String → Option Folder)
    (h : ∀ path, Option.Rel (Shows metadata) (roots path) (folders path)) :
    listConflicts db roots = .ok (FerriSync.listConflicts metadata db folders) := by
  unfold listConflicts FerriSync.listConflicts
  generalize ([] : List ConflictEntry) = out
  induction db.listSyncFolders generalizing out with
  | nil => rfl
  | cons row rows ih =>
    rw [List.foldlM_cons, List.foldl_cons]
    have hrow := h row.localPath
    unfold walkRow
    cases hroot : roots row.localPath with
    | none =>
      rw [hroot] at hrow
      cases hfolder : folders row.localPath with
      | none => exact ih out
      | some f =>
        rw [hfolder] at hrow
        cases hrow
    | some root =>
      rw [hroot] at hrow
      cases hfolder : folders row.localPath with
      | none =>
        rw [hfolder] at hrow
        cases hrow
      | some f =>
        rw [hfolder] at hrow
        cases hrow with
        | some hshows =>
          dsimp only
          rw [walkDir_shown hshows]
          exact ih _

end ConflictWalk

end FerriSync
