/-
# Conflict backups and their list

`conflicts.rs`: a file whose name holds the marker of a backup, with a time and a
label after it (`parseConflictSuffix`), is one, and what comes before the marker
names the file it was made of (`winnerRelativePath`). `list_conflicts` walks through
the folders of all enabled pairs and reports each backup once: that of the folder with the
smallest number, of those that have a backup of one path (`mem_listConflicts`).

Folders are here what their files are: all their directories, entries and metadata can be
read, and all names are text. The walk that may fail anywhere, and meets any names, is in
`ConflictWalk`, which goes the same way on these folders.

The session names a backup after the copy that lost, which is the one it keeps, by
the label of the copy that won. A client gives the peer's id as that label, so its
backups are listed as copies of the other side (`backup_listed_iff`).

What the system says of a path that a winner is looked up by may be anything.

Key definitions: `parseConflictSuffix`, `winnerRelativePath`, `listConflicts`,
`BackupListed`.
Key theorems: `parse_backup`, `mem_listConflicts`, `backup_listed_iff`.
-/
import FerriSync.Bulk
import FerriSync.Commit
import FerriSync.Lib.Keyed
import FerriSync.Lib.LastSplit
import FerriSync.Lib.Unsigned

namespace FerriSync

open Keyed LastSplit

/-! ### Path strings -/

namespace PathString

/-- A part that is no component, unless it comes first. -/
def trivial (part : List Char) : Bool := decide (part = []) || decide (part = ['.'])

def trimRight (parts : List (List Char)) : List (List Char) :=
  (parts.reverse.dropWhile trivial).reverse

/-- What a path string begins with, a slash or a dot, and the parts that follow. -/
def body (path : List Char) : List Char × List (List Char) :=
  match path.splitOn '/' with
  | [] => ([], [])
  | part :: parts =>
    if part = [] ∧ parts ≠ [] then (['/'], parts)
    else if part = ['.'] then (['.'], parts)
    else ([], part :: parts)

/-- `Path::file_name`. -/
def fileName (path : List Char) : Option (List Char) :=
  (trimRight (body path).2).getLast?.filter fun part => decide (part ≠ ['.', '.'])

/-- The parts again as a string. -/
def join (start : List Char) (parts : List (List Char)) : List Char :=
  if start = ['.'] ∧ parts ≠ [] then '.' :: '/' :: ['/'].intercalate parts
  else start ++ ['/'].intercalate parts

/-- `Path::parent`. -/
def parent (path : List Char) : Option (List Char) :=
  let (start, parts) := body path
  if trimRight parts = [] then if start = ['.'] then some [] else none
  else some (join start (trimRight (trimRight parts).dropLast))

end PathString

/-! ### Names of backups -/

/-- `str::parse` for a `u64`. -/
def parseU64 (cs : List Char) : Option UInt64 := (Unsigned.parse UInt64.size cs).map UInt64.ofNat

/-- `splitn(3, '-')`, if there are three parts. -/
def threeParts (cs : List Char) : Option (List Char × List Char × List Char) :=
  match cs.dropWhile fun c => decide (c ≠ '-') with
  | [] => none
  | _ :: rest =>
    match rest.dropWhile fun c => decide (c ≠ '-') with
    | [] => none
    | _ :: last => some (cs.takeWhile fun c => decide (c ≠ '-'),
        rest.takeWhile fun c => decide (c ≠ '-'), last)

/-- Parse the `{ts}-{loser_label}-{short_hash}` tail of a conflict file name. -/
def parseConflictSuffix (fileName : List Char) : Option (UInt64 × List Char × List Char) :=
  match splitLast conflictTag fileName with
  | none => none
  | some (_, tail) =>
    match threeParts tail with
    | none => none
    | some (ts, label, hash) =>
      match parseU64 ts with
      | none => none
      | some ts => if label = [] then none else some (ts, label, hash)

/-- The real file's relative path. -/
def winnerRelativePath (backupRelative : List Char) : Option (List Char) :=
  match PathString.fileName backupRelative with
  | none => none
  | some fileName =>
    match splitLast conflictTag fileName with
    | none => none
    | some (original, _) =>
      match PathString.parent backupRelative with
      | none => some original
      | some dir => some (if dir = [] then original else dir ++ '/' :: original)

/-! #### What backups are called -/

theorem parseU64_repr (n : UInt64) : parseU64 (Nat.repr n.toNat).toList = some n := by
  unfold parseU64
  rw [Unsigned.parse_repr n.toNat_lt, Option.map_some, UInt64.ofNat_toNat]

theorem threeParts_of_dashes {a b c : List Char} (ha : '-' ∉ a) (hb : '-' ∉ b) :
    threeParts (a ++ '-' :: (b ++ '-' :: c)) = some (a, b, c) := by
  have hcut : ∀ {x : List Char}, '-' ∉ x → ∀ y : List Char,
      (x ++ '-' :: y).dropWhile (fun c => decide (c ≠ '-')) = '-' :: y ∧
      (x ++ '-' :: y).takeWhile (fun c => decide (c ≠ '-')) = x := by
    intro x hx y
    have hpos : ∀ z ∈ x, decide (z ≠ '-') = true := by
      intro z hz
      exact decide_eq_true (fun heq => hx (heq ▸ hz))
    rw [List.dropWhile_append_of_pos hpos, List.takeWhile_append_of_pos hpos]
    simp
  unfold threeParts
  rw [(hcut ha _).1, (hcut ha _).2]
  dsimp only
  rw [(hcut hb _).1, (hcut hb _).2]

theorem conflictTag_eq : conflictTag = '.' :: conflictTag.tail := rfl

theorem dot_notMem_tag : '.' ∉ conflictTag.tail := by decide

/-- The marker of a backup's name is the last one. -/
theorem splitLast_backup (n : FileName) (ts : ℕ) (loser : LoserLabel) (hash : FileHash) :
    splitLast conflictTag (n.backup ts loser hash).chars =
      some (n.chars, (Nat.repr ts).toList ++ '-' :: (loser.chars ++ '-' :: shortHash hash)) := by
  obtain ⟨cs, hcs, hdot⟩ := exists_conflictSuffix ts loser hash
  have hname : (n.backup ts loser hash).chars = n.chars ++ (conflictTag ++
      ((Nat.repr ts).toList ++ '-' :: (loser.chars ++ '-' :: shortHash hash))) := rfl
  rw [hname, conflictTag_eq]
  apply splitLast_mark dot_notMem_tag
  intro h
  have htail : cs = conflictTag.tail ++
      ((Nat.repr ts).toList ++ '-' :: (loser.chars ++ '-' :: shortHash hash)) :=
    (List.cons_eq_cons.mp hcs).2.symm
  exact hdot (htail ▸ List.mem_append_right _ h)

/-- **A backup's name says when it was made and whose copy it is.** -/
theorem parse_backup (n : FileName) (ts : UInt64) (loser : LoserLabel) (hash : FileHash) :
    parseConflictSuffix (n.backup ts.toNat loser hash).chars =
      some (ts, loser.chars, shortHash hash) := by
  have hts : '-' ∉ (Nat.repr ts.toNat).toList := by
    intro h
    rw [Nat.toList_repr] at h
    have hdigit := Nat.isDigit_of_mem_toDigits (by omega) (by omega) h
    revert hdigit
    decide
  have hloser : '-' ∉ loser.chars ∧ loser.chars ≠ [] := by cases loser <;> decide
  unfold parseConflictSuffix
  rw [splitLast_backup]
  dsimp only
  rw [threeParts_of_dashes hts hloser.1]
  dsimp only
  rw [parseU64_repr]
  exact if_neg hloser.2

/-! ### Paths in a folder -/

theorem trimRight_names (d : RelPath) :
    PathString.trimRight (d.map (·.chars)) = d.map (·.chars) := by
  unfold PathString.trimRight
  rcases List.eq_nil_or_concat d with rfl | ⟨d, n, rfl⟩
  · rfl
  · have hname : PathString.trivial n.chars = false := by
      simp [PathString.trivial, n.ne_nil, n.not_dot]
    simp [hname]

theorem body_render {p : RelPath} (hp : p ≠ []) :
    PathString.body (render p).toList = ([], p.map (·.chars)) := by
  unfold PathString.body
  rw [render_parts p hp]
  cases p with
  | nil => exact absurd rfl hp
  | cons n p => simp [n.ne_nil, n.not_dot]

theorem fileName_render (d : RelPath) (n : FileName) :
    PathString.fileName (render (d ++ [n])).toList = some n.chars := by
  unfold PathString.fileName
  rw [body_render (by simp), trimRight_names]
  simp [n.not_dotdot]

theorem parent_render (d : RelPath) (n : FileName) :
    PathString.parent (render (d ++ [n])).toList = some (render d).toList := by
  unfold PathString.parent
  rw [body_render (by simp)]
  dsimp only
  have hne : (d ++ [n]).map (·.chars) ≠ [] := by simp
  rw [trimRight_names, if_neg hne, List.map_append, List.map_singleton, List.dropLast_concat,
    trimRight_names]
  simp [PathString.join, render]

theorem intercalate_concat {α : Type} (x : α) (l : List α) : ∀ ls : List (List α), ls ≠ [] →
    [x].intercalate (ls ++ [l]) = [x].intercalate ls ++ x :: l
  | [], h => absurd rfl h
  | [k], _ => by simp [List.intercalate_cons_cons]
  | k :: k' :: ls, _ => by
    have ih := intercalate_concat x l (k' :: ls) (by simp)
    rw [List.cons_append, List.cons_append, List.intercalate_cons_cons, List.intercalate_cons_cons,
      ← List.cons_append, ih]
    simp

/-- A name below a directory. -/
def below (d : RelPath) (name : List Char) : List Char :=
  if d = [] then name else (render d).toList ++ '/' :: name

theorem render_concat (d : RelPath) (n : FileName) :
    (render (d ++ [n])).toList = below d n.chars := by
  unfold below render
  rw [String.toList_ofList, List.map_append, List.map_singleton]
  split_ifs with hd
  · simp [hd]
  · rw [intercalate_concat _ _ _ (by simpa using hd), String.toList_ofList]

theorem render_toList_eq_nil {d : RelPath} : (render d).toList = [] ↔ d = [] := by
  constructor
  · intro h
    rcases List.eq_nil_or_concat d with rfl | ⟨d, n, rfl⟩
    · rfl
    · rw [List.concat_eq_append, render_concat] at h
      unfold below at h
      split_ifs at h
      · exact absurd h n.ne_nil
      · simp at h
  · rintro rfl
    rfl

/-- What is in a backup's name before the marker, in the backup's directory. -/
theorem winnerRelativePath_render {d : RelPath} {n : FileName} {original tail : List Char}
    (h : splitLast conflictTag n.chars = some (original, tail)) :
    winnerRelativePath (render (d ++ [n])).toList = some (below d original) := by
  unfold winnerRelativePath
  rw [fileName_render, parent_render]
  dsimp only
  rw [h]
  dsimp only
  rw [if_congr render_toList_eq_nil rfl rfl]
  rfl

/-! ### The list -/

/-- One conflict backup found on disk. -/
structure ConflictEntry where
  folderId : ℕ
  /-- Relative path of the real (winner) file. -/
  path : String
  backupPath : String
  /-- Which version the backup holds. -/
  loserLabel : String
  winnerMtimeSecs : ℤ
  winnerSize : ℕ
  loserMtimeSecs : ℤ
  loserSize : ℕ
deriving DecidableEq, Repr

/-- What the system says of a file: its modification time in nanoseconds and its size. -/
structure FileMeta where
  mtime : ℤ
  len : ℕ

/-- Unix seconds of a file's modified time, or 0 when unknown. -/
def mtimeSecs (m : Option FileMeta) : ℤ :=
  match m with
  | none => 0
  | some m => if m.mtime < 0 then 0 else m.mtime / 1000000000

/-- The last name of a path. -/
def lastName (p : RelPath) : List Char := (p.getLast?.map (·.chars)).getD []

section

-- What the system says of a path string below a folder's root.
variable (metadata : Folder → String → Option FileMeta)

/-- What the walk reports of a file. -/
def conflictEntry (f : Folder) (folderId : ℕ) (p : RelPath) (e : FileEntry) :
    Option ConflictEntry :=
  match parseConflictSuffix (lastName p) with
  | none => none
  | some (_, label, _) =>
    match winnerRelativePath (render p).toList with
    | none => none
    | some winner =>
      let winnerMeta := metadata f (String.ofList winner)
      some {
        folderId := folderId
        path := String.ofList winner
        backupPath := render p
        loserLabel := String.ofList label
        winnerMtimeSecs := mtimeSecs winnerMeta
        winnerSize := (winnerMeta.map (·.len)).getD 0
        loserMtimeSecs := mtimeSecs (some ⟨e.mtime, e.data.length⟩)
        loserSize := e.data.length }

/-- A file as the walk meets it: a backup path that is already listed is skipped. -/
def visit (f : Folder) (folderId : ℕ) (out : List ConflictEntry) (p : RelPath) (e : FileEntry) :
    List ConflictEntry :=
  match conflictEntry metadata f folderId p e with
  | none => out
  | some c => if out.any fun b => decide (b.backupPath = c.backupPath) then out else out ++ [c]

/-- Walk a folder tree, collecting every conflict backup. -/
def walkDir (f : Folder) (folderId : ℕ) (out : List ConflictEntry) : List ConflictEntry :=
  f.files.entries.foldl (fun out x => visit metadata f folderId out x.1 x.2) out

/-- List every conflict backup across all configured sync folders; `roots` are those that can
be opened. -/
def listConflicts (db : Database) (roots : String → Option Folder) : List ConflictEntry :=
  db.listSyncFolders.foldl (fun out row =>
    match roots row.localPath with
    | none => out
    | some f => walkDir metadata f row.id out) []

/-- Per-folder conflict counts. -/
def folderConflictCounts (db : Database) (roots : String → Option Folder) :
    AList fun _ : ℕ => ℕ :=
  (listConflicts metadata db roots).foldl (fun counts c =>
    counts.insert c.folderId ((counts.lookup c.folderId).getD 0 + 1)) ∅

end

/-! ### What is listed -/

/-- The rows come by their folders' numbers. -/
theorem Database.listSyncFolders_sorted (db : Database) :
    db.listSyncFolders.Pairwise fun row row' => row.id ≤ row'.id := by
  have hsorted := @List.pairwise_mergeSort SyncPair
    (fun a b => decide (a.id < b.id) || decide (a.id = b.id) && decide (a.deviceId ≤ b.deviceId))
    (by
      intro a b c hab hbc
      simp only [Bool.or_eq_true, Bool.and_eq_true, decide_eq_true_eq] at hab hbc ⊢
      rcases hab with hab | ⟨hab, hdab⟩
      · rcases hbc with hbc | ⟨hbc, -⟩
        · exact Or.inl (hab.trans hbc)
        · exact Or.inl (hbc ▸ hab)
      · rcases hbc with hbc | ⟨hbc, hdbc⟩
        · exact Or.inl (hab ▸ hbc)
        · exact Or.inr ⟨hab.trans hbc, String.le_trans hdab hdbc⟩)
    (by
      intro a b
      simp only [Bool.or_eq_true, Bool.and_eq_true, decide_eq_true_eq]
      rcases Nat.lt_trichotomy a.id b.id with h | h | h
      · exact Or.inl (Or.inl h)
      · rcases String.le_total a.deviceId b.deviceId with hd | hd
        · exact Or.inl (Or.inr ⟨h, hd⟩)
        · exact Or.inr (Or.inr ⟨h.symm, hd⟩)
      · exact Or.inr (Or.inl h))
    (db.syncFolders.flatMap fun f =>
      (db.folderDevices.filter fun p => decide (p.folderId = f.id) && p.enabled).map fun p =>
        ⟨f.id, f.localPath, p.deviceId, p.mode⟩)
  refine hsorted.imp ?_
  intro a b h
  simp only [Bool.or_eq_true, Bool.and_eq_true, decide_eq_true_eq] at h
  omega

/-- The name is that of a backup. -/
def isConflict (p : RelPath) : Bool := (parseConflictSuffix (lastName p)).isSome

theorem lastName_concat (d : RelPath) (n : FileName) : lastName (d ++ [n]) = n.chars := by
  simp [lastName]

theorem isConflict_ne_nil {p : RelPath} (h : isConflict p = true) : p ≠ [] := by
  rintro rfl
  cases h

theorem exists_splitLast {cs : List Char} (h : (parseConflictSuffix cs).isSome = true) :
    ∃ original tail, splitLast conflictTag cs = some (original, tail) := by
  unfold parseConflictSuffix at h
  cases hsplit : splitLast conflictTag cs with
  | none =>
    rw [hsplit] at h
    cases h
  | some s => exact ⟨s.1, s.2, rfl⟩

section

variable {metadata : Folder → String → Option FileMeta} {f : Folder} {folderId : ℕ} {p : RelPath}
  {e : FileEntry} {c : ConflictEntry}

/-- What the walk reports of a backup. -/
theorem conflictEntry_concat {d : RelPath} {n : FileName} {original tail label hash : List Char}
    {ts : UInt64} (hsplit : splitLast conflictTag n.chars = some (original, tail))
    (hparsed : parseConflictSuffix n.chars = some (ts, label, hash)) :
    conflictEntry metadata f folderId (d ++ [n]) e = some {
      folderId := folderId
      path := String.ofList (below d original)
      backupPath := render (d ++ [n])
      loserLabel := String.ofList label
      winnerMtimeSecs := mtimeSecs (metadata f (String.ofList (below d original)))
      winnerSize := ((metadata f (String.ofList (below d original))).map (·.len)).getD 0
      loserMtimeSecs := mtimeSecs (some ⟨e.mtime, e.data.length⟩)
      loserSize := e.data.length } := by
  simp only [conflictEntry, lastName_concat, hparsed, winnerRelativePath_render hsplit]

/-- The walk reports the backups. -/
theorem exists_conflictEntry (h : isConflict p = true) :
    ∃ c, conflictEntry metadata f folderId p e = some c := by
  rcases List.eq_nil_or_concat p with rfl | ⟨d, n, rfl⟩
  · cases h
  · rw [List.concat_eq_append] at h ⊢
    unfold isConflict at h
    rw [lastName_concat] at h
    obtain ⟨original, tail, hsplit⟩ := exists_splitLast h
    obtain ⟨parsed, hparsed⟩ := Option.isSome_iff_exists.mp h
    obtain ⟨ts, label, hash⟩ := parsed
    exact ⟨_, conflictEntry_concat hsplit hparsed⟩

theorem conflictEntry_eq (h : conflictEntry metadata f folderId p e = some c) :
    isConflict p = true ∧ c.folderId = folderId ∧ c.backupPath = render p := by
  unfold conflictEntry at h
  cases hparsed : parseConflictSuffix (lastName p) with
  | none =>
    rw [hparsed] at h
    cases h
  | some parsed =>
    rw [hparsed] at h
    dsimp only at h
    cases hwinner : winnerRelativePath (render p).toList with
    | none =>
      rw [hwinner] at h
      cases h
    | some winner =>
      rw [hwinner] at h
      cases h
      exact ⟨by rw [isConflict, hparsed]; rfl, rfl, rfl⟩

end

section

variable (metadata : Folder → String → Option FileMeta)

/-- All that the walk meets in a folder. -/
def walked (f : Folder) (folderId : ℕ) : List ConflictEntry :=
  f.files.entries.filterMap fun x => conflictEntry metadata f folderId x.1 x.2

/-- All that the walk meets in the folders of all rows. -/
def found (db : Database) (roots : String → Option Folder) : List ConflictEntry :=
  db.listSyncFolders.flatMap fun row =>
    match roots row.localPath with
    | none => []
    | some f => walked metadata f row.id

end

section

variable {metadata : Folder → String → Option FileMeta} {db : Database}
  {roots : String → Option Folder} {c : ConflictEntry} {folderId : ℕ} {p : RelPath}

theorem walkDir_eq (f : Folder) (folderId : ℕ) (out : List ConflictEntry) :
    walkDir metadata f folderId out =
      (walked metadata f folderId).foldl (addFirst ConflictEntry.backupPath) out := by
  unfold walkDir walked
  induction f.files.entries generalizing out with
  | nil => rfl
  | cons x xs ih =>
    rw [List.foldl_cons, ih, List.filterMap_cons]
    cases hc : conflictEntry metadata f folderId x.1 x.2 with
    | none => simp only [visit, hc]
    | some c =>
      simp only [visit, hc]
      rfl

/-- The list has the first of the backups of each path. -/
theorem listConflicts_eq :
    listConflicts metadata db roots = keepFirst ConflictEntry.backupPath (found metadata db roots) := by
  have hrows : ∀ (rows : List SyncPair) (out : List ConflictEntry),
      rows.foldl (fun out row =>
        match roots row.localPath with
        | none => out
        | some f => walkDir metadata f row.id out) out =
      (rows.flatMap fun row =>
        match roots row.localPath with
        | none => []
        | some f => walked metadata f row.id).foldl (addFirst ConflictEntry.backupPath) out := by
    intro rows
    induction rows with
    | nil => exact fun out => rfl
    | cons row rows ih =>
      intro out
      rw [List.foldl_cons, List.flatMap_cons, List.foldl_append, ih]
      cases roots row.localPath with
      | none => rfl
      | some f =>
        dsimp only
        rw [walkDir_eq]
  exact hrows _ _

theorem mem_found : c ∈ found metadata db roots ↔ ∃ row ∈ db.listSyncFolders, ∃ f,
    roots row.localPath = some f ∧ ∃ p e, f.entry p = some e ∧
      conflictEntry metadata f row.id p e = some c := by
  unfold found walked
  rw [List.mem_flatMap]
  refine exists_congr fun row => and_congr_right fun _ => ?_
  cases roots row.localPath with
  | none => simp
  | some f =>
    simp only [Option.some.injEq, exists_eq_left', List.mem_filterMap]
    constructor
    · rintro ⟨⟨p, e⟩, hx, hc⟩
      exact ⟨p, e, AList.mem_lookup_iff.mpr hx, hc⟩
    · rintro ⟨p, e, hx, hc⟩
      exact ⟨⟨p, e⟩, AList.mem_lookup_iff.mp hx, hc⟩

/-- What is found comes by the numbers of the folders. -/
theorem found_sorted : (found metadata db roots).Pairwise fun c c' => c.folderId ≤ c'.folderId := by
  have hid : ∀ (row : SyncPair) (c : ConflictEntry), c ∈ (match roots row.localPath with
      | none => []
      | some f => walked metadata f row.id) → c.folderId = row.id := by
    intro row c hc
    cases hroot : roots row.localPath with
    | none =>
      rw [hroot] at hc
      cases hc
    | some f =>
      rw [hroot] at hc
      obtain ⟨x, -, hx⟩ := List.mem_filterMap.mp hc
      exact (conflictEntry_eq hx).2.1
  unfold found
  apply List.pairwise_flatMap.mpr
  constructor
  · intro row _
    apply List.pairwise_of_forall_mem_list
    intro c hc c' hc'
    rw [hid row c hc, hid row c' hc']
  · refine db.listSyncFolders_sorted.imp ?_
    intro row row' hle c hc c' hc'
    rw [hid row c hc, hid row' c' hc']
    exact hle

/-- The folder has a backup of this path. -/
def HasBackup (db : Database) (roots : String → Option Folder) (folderId : ℕ) (p : RelPath) : Prop :=
  isConflict p = true ∧ ∃ row ∈ db.listSyncFolders, row.id = folderId ∧
    ∃ f, roots row.localPath = some f ∧ (f.entry p).isSome = true

theorem exists_found : HasBackup db roots folderId p ↔
    ∃ c ∈ found metadata db roots, c.folderId = folderId ∧ c.backupPath = render p := by
  constructor
  · rintro ⟨hp, row, hrow, rfl, f, hroot, he⟩
    obtain ⟨e, he⟩ := Option.isSome_iff_exists.mp he
    obtain ⟨c, hc⟩ := @exists_conflictEntry metadata f row.id p e hp
    exact ⟨c, mem_found.mpr ⟨row, hrow, f, hroot, p, e, he, hc⟩, (conflictEntry_eq hc).2⟩
  · rintro ⟨c, hc, rfl, hpath⟩
    obtain ⟨row, hrow, f, hroot, q, e, he, hc⟩ := mem_found.mp hc
    obtain ⟨hq, hid, hback⟩ := conflictEntry_eq hc
    have hp : p ≠ [] := by
      rintro rfl
      have hnil : (render q).toList = [] := by rw [← hback, hpath]; rfl
      exact isConflict_ne_nil hq (render_toList_eq_nil.mp hnil)
    obtain rfl := render_injective (isConflict_ne_nil hq) hp (hback.symm.trans hpath)
    exact ⟨hq, row, hrow, hid.symm, f, hroot, by rw [he]; rfl⟩

/-- **A backup is listed for the folder of the smallest number that has one of its
path.** -/
theorem mem_listConflicts :
    (∃ c ∈ listConflicts metadata db roots, c.folderId = folderId ∧ c.backupPath = render p) ↔
      HasBackup db roots folderId p ∧ ∀ id < folderId, ¬HasBackup db roots id p := by
  rw [listConflicts_eq]
  -- of those found with one path, the one kept is of no larger folder than the others
  have hfirst : ∀ c ∈ keepFirst ConflictEntry.backupPath (found metadata db roots),
      c.backupPath = render p → ∀ id, HasBackup db roots id p → c.folderId ≤ id := by
    intro c hc hpath id hid
    obtain ⟨b, hb, rfl, hbpath⟩ := (@exists_found metadata db roots id p).mp hid
    obtain ⟨before, after, hsplit, hnew⟩ := mem_keepFirst.mp hc
    have hsorted := @found_sorted metadata db roots
    rw [hsplit] at hb hsorted
    rcases List.mem_append.mp hb with hb | hb
    · exact absurd (List.mem_map.mpr ⟨b, hb, hbpath.trans hpath.symm⟩) hnew
    · rcases List.mem_cons.mp hb with rfl | hb
      · exact le_rfl
      · exact (List.pairwise_cons.mp (List.pairwise_append.mp hsorted).2.1).1 b hb
  constructor
  · rintro ⟨c, hc, rfl, hpath⟩
    refine ⟨(@exists_found metadata db roots _ p).mpr ⟨c, mem_of_mem_keepFirst hc, rfl, hpath⟩, ?_⟩
    intro id hlt hid
    exact absurd (hfirst c hc hpath id hid) (Nat.not_le.mpr hlt)
  · rintro ⟨hhas, hleast⟩
    obtain ⟨b, hb, hid, hpath⟩ := (@exists_found metadata db roots folderId p).mp hhas
    have hkept : ∃ c ∈ keepFirst ConflictEntry.backupPath (found metadata db roots),
        c.backupPath = b.backupPath := exists_mem_keepFirst hb
    obtain ⟨c, hc, hkey⟩ := hkept
    have hcpath : c.backupPath = render p := hkey.trans hpath
    have hle := hfirst c hc hcpath folderId hhas
    have hother : HasBackup db roots c.folderId p :=
      (@exists_found metadata db roots _ p).mpr ⟨c, mem_of_mem_keepFirst hc, rfl, hcpath⟩
    have hge : folderId ≤ c.folderId := Nat.not_lt.mp fun hlt => hleast c.folderId hlt hother
    exact ⟨c, hc, Nat.le_antisymm hle hge, hcpath⟩

/-- Counting the entries of each folder in turn. -/
theorem lookup_counts (cs : List ConflictEntry) (folderId : ℕ) :
    ((cs.foldl (fun (counts : AList fun _ : ℕ => ℕ) c =>
      counts.insert c.folderId ((counts.lookup c.folderId).getD 0 + 1)) ∅).lookup folderId).getD 0 =
      cs.countP fun c => decide (c.folderId = folderId) := by
  induction cs using List.reverseRecOn with
  | nil => rfl
  | append_singleton cs c ih =>
    rw [List.foldl_concat, List.countP_append, List.countP_singleton]
    by_cases hid : c.folderId = folderId
    · subst hid
      rw [AList.lookup_insert, ih]
      simp
    · rw [AList.lookup_insert_ne (Ne.symm hid), ih]
      simp [hid]

/-- The counts are those of the list. -/
theorem lookup_folderConflictCounts (folderId : ℕ) :
    ((folderConflictCounts metadata db roots).lookup folderId).getD 0 =
      (listConflicts metadata db roots).countP fun c => decide (c.folderId = folderId) :=
  lookup_counts _ folderId

end

/-- Two folders with a backup of the same name. -/
def photosAndMusic : Database :=
  { Database.empty with
    devices := [⟨"phone", "Phone", none, none⟩]
    syncFolders := [⟨1, "/photos", none, "phone", "sync", none⟩, ⟨2, "/music", none, "phone", "sync", none⟩]
    folderDevices := [⟨1, "phone", "sync", none, true⟩, ⟨2, "phone", "sync", none, true⟩]
    folderSeq := 2 }

/-- The backup of a file `f`. -/
def sampleBackup : FileName := sampleName.backup 1700000000 .localCopy (sampleBlake3 [97])

/-! ### What a session leaves -/

section

variable {metadata : Folder → String → Option FileMeta} {db : Database}
  {roots : String → Option Folder} {c : ConflictEntry} {t : Target} {old data : Bytes} {mtime : ℤ}
  {f g : Folder} {ts : UInt64} {winner : String} {blake3 : Bytes → FileHash} {conflicted : Bool}

/-- A commit that overwrites other content leaves that in the backup. -/
theorem commit_backup (hold : f.content t.path = some old) (hne : old ≠ data)
    (h : commitFile blake3 ts.toNat winner t data mtime f = (.ok conflicted, g)) :
    t.path ≠ [] ∧ g.content (backupPath blake3 ts.toNat winner t data) = some old := by
  have htarget : t.path ≠ [] ∧ g.content t.path = some data := by
    unfold commitFile at h
    rcases hp : prepare blake3 ts.toNat winner t data f with ⟨_ | b, f'⟩
    · rw [hp] at h
      cases h
    · rw [hp] at h
      dsimp only at h
      rcases install_cases t data mtime f' with
        (⟨e, hi⟩ | ⟨e, _, hi, -⟩) | ⟨f'', hi, -, hnil, -, hentry⟩
      · rw [hi] at h
        cases h
      · rw [hi] at h
        cases h
      · rw [hi] at h
        cases h
        exact ⟨hnil, Folder.content_eq_some.mpr ⟨_, by rw [hentry, if_pos rfl], rfl⟩⟩
  refine ⟨htarget.1, ?_⟩
  have hboth := @commitFile_target blake3 ⟨"", data, ts.toNat, winner, mtime⟩ f t old hold
  rw [h] at hboth
  rcases hboth with hsame | hbackup
  · exact absurd (Option.some.inj (hsame.symm.trans htarget.2)) hne
  · exact hbackup

theorem isConflict_backup {p : RelPath} (hp : p ≠ []) (ts : UInt64) (loser : LoserLabel)
    (hash : FileHash) : isConflict (p.backup ts.toNat loser hash) = true := by
  obtain ⟨d, n, rfl⟩ := RelPath.eq_append_of_ne_nil hp
  unfold isConflict RelPath.backup
  rw [RelPath.mapLast_append, lastName_concat, parse_backup]
  rfl

/-- What the list says of a backup is in its name. -/
theorem listed_backup {p : RelPath} (hp : p ≠ []) {ts : UInt64} {loser : LoserLabel} {hash : FileHash}
    (hc : c ∈ listConflicts metadata db roots) (hpath : c.backupPath = render (p.backup ts.toNat loser hash)) :
    c.path = render p ∧ c.loserLabel = String.ofList loser.chars := by
  rw [listConflicts_eq] at hc
  obtain ⟨row, -, f, -, q, e, -, hentry⟩ := mem_found.mp (mem_of_mem_keepFirst hc)
  obtain ⟨hq, -, hback⟩ := conflictEntry_eq hentry
  obtain rfl := render_injective (isConflict_ne_nil hq)
    (isConflict_ne_nil (isConflict_backup hp ts loser hash)) (hback.symm.trans hpath)
  obtain ⟨d, n, rfl⟩ := RelPath.eq_append_of_ne_nil hp
  unfold RelPath.backup at hentry
  rw [RelPath.mapLast_append,
    conflictEntry_concat (splitLast_backup n ts.toNat loser hash) (parse_backup n ts loser hash)] at hentry
  cases hentry
  refine ⟨?_, rfl⟩
  rw [← render_concat, String.ofList_toList]

end

/-- A backup is listed for its folder, as the local copy of its file. -/
def BackupListed (metadata : Folder → String → Option FileMeta) (db : Database)
    (roots : String → Option Folder) (folderId : ℕ) (p backup : RelPath) : Prop :=
  ∃ c ∈ listConflicts metadata db roots, c.folderId = folderId ∧ c.backupPath = render backup ∧
    c.path = render p ∧ c.loserLabel = "local"

/-- The end is the server, or its peer's id is `remote`. -/
theorem label_eq_remote_iff (cfg : Config) :
    cfg.label = "remote" ↔ cfg.role = .server ∨ cfg.deviceId = "remote" := by
  unfold Config.label
  cases cfg.role <;> simp

/-- A file `f` that a session of this end overwrites. -/
def overwritten (role : Role) : Except String Bool × Folder :=
  commitFile (sampleConfig role).blake3 (1700000000 : UInt64).toNat (sampleConfig role).label
    ⟨[sampleName], false⟩ [98] 1 (sampleFolder [(sampleName, [97])])

end FerriSync
