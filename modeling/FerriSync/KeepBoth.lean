/-
# Resolving a conflict

`resolve_conflict` (`conflicts.rs`): the backup takes the real file's place
(`keepBackup`), or goes (`keepOriginal`), or is renamed to a plain file beside it
(`keepBoth`), under a name made of the real file's. That name gets a number if it is
taken, and the next one as long as that is taken, too; the number is a `u32` and
starts again after the last, so the search need not come to an end. `fuel` bounds it.

Nothing is lost by a search that ends. But the backup of a backup's own backup keeps
the marker in its new name, and is still listed (`parse_keptName`). So `keep_both`
does what it says if the real file is no backup itself (`keeps_both_iff`).

Key definitions: `keptName`, `freeName`, `resolveConflict`, `KeepsBoth`.
Key theorems: `freeName_isSome_iff`, `parse_keptName`, `keeps_both_iff`.
-/
import FerriSync.Conflicts
import FerriSync.Lib.Effects

namespace FerriSync

open Keyed LastSplit

/-! ### Names beside the real file's -/

/-- `Path::extension`, on the name. -/
def extension (cs : List Char) : Option (List Char) :=
  match cs.reverse.dropWhile (· ≠ '.') with
  | [] => none
  | [_] => none
  | _ :: _ => some (cs.reverse.takeWhile (· ≠ '.')).reverse

/-- The name without its extension; `file` if the path has none. -/
def winnerStem (winner : List Char) : List Char :=
  match PathString.fileName winner with
  | none => ['f', 'i', 'l', 'e']
  | some name => fileStem name

/-- The extension with its dot. -/
def winnerExtension (winner : List Char) : List Char :=
  match (PathString.fileName winner).bind extension with
  | none => []
  | some ext => '.' :: ext

/-- The directory with its slash. -/
def winnerParent (winner : List Char) : List Char :=
  match PathString.parent winner with
  | none => []
  | some dir => if dir = [] then [] else dir ++ ['/']

/-- Whose version the backup holds. -/
def versionOf (label : List Char) : List Char :=
  if label = LoserLabel.localCopy.chars then ['t', 'h', 'i', 's', ' ', 'd', 'e', 'v', 'i', 'c', 'e']
  else ['o', 't', 'h', 'e', 'r', ' ', 'd', 'e', 'v', 'i', 'c', 'e']

/-- What is put between the name and its extension. -/
def insertion (label : List Char) (counter : Option UInt32) : List Char :=
  ' ' :: '(' :: (versionOf label ++ ((match counter with
    | none => []
    | some n => ' ' :: (Nat.repr n.toNat).toList) ++ [')']))

/-- The name of the kept copy. -/
def keptName (winner label : List Char) (counter : Option UInt32) : List Char :=
  winnerStem winner ++ (insertion label counter ++ winnerExtension winner)

def keptPath (winner label : List Char) (counter : Option UInt32) : String :=
  String.ofList (winnerParent winner ++ keptName winner label counter)

/-- The search for a free name; `none` if it has not come to an end. -/
def freeName (taken : Option UInt32 → Bool) : ℕ → Option UInt32 → UInt32 → Option (Option UInt32)
  | 0, _, _ => none
  | fuel + 1, candidate, counter =>
    if taken candidate then freeName taken fuel (some counter) (counter + 1) else some candidate

/-! ### The actions -/

/-- The registry and the folders that can be opened. -/
structure ResolveState where
  db : DbState
  roots : String → Option Folder

section

variable (metadata : Folder → String → Option FileMeta)

-- How an absolute path is displayed, and the time that a file written now gets.
variable (display : Target → String) (now : ℤ)

/-- Overwrite the real file with the backup's version; says how many bytes it has. -/
def keepBackup (f : Folder) (t : Target) (winner : String) : Except String ℕ × Folder :=
  match f.read t with
  | .error _ => (.error s!"read {display t}", f)
  | .ok data =>
    match safeJoin winner with
    | .error e => (.error e, f)
    | .ok w =>
      match f.createDirAll w.path.dropLast with
      | .error _ => (.error s!"failed to create dirs for: {display w}", f)
      | .ok g =>
        if w.asDir then (.error s!"failed to write: {display w}", g)
        else match g.write w.path data now with
        | .error _ => (.error s!"failed to write: {display w}", g)
        | .ok h => (.ok data.length, h.remove t.path)

/-- Drop the backup; says how many bytes the real file has. -/
def keepOriginal (f : Folder) (t : Target) (winner : String) : Except String ℕ × Folder :=
  if t.asDir || f.isDir t.path then (.error s!"remove {display t}", f)
  else
    let g := f.remove t.path
    (.ok (((metadata g winner).map (·.len)).getD 0), g)

/-- The name is taken. -/
def taken (f : Folder) (winner label : List Char) (counter : Option UInt32) : Bool :=
  match safeJoin (keptPath winner label counter) with
  | .error _ => false
  | .ok t => f.targetExists t

/-- Rename the backup to a plain file. -/
def keepBoth (fuel : ℕ) (f : Folder) (t : Target) (winner label : List Char) :
    Option (Except String Unit × Folder) :=
  match freeName (taken f winner label) fuel none 2 with
  | none => none
  | some counter =>
    match safeJoin (keptPath winner label counter) with
    | .error e => some (.error e, f)
    | .ok dest =>
      match f.rename t.path dest with
      | .error _ => some (.error s!"failed to rename {display t} -> {display dest}", f)
      | .ok g => some (.ok (), g)

/-- The history row of a resolution. -/
def resolvedRow (folderId : ℕ) (path label : String) (size : ℕ) : Db.FileHistory :=
  ⟨folderId, path, label, "resolved", 0, 0, [], size⟩

/-- What an action comes to: the label, and a history row unless both versions are kept. -/
def resolved (s : ResolveState) (row : SyncPair) (winner label : String) :
    Except String ℕ × Folder → Except String String × ResolveState
  | (.error e, f) => (.error e, { s with roots := Function.update s.roots row.localPath (some f) })
  | (.ok size, f) => (.ok label, {
      db := Effects.after (Database.recordHistory (resolvedRow row.id winner label size)) s.db
      roots := Function.update s.roots row.localPath (some f) })

/-- Resolve a conflict backup. -/
def resolveConflict (fuel : ℕ) (s : ResolveState) (folderId : ℕ) (backupPath action : String) :
    Option (Except String String × ResolveState) :=
  match s.db.val.listSyncFolders.find? fun row => decide (row.id = folderId) with
  | none => some (.error s!"sync folder {folderId} not found", s)
  | some row =>
    match s.roots row.localPath with
    | none => some (.error s!"sync folder does not exist: {row.localPath}", s)
    | some f =>
      match parseConflictSuffix ((PathString.fileName backupPath.toList).getD []) with
      | none => some (.error s!"refusing to resolve {backupPath}: not a ferrisync-conflict backup", s)
      | some (_, label, _) =>
        match winnerRelativePath backupPath.toList with
        | none => some (.error s!"invalid conflict path: {backupPath}", s)
        | some winner =>
          match safeJoin backupPath with
          | .error e => some (.error e, s)
          | .ok t =>
            if f.targetExists t = false then some (.error s!"conflict backup missing: {backupPath}", s)
            else if action = "keep_backup" then
              some (resolved s row (String.ofList winner) (String.ofList label)
                (keepBackup display now f t (String.ofList winner)))
            else if action = "keep_original" then
              some (resolved s row (String.ofList winner) (String.ofList label)
                (keepOriginal metadata display f t (String.ofList winner)))
            else if action = "keep_both" then
              match keepBoth display fuel f t winner label with
              | none => none
              | some (.error e, g) =>
                some (.error e, { s with roots := Function.update s.roots row.localPath (some g) })
              | some (.ok (), g) => some (.ok (String.ofList label),
                  { s with roots := Function.update s.roots row.localPath (some g) })
            else some (.error s!"unknown conflict action: {action}", s)

end

/-! ### The search -/

section

variable {taken : Option UInt32 → Bool}

/-- A search ends with a name that is free. -/
theorem taken_of_freeName : ∀ {fuel : ℕ} {candidate : Option UInt32} {counter : UInt32}
    {found : Option UInt32}, freeName taken fuel candidate counter = some found → taken found = false
  | 0, _, _, _, h => by cases h
  | fuel + 1, candidate, counter, found, h => by
    rw [freeName] at h
    split_ifs at h with htaken
    · exact taken_of_freeName h
    · cases h
      simpa using htaken

/-- More fuel finds the same. -/
theorem freeName_mono : ∀ {fuel fuel' : ℕ} {candidate : Option UInt32} {counter : UInt32}
    {found : Option UInt32}, fuel ≤ fuel' → freeName taken fuel candidate counter = some found →
    freeName taken fuel' candidate counter = some found
  | 0, _, _, _, _, _, h => by cases h
  | fuel + 1, 0, _, _, _, hle, _ => by omega
  | fuel + 1, fuel' + 1, candidate, counter, found, hle, h => by
    rw [freeName] at h ⊢
    split_ifs at h ⊢
    · exact freeName_mono (by omega) h
    · exact h

/-- It meets each number in its turn. -/
theorem freeName_reaches : ∀ (k : ℕ) (candidate : Option UInt32) (counter : UInt32),
    taken (some (counter + UInt32.ofNat k)) = false →
    (freeName taken (k + 2) candidate counter).isSome = true
  | 0, candidate, counter, h => by
    have hnow : taken (some counter) = false := by simpa using h
    rw [freeName]
    split_ifs
    · rw [freeName, if_neg (by simp [hnow])]
      rfl
    · rfl
  | k + 1, candidate, counter, h => by
    rw [freeName]
    split_ifs
    · apply freeName_reaches k (some counter) (counter + 1)
      have hnext : counter + 1 + UInt32.ofNat k = counter + UInt32.ofNat (k + 1) := by
        rw [UInt32.ofNat_add, UInt32.add_assoc, UInt32.add_comm 1]
        rfl
      rw [hnext]
      exact h
    · rfl

/-- **The search ends if one of the names is free.** -/
theorem freeName_isSome_iff :
    (∃ fuel, (freeName taken fuel none 2).isSome = true) ↔ ∃ counter, taken counter = false := by
  constructor
  · rintro ⟨fuel, h⟩
    obtain ⟨found, hfound⟩ := Option.isSome_iff_exists.mp h
    exact ⟨found, taken_of_freeName hfound⟩
  · rintro ⟨counter, h⟩
    cases counter with
    | none =>
      refine ⟨1, ?_⟩
      rw [freeName, if_neg (by simp [h])]
      rfl
    | some n =>
      refine ⟨(n - 2).toNat + 2, freeName_reaches (n - 2).toNat none 2 ?_⟩
      have hn : 2 + UInt32.ofNat (n - 2).toNat = n := by
        rw [UInt32.ofNat_toNat, UInt32.add_comm, UInt32.sub_add_cancel]
      rw [hn]
      exact h

end

/-! ### The new name -/

theorem fileStem_append_extension (cs : List Char) :
    fileStem cs ++ ((extension cs).map fun ext => '.' :: ext).getD [] = cs := by
  unfold fileStem extension
  have hcut : cs.reverse.takeWhile (· ≠ '.') ++ cs.reverse.dropWhile (· ≠ '.') = cs.reverse :=
    List.takeWhile_append_dropWhile
  cases hdrop : cs.reverse.dropWhile (· ≠ '.') with
  | nil => simp
  | cons c before =>
    have hdot : c = '.' := by
      have hne : cs.reverse.dropWhile (· ≠ '.') ≠ [] := by
        rw [hdrop]
        exact List.cons_ne_nil c before
      have hhead := List.head_dropWhile_not (fun c => decide (c ≠ '.')) hne
      simp only [hdrop, List.head_cons] at hhead
      simpa using hhead
    cases before with
    | nil => simp
    | cons c' before =>
      rw [hdrop, hdot] at hcut
      have hrev := congrArg List.reverse hcut
      rw [List.reverse_reverse, List.reverse_append, List.reverse_cons] at hrev
      dsimp only [Option.map_some, Option.getD_some]
      rw [List.append_assoc] at hrev
      exact hrev

theorem dot_notMem_extension {cs ext : List Char} (h : extension cs = some ext) : '.' ∉ ext := by
  unfold extension at h
  split at h
  · cases h
  · cases h
  · cases h
    intro hmem
    have hkept := List.all_eq_true.mp List.all_takeWhile _ (List.mem_reverse.mp hmem)
    simp at hkept

/-- An extension begins with its only dot. -/
theorem winnerExtension_cases (winner : List Char) : winnerExtension winner = [] ∨
    ∃ ext, winnerExtension winner = '.' :: ext ∧ '.' ∉ ext := by
  unfold winnerExtension
  cases hext : (PathString.fileName winner).bind extension with
  | none => exact Or.inl rfl
  | some ext =>
    obtain ⟨name, -, hname⟩ := Option.bind_eq_some_iff.mp hext
    exact Or.inr ⟨ext, rfl, dot_notMem_extension hname⟩

theorem winnerStem_append {winner name : List Char} (h : PathString.fileName winner = some name) :
    winnerStem winner ++ winnerExtension winner = name := by
  have hname := fileStem_append_extension name
  unfold winnerStem winnerExtension
  rw [h, Option.bind_some]
  cases hext : extension name with
  | none =>
    rw [hext] at hname
    exact hname
  | some ext =>
    rw [hext] at hname
    exact hname

theorem threeParts_eq_some {cs a b c : List Char} :
    threeParts cs = some (a, b, c) ↔ '-' ∉ a ∧ '-' ∉ b ∧ cs = a ++ '-' :: (b ++ '-' :: c) := by
  have hcut : ∀ {x rest : List Char} {d : Char}, (x.dropWhile fun c => decide (c ≠ '-')) = d :: rest →
      '-' ∉ (x.takeWhile fun c => decide (c ≠ '-')) ∧
        x = (x.takeWhile fun c => decide (c ≠ '-')) ++ '-' :: rest := by
    intro x rest d hdrop
    have hd : d = '-' := by
      have hne : (x.dropWhile fun c => decide (c ≠ '-')) ≠ [] := by
        rw [hdrop]
        exact List.cons_ne_nil d rest
      have hhead := List.head_dropWhile_not (fun c => decide (c ≠ '-')) hne
      simp only [hdrop, List.head_cons] at hhead
      simpa using hhead
    refine ⟨?_, ?_⟩
    · intro hmem
      have hkept := List.all_eq_true.mp List.all_takeWhile _ hmem
      simp at hkept
    · have hwhole := List.takeWhile_append_dropWhile (p := fun c => decide (c ≠ '-')) (l := x)
      rw [hdrop, hd] at hwhole
      exact hwhole.symm
  constructor
  · intro h
    unfold threeParts at h
    cases hfirst : cs.dropWhile fun c => decide (c ≠ '-') with
    | nil =>
      rw [hfirst] at h
      cases h
    | cons d rest =>
      rw [hfirst] at h
      dsimp only at h
      cases hsecond : rest.dropWhile fun c => decide (c ≠ '-') with
      | nil =>
        rw [hsecond] at h
        cases h
      | cons d' last =>
        rw [hsecond] at h
        cases h
        obtain ⟨ha, hcs⟩ := hcut hfirst
        obtain ⟨hb, hrest⟩ := hcut hsecond
        rw [← hrest]
        exact ⟨ha, hb, hcs⟩
  · rintro ⟨ha, hb, rfl⟩
    exact threeParts_of_dashes ha hb

/-- The tail of a backup's name: a number, a label and more. -/
def GoodTail (tail : List Char) : Prop :=
  ∃ ts label hash, '-' ∉ ts ∧ '-' ∉ label ∧ tail = ts ++ '-' :: (label ++ '-' :: hash) ∧
    (parseU64 ts).isSome = true ∧ label ≠ []

theorem parse_isSome_iff {cs original tail : List Char}
    (h : splitLast conflictTag cs = some (original, tail)) :
    (parseConflictSuffix cs).isSome = true ↔ GoodTail tail := by
  unfold parseConflictSuffix
  rw [h]
  dsimp only
  constructor
  · intro hsome
    cases hparts : threeParts tail with
    | none =>
      rw [hparts] at hsome
      cases hsome
    | some parts =>
      obtain ⟨ts, label, hash⟩ := parts
      rw [hparts] at hsome
      dsimp only at hsome
      obtain ⟨hts, hlabel, htail⟩ := threeParts_eq_some.mp hparts
      cases hnumber : parseU64 ts with
      | none =>
        rw [hnumber] at hsome
        cases hsome
      | some n =>
        rw [hnumber] at hsome
        dsimp only at hsome
        have hempty : label ≠ [] := by
          intro hnil
          rw [if_pos hnil] at hsome
          cases hsome
        exact ⟨ts, label, hash, hts, hlabel, htail, by rw [hnumber]; rfl, hempty⟩
  · rintro ⟨ts, label, hash, hts, hlabel, htail, hnumber, hempty⟩
    obtain ⟨n, hn⟩ := Option.isSome_iff_exists.mp hnumber
    rw [threeParts_eq_some.mpr ⟨hts, hlabel, htail⟩]
    dsimp only
    rw [hn]
    dsimp only
    rw [if_neg hempty]
    rfl

/-- Where the seam of two lists lies in a list with two dashes; the second does not begin
with one. -/
theorem seam_cases {b w x y z : List Char} (hw : w.head? ≠ some '-')
    (h : b ++ w = x ++ '-' :: (y ++ '-' :: z)) :
    (∃ z', b = x ++ '-' :: (y ++ '-' :: z') ∧ z = z' ++ w) ∨
    (∃ y' y'', y'' ≠ [] ∧ b = x ++ '-' :: y' ∧ y = y' ++ y'' ∧ w = y'' ++ '-' :: z) ∨
    ∃ x', x' ≠ [] ∧ x = b ++ x' ∧ w = x' ++ '-' :: (y ++ '-' :: z) := by
  have hstart : ∀ {u v : List Char}, w = u ++ '-' :: v → u ≠ [] := by
    rintro u v hu rfl
    rw [hu] at hw
    exact hw rfl
  rcases List.append_eq_append_iff.mp h with ⟨x', hx, hrest⟩ | ⟨c, hb, hrest⟩
  · exact Or.inr (Or.inr ⟨x', hstart hrest, hx, hrest⟩)
  · cases c with
    | nil => exact absurd rfl (hstart (u := []) hrest.symm)
    | cons d c =>
      rw [List.cons_append] at hrest
      obtain ⟨rfl, hseam⟩ := List.cons_eq_cons.mp hrest
      rcases List.append_eq_append_iff.mp hseam.symm with ⟨y'', hy, hw'⟩ | ⟨z', hc, hz⟩
      · exact Or.inr (Or.inl ⟨c, y'', hstart hw', hb, hy, hw'⟩)
      · cases z' with
        | nil => exact absurd rfl (hstart (u := []) hz.symm)
        | cons d z' =>
          rw [List.cons_append] at hz
          obtain ⟨rfl, hrest'⟩ := List.cons_eq_cons.mp hz
          exact Or.inl ⟨z', by rw [hb, hc], hrest'⟩

/-- Something without a dash that is put before an extension. -/
structure Inserted (ins : List Char) : Prop where
  head : ins.head? = some ' '
  no_dot : '.' ∉ ins
  no_dash : '-' ∉ ins
  no_slash : '/' ∉ ins
  no_nul : Char.ofNat 0 ∉ ins

theorem inserted_insertion (label : List Char) (counter : Option UInt32) :
    Inserted (insertion label counter) := by
  have hplain : ∀ c ∈ insertion label counter,
      c ≠ '.' ∧ c ≠ '-' ∧ c ≠ '/' ∧ c ≠ Char.ofNat 0 := by
    intro c hc
    have hversion : ∀ c ∈ versionOf label, c ≠ '.' ∧ c ≠ '-' ∧ c ≠ '/' ∧ c ≠ Char.ofNat 0 := by
      unfold versionOf
      split
      · simp
      · simp
    have hnumber : ∀ (n : ℕ), ∀ c ∈ (Nat.repr n).toList,
        c ≠ '.' ∧ c ≠ '-' ∧ c ≠ '/' ∧ c ≠ Char.ofNat 0 := by
      intro n c hc
      rw [Nat.toList_repr] at hc
      have hdigit := Nat.isDigit_of_mem_toDigits (by omega) (by omega) hc
      refine ⟨?_, ?_, ?_, ?_⟩ <;> · rintro rfl; revert hdigit; decide
    unfold insertion at hc
    rcases List.mem_cons.mp hc with rfl | hc
    · decide
    rcases List.mem_cons.mp hc with rfl | hc
    · decide
    rcases List.mem_append.mp hc with hc | hc
    · exact hversion c hc
    rcases List.mem_append.mp hc with hc | hc
    · cases counter with
      | none => cases hc
      | some n =>
        rcases List.mem_cons.mp hc with rfl | hc
        · decide
        · exact hnumber _ c hc
    · obtain rfl := List.mem_singleton.mp hc
      decide
  exact ⟨rfl, fun h => (hplain _ h).1 rfl, fun h => (hplain _ h).2.1 rfl,
    fun h => (hplain _ h).2.2.1 rfl, fun h => (hplain _ h).2.2.2 rfl⟩

section

variable {stem ins ext : List Char}

/-- What is put before the extension changes the label or the rest of a tail at most. -/
theorem goodTail_insert (hins : Inserted ins) (hext : ext = [] ∨ ∃ e, ext = '.' :: e) (b : List Char) :
    GoodTail (b ++ (ins ++ ext)) ↔ GoodTail (b ++ ext) := by
  have hhead : ext.head? ≠ some '-' := by
    rcases hext with rfl | ⟨e, rfl⟩
    · simp
    · simp
  have hne : ins ≠ [] := by
    rintro rfl
    cases hins.head
  obtain ⟨i, rest, rfl⟩ := List.exists_cons_of_ne_nil hne
  have hi : i = ' ' := by simpa using hins.head
  -- a number has neither a space nor a dot
  have hnumber : ∀ {x x' : List Char} {c : Char}, (parseU64 (x ++ c :: x')).isSome = true →
      c ≠ ' ' ∧ c ≠ '.' := by
    intro x x' c h
    unfold parseU64 at h
    rw [Option.isSome_map] at h
    rcases Unsigned.chars_of_parse h (List.mem_append_right x (List.mem_cons_self ..)) with rfl | hdigit
    · decide
    · constructor
      · rintro rfl
        revert hdigit
        decide
      · rintro rfl
        revert hdigit
        decide
  constructor
  · rintro ⟨ts, label, hash, hts, hlabel, htail, hparse, hempty⟩
    have hw : ((i :: rest) ++ ext).head? ≠ some '-' := by simp [hi]
    rcases seam_cases hw htail with ⟨z, hb, -⟩ | ⟨y, y', -, hb, hy, hw'⟩ | ⟨x, hx, hxts, hw'⟩
    · exact ⟨ts, label, z ++ ext, hts, hlabel, by rw [hb]; simp, hparse, hempty⟩
    · -- the dash is in the extension
      rcases List.append_eq_append_iff.mp hw' with ⟨y'', hy', hrest⟩ | ⟨y'', hy', hrest⟩
      · refine ⟨ts, y ++ y'', hash, hts, ?_, by rw [hb, hrest]; simp, hparse, ?_⟩
        · intro hmem
          rw [hy, hy'] at hlabel
          rcases List.mem_append.mp hmem with hmem | hmem
          · exact hlabel (List.mem_append_left _ hmem)
          · exact hlabel (List.mem_append_right _ (List.mem_append_right _ hmem))
        · intro hnil
          rw [(List.append_eq_nil_iff.mp hnil).2] at hrest
          rw [hrest] at hhead
          exact hhead rfl
      · cases y'' with
        | nil =>
          rw [List.nil_append] at hrest
          rw [← hrest] at hhead
          exact absurd rfl hhead
        | cons d y'' =>
          rw [List.cons_append] at hrest
          obtain ⟨rfl, -⟩ := List.cons_eq_cons.mp hrest
          exact absurd (hy' ▸ List.mem_append_right _ (List.mem_cons_self ..)) hins.no_dash
    · cases x with
      | nil => exact absurd rfl hx
      | cons c x =>
        rw [List.cons_append, List.cons_append] at hw'
        obtain ⟨rfl, -⟩ := List.cons_eq_cons.mp hw'
        rw [hxts] at hparse
        exact absurd hi (hnumber hparse).1
  · rintro ⟨ts, label, hash, hts, hlabel, htail, hparse, hempty⟩
    rcases seam_cases hhead htail with ⟨z, hb, -⟩ | ⟨y, y', -, hb, hy, hw'⟩ | ⟨x, hx, hxts, hw'⟩
    · exact ⟨ts, label, z ++ (i :: rest ++ ext), hts, hlabel, by rw [hb]; simp, hparse, hempty⟩
    · refine ⟨ts, y ++ (i :: rest ++ y'), hash, hts, ?_, by rw [hb, hw']; simp, hparse, by simp⟩
      intro hmem
      rw [hy] at hlabel
      rcases List.mem_append.mp hmem with hmem | hmem
      · exact hlabel (List.mem_append_left _ hmem)
      · rcases List.mem_append.mp hmem with hmem | hmem
        · exact hins.no_dash hmem
        · exact hlabel (List.mem_append_right _ hmem)
    · cases x with
      | nil => exact absurd rfl hx
      | cons c x =>
        rcases hext with rfl | ⟨e, rfl⟩
        · cases hw'
        · rw [List.cons_append] at hw'
          obtain ⟨rfl, -⟩ := List.cons_eq_cons.mp hw'
          rw [hxts] at hparse
          exact absurd rfl (hnumber hparse).2

/-- **A name is a backup's or not whatever is put before its extension.** -/
theorem parse_insert (hins : Inserted ins)
    (hext : ext = [] ∨ ∃ e, ext = '.' :: e ∧ '.' ∉ e) :
    (parseConflictSuffix (stem ++ (ins ++ ext))).isSome = (parseConflictSuffix (stem ++ ext)).isSome := by
  have hdot : ext = [] ∨ ∃ e, ext = '.' :: e := hext.imp_right fun ⟨e, he, _⟩ => ⟨e, he⟩
  rw [Bool.eq_iff_iff]
  by_cases htag : conflictTag <+: ext
  · -- the extension begins with the marker, and nothing after it does
    obtain ⟨tail, rfl⟩ := htag
    have htail : '.' ∉ tail := by
      rcases hext with hnil | ⟨e, he, hno⟩
      · cases hnil
      · rw [conflictTag_eq, List.cons_append] at he
        obtain ⟨-, rfl⟩ := List.cons_eq_cons.mp he
        exact fun h => hno (List.mem_append_right _ h)
    have hlast : ∀ a : List Char, splitLast conflictTag (a ++ (conflictTag ++ tail)) = some (a, tail) :=
      fun a => splitLast_mark dot_notMem_tag htail
    rw [← List.append_assoc, parse_isSome_iff (hlast _), parse_isSome_iff (hlast _)]
  · -- no marker begins after the stem
    have hno : ∀ w : List Char, '.' ∉ w → ¬conflictTag <:+: w ++ ext := by
      rintro w hw ⟨before, after, heq⟩
      rw [List.append_assoc] at heq
      rcases List.append_eq_append_iff.mp heq with ⟨a, ha, hrest⟩ | ⟨c, hc, hrest⟩
      · cases a with
        | nil => exact htag ⟨after, hrest⟩
        | cons d a =>
          rw [conflictTag_eq, List.cons_append, List.cons_append] at hrest
          obtain ⟨rfl, -⟩ := List.cons_eq_cons.mp hrest
          exact hw (ha ▸ List.mem_append_right _ (List.mem_cons_self ..))
      · -- it would begin after the extension's only dot
        cases c with
        | nil => exact htag ⟨after, hrest.symm⟩
        | cons d c =>
          rcases hext with rfl | ⟨e, rfl, he⟩
          · cases hrest
          · rw [List.cons_append] at hrest
            obtain ⟨rfl, he'⟩ := List.cons_eq_cons.mp hrest
            have hmem : '.' ∈ c ++ (conflictTag ++ after) :=
              List.mem_append_right c (List.mem_append_left after (by decide))
            exact he (he' ▸ hmem)
    have hheads : ∀ y ∈ ext.head?, y ∉ conflictTag.tail := by
      rcases hext with rfl | ⟨e, rfl, -⟩
      · simp
      · intro y hy
        obtain rfl : '.' = y := by simpa using hy
        exact dot_notMem_tag
    have hheads' : ∀ y ∈ (ins ++ ext).head?, y ∉ conflictTag.tail := by
      intro y hy
      rw [List.head?_append, hins.head] at hy
      obtain rfl : ' ' = y := by simpa using hy
      decide
    have hplain := @splitLast_append_right _ _ stem ext '.' conflictTag.tail hheads
      (hno [] List.not_mem_nil)
    have hkept := @splitLast_append_right _ _ stem (ins ++ ext) '.' conflictTag.tail hheads'
      (hno ins hins.no_dot)
    rw [← conflictTag_eq] at hplain hkept
    cases hstem : splitLast conflictTag stem with
    | none =>
      rw [hstem] at hplain hkept
      simp only [parseConflictSuffix, hplain, hkept, Option.map_none]
    | some s =>
      rw [hstem] at hplain hkept
      rw [parse_isSome_iff hplain, parse_isSome_iff hkept]
      exact goodTail_insert hins hdot s.2

end

/-- The name of the kept copy is a backup's exactly if the real file's is. -/
theorem parse_keptName (winner label : List Char) (counter : Option UInt32) :
    (parseConflictSuffix (keptName winner label counter)).isSome = true ↔
      ∃ name, PathString.fileName winner = some name ∧ (parseConflictSuffix name).isSome = true := by
  unfold keptName
  rw [parse_insert (inserted_insertion label counter) (winnerExtension_cases winner)]
  cases hname : PathString.fileName winner with
  | none =>
    have hfile : winnerStem winner ++ winnerExtension winner = ['f', 'i', 'l', 'e'] := by
      simp [winnerStem, winnerExtension, hname]
    rw [hfile]
    decide
  | some name => simp [winnerStem_append hname]

/-! ### The new path -/

section

variable {d : RelPath} {original : List Char}

theorem parts_below (d : RelPath) (horiginal : '/' ∉ original) :
    (below d original).splitOn '/' = d.map (·.chars) ++ [original] := by
  have hjoin : below d original = ['/'].intercalate (d.map (·.chars) ++ [original]) := by
    unfold below render
    split_ifs with hd
    · simp [hd]
    · rw [intercalate_concat _ _ _ (by simpa using hd), String.toList_ofList]
  rw [hjoin]
  refine List.splitOn_intercalate '/' (fun part hpart => ?_) (by simp)
  rcases List.mem_append.mp hpart with hpart | hpart
  · obtain ⟨n, -, rfl⟩ := List.mem_map.mp hpart
    exact n.no_slash
  · rwa [List.mem_singleton.mp hpart]

/-- A path begins with no slash, and with a dot only if there is nothing else. -/
theorem body_below (d : RelPath) (horiginal : '/' ∉ original) :
    PathString.body (below d original) =
      if d = [] ∧ original = ['.'] then (['.'], []) else ([], d.map (·.chars) ++ [original]) := by
  unfold PathString.body
  rw [parts_below d horiginal]
  cases d with
  | nil => simp
  | cons n d => simp [n.ne_nil, n.not_dot]

theorem trimRight_concat (d : RelPath) (part : List Char) :
    PathString.trimRight (d.map (·.chars) ++ [part]) =
      if PathString.trivial part = true then d.map (·.chars) else d.map (·.chars) ++ [part] := by
  have hnames := trimRight_names d
  unfold PathString.trimRight at hnames ⊢
  rw [List.reverse_append, List.reverse_singleton, List.singleton_append, List.dropWhile_cons]
  split_ifs
  · exact hnames
  · simp

/-- The directory of the real file, or the one above if the real file's name is none. -/
theorem winnerParent_below (d : RelPath) (horiginal : '/' ∉ original) : ∃ d' : RelPath,
    winnerParent (below d original) = if d' = [] then [] else (render d').toList ++ ['/'] := by
  unfold winnerParent PathString.parent
  rw [body_below d horiginal]
  by_cases hdot : d = [] ∧ original = ['.']
  · rw [if_pos hdot]
    exact ⟨[], rfl⟩
  rw [if_neg hdot]
  dsimp only
  rw [trimRight_concat]
  have hjoin : ∀ d' : RelPath, PathString.join [] (PathString.trimRight (d'.map (·.chars))) =
      (render d').toList := by
    intro d'
    rw [trimRight_names]
    simp [PathString.join, render]
  have hstart : ([] : List Char) ≠ ['.'] := by simp
  by_cases htrivial : PathString.trivial original = true
  · rw [if_pos htrivial]
    by_cases hnil : d = []
    · rw [if_pos (by rw [hnil]; rfl), if_neg hstart]
      exact ⟨[], rfl⟩
    · rw [if_neg (by simpa using hnil), ← List.map_dropLast, hjoin]
      exact ⟨d.dropLast, if_congr render_toList_eq_nil rfl rfl⟩
  · rw [if_neg htrivial, if_neg (by simp), List.dropLast_concat, hjoin]
    exact ⟨d, if_congr render_toList_eq_nil rfl rfl⟩

theorem mem_of_fileName {path name : List Char} (h : PathString.fileName path = some name) :
    name ∈ (PathString.body path).2 := by
  unfold PathString.fileName at h
  obtain ⟨hlast, -⟩ := Option.filter_eq_some_iff.mp h
  have hmem := List.mem_of_getLast? hlast
  unfold PathString.trimRight at hmem
  exact List.mem_reverse.mp ((List.dropWhile_subset _) (List.mem_reverse.mp hmem))

theorem notMem_fileName {c : Char} (horiginal : '/' ∉ original)
    (hd : ∀ n ∈ d, c ∉ n.chars) (hc : c ∉ original) {name : List Char}
    (h : PathString.fileName (below d original) = some name) : c ∉ name := by
  have hmem := mem_of_fileName h
  rw [body_below d horiginal] at hmem
  split_ifs at hmem
  · cases hmem
  · rcases List.mem_append.mp hmem with hmem | hmem
    · obtain ⟨n, hn, rfl⟩ := List.mem_map.mp hmem
      exact hd n hn
    · rwa [List.mem_singleton.mp hmem]

/-- A sign that is in no part of the path is in the new name only if it is put there. -/
theorem notMem_keptName {c : Char} {label : List Char} {counter : Option UInt32}
    (horiginal : '/' ∉ original) (hd : ∀ n ∈ d, c ∉ n.chars) (hc : c ∉ original)
    (hfile : c ∉ ['f', 'i', 'l', 'e']) (hins : c ∉ insertion label counter) :
    c ∉ keptName (below d original) label counter := by
  unfold keptName
  intro hmem
  cases hname : PathString.fileName (below d original) with
  | none =>
    simp only [winnerStem, winnerExtension, hname, Option.bind_none, List.append_nil] at hmem
    exact (List.mem_append.mp hmem).elim hfile hins
  | some name =>
    have hno := notMem_fileName horiginal hd hc hname
    rw [← winnerStem_append hname] at hno
    rcases List.mem_append.mp hmem with hmem | hmem
    · exact hno (List.mem_append_left _ hmem)
    · rcases List.mem_append.mp hmem with hmem | hmem
      · exact hins hmem
      · exact hno (List.mem_append_right _ hmem)

/-- **Each path that is tried is that of a file.** -/
theorem exists_keptPath (horiginal : '/' ∉ original) (hnul : Char.ofNat 0 ∉ original)
    (label : List Char) (counter : Option UInt32) : ∃ (d' : RelPath) (n : FileName),
      n.chars = keptName (below d original) label counter ∧
      keptPath (below d original) label counter = render (d' ++ [n]) := by
  have hins := inserted_insertion label counter
  obtain ⟨d', hd'⟩ := winnerParent_below d horiginal
  have hlen : 2 < (keptName (below d original) label counter).length := by
    simp only [keptName, insertion, List.length_append, List.length_cons]
    omega
  refine ⟨d', .ofLong _ hlen
    (notMem_keptName horiginal (fun n _ => n.no_slash) horiginal (by decide) hins.no_slash)
    (notMem_keptName horiginal (fun n _ => n.no_nul) hnul (by decide) hins.no_nul), rfl, ?_⟩
  have hbelow : winnerParent (below d original) ++ keptName (below d original) label counter =
      below d' (keptName (below d original) label counter) := by
    rw [hd']
    generalize keptName (below d original) label counter = name
    unfold below
    split_ifs
    · rfl
    · rw [List.append_assoc]
      rfl
  unfold keptPath
  rw [hbelow, ← String.toList_inj, render_concat, String.toList_ofList]
  rfl

end

/-! ### Nothing is lost -/

/-- The backup at `p` has moved to `q`, where nothing was, and nothing else has changed. -/
structure KeptBoth (f g : Folder) (p q : RelPath) : Prop where
  fresh : f.targetExists ⟨q, false⟩ = false
  copy : ∃ e, f.entry p = some e ∧ g.entry q = some e
  gone : g.entry p = none
  others : ∀ r, r ≠ p → r ≠ q → g.entry r = f.entry r
  dirs : g.dirs = f.dirs

section

variable {f g : Folder} {p q q' : RelPath}

theorem entry_of_fresh (h : f.targetExists ⟨q, false⟩ = false) : f.isDir q = false ∧ f.entry q = none := by
  unfold Folder.targetExists at h
  simpa using h

/-- Where the backup has moved to is seen from the folder. -/
theorem KeptBoth.unique (h : KeptBoth f g p q) (h' : KeptBoth f g p q') : q' = q := by
  obtain ⟨e, he, hcopy⟩ := h'.copy
  have hfresh := (entry_of_fresh h'.fresh).2
  have hpq : q' ≠ p := by
    rintro rfl
    rw [hfresh] at he
    cases he
  by_contra hne
  have hsame := h.others q' hpq hne
  rw [hcopy, hfresh] at hsame
  cases hsame

/-- **A rename to a free path loses nothing.** -/
theorem rename_keepsBoth {e : FileEntry} (he : f.entry p = some e)
    (hfree : f.targetExists ⟨q, false⟩ = false) :
    ∃ g, f.rename p ⟨q, false⟩ = .ok g ∧ KeptBoth f g p q := by
  obtain ⟨hdir, hnone⟩ := entry_of_fresh hfree
  obtain ⟨g, hg⟩ := Folder.rename_of_entry (t := ⟨q, false⟩) he rfl hdir
  obtain ⟨e', he', hentry⟩ := Folder.entry_rename hg
  have hpq : p ≠ q := by
    rintro rfl
    rw [hnone] at he
    cases he
  refine ⟨g, hg, hfree, ⟨e', he', ?_⟩, ?_, ?_, Folder.rename_dirs hg⟩
  · rw [hentry q, if_pos rfl]
  · rw [hentry p, if_neg hpq, if_pos rfl]
  · intro r hrp hrq
    rw [hentry r, if_neg hrq, if_neg hrp]

end

section

variable {metadata : Folder → String → Option FileMeta} {db : Database}
  {roots : String → Option Folder} {c : ConflictEntry} {f g : Folder} {row : SyncPair}

/-- The file behind a conflict that is listed. -/
structure Behind (db : Database) (roots : String → Option Folder) (c : ConflictEntry) (row : SyncPair)
    (f : Folder) (d : RelPath) (n : FileName) (e : FileEntry) (original : List Char) : Prop where
  row_mem : row ∈ db.listSyncFolders
  id : row.id = c.folderId
  root : roots row.localPath = some f
  entry : f.entry (d ++ [n]) = some e
  backup : c.backupPath = render (d ++ [n])
  split : ∃ tail, splitLast conflictTag n.chars = some (original, tail)
  parsed : ∃ ts hash, parseConflictSuffix n.chars = some (ts, c.loserLabel.toList, hash)
  path : c.path.toList = below d original

theorem exists_behind (hc : c ∈ listConflicts metadata db roots) :
    ∃ row f d n e original, Behind db roots c row f d n e original := by
  rw [listConflicts_eq] at hc
  obtain ⟨row, hrow, f, hroot, p, e, he, hentry⟩ := mem_found.mp (mem_of_mem_keepFirst hc)
  obtain ⟨hp, hid, -⟩ := conflictEntry_eq hentry
  obtain ⟨d, n, rfl⟩ := RelPath.eq_append_of_ne_nil (isConflict_ne_nil hp)
  unfold isConflict at hp
  rw [lastName_concat] at hp
  obtain ⟨original, tail, hsplit⟩ := exists_splitLast hp
  obtain ⟨⟨ts, label, hash⟩, hparsed⟩ := Option.isSome_iff_exists.mp hp
  rw [conflictEntry_concat hsplit hparsed] at hentry
  cases hentry
  refine ⟨row, f, d, n, e, original, hrow, rfl, hroot, he, rfl, ⟨tail, hsplit⟩, ⟨ts, hash, ?_⟩, ?_⟩
  · rw [String.toList_ofList]
    exact hparsed
  · exact String.toList_ofList

/-- The row that a folder's number leads to has the folder's path. -/
theorem find_row {s : DbState} (hrow : row ∈ s.val.listSyncFolders) :
    ∃ row', (s.val.listSyncFolders.find? fun r => decide (r.id = row.id)) = some row' ∧
      row'.localPath = row.localPath := by
  have hsome : (s.val.listSyncFolders.find? fun r => decide (r.id = row.id)).isSome = true :=
    List.find?_isSome.mpr ⟨row, hrow, decide_eq_true rfl⟩
  obtain ⟨row', hfind⟩ := Option.isSome_iff_exists.mp hsome
  refine ⟨row', hfind, ?_⟩
  have hid : row'.id = row.id := by simpa using List.find?_some hfind
  obtain ⟨a, ha, _, -, -, -, hrow'⟩ := Database.mem_listSyncFolders.mp (List.mem_of_find?_eq_some hfind)
  obtain ⟨b, hb, _, -, -, -, hrow⟩ := Database.mem_listSyncFolders.mp hrow
  rw [hrow', hrow] at hid ⊢
  rw [List.inj_on_of_nodup_map s.keys.syncFolders ha hb hid]

/-- A file is listed as a conflict exactly if its name is a backup's. -/
theorem walk_lists_iff {q : RelPath} {folderId : ℕ} {e : FileEntry} (hq : q ≠ [])
    (he : g.entry q = some e) :
    (∃ c ∈ walkDir metadata g folderId [], c.backupPath = render q) ↔ isConflict q = true := by
  rw [walkDir_eq]
  constructor
  · rintro ⟨c, hc, hpath⟩
    obtain ⟨⟨r, e'⟩, -, hentry⟩ := List.mem_filterMap.mp (mem_of_mem_keepFirst hc)
    obtain ⟨hr, -, hback⟩ := conflictEntry_eq hentry
    rwa [← render_injective (isConflict_ne_nil hr) hq (hback.symm.trans hpath)]
  · intro h
    obtain ⟨c, hentry⟩ := @exists_conflictEntry metadata g folderId q e h
    have hwalked : c ∈ walked metadata g folderId :=
      List.mem_filterMap.mpr ⟨⟨q, e⟩, AList.mem_lookup_iff.mp he, hentry⟩
    have hkept : ∃ b ∈ keepFirst ConflictEntry.backupPath (walked metadata g folderId),
        b.backupPath = c.backupPath := exists_mem_keepFirst hwalked
    obtain ⟨b, hb, hkey⟩ := hkept
    exact ⟨b, hb, hkey.trans (conflictEntry_eq hentry).2.2⟩

end

section

variable {metadata : Folder → String → Option FileMeta} {display : Target → String} {now : ℤ}
  {s : ResolveState} {c : ConflictEntry} {row : SyncPair} {f : Folder} {d : RelPath} {n : FileName}
  {e : FileEntry} {original label : List Char} {fuel : ℕ} {counter : Option UInt32}

/-- What is done with a backup that is there. -/
theorem Behind.resolve (h : Behind s.db.val s.roots c row f d n e original) (fuel : ℕ) :
    resolveConflict metadata display now fuel s c.folderId c.backupPath "keep_both" =
      match keepBoth display fuel f ⟨d ++ [n], false⟩ c.path.toList c.loserLabel.toList with
      | none => none
      | some (.error e, g) =>
        some (.error e, { s with roots := Function.update s.roots row.localPath (some g) })
      | some (.ok (), g) => some (.ok c.loserLabel,
          { s with roots := Function.update s.roots row.localPath (some g) }) := by
  obtain ⟨row', hfind, hlocal⟩ := find_row h.row_mem
  obtain ⟨tail, hsplit⟩ := h.split
  obtain ⟨ts, hash, hparsed⟩ := h.parsed
  have hthere : f.targetExists ⟨d ++ [n], false⟩ = true := by simp [Folder.targetExists, h.entry]
  rw [h.id] at hfind
  unfold resolveConflict
  rw [hfind]
  dsimp only
  rw [hlocal, h.root]
  dsimp only
  rw [h.backup, fileName_render, Option.getD_some, hparsed]
  dsimp only
  rw [winnerRelativePath_render hsplit, safeJoin_render _ (by simp)]
  dsimp only
  rw [if_neg (by simp [hthere]), if_neg (by decide), if_neg (by decide), if_pos rfl, h.path,
    String.ofList_toList]

/-- All rows of the folder's number lead to the folder. -/
theorem Behind.same_root (h : Behind s.db.val s.roots c row f d n e original) {row' : SyncPair}
    (hrow' : row' ∈ s.db.val.listSyncFolders) (hid' : row'.id = c.folderId) :
    row'.localPath = row.localPath := by
  obtain ⟨r, hfind, hlocal⟩ := find_row h.row_mem
  obtain ⟨r', hfind', hlocal'⟩ := find_row hrow'
  rw [hid'.trans h.id.symm, hfind] at hfind'
  rw [← hlocal', ← Option.some.inj hfind', hlocal]

/-- A search that ends leads to a path of a file, where nothing is, and the backup goes there. -/
theorem keepBoth_of_freeName {winner : List Char} {p q : RelPath}
    (he : f.entry p = some e) (hkept : keptPath winner label counter = render q) (hq : q ≠ [])
    (hfound : freeName (taken f winner label) fuel none 2 = some counter) :
    ∃ g, (∀ fuel' ≥ fuel, keepBoth display fuel' f ⟨p, false⟩ winner label = some (.ok (), g)) ∧
      KeptBoth f g p q := by
  have hjoin : safeJoin (keptPath winner label counter) = .ok ⟨q, false⟩ := by
    rw [hkept, safeJoin_render q hq]
  have hfree := taken_of_freeName hfound
  unfold taken at hfree
  rw [hjoin] at hfree
  obtain ⟨g, hg, hboth⟩ := rename_keepsBoth he hfree
  refine ⟨g, fun fuel' hle => ?_, hboth⟩
  unfold keepBoth
  rw [freeName_mono hle hfound]
  dsimp only
  rw [hjoin]
  dsimp only
  rw [hg]

end

section

variable (metadata : Folder → String → Option FileMeta) (display : Target → String) (now : ℤ)
  {s : ResolveState} {c : ConflictEntry} {row : SyncPair} {f : Folder} {d : RelPath} {n : FileName}
  {e : FileEntry} {original : List Char} {fuel : ℕ} {counter : Option UInt32}

/-- `keep_both` ends, with the conflict's two versions as plain files and nothing else changed. -/
def KeepsBoth (s : ResolveState) (c : ConflictEntry) : Prop :=
  ∃ (bound : ℕ) (label : String) (s' : ResolveState),
    (∀ fuel ≥ bound, resolveConflict metadata display now fuel s c.folderId c.backupPath "keep_both" =
      some (.ok label, s')) ∧
    s'.db = s.db ∧
    ∃ row ∈ s.db.val.listSyncFolders, row.id = c.folderId ∧
      ∃ f g p q, s.roots row.localPath = some f ∧
        s'.roots = Function.update s.roots row.localPath (some g) ∧
        render p = c.backupPath ∧ KeptBoth f g p q ∧
        ∀ c' ∈ walkDir metadata g c.folderId [], c'.backupPath ≠ render q

/-- The real file is no backup itself. -/
def RealFile (c : ConflictEntry) : Prop :=
  ∀ name, PathString.fileName c.path.toList = some name → parseConflictSuffix name = none

/-- Not all the names that are tried are taken. -/
def SomeNameFree (s : ResolveState) (c : ConflictEntry) : Prop :=
  ∃ row ∈ s.db.val.listSyncFolders, row.id = c.folderId ∧
    ∃ f, s.roots row.localPath = some f ∧
      ∃ counter, taken f c.path.toList c.loserLabel.toList counter = false

variable {metadata display now}

/-- A search that ends leaves both, and lists the kept copy only if the real file is a backup. -/
theorem Behind.keeps (h : Behind s.db.val s.roots c row f d n e original)
    (hfound : freeName (taken f c.path.toList c.loserLabel.toList) fuel none 2 = some counter) :
    ∃ g q, (∀ fuel' ≥ fuel,
      resolveConflict metadata display now fuel' s c.folderId c.backupPath "keep_both" =
        some (.ok c.loserLabel, { s with roots := Function.update s.roots row.localPath (some g) })) ∧
      KeptBoth f g (d ++ [n]) q ∧
      ((∃ c' ∈ walkDir metadata g c.folderId [], c'.backupPath = render q) ↔ ¬RealFile c) := by
  obtain ⟨tail, hsplit⟩ := h.split
  have hn : n.chars = original ++ (conflictTag ++ tail) := eq_of_splitLast hsplit
  have hslash : '/' ∉ original := fun hmem => n.no_slash (hn ▸ List.mem_append_left _ hmem)
  have hnul : Char.ofNat 0 ∉ original := fun hmem => n.no_nul (hn ▸ List.mem_append_left _ hmem)
  have hpath := @exists_keptPath d original hslash hnul c.loserLabel.toList counter
  rw [← h.path] at hpath
  obtain ⟨d', n', hname, hkept⟩ := hpath
  have hne : d' ++ [n'] ≠ [] := by simp
  obtain ⟨g, hboth, hkeeps⟩ := @keepBoth_of_freeName display _ _ _ _ _ _ _ _ h.entry hkept hne hfound
  refine ⟨g, d' ++ [n'], ?_, hkeeps, ?_⟩
  · intro fuel' hle
    rw [h.resolve, hboth fuel' hle]
  · obtain ⟨e', -, hcopy⟩ := hkeeps.copy
    rw [walk_lists_iff hne hcopy, isConflict, lastName_concat, hname, parse_keptName]
    simp [RealFile, Option.isSome_iff_ne_none]

theorem KeepsBoth.free (hc : c ∈ listConflicts metadata s.db.val s.roots)
    (h : KeepsBoth metadata display now s c) : RealFile c ∧ SomeNameFree s c := by
  obtain ⟨row, f, d, n, e, original, hb⟩ := exists_behind hc
  obtain ⟨bound, label, s', hrun, -, row', hrow', hid', f', g', p', q', hroot', hroots, hp', hkeeps', hnot⟩ := h
  have hlocal := hb.same_root hrow' hid'
  rw [hlocal, hb.root] at hroot'
  cases hroot'
  have hne : p' ≠ [] := by
    rintro rfl
    have hnil : (render (d ++ [n])).toList = [] := by
      rw [← hb.backup, ← hp']
      rfl
    exact absurd (render_toList_eq_nil.mp hnil) (by simp)
  obtain rfl := render_injective hne (by simp) (hp'.trans hb.backup)
  -- the search has ended
  have hsearch : ∃ counter, freeName (taken f c.path.toList c.loserLabel.toList) bound none 2 =
      some counter := by
    have hbound := hrun bound le_rfl
    rw [hb.resolve] at hbound
    unfold keepBoth at hbound
    cases hfound : freeName (taken f c.path.toList c.loserLabel.toList) bound none 2 with
    | none =>
      rw [hfound] at hbound
      cases hbound
    | some counter => exact ⟨counter, rfl⟩
  obtain ⟨counter, hfound⟩ := hsearch
  obtain ⟨g, q, hrun', hkeeps, hlisted⟩ := @Behind.keeps metadata display now _ _ _ _ _ _ _ _ _ _ hb hfound
  have hs' := (hrun bound le_rfl).symm.trans (hrun' bound le_rfl)
  cases hs'
  have hg : g = g' := by
    have hat := congrFun hroots row.localPath
    dsimp only at hat
    rw [hlocal, Function.update_self, Function.update_self] at hat
    exact Option.some.inj hat
  subst hg
  obtain rfl := hkeeps.unique hkeeps'
  refine ⟨?_, row, hb.row_mem, hb.id, f, hb.root, counter, taken_of_freeName hfound⟩
  by_contra hno
  obtain ⟨c', hc', hq⟩ := hlisted.mpr hno
  exact hnot c' hc' hq

theorem SomeNameFree.keeps (hc : c ∈ listConflicts metadata s.db.val s.roots)
    (hfree : SomeNameFree s c) (hreal : RealFile c) : KeepsBoth metadata display now s c := by
  obtain ⟨row, f, d, n, e, original, hb⟩ := exists_behind hc
  obtain ⟨row', hrow', hid', f', hroot', counter, hfree⟩ := hfree
  rw [hb.same_root hrow' hid', hb.root] at hroot'
  cases hroot'
  obtain ⟨fuel, hsome⟩ := freeName_isSome_iff.mpr ⟨counter, hfree⟩
  obtain ⟨found, hfound⟩ := Option.isSome_iff_exists.mp hsome
  obtain ⟨g, q, hrun, hkeeps, hlisted⟩ := @Behind.keeps metadata display now _ _ _ _ _ _ _ _ _ _ hb hfound
  refine ⟨fuel, c.loserLabel, _, hrun, rfl, row, hb.row_mem, hb.id, f, g, d ++ [n], q, hb.root, rfl,
    hb.backup.symm, hkeeps, ?_⟩
  intro c' hc' hq
  exact hlisted.mp ⟨c', hc', hq⟩ hreal

variable (metadata display now s c)

/-- **Both are kept if the real file is no backup and a name is free.** -/
theorem keeps_both_iff (hc : c ∈ listConflicts metadata s.db.val s.roots) :
    KeepsBoth metadata display now s c ↔ RealFile c ∧ SomeNameFree s c :=
  ⟨fun h => h.free hc, fun h => h.2.keeps hc h.1⟩

end

/-- Two folders, one of which cannot be opened; the other has a file `f` and a backup. -/
def photosWith (backup : FileName) : ResolveState where
  db := ⟨photosAndMusic, by decide⟩
  roots path := if path = "/photos" then some (sampleFolder [(backup, [98]), (sampleName, [97])]) else none

/-- The backup is the first folder's. -/
theorem photosWith_lists {p : RelPath} {ts : UInt64} {loser : LoserLabel} {hash : FileHash}
    {backup : FileName} (hp : p.backup ts.toNat loser hash = [backup]) (hne : p ≠ []) :
    ∃ c ∈ listConflicts (fun _ _ => none) photosAndMusic (photosWith backup).roots,
      c.folderId = 1 ∧ c.backupPath = render (p.backup ts.toNat loser hash) := by
  have hfirst : (⟨1, "/photos", "phone", "sync"⟩ : SyncPair) ∈ photosAndMusic.listSyncFolders := by
    rw [Database.mem_listSyncFolders]
    decide
  apply mem_listConflicts.mpr
  refine ⟨⟨isConflict_backup hne ts loser hash, _, hfirst, rfl, _, rfl, ?_⟩, ?_⟩
  · rw [hp, Folder.entry, sampleFolder, AList.lookup_to_alist, List.map_cons, List.dlookup_cons_eq]
    rfl
  · rintro id hid ⟨-, row, hrow, rfl, -⟩
    obtain ⟨f, hf, _, -, -, -, rfl⟩ := Database.mem_listSyncFolders.mp hrow
    have hnumber : ∀ f ∈ photosAndMusic.syncFolders, ¬f.id < 1 := by decide
    exact hnumber f hf hid

theorem both_kept : ∃ c ∈ listConflicts (fun _ _ => none) photosAndMusic (photosWith sampleBackup).roots,
    c.path = "f" ∧ KeepsBoth (fun _ _ => none) (fun _ => "") 0 (photosWith sampleBackup) c := by
  obtain ⟨c, hc, hid, hpath⟩ := @photosWith_lists [sampleName] 1700000000 .localCopy (sampleBlake3 [97])
    sampleBackup rfl (by simp)
  obtain ⟨hwinner, hlabel⟩ := listed_backup (by simp) hc hpath
  refine ⟨c, hc, hwinner, (keeps_both_iff (fun _ _ => none) (fun _ => "") 0 (photosWith sampleBackup) c
    hc).mpr ⟨?_, ?_⟩⟩
  · unfold RealFile
    rw [hwinner]
    decide +kernel
  · refine ⟨⟨1, "/photos", "phone", "sync"⟩, ?_, hid.symm, _, rfl, none, ?_⟩
    · rw [Database.mem_listSyncFolders]
      decide
    · rw [hwinner, hlabel]
      decide +kernel

/-- The backup of a backup. -/
def nestedBackup : FileName := sampleBackup.backup 1700000001 .localCopy (sampleBlake3 [97])

theorem kept_copy_listed :
    ∃ c ∈ listConflicts (fun _ _ => none) photosAndMusic (photosWith nestedBackup).roots,
      ¬KeepsBoth (fun _ _ => none) (fun _ => "") 0 (photosWith nestedBackup) c := by
  obtain ⟨c, hc, -, hpath⟩ := @photosWith_lists [sampleBackup] 1700000001 .localCopy (sampleBlake3 [97])
    nestedBackup rfl (by simp)
  obtain ⟨hwinner, -⟩ := listed_backup (by simp) hc hpath
  refine ⟨c, hc, fun h => ?_⟩
  have hreal := (h.free hc).1
  unfold RealFile at hreal
  rw [hwinner] at hreal
  revert hreal
  decide +kernel

end FerriSync
