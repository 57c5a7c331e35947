/-
# From a backup's name to its file

`backup_on_conflict` appends a tag, a time, a label and a hash to the path of a file
(`taggedName`); `winnerRelativePath` and `parseConflictSuffix` look for the tag from
the end and read them back. The tag has its one dot in front and nothing that is
appended after it has one, so it is the last tag whatever the path is
(`splitLast_backupTag`).

The path string may be any: a slash that says nothing is not kept, but the path is
the same (`PathString.components`); a path without one comes back sign by sign.

Key definitions: `backupTag`, `taggedName`, `PathString.components`.
Key theorems: `splitLast_backupTag`, `components_winner`, `backup_names_read_back`.
-/
import FerriSync.Conflicts

namespace FerriSync

open LastSplit

/-! ### The name and its parts -/

/-- What `backup_on_conflict` appends, for the label of the copy that won. -/
def backupTag (ts : UInt64) (winnerLabel : String) (shortHash : List Char) : List Char :=
  conflictTag ++ ((Nat.repr ts.toNat).toList ++
    '-' :: ((loserLabel winnerLabel).chars ++ '-' :: shortHash))

/-- `{target}.ferrisync-conflict-{ts}-{loser_label}-{short_hash}`. -/
def taggedName (target : List Char) (ts : UInt64) (winnerLabel : String) (shortHash : List Char) :
    List Char :=
  target ++ backupTag ts winnerLabel shortHash

/-- The digits of a hash that is written in hexadecimal. -/
def hexDigits : List Char :=
  ['0', '1', '2', '3', '4', '5', '6', '7', '8', '9', 'a', 'b', 'c', 'd', 'e', 'f']

/-- What a session appends. -/
theorem conflictSuffix_eq (ts : UInt64) (winnerLabel : String) (hash : FileHash) :
    conflictSuffix ts.toNat (loserLabel winnerLabel) hash =
      backupTag ts winnerLabel (shortHash hash) := rfl

section

variable {ts : UInt64} {winnerLabel : String} {hash : List Char}

theorem digits_repr {n : ℕ} {c : Char} (h : c ∈ (Nat.repr n).toList) : c.isDigit = true := by
  rw [Nat.toList_repr] at h
  exact Nat.isDigit_of_mem_toDigits (by omega) (by omega) h

theorem loser_plain (loser : LoserLabel) :
    '.' ∉ loser.chars ∧ '/' ∉ loser.chars ∧ '-' ∉ loser.chars ∧ loser.chars ≠ [] := by
  cases loser <;> decide

/-- After the tag's first dot there is no dot, and nowhere a slash. -/
theorem backupTag_plain (hhash : ∀ c ∈ hash, c ∈ hexDigits) :
    ('.' ∉ (Nat.repr ts.toNat).toList ++ '-' :: ((loserLabel winnerLabel).chars ++ '-' :: hash)) ∧
      '/' ∉ backupTag ts winnerLabel hash := by
  have hloser := loser_plain (loserLabel winnerLabel)
  have hdot : '.' ∉ (Nat.repr ts.toNat).toList := fun h => absurd (digits_repr h) (by decide)
  have hslash : '/' ∉ (Nat.repr ts.toNat).toList := fun h => absurd (digits_repr h) (by decide)
  have hdot' : '.' ∉ hash := fun h => absurd (hhash _ h) (by decide)
  have hslash' : '/' ∉ hash := fun h => absurd (hhash _ h) (by decide)
  have htag : '/' ∉ conflictTag := by decide
  unfold backupTag
  simp only [List.mem_append, List.mem_cons, not_or]
  exact ⟨⟨hdot, by decide, hloser.1, by decide, hdot'⟩,
    htag, hslash, by decide, hloser.2.1, by decide, hslash'⟩

/-- **The tag that was appended is the last one.** -/
theorem splitLast_backupTag (hhash : ∀ c ∈ hash, c ∈ hexDigits) (name : List Char) :
    splitLast conflictTag (name ++ backupTag ts winnerLabel hash) = some (name,
      (Nat.repr ts.toNat).toList ++ '-' :: ((loserLabel winnerLabel).chars ++ '-' :: hash)) := by
  rw [backupTag, conflictTag_eq]
  exact splitLast_mark dot_notMem_tag (backupTag_plain hhash).1

/-- What was appended to a name is read back. -/
theorem parse_backupTag (hhash : ∀ c ∈ hash, c ∈ hexDigits) (name : List Char) :
    parseConflictSuffix (name ++ backupTag ts winnerLabel hash) =
      some (ts, (loserLabel winnerLabel).chars, hash) := by
  have hloser := loser_plain (loserLabel winnerLabel)
  have hdash : '-' ∉ (Nat.repr ts.toNat).toList := fun h => absurd (digits_repr h) (by decide)
  unfold parseConflictSuffix
  rw [splitLast_backupTag hhash]
  dsimp only
  rw [threeParts_of_dashes hdash hloser.2.2.1]
  dsimp only
  rw [parseU64_repr]
  exact if_neg hloser.2.2.2

end

/-! ### Path strings -/

namespace PathString

/-- `Path::components`, by which paths are compared. -/
def components (path : List Char) : List Char × List (List Char) :=
  ((body path).1, (body path).2.filter fun part => !trivial part)

/-- A path is a name, or a name after its last slash. -/
theorem exists_lastPart (path : List Char) :
    '/' ∉ path ∨ ∃ dir name, path = dir ++ '/' :: name ∧ '/' ∉ name := by
  induction path using List.reverseRecOn with
  | nil => exact Or.inl List.not_mem_nil
  | append_singleton path c ih =>
    by_cases hc : c = '/'
    · exact Or.inr ⟨path, [], by rw [hc], List.not_mem_nil⟩
    · rcases ih with hno | ⟨dir, name, rfl, hno⟩
      · refine Or.inl fun h => ?_
        rcases List.mem_append.mp h with h | h
        · exact hno h
        · exact hc (List.mem_singleton.mp h).symm
      · refine Or.inr ⟨dir, name ++ [c], by simp, fun h => ?_⟩
        rcases List.mem_append.mp h with h | h
        · exact hno h
        · exact hc (List.mem_singleton.mp h).symm

theorem splitOn_below {dir name : List Char} (hname : '/' ∉ name) :
    (dir ++ '/' :: name).splitOn '/' = dir.splitOn '/' ++ [name] := by
  rw [List.splitOn_append_cons_self, List.splitOn_eq_singleton hname]

theorem trimRight_concat {parts : List (List Char)} {part : List Char} (h : trivial part = false) :
    trimRight (parts ++ [part]) = parts ++ [part] := by
  simp [trimRight, h]

/-- Only parts that are no components are trimmed. -/
theorem filter_trimRight (parts : List (List Char)) :
    (trimRight parts).filter (fun part => !trivial part) = parts.filter fun part => !trivial part := by
  induction parts using List.reverseRecOn with
  | nil => rfl
  | append_singleton parts part ih =>
    cases h : trivial part with
    | false => rw [trimRight_concat h]
    | true =>
      have htrim : trimRight (parts ++ [part]) = trimRight parts := by simp [trimRight, h]
      rw [htrim, ih, List.filter_append]
      simp [h]

/-- No part of a path has a slash. -/
theorem slash_notMem_part {path part : List Char} (h : part ∈ path.splitOn '/') : '/' ∉ part := by
  induction hlen : path.length using Nat.strong_induction_on generalizing path with
  | _ k ih =>
    rcases exists_lastPart path with hno | ⟨dir, name, rfl, hno⟩
    · rw [List.splitOn_eq_singleton hno, List.mem_singleton] at h
      rwa [h]
    · rw [splitOn_below hno] at h
      rcases List.mem_append.mp h with h | h
      · refine ih dir.length ?_ h rfl
        rw [← hlen, List.length_append, List.length_cons]
        omega
      · rwa [List.mem_singleton.mp h]

/-- What the path of a directory begins with, and its parts. -/
def lead (dir : List Char) : List Char × List (List Char) :=
  match dir.splitOn '/' with
  | [] => ([], [])
  | part :: parts =>
    if part = [] then (['/'], parts)
    else if part = ['.'] then (['.'], parts)
    else ([], part :: parts)

theorem lead_of_splitOn {dir part : List Char} {parts : List (List Char)}
    (h : dir.splitOn '/' = part :: parts) : lead dir =
      if part = [] then (['/'], parts) else if part = ['.'] then (['.'], parts)
      else ([], part :: parts) := by
  unfold lead
  rw [h]

theorem body_below {dir name : List Char} (hname : '/' ∉ name) :
    body (dir ++ '/' :: name) = ((lead dir).1, (lead dir).2 ++ [name]) := by
  obtain ⟨part, parts, hparts⟩ := List.exists_cons_of_ne_nil (List.splitOn_ne_nil '/' dir)
  have hsplit : (dir ++ '/' :: name).splitOn '/' = part :: (parts ++ [name]) := by
    rw [splitOn_below hname, hparts, List.cons_append]
  have hbelow : parts ++ [name] ≠ [] := by simp
  unfold body
  rw [hsplit, lead_of_splitOn hparts]
  dsimp only
  rw [if_congr (and_iff_left hbelow) rfl rfl]
  split_ifs <;> rfl

/-- The path of a directory, as `Path::parent` gives it. -/
def dirPath (dir : List Char) : List Char := join (lead dir).1 (trimRight (lead dir).2)

section

variable {dir name : List Char}

theorem parent_below (hname : '/' ∉ name) (hpart : trivial name = false) :
    parent (dir ++ '/' :: name) = some (dirPath dir) := by
  unfold parent
  rw [body_below hname]
  dsimp only
  rw [trimRight_concat hpart, if_neg (by simp), List.dropLast_concat]
  rfl

theorem fileName_below (hname : '/' ∉ name) (hpart : trivial name = false) (hup : name ≠ ['.', '.']) :
    fileName (dir ++ '/' :: name) = some name := by
  unfold fileName
  rw [body_below hname]
  dsimp only
  rw [trimRight_concat hpart, List.getLast?_concat]
  simp [hup]

theorem body_name (hname : '/' ∉ name) (hpart : trivial name = false) : body name = ([], [name]) := by
  unfold body
  rw [List.splitOn_eq_singleton hname]
  simp only [trivial, Bool.or_eq_false_iff, decide_eq_false_iff_not] at hpart
  simp [hpart]

theorem trimRight_subset {parts : List (List Char)} : trimRight parts ⊆ parts := by
  intro part h
  unfold trimRight at h
  rw [List.mem_reverse] at h
  exact List.mem_reverse.mp ((List.dropWhile_suffix _).subset h)

theorem trimRight_cons {part : List Char} (h : trivial part = false) (parts : List (List Char)) :
    ∃ rest, trimRight (part :: parts) = part :: rest := by
  induction parts using List.reverseRecOn with
  | nil => exact ⟨[], @trimRight_concat [] part h⟩
  | append_singleton parts last ih =>
    rw [← List.cons_append]
    cases hlast : trivial last with
    | false => exact ⟨parts ++ [last], by rw [trimRight_concat hlast, List.cons_append]⟩
    | true =>
      have htrim : trimRight (part :: parts ++ [last]) = trimRight (part :: parts) := by
        simp [trimRight, hlast]
      rwa [htrim]

/-- The parts of a path that is put together of some. -/
theorem filter_intercalate {parts : List (List Char)} (hslash : ∀ part ∈ parts, '/' ∉ part) :
    ((['/'].intercalate (trimRight parts)).splitOn '/').filter (fun part => !trivial part) =
      parts.filter fun part => !trivial part := by
  rw [← filter_trimRight parts]
  by_cases hnil : trimRight parts = []
  · rw [hnil]
    rfl
  · rw [List.splitOn_intercalate '/' (fun part h => hslash part (trimRight_subset h)) hnil]

/-- The path of a directory has its components. -/
theorem lead_dirPath (dir : List Char) : ∃ parts, lead (dirPath dir) = ((lead dir).1, parts) ∧
    parts.filter (fun part => !trivial part) = (lead dir).2.filter fun part => !trivial part := by
  obtain ⟨part, parts, hparts⟩ := List.exists_cons_of_ne_nil (List.splitOn_ne_nil '/' dir)
  have hno : ∀ x ∈ part :: parts, '/' ∉ x := fun x hx => slash_notMem_part (hparts ▸ hx)
  have hslash : ∀ x ∈ parts, '/' ∉ x := fun x hx => hno x (List.mem_cons_of_mem part hx)
  have hsep : ∀ x y : List Char, (x ++ '/' :: y).splitOn '/' = x.splitOn '/' ++ y.splitOn '/' :=
    fun x y => List.splitOn_append_cons_self x y
  unfold dirPath
  rw [lead_of_splitOn hparts]
  split_ifs with hroot hdot
  · refine ⟨(['/'].intercalate (trimRight parts)).splitOn '/', ?_, filter_intercalate hslash⟩
    have hjoin : (join ['/'] (trimRight parts)).splitOn '/' =
        [] :: (['/'].intercalate (trimRight parts)).splitOn '/' := hsep [] _
    rw [lead_of_splitOn hjoin, if_pos rfl]
  · by_cases hnil : trimRight parts = []
    · refine ⟨[], ?_, ?_⟩
      · rw [hnil]
        show lead ['.'] = (['.'], [])
        decide
      · rw [← filter_trimRight parts, hnil]
    · refine ⟨(['/'].intercalate (trimRight parts)).splitOn '/', ?_, filter_intercalate hslash⟩
      have hjoin : (join ['.'] (trimRight parts)).splitOn '/' =
          ['.'] :: (['/'].intercalate (trimRight parts)).splitOn '/' := by
        rw [join, if_pos ⟨rfl, hnil⟩]
        exact hsep ['.'] _
      rw [lead_of_splitOn hjoin, if_neg (by simp), if_pos rfl]
  · have hpart : trivial part = false := by simp [trivial, hroot, hdot]
    obtain ⟨rest, hrest⟩ := trimRight_cons hpart parts
    refine ⟨part :: rest, ?_, by rw [← hrest, filter_trimRight]⟩
    have hjoin : (join [] (trimRight (part :: parts))).splitOn '/' = part :: rest := by
      have hslash' : ∀ x ∈ part :: rest, '/' ∉ x := fun x hx =>
        hno x (trimRight_subset (hrest ▸ hx))
      rw [hrest, join, if_neg (by simp), List.nil_append]
      exact List.splitOn_intercalate '/' hslash' (by simp)
    rw [lead_of_splitOn hjoin, if_neg hroot, if_neg hdot]

theorem components_below (hname : '/' ∉ name) : components (dir ++ '/' :: name) =
    ((lead dir).1, ((lead dir).2 ++ [name]).filter fun part => !trivial part) := by
  unfold components
  rw [body_below hname]

end

end PathString

/-! ### Back to the file -/

section

open PathString

variable {ts : UInt64} {winnerLabel : String} {hash : List Char}

/-- A backup's name is a proper one. -/
theorem backup_plain (hhash : ∀ c ∈ hash, c ∈ hexDigits) {name : List Char} (hname : '/' ∉ name) :
    '/' ∉ name ++ backupTag ts winnerLabel hash ∧
      trivial (name ++ backupTag ts winnerLabel hash) = false ∧
      name ++ backupTag ts winnerLabel hash ≠ ['.', '.'] := by
  have hlen : 2 < (name ++ backupTag ts winnerLabel hash).length := by
    have htag : conflictTag.length = 20 := by decide
    rw [backupTag, List.length_append, List.length_append]
    omega
  refine ⟨fun h => ?_, ?_, ?_⟩
  · exact (List.mem_append.mp h).elim hname (backupTag_plain hhash).2
  · rw [PathString.trivial, Bool.or_eq_false_iff, decide_eq_false_iff_not, decide_eq_false_iff_not]
    constructor
    · intro h
      rw [h] at hlen
      simp at hlen
    · intro h
      rw [h] at hlen
      simp at hlen
  · intro h
    rw [h] at hlen
    simp at hlen

/-- The backup of a file that is in no directory. -/
theorem winner_name (hhash : ∀ c ∈ hash, c ∈ hexDigits) {name : List Char} (hname : '/' ∉ name) :
    fileName (taggedName name ts winnerLabel hash) = some (name ++ backupTag ts winnerLabel hash) ∧
      winnerRelativePath (taggedName name ts winnerLabel hash) = some name := by
  obtain ⟨hslash, hpart, hup⟩ := @backup_plain ts winnerLabel hash hhash name hname
  have hbody := body_name hslash hpart
  have htrim : trimRight [name ++ backupTag ts winnerLabel hash] =
      [name ++ backupTag ts winnerLabel hash] := @trimRight_concat [] _ hpart
  have hfile : fileName (taggedName name ts winnerLabel hash) =
      some (name ++ backupTag ts winnerLabel hash) := by
    rw [taggedName, fileName, hbody, htrim]
    simp [hup]
  have hparent : parent (taggedName name ts winnerLabel hash) = some [] := by
    rw [taggedName, parent, hbody]
    dsimp only
    rw [htrim, if_neg (by simp)]
    rfl
  refine ⟨hfile, ?_⟩
  unfold winnerRelativePath
  rw [hfile, hparent]
  dsimp only
  rw [splitLast_backupTag hhash]
  exact congrArg some (if_pos rfl)

theorem dirPath_ne_nil (dir : List Char) : dirPath dir ≠ [] := by
  intro h
  obtain ⟨parts, hlead, hparts⟩ := lead_dirPath dir
  -- the empty string is read as what comes before a slash at the front
  have hnil : lead (dirPath dir) = (['/'], []) := by
    rw [h]
    decide
  have hstart : (lead dir).1 = ['/'] := (congrArg Prod.fst (hlead.symm.trans hnil))
  have hjoin : dirPath dir = '/' :: ['/'].intercalate (trimRight (lead dir).2) := by
    rw [dirPath, hstart]
    rfl
  rw [hjoin] at h
  cases h

/-- The backup of a file in a directory. -/
theorem winner_below (hhash : ∀ c ∈ hash, c ∈ hexDigits) {dir name : List Char} (hname : '/' ∉ name) :
    fileName (taggedName (dir ++ '/' :: name) ts winnerLabel hash) =
        some (name ++ backupTag ts winnerLabel hash) ∧
      winnerRelativePath (taggedName (dir ++ '/' :: name) ts winnerLabel hash) =
        some (dirPath dir ++ '/' :: name) := by
  obtain ⟨hslash, hpart, hup⟩ := @backup_plain ts winnerLabel hash hhash name hname
  have hbackup : taggedName (dir ++ '/' :: name) ts winnerLabel hash =
      dir ++ '/' :: (name ++ backupTag ts winnerLabel hash) := by
    rw [taggedName, List.append_assoc, List.cons_append]
  have hfile := @fileName_below dir _ hslash hpart hup
  rw [hbackup]
  refine ⟨hfile, ?_⟩
  unfold winnerRelativePath
  rw [hfile, parent_below hslash hpart]
  dsimp only
  rw [splitLast_backupTag hhash]
  exact congrArg some (if_neg (dirPath_ne_nil dir))

theorem components_winner {dir name : List Char} (hname : '/' ∉ name) :
    components (dirPath dir ++ '/' :: name) = components (dir ++ '/' :: name) := by
  obtain ⟨parts, hlead, hparts⟩ := lead_dirPath dir
  rw [components_below hname, components_below hname, hlead]
  simp only [List.filter_append, hparts]

/-- A directory's own path is put together as it was. -/
theorem dirPath_render {d : RelPath} (hd : d ≠ []) : dirPath (render d).toList = (render d).toList := by
  obtain ⟨n, d, rfl⟩ := List.exists_cons_of_ne_nil hd
  have hlead : lead (render (n :: d)).toList = ([], (n :: d).map (·.chars)) := by
    rw [lead_of_splitOn (render_parts (n :: d) hd), if_neg n.ne_nil, if_neg n.not_dot]
    rfl
  rw [dirPath, hlead]
  dsimp only
  rw [trimRight_names, join, if_neg (by simp), List.nil_append, render, String.toList_ofList]

/-- **The parser inverts the encoder.** Whatever the path of a file, the name of its
backup is read as the time, the label and the hash it was made of, and its file is at
the same path; at the same string, if the path is that of names with a slash between
each two. -/
theorem backup_names_read_back (path : List Char) (ts : UInt64) (winnerLabel : String)
    (hash : List Char) (hhash : ∀ c ∈ hash, c ∈ hexDigits) :
    (∃ name, fileName (taggedName path ts winnerLabel hash) = some name ∧
      parseConflictSuffix name = some (ts, (loserLabel winnerLabel).chars, hash)) ∧
    (∃ winner, winnerRelativePath (taggedName path ts winnerLabel hash) = some winner ∧
      components winner = components path) ∧
    ∀ p : RelPath, p ≠ [] → path = (render p).toList →
      winnerRelativePath (taggedName path ts winnerLabel hash) = some path := by
  rcases exists_lastPart path with hname | ⟨dir, name, rfl, hname⟩
  · obtain ⟨hfile, hwinner⟩ := @winner_name ts winnerLabel hash hhash path hname
    exact ⟨⟨_, hfile, parse_backupTag hhash path⟩, ⟨path, hwinner, rfl⟩, fun _ _ _ => hwinner⟩
  · obtain ⟨hfile, hwinner⟩ := @winner_below ts winnerLabel hash hhash dir name hname
    refine ⟨⟨_, hfile, parse_backupTag hhash name⟩, ⟨_, hwinner, components_winner hname⟩, ?_⟩
    intro p hp hpath
    obtain ⟨d, n, rfl⟩ := RelPath.eq_append_of_ne_nil hp
    rw [render_concat] at hpath
    unfold below at hpath
    split_ifs at hpath with hd
    · have hslash : '/' ∈ n.chars := by rw [← hpath]; simp
      exact absurd hslash n.no_slash
    · have hparts := congrArg (List.splitOn '/') hpath
      rw [splitOn_below hname, splitOn_below n.no_slash] at hparts
      have hlast : name = n.chars := by simpa using (List.append_inj' hparts rfl).2
      subst hlast
      have hdir : dir = (render d).toList := List.append_cancel_right hpath
      rw [hwinner, hdir, dirPath_render hd]

/-- A backup of what is called like a backup. -/
theorem backup_names_read_back_tagged :
    ∃ name, fileName (taggedName "d/.x.ferrisync-conflict-1-local-aa".toList 5 "remote" ['0', 'f']) =
      some name ∧ parseConflictSuffix name = some (5, "local".toList, ['0', 'f']) :=
  (backup_names_read_back "d/.x.ferrisync-conflict-1-local-aa".toList 5 "remote" ['0', 'f']
    (by simp [hexDigits])).1

end

end FerriSync
