/-
# Path strings and names

A path string from a peer is split at its slashes; `safeJoin`
(`ferrisync-core/src/filesystem/root.rs`) refuses a NUL, an absolute path and
a `..`, and what is left is a list of file names below the root, since empty
and `.` components say nothing (`Path::components`). A string that ends in a
slash or in `/.` names a directory only.

Names are text here; names of any bytes are in `SyncRoot`. The folder holds
no symbolic link, so the checks of `safeJoin` that follow links never fail.

Two names are derived from a target's: the temporary name
(`with_extension(".ferrisync-tmp")`, which replaces what follows the last dot)
and the backup name (the tag, a time, a label and eight hexadecimal digits
after the whole name). They are never the target's own (`temp_ne`,
`backup_ne`) nor each other (`temp_ne_backup`).

Key definitions: `FileName`, `safeJoin`, `FileName.temp`, `FileName.backup`.
Key theorems: `safeJoin_render`, `render_injective`, `RelPath.temp_ne_backup`.
-/
import FerriSync.Domain
import Mathlib.Data.List.Basic
import Mathlib.Data.Nat.Digits.Defs

namespace FerriSync

/-- A name a directory entry can have. -/
structure FileName where
  chars : List Char
  ne_nil : chars ≠ []
  no_slash : '/' ∉ chars
  no_nul : Char.ofNat 0 ∉ chars
  not_dot : chars ≠ ['.']
  not_dotdot : chars ≠ ['.', '.']
deriving DecidableEq

/-- A path below the root, the root itself being `[]`. -/
abbrev RelPath := List FileName

/-- What a path string denotes: a path, and whether it can only be a
directory. -/
structure Target where
  path : RelPath
  asDir : Bool
deriving DecidableEq

namespace FileName

theorem ext {m n : FileName} (h : m.chars = n.chars) : m = n := by
  cases m; cases n; cases h; rfl

/-- A component that is a name; none if it is empty or a dot. -/
def ofChars? (cs : List Char) : Option FileName :=
  if h : cs ≠ [] ∧ '/' ∉ cs ∧ Char.ofNat 0 ∉ cs ∧ cs ≠ ['.'] ∧ cs ≠ ['.', '.'] then
    some ⟨cs, h.1, h.2.1, h.2.2.1, h.2.2.2.1, h.2.2.2.2⟩
  else none

theorem ofChars?_chars (n : FileName) : ofChars? n.chars = some n :=
  dif_pos ⟨n.ne_nil, n.no_slash, n.no_nul, n.not_dot, n.not_dotdot⟩

/-- A name longer than two characters, without a slash or a NUL. -/
def ofLong (cs : List Char) (hlen : 2 < cs.length) (hs : '/' ∉ cs) (hn : Char.ofNat 0 ∉ cs) :
    FileName where
  chars := cs
  ne_nil := by rintro rfl; simp at hlen
  no_slash := hs
  no_nul := hn
  not_dot := by rintro rfl; simp at hlen
  not_dotdot := by rintro rfl; simp at hlen

end FileName

/-- The string of a path: its names joined by slashes. -/
def render (p : RelPath) : String := String.ofList (['/'].intercalate (p.map (·.chars)))

/-- Resolve a peer's path string below the root. -/
def safeJoin (untrusted : String) : Except String Target :=
  let parts := untrusted.toList.splitOn '/'
  if Char.ofNat 0 ∈ untrusted.toList then .error "path contains null byte"
  else if untrusted.toList.head? = some '/' then .error s!"absolute path rejected: {untrusted}"
  else if ['.', '.'] ∈ parts then .error s!"path traversal rejected: {untrusted}"
  else .ok ⟨parts.filterMap FileName.ofChars?,
    parts.getLast? = some [] || parts.getLast? = some ['.']⟩

theorem filterMap_ofChars? (p : RelPath) :
    (p.map (·.chars)).filterMap FileName.ofChars? = p := by
  rw [List.filterMap_map]
  simp [FileName.ofChars?_chars]

theorem render_parts (p : RelPath) (hp : p ≠ []) :
    (render p).toList.splitOn '/' = p.map (·.chars) := by
  rw [render, String.toList_ofList]
  refine List.splitOn_intercalate '/' (fun l hl => ?_) (by simpa using hp)
  obtain ⟨n, -, rfl⟩ := List.mem_map.mp hl
  exact n.no_slash

theorem notMem_intercalate {c : Char} (hc : c ≠ '/') : ∀ (p : RelPath), (∀ n ∈ p, c ∉ n.chars) →
    c ∉ ['/'].intercalate (p.map (·.chars))
  | [], _ => by simp
  | [n], h => by simpa using h n (by simp)
  | n :: m :: p, h => by
    have ih := notMem_intercalate hc (m :: p) fun x hx => h x (List.mem_cons_of_mem _ hx)
    simp only [List.map_cons, List.intercalate_cons_cons] at ih ⊢
    simp only [List.mem_append, List.mem_singleton, not_or]
    exact ⟨⟨h n (by simp), hc⟩, ih⟩

/-- A path's own string resolves to it. -/
theorem safeJoin_render (p : RelPath) (hp : p ≠ []) : safeJoin (render p) = .ok ⟨p, false⟩ := by
  have hparts := render_parts p hp
  have hnul : Char.ofNat 0 ∉ (render p).toList := by
    rw [render, String.toList_ofList]
    exact notMem_intercalate (by decide) p fun n _ => n.no_nul
  have hhead : (render p).toList.head? ≠ some '/' := by
    intro h
    cases p with
    | nil => exact hp rfl
    | cons n q =>
      have hmem : (n.chars.head?) = some '/' := by
        rw [render, String.toList_ofList] at h
        cases q with
        | nil => simpa using h
        | cons m q =>
          simp only [List.map_cons, List.intercalate_cons_cons, List.append_assoc] at h
          rwa [List.head?_append_of_ne_nil _ n.ne_nil] at h
      exact n.no_slash (List.mem_of_mem_head? hmem)
  have hdots : ['.', '.'] ∉ p.map (·.chars) := by
    intro h
    obtain ⟨n, -, hn⟩ := List.mem_map.mp h
    exact n.not_dotdot hn
  have hlast : ∀ cs, (p.map (·.chars)).getLast? = some cs → cs ≠ [] ∧ cs ≠ ['.'] := by
    intro cs h
    obtain ⟨n, -, rfl⟩ := List.mem_map.mp (List.mem_of_getLast? h)
    exact ⟨n.ne_nil, n.not_dot⟩
  unfold safeJoin
  simp only [hparts, if_neg hnul, if_neg hhead, if_neg hdots, filterMap_ofChars?]
  have h1 : ¬ (p.map (·.chars)).getLast? = some [] := fun h => (hlast _ h).1 rfl
  have h2 : ¬ (p.map (·.chars)).getLast? = some ['.'] := fun h => (hlast _ h).2 rfl
  simp only [h1, h2, decide_false, Bool.or_self]

theorem render_injective {p q : RelPath} (hp : p ≠ []) (hq : q ≠ []) (h : render p = render q) :
    p = q := by
  have := (safeJoin_render p hp).symm.trans (h ▸ safeJoin_render q hq)
  simpa using this

/-! ### The temporary name -/

/-- `Path::file_stem`: what stands before the last dot, unless that dot comes
first. -/
def fileStem (cs : List Char) : List Char :=
  match cs.reverse.dropWhile (· ≠ '.') with
  | [] => cs
  | [_] => cs
  | _ :: before => before.reverse

/-- `Path::with_extension`, on the name. -/
def withExtension (cs extension : List Char) : List Char := fileStem cs ++ '.' :: extension

/-- The extension of a temporary name, `.ferrisync-tmp`. -/
def tmpExtension : List Char := ['.', 'f', 'e', 'r', 'r', 'i', 's', 'y', 'n', 'c', '-', 't', 'm', 'p']

/-- The marker in every backup's name, `.ferrisync-conflict-`. -/
def conflictTag : List Char :=
  ['.', 'f', 'e', 'r', 'r', 'i', 's', 'y', 'n', 'c', '-', 'c', 'o', 'n', 'f', 'l', 'i', 'c', 't', '-']

example : String.ofList tmpExtension = ".ferrisync-tmp" ∧
    String.ofList conflictTag = ".ferrisync-conflict-" := by decide

theorem fileStem_subset (cs : List Char) : fileStem cs ⊆ cs := by
  have hsub : cs.reverse.dropWhile (· ≠ '.') ⊆ cs.reverse := List.dropWhile_subset _
  unfold fileStem
  split
  · exact fun _ h => h
  · exact fun _ h => h
  · rename_i c before _ heq
    intro x hx
    rw [heq] at hsub
    exact List.mem_reverse.mp (hsub (List.mem_cons_of_mem _ (List.mem_reverse.mp hx)))

/-- The stem of a name that ends in a dot and letters is what comes before
that dot. -/
theorem fileStem_append {a b : List Char} (ha : a ≠ []) (hb : '.' ∉ b) :
    fileStem (a ++ '.' :: b) = a := by
  have hd : (a ++ '.' :: b).reverse.dropWhile (· ≠ '.') = '.' :: a.reverse := by
    rw [List.reverse_append, List.reverse_cons, List.append_assoc, List.dropWhile_append_of_pos]
    · simp
    · intro x hx
      simp only [decide_eq_true_eq]
      rintro rfl
      exact hb (List.mem_reverse.mp hx)
  unfold fileStem
  rw [hd]
  cases hr : a.reverse with
  | nil => exact absurd (List.reverse_eq_nil_iff.mp hr) ha
  | cons x xs =>
    dsimp only
    rw [← hr, List.reverse_reverse]

namespace FileName

variable (n : FileName)

/-- `with_extension(".ferrisync-tmp")`. -/
def temp : FileName :=
  ofLong (withExtension n.chars tmpExtension)
    (by rw [withExtension, List.length_append]; exact Nat.lt_add_left _ (by decide))
    (by
      simp only [withExtension, List.mem_append, not_or]
      exact ⟨fun h => n.no_slash (fileStem_subset _ h), by decide⟩)
    (by
      simp only [withExtension, List.mem_append, not_or]
      exact ⟨fun h => n.no_nul (fileStem_subset _ h), by decide⟩)

/-- Setting the extension twice keeps one dot more than before, so the
temporary name of a file is not the file's own. -/
theorem temp_ne : n.temp ≠ n := by
  intro h
  have hc : n.chars = fileStem n.chars ++ '.' :: tmpExtension := (congrArg chars h).symm
  have hs : fileStem n.chars = fileStem n.chars ++ ['.'] := by
    conv_lhs => rw [hc]
    rw [show fileStem n.chars ++ '.' :: tmpExtension =
      (fileStem n.chars ++ ['.']) ++ '.' :: tmpExtension.tail by simp [tmpExtension]]
    exact fileStem_append (by simp) (by decide)
  simpa using congrArg List.length hs

theorem temp_length : 11 < n.temp.chars.length := by
  show 11 < (withExtension n.chars tmpExtension).length
  rw [withExtension, List.length_append]
  exact Nat.lt_add_left _ (by decide)

theorem temp_getLast : n.temp.chars.getLast? = some 'p' := by
  have h : tmpExtension.getLast? = some 'p' := by decide
  simp only [temp, ofLong, withExtension, List.getLast?_append, List.getLast?_cons, h,
    Option.getD_some, Option.some_or]

end FileName

/-! ### The backup name -/

/-- Whose copy a conflict backup holds. -/
inductive LoserLabel
  | localCopy
  | remoteCopy
deriving DecidableEq, Repr

def LoserLabel.chars : LoserLabel → List Char
  | localCopy => ['l', 'o', 'c', 'a', 'l']
  | remoteCopy => ['r', 'e', 'm', 'o', 't', 'e']

/-- The loser's label, from the winner's. -/
def loserLabel (winnerLabel : String) : LoserLabel :=
  if winnerLabel = "remote" then .localCopy else .remoteCopy

/-- A byte in two hexadecimal digits. -/
def hexByte (b : UInt8) : List Char := [Nat.digitChar (b.toNat / 16), Nat.digitChar (b.toNat % 16)]

/-- The first eight hexadecimal digits of a hash. -/
def shortHash (h : FileHash) : List Char := (h.bytes.flatMap hexByte).take 8

theorem digitChar_hex (n : ℕ) (h : n < 16) :
    Nat.digitChar n ≠ '/' ∧ Nat.digitChar n ≠ Char.ofNat 0 ∧ Nat.digitChar n ≠ 'p' := by
  have hall : ∀ m < 16, Nat.digitChar m ≠ '/' ∧ Nat.digitChar m ≠ Char.ofNat 0 ∧
      Nat.digitChar m ≠ 'p' := by decide
  exact hall n h

theorem mem_shortHash {h : FileHash} {c : Char} (hc : c ∈ shortHash h) :
    c ≠ '/' ∧ c ≠ Char.ofNat 0 ∧ c ≠ 'p' := by
  obtain ⟨b, -, hb⟩ := List.mem_flatMap.mp (List.mem_of_mem_take hc)
  have hlt : b.toNat < 256 := b.toNat_lt
  simp only [hexByte, List.mem_cons, List.not_mem_nil, or_false] at hb
  rcases hb with rfl | rfl
  · exact digitChar_hex _ (by omega)
  · exact digitChar_hex _ (by omega)

theorem shortHash_ne_nil (h : FileHash) : shortHash h ≠ [] := by
  have hl := h.length_eq
  unfold shortHash
  cases hb : h.bytes with
  | nil => rw [hb] at hl; simp at hl
  | cons b bs => simp [hexByte]

/-- What follows the target's name in its backup's:
`.ferrisync-conflict-{ts}-{loser_label}-{short_hash}`. -/
def conflictSuffix (ts : ℕ) (loser : LoserLabel) (hash : FileHash) : List Char :=
  conflictTag ++ ((Nat.repr ts).toList ++ ('-' :: (loser.chars ++ ('-' :: shortHash hash))))

theorem conflictSuffix_length (ts : ℕ) (loser : LoserLabel) (hash : FileHash) :
    11 < (conflictSuffix ts loser hash).length := by
  rw [conflictSuffix, List.length_append]
  exact Nat.lt_add_right _ (by decide)

theorem mem_repr {ts : ℕ} {c : Char} (h : c ∈ (Nat.repr ts).toList) :
    c ≠ '/' ∧ c ≠ Char.ofNat 0 := by
  rw [Nat.repr, String.toList_ofList] at h
  have hd := Nat.isDigit_of_mem_toDigits (by omega) (by omega) h
  constructor <;> · rintro rfl; revert hd; decide

theorem mem_conflictSuffix {ts : ℕ} {loser : LoserLabel} {hash : FileHash} {c : Char}
    (h : c ∈ conflictSuffix ts loser hash) : c ≠ '/' ∧ c ≠ Char.ofNat 0 := by
  simp only [conflictSuffix, List.mem_append, List.mem_cons] at h
  rcases h with h | h | rfl | h | rfl | h
  · constructor <;> · rintro rfl; revert h; decide
  · exact mem_repr h
  · decide
  · cases loser <;> (constructor <;> · rintro rfl; revert h; decide)
  · decide
  · exact ⟨(mem_shortHash h).1, (mem_shortHash h).2.1⟩

/-- The dot of the tag is the last one in a backup's name. -/
theorem exists_conflictSuffix (ts : ℕ) (loser : LoserLabel) (hash : FileHash) :
    ∃ cs, conflictSuffix ts loser hash = '.' :: cs ∧ '.' ∉ cs := by
  refine ⟨conflictTag.tail ++ ((Nat.repr ts).toList ++ ('-' :: (loser.chars ++ ('-' :: shortHash hash)))),
    rfl, fun h => ?_⟩
  simp only [List.mem_append, List.mem_cons] at h
  rcases h with h | h | h | h | h | h
  · revert h
    decide
  · rw [Nat.repr, String.toList_ofList] at h
    have hd := Nat.isDigit_of_mem_toDigits (by omega) (by omega) h
    revert hd
    decide
  · revert h
    decide
  · cases loser <;> · revert h; decide
  · revert h
    decide
  · obtain ⟨b, -, hb⟩ := List.mem_flatMap.mp (List.mem_of_mem_take h)
    have hdigit : ∀ m < 16, Nat.digitChar m ≠ '.' := by decide
    have hlt : b.toNat < 256 := b.toNat_lt
    simp only [hexByte, List.mem_cons, List.not_mem_nil, or_false] at hb
    rcases hb with hb | hb
    · exact hdigit _ (by omega) hb.symm
    · exact hdigit _ (by omega) hb.symm

namespace FileName

variable (n : FileName)

/-- The name `backup_on_conflict` renames a file to. -/
def backup (ts : ℕ) (loser : LoserLabel) (hash : FileHash) : FileName :=
  ofLong (n.chars ++ conflictSuffix ts loser hash)
    (by
      have := conflictSuffix_length ts loser hash
      rw [List.length_append]
      omega)
    (by
      simp only [List.mem_append, not_or]
      exact ⟨n.no_slash, fun h => (mem_conflictSuffix h).1 rfl⟩)
    (by
      simp only [List.mem_append, not_or]
      exact ⟨n.no_nul, fun h => (mem_conflictSuffix h).2 rfl⟩)

theorem backup_length (ts : ℕ) (loser : LoserLabel) (hash : FileHash) :
    11 < (n.backup ts loser hash).chars.length := by
  show 11 < (n.chars ++ conflictSuffix ts loser hash).length
  rw [List.length_append]
  exact Nat.lt_add_left _ (conflictSuffix_length ts loser hash)

theorem backup_ne (ts : ℕ) (loser : LoserLabel) (hash : FileHash) : n.backup ts loser hash ≠ n := by
  intro h
  have hl := congrArg (fun m => m.chars.length) h
  have := conflictSuffix_length ts loser hash
  simp only [backup, ofLong, List.length_append] at hl
  omega

/-- What comes before the last dot of a name. -/
def stem : FileName := (ofChars? (fileStem n.chars)).getD n

theorem stem_backup (ts : ℕ) (loser : LoserLabel) (hash : FileHash) :
    (n.backup ts loser hash).stem = n := by
  obtain ⟨cs, hcs, hdot⟩ := exists_conflictSuffix ts loser hash
  have hstem : fileStem (n.backup ts loser hash).chars = n.chars := by
    show fileStem (n.chars ++ conflictSuffix ts loser hash) = n.chars
    rw [hcs, fileStem_append n.ne_nil hdot]
  rw [stem, hstem, ofChars?_chars, Option.getD_some]

/-- A backup's name tells whose backup it is. -/
theorem backup_inj {m : FileName} {ts ts' : ℕ} {loser loser' : LoserLabel} {hash hash' : FileHash}
    (h : n.backup ts loser hash = m.backup ts' loser' hash') : n = m := by
  rw [← n.stem_backup ts loser hash, h, m.stem_backup]

/-- A temporary name ends in `p`, a backup name in a hexadecimal digit. -/
theorem temp_ne_backup (m : FileName) (ts : ℕ) (loser : LoserLabel) (hash : FileHash) :
    n.temp ≠ m.backup ts loser hash := by
  intro h
  have hl := temp_getLast n
  rw [h] at hl
  obtain ⟨x, xs, hx⟩ := List.exists_cons_of_ne_nil (shortHash_ne_nil hash)
  have hmem : 'p' ∈ shortHash hash := by
    have : (m.backup ts loser hash).chars.getLast? = (shortHash hash).getLast? := by
      simp only [backup, ofLong, conflictSuffix, List.getLast?_append, List.getLast?_cons, hx,
        Option.getD_some, Option.some_or]
    exact List.mem_of_getLast? (this ▸ hl)
  exact (mem_shortHash hmem).2.2 rfl

end FileName

/-! ### Paths -/

namespace RelPath

/-- Change the last name of a path. -/
def mapLast (g : FileName → FileName) : RelPath → RelPath
  | [] => []
  | [n] => [g n]
  | n :: m :: p => n :: mapLast g (m :: p)

theorem mapLast_append (g : FileName → FileName) (p : RelPath) (n : FileName) :
    mapLast g (p ++ [n]) = p ++ [g n] := by
  induction p with
  | nil => rfl
  | cons m p ih =>
    cases p with
    | nil => rfl
    | cons k p => simp only [List.cons_append, mapLast] at ih ⊢; rw [ih]

/-- The temporary file a commit to `p` writes. -/
def temp (p : RelPath) : RelPath := mapLast FileName.temp p

/-- The backup a commit to `p` makes. -/
def backup (p : RelPath) (ts : ℕ) (loser : LoserLabel) (hash : FileHash) : RelPath :=
  mapLast (fun n => n.backup ts loser hash) p

theorem eq_append_of_ne_nil {p : RelPath} (hp : p ≠ []) : ∃ d n, p = d ++ [n] :=
  ⟨p.dropLast, p.getLast hp, (List.dropLast_append_getLast hp).symm⟩

theorem mapLast_ne_nil {g : FileName → FileName} {p : RelPath} (hp : p ≠ []) : mapLast g p ≠ [] := by
  obtain ⟨d, n, rfl⟩ := eq_append_of_ne_nil hp
  simp [mapLast_append]

theorem length_mapLast (g : FileName → FileName) (p : RelPath) : (mapLast g p).length = p.length := by
  rcases eq_or_ne p [] with rfl | hp
  · rfl
  · obtain ⟨d, n, rfl⟩ := eq_append_of_ne_nil hp
    rw [mapLast_append, List.length_append, List.length_append]
    rfl

theorem temp_ne {p : RelPath} (hp : p ≠ []) : temp p ≠ p := by
  obtain ⟨d, n, rfl⟩ := eq_append_of_ne_nil hp
  simp [temp, mapLast_append, FileName.temp_ne]

theorem backup_ne {p : RelPath} (hp : p ≠ []) (ts : ℕ) (loser : LoserLabel) (hash : FileHash) :
    backup p ts loser hash ≠ p := by
  obtain ⟨d, n, rfl⟩ := eq_append_of_ne_nil hp
  simp [backup, mapLast_append, FileName.backup_ne]

theorem temp_ne_backup {p q : RelPath} (hp : p ≠ []) (ts : ℕ) (loser : LoserLabel)
    (hash : FileHash) : temp p ≠ backup q ts loser hash := by
  obtain ⟨d, n, rfl⟩ := eq_append_of_ne_nil hp
  rcases eq_or_ne q [] with rfl | hq
  · simp [temp, backup, mapLast_append, mapLast]
  · obtain ⟨d', m, rfl⟩ := eq_append_of_ne_nil hq
    simp only [temp, backup, mapLast_append]
    intro h
    have := (List.append_inj' h rfl).2
    exact FileName.temp_ne_backup n m ts loser hash (by simpa using this)

/-- The file whose backup a file of this path is, if it is one. -/
def original (p : RelPath) : RelPath := mapLast FileName.stem p

theorem original_backup {p : RelPath} (hp : p ≠ []) (ts : ℕ) (loser : LoserLabel) (hash : FileHash) :
    original (backup p ts loser hash) = p := by
  obtain ⟨d, n, rfl⟩ := eq_append_of_ne_nil hp
  rw [backup, original, mapLast_append, mapLast_append, FileName.stem_backup]

theorem backup_inj {p q : RelPath} (hp : p ≠ []) (hq : q ≠ []) {ts ts' : ℕ}
    {loser loser' : LoserLabel} {hash hash' : FileHash}
    (h : backup p ts loser hash = backup q ts' loser' hash') : p = q := by
  rw [← original_backup hp ts loser hash, h, original_backup hq]

end RelPath

end FerriSync
