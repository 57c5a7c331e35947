/-
# The root of a folder

The served folder in a file system that holds symbolic links (`SyncRoot`,
`ferrisync-core/src/filesystem/root.rs`). A peer's path string is joined to
the root, and refused if a component of what comes out is a link, or if it
leads outside. The components are looked at from the last one upward, each by
the path that ends in it. A string that ends in a slash or in `/.` hides the
last of them: the link is followed, and what it leads to is looked at
(`safeJoin_ok_iff`).

A name is any sequence of bytes: characters, and bytes that are none. They
are lost when a path is displayed.

A file system call fails only for what stands in the way of the path, not for
want of space or permission, or for a name's length.

Key definitions: `OsPath`, `SyncRoot.safeJoin`, `openRoot`.
Key theorems: `rejectLinks_ok_iff`, `SyncRoot.safeJoin_ok_iff`.
-/
import FerriSync.Path
import FerriSync.Lib.FileTree

namespace FerriSync

open FileTree

/-! ### Names and paths -/

/-- A character, or bytes that are no character's. -/
inductive OsChar
  | char (c : Char)
  | malformed (bytes : Bytes)
deriving DecidableEq

abbrev OsStr := List OsChar

def osStr (cs : List Char) : OsStr := cs.map .char

def osName (n : FileName) : OsStr := osStr n.chars

namespace OsStr

/-- `Path::display`, on a name: what is malformed is replaced. -/
def display (n : OsStr) : OsStr :=
  n.map fun
    | .char c => .char c
    | .malformed _ => .char (Char.ofNat 0xfffd)

def fileStem (n : OsStr) : OsStr :=
  match n.reverse.dropWhile fun c => decide (c ≠ .char '.') with
  | [] => n
  | [_] => n
  | _ :: before => before.reverse

def withExtension (n : OsStr) (extension : List Char) : OsStr :=
  fileStem n ++ .char '.' :: osStr extension

end OsStr

/-- An absolute path: its components, and whether it ends in a slash or in
`/.`. -/
structure OsPath where
  names : List OsStr
  asDir : Bool
deriving DecidableEq

namespace OsPath

variable (p : OsPath)

def steps : List (Step OsStr) := p.names.map .name ++ if p.asDir then [.here] else []

def parent : Option OsPath := if p.names = [] then none else some ⟨p.names.dropLast, false⟩

/-- `Path::with_extension`. -/
def withExtension (extension : List Char) : OsPath :=
  match p.names.getLast? with
  | none => p
  | some n => ⟨p.names.dropLast ++ [OsStr.withExtension n extension], false⟩

def join (root : List OsStr) (t : Target) : OsPath := ⟨root ++ t.path.map osName, t.asDir⟩

end OsPath

/-! ### The checks of a path -/

abbrev Disk := Tree OsStr Bytes

/-- How many links the system follows on one path. -/
def maxLinks : ℕ := 40

inductive JoinError
  | refused (reason : String)
  | symlink (at_ : OsPath)
  | unresolved (fault : Fault)
  | escapes

namespace SyncRoot

variable (t : Disk) (root : List OsStr)

def canonicalize (p : OsPath) : Except Fault (List OsStr) := t.canonicalize maxLinks [] p.steps

/-- Look for a link from the target upward to the root. -/
def rejectLinks : ℕ → OsPath → Except JoinError Unit
  | 0, _ => .ok ()
  | n + 1, cursor =>
    if cursor.names = root then .ok ()
    else if t.isSymlink maxLinks [] cursor.steps then .error (.symlink cursor)
    else match cursor.parent with
      | some p => rejectLinks n p
      | none => .ok ()

/-- The nearest path upward that exists, and the names below it. -/
def existingAncestor : ℕ → OsPath → List OsStr → OsPath × List OsStr
  | 0, cursor, remaining => (cursor, remaining)
  | n + 1, cursor, remaining =>
    if (canonicalize t cursor).isOk then (cursor, remaining)
    else match cursor.parent with
      | some p => existingAncestor n p (cursor.names.getLast?.toList ++ remaining)
      | none => (cursor, remaining)

/-- Where a path leads, or would if it existed. -/
def resolve (joined : OsPath) : Except Fault (List OsStr) :=
  if (canonicalize t joined).isOk then canonicalize t joined
  else
    let (cursor, remaining) := existingAncestor t (joined.names.length + 1) joined []
    match canonicalize t cursor with
    | .error e => .error e
    | .ok base => .ok (base ++ remaining)

def safeJoin (untrusted : String) : Except JoinError OsPath :=
  match FerriSync.safeJoin untrusted with
  | .error e => .error (.refused e)
  | .ok target =>
    let joined := OsPath.join root target
    match rejectLinks t root (joined.names.length + 1) joined with
    | .error e => .error e
    | .ok () =>
      match resolve t joined with
      | .error e => .error (.unresolved e)
      | .ok resolved => if root <+: resolved then .ok joined else .error .escapes

end SyncRoot

/-- The path a folder is given by, from the top or from the working directory. -/
structure LocalPath where
  start : List OsStr
  steps : List (Step OsStr)

/-- `SyncRoot::open`. -/
def openRoot (t : Disk) (localPath : LocalPath) : Except Fault (List OsStr) :=
  match t.canonicalize maxLinks localPath.start localPath.steps with
  | .error e => .error e
  | .ok p => if t.isDir p then .ok p else .error .notDirectory

/-! ### What the checks let through -/

section

variable {t : Disk} {root q rest : List OsStr} {asDir : Bool} {place : List OsStr} {n : OsStr}

theorem steps_asDir : (OsPath.mk q true).steps = q.map .name ++ [.here] := rfl

theorem steps_plain : (OsPath.mk q false).steps = q.map .name := by
  show q.map Step.name ++ [] = _
  rw [List.append_nil]

theorem parent_concat : (OsPath.mk (q ++ [n]) asDir).parent = some ⟨q, false⟩ := by
  unfold OsPath.parent
  rw [if_neg (by simp), List.dropLast_concat]

theorem tail_asDir (asDir : Bool) : (if asDir then [Step.here] else ([] : List (Step OsStr))) = [] ∨
    (if asDir then [Step.here] else ([] : List (Step OsStr))) = [.here] := by
  cases asDir with
  | false => exact Or.inl rfl
  | true => exact Or.inr rfl

/-- There is no link on the way from the root, but perhaps one that a slash
follows. -/
def NoLinks (t : Disk) (root q : List OsStr) (asDir : Bool) : Prop :=
  ∀ r, r ≠ [] → r <+: q → (r = q → asDir = false) → t.isLink (root ++ r) = false

theorem NoLinks.nil : NoLinks t root [] asDir := fun _ hr hrq => absurd (List.prefix_nil.mp hrq) hr

theorem noLinks_concat : NoLinks t root (q ++ [n]) asDir ↔
    NoLinks t root q false ∧ (asDir = false → t.isLink (root ++ (q ++ [n])) = false) := by
  constructor
  · intro h
    refine ⟨fun r hr hrq _ => h r hr (hrq.trans (List.prefix_append _ _)) fun heq => ?_,
      fun has => h _ (by simp) List.prefix_rfl fun _ => has⟩
    have hlen := hrq.length_le
    rw [heq, List.length_append] at hlen
    simp at hlen
  · rintro ⟨hq, hlast⟩ r hr hrq hfull
    rcases List.prefix_concat_iff.mp hrq with rfl | hrq
    · exact hlast (hfull rfl)
    · exact hq r hr hrq fun _ => rfl

/-- What is above a file is no link. -/
theorem noLinks_of_file {data : Bytes} (hnode : t.node (root ++ q) = some (.file data)) :
    NoLinks t root q false := by
  intro r hr hprefix _
  obtain ⟨rest, rfl⟩ := hprefix
  by_cases hrest : rest = []
  · rw [hrest, List.append_nil] at hnode
    rw [Tree.isLink, hnode]
  · apply Tree.isLink_of_isDir
    apply Tree.isDir_of_append hrest
    rw [List.append_assoc, hnode]
    simp

/-- A path below no link leads where it says. -/
theorem place_of_noLinks {follow : Bool} {links : ℕ} (hroot : t.isDir root = true)
    (hlinks : NoLinks t root q false) (h : t.walk follow links [] (OsPath.mk (root ++ q) asDir).steps =
      .ok place) : place = root ++ q :=
  Tree.walk_lexical (tail_asDir asDir) hroot (fun r hr hrq _ => hlinks r hr hrq fun _ => rfl) h

/-- A path that ends in a slash leads to no link. -/
theorem isSymlink_asDir : t.isSymlink maxLinks [] (OsPath.mk q true).steps = false := by
  unfold Tree.isSymlink
  split
  · rename_i p hp
    exact Tree.isLink_of_isDir (Tree.walk_here t.isDir_top hp)
  · rfl

theorem isSymlink_of_isLink (h : t.isLink (q ++ [n]) = true) :
    t.isSymlink maxLinks [] (OsPath.mk (q ++ [n]) false).steps = true := by
  obtain ⟨a, steps, hnode⟩ := Tree.isLink_iff.mp h
  have hdir : t.isDir q = true := Tree.isDir_concat (by rw [hnode]; simp)
  have hwalk : t.walk false maxLinks [] ((q ++ [n]).map .name) = .ok (q ++ [n]) :=
    Tree.walk_entry hdir fun h => (by cases h)
  rw [steps_plain, Tree.isSymlink, hwalk]
  exact h

theorem isSymlink_of_noLinks (hroot : t.isDir root = true) (hlinks : NoLinks t root q false)
    (hq : q ≠ []) : t.isSymlink maxLinks [] (OsPath.mk (root ++ q) false).steps = false := by
  unfold Tree.isSymlink
  split
  · rename_i p hp
    rw [place_of_noLinks hroot hlinks hp]
    exact hlinks q hq List.prefix_rfl fun _ => rfl
  · rfl

/-- **What the look upward lets through**: a path without a link below the root,
unless the last component is hidden. -/
theorem rejectLinks_ok_iff (hroot : t.isDir root = true) {fuel : ℕ} (hfuel : q.length < fuel) :
    SyncRoot.rejectLinks t root fuel ⟨root ++ q, asDir⟩ = .ok () ↔ NoLinks t root q asDir := by
  induction q using List.reverseRecOn generalizing fuel asDir with
  | nil =>
    obtain ⟨fuel, rfl⟩ := Nat.exists_eq_succ_of_ne_zero (Nat.ne_of_gt hfuel)
    rw [List.append_nil, SyncRoot.rejectLinks, if_pos rfl]
    exact iff_of_true rfl .nil
  | append_singleton q n ih =>
    obtain ⟨fuel, rfl⟩ := Nat.exists_eq_succ_of_ne_zero (Nat.ne_zero_of_lt hfuel)
    have hlen : q.length < fuel := by
      rw [List.length_append, List.length_singleton] at hfuel
      omega
    have hne : root ++ (q ++ [n]) ≠ root := by simp
    have hparent : (OsPath.mk (root ++ (q ++ [n])) asDir).parent = some ⟨root ++ q, false⟩ := by
      rw [← List.append_assoc, parent_concat]
    have hstep : SyncRoot.rejectLinks t root (fuel + 1) ⟨root ++ (q ++ [n]), asDir⟩ =
        if t.isSymlink maxLinks [] (OsPath.mk (root ++ (q ++ [n])) asDir).steps then
          .error (.symlink ⟨root ++ (q ++ [n]), asDir⟩)
        else SyncRoot.rejectLinks t root fuel ⟨root ++ q, false⟩ := by
      rw [SyncRoot.rejectLinks, if_neg hne, hparent]
    rw [Nat.succ_eq_add_one, hstep, noLinks_concat]
    constructor
    · intro h
      split_ifs at h with hlink
      refine ⟨(ih hlen).mp h, fun has => ?_⟩
      subst has
      by_contra hnode
      rw [Bool.not_eq_false, ← List.append_assoc] at hnode
      rw [← List.append_assoc, isSymlink_of_isLink hnode] at hlink
      exact hlink rfl
    · rintro ⟨hlinks, hlast⟩
      have hlink : t.isSymlink maxLinks [] (OsPath.mk (root ++ (q ++ [n])) asDir).steps = false := by
        cases asDir with
        | true => exact isSymlink_asDir
        | false =>
          exact isSymlink_of_noLinks hroot (noLinks_concat.mpr ⟨hlinks, fun _ => hlast rfl⟩) (by simp)
      rw [hlink]
      exact (ih hlen).mpr hlinks

theorem isDir_of_openRoot {localPath : LocalPath} (h : openRoot t localPath = .ok root) :
    t.isDir root = true := by
  unfold openRoot at h
  split at h
  · cases h
  · split_ifs at h with hdir
    cases h
    exact hdir

theorem canonicalize_root (hroot : t.isDir root = true) :
    SyncRoot.canonicalize t ⟨root, asDir⟩ = .ok root := by
  obtain ⟨onLink, honLink⟩ := t.walk_eq true maxLinks
  have hwalk : t.walk true maxLinks [] (OsPath.mk root asDir).steps = .ok root := by
    rw [honLink, OsPath.steps]
    rw [Tree.walkWith_dirs hroot]
    cases asDir <;> rfl
  unfold SyncRoot.canonicalize Tree.canonicalize
  rw [hwalk]
  simp [Tree.isDir_iff.mp hroot]

theorem canonicalize_lexical (hroot : t.isDir root = true) (hlinks : NoLinks t root q false)
    (h : SyncRoot.canonicalize t ⟨root ++ q, asDir⟩ = .ok place) : place = root ++ q := by
  unfold SyncRoot.canonicalize Tree.canonicalize at h
  split at h
  · cases h
  · rename_i p hp
    split_ifs at h
    cases h
    exact place_of_noLinks hroot hlinks hp

/-- Without a link on the way, what would be there is below the root. -/
theorem existingAncestor_lexical (hroot : t.isDir root = true) (hlinks : NoLinks t root q false)
    {fuel : ℕ} (hfuel : q.length < fuel) (remaining : List OsStr) :
    ∃ base, SyncRoot.canonicalize t (SyncRoot.existingAncestor t fuel ⟨root ++ q, false⟩ remaining).1 =
        .ok base ∧
      base ++ (SyncRoot.existingAncestor t fuel ⟨root ++ q, false⟩ remaining).2 =
        root ++ q ++ remaining := by
  induction q using List.reverseRecOn generalizing fuel remaining with
  | nil =>
    obtain ⟨fuel, rfl⟩ := Nat.exists_eq_succ_of_ne_zero (Nat.ne_of_gt hfuel)
    have hcanon : SyncRoot.canonicalize t ⟨root, false⟩ = .ok root := canonicalize_root hroot
    rw [List.append_nil, SyncRoot.existingAncestor, hcanon]
    exact ⟨root, hcanon, rfl⟩
  | append_singleton q n ih =>
    obtain ⟨fuel, rfl⟩ := Nat.exists_eq_succ_of_ne_zero (Nat.ne_zero_of_lt hfuel)
    rw [Nat.succ_eq_add_one, SyncRoot.existingAncestor]
    cases hcanon : SyncRoot.canonicalize t ⟨root ++ (q ++ [n]), false⟩ with
    | ok base =>
      refine ⟨base, hcanon, ?_⟩
      rw [canonicalize_lexical hroot hlinks hcanon]
      rfl
    | error e =>
      have hlen : q.length < fuel := by
        rw [List.length_append, List.length_singleton] at hfuel
        omega
      have hparent : (OsPath.mk (root ++ (q ++ [n])) false).parent = some ⟨root ++ q, false⟩ := by
        rw [← List.append_assoc, parent_concat]
      obtain ⟨base, hbase, heq⟩ := ih (noLinks_concat.mp hlinks).1 hlen (n :: remaining)
      have hlast : (root ++ (q ++ [n])).getLast?.toList ++ remaining = n :: remaining := by simp
      rw [if_neg (by simp [Except.isOk, Except.toBool]), hparent]
      dsimp only
      rw [hlast]
      exact ⟨base, hbase, by rw [heq]; simp⟩

/-- What is missing would be below the root. -/
theorem resolve_missing (hroot : t.isDir root = true) (hlinks : NoLinks t root q asDir) {e : Fault}
    (h : SyncRoot.canonicalize t ⟨root ++ q, asDir⟩ = .error e) :
    SyncRoot.resolve t ⟨root ++ q, asDir⟩ = .ok (root ++ q) := by
  rcases List.eq_nil_or_concat q with rfl | ⟨q, n, rfl⟩
  · rw [List.append_nil, canonicalize_root hroot] at h
    cases h
  · rw [List.concat_eq_append, ← List.append_assoc] at h ⊢
    rw [List.concat_eq_append, noLinks_concat] at hlinks
    have hfuel : q.length < (root ++ q ++ [n]).length := by
      rw [List.length_append, List.length_append, List.length_singleton]
      omega
    obtain ⟨base, hbase, heq⟩ := existingAncestor_lexical hroot hlinks.1 hfuel [n]
    have hstep : SyncRoot.existingAncestor t ((root ++ q ++ [n]).length + 1)
        ⟨root ++ q ++ [n], asDir⟩ [] =
          SyncRoot.existingAncestor t (root ++ q ++ [n]).length ⟨root ++ q, false⟩ [n] := by
      rw [SyncRoot.existingAncestor, h, if_neg (by simp [Except.isOk, Except.toBool]), parent_concat]
      simp
    unfold SyncRoot.resolve
    rw [h, if_neg (by simp [Except.isOk, Except.toBool])]
    dsimp only
    rw [hstep, hbase]
    exact congrArg Except.ok heq

/-- **What `safe_join` lets through**: the root and the components of the
string, none of which is a link; but if a slash follows the last, that one may
be a link, as long as it leads to no directory outside the root. -/
theorem SyncRoot.safeJoin_ok_iff (hroot : t.isDir root = true) {s : String} {p : OsPath} :
    SyncRoot.safeJoin t root s = .ok p ↔ ∃ target, FerriSync.safeJoin s = .ok target ∧
      p = .join root target ∧ NoLinks t root (target.path.map osName) target.asDir ∧
      ∀ d, SyncRoot.canonicalize t p = .ok d → root <+: d := by
  unfold SyncRoot.safeJoin
  cases hs : FerriSync.safeJoin s with
  | error e => simp
  | ok target =>
    have hfuel : (target.path.map osName).length < (OsPath.join root target).names.length + 1 := by
      show _ < (root ++ _).length + 1
      rw [List.length_append]
      omega
    have hreject : SyncRoot.rejectLinks t root ((OsPath.join root target).names.length + 1)
        (.join root target) = .ok () ↔ NoLinks t root (target.path.map osName) target.asDir :=
      rejectLinks_ok_iff hroot hfuel
    dsimp only
    cases hrej : SyncRoot.rejectLinks t root ((OsPath.join root target).names.length + 1)
        (.join root target) with
    | error e =>
      constructor
      · intro h
        cases h
      · rintro ⟨target', heq, -, hlinks, -⟩
        cases heq
        rw [hreject.mpr hlinks] at hrej
        cases hrej
    | ok u =>
      have hlinks := hreject.mp hrej
      dsimp only
      cases hcanon : SyncRoot.canonicalize t (.join root target) with
      | ok d =>
        have hresolve : SyncRoot.resolve t (.join root target) = .ok d := by
          rw [SyncRoot.resolve, hcanon]
          rfl
        rw [hresolve]
        dsimp only
        constructor
        · intro h
          split_ifs at h with hinside
          cases h
          refine ⟨target, rfl, rfl, hlinks, fun d' hd' => ?_⟩
          rw [hcanon] at hd'
          cases hd'
          exact hinside
        · rintro ⟨target', heq, rfl, -, hinside⟩
          cases heq
          rw [if_pos (hinside d hcanon)]
      | error e =>
        have hresolve : SyncRoot.resolve t (.join root target) =
            .ok (root ++ target.path.map osName) := resolve_missing hroot hlinks hcanon
        rw [hresolve]
        dsimp only
        rw [if_pos (List.prefix_append _ _)]
        constructor
        · intro h
          cases h
          refine ⟨target, rfl, rfl, hlinks, fun d hd => ?_⟩
          rw [hcanon] at hd
          cases hd
        · rintro ⟨target', heq, rfl, -, -⟩
          cases heq
          rfl

end

end FerriSync
