/-
# File trees with symbolic links

What stands at each place of a file system (`Tree`), a place being the list of
the names that lead to it, and how a path is walked there: a symbolic link on
the way is followed, one at the end only if that is asked for, and no more than
so many of them (`walk`). A dot asks for a directory, so a path that ends in a
slash is one that ends in a dot.

A place below no link is where its path leads (`walk_lexical`). Trees that
differ at places where a walk cannot go on give the same places elsewhere
(`walk_congr`).

Key definitions: `Tree`, `Tree.walk`, `Tree.set`, `Tree.write`, `Tree.rename`.
Key theorems: `walk_lexical`, `walk_entry`, `walk_congr`.
-/
import Mathlib.Data.List.Basic
import Mathlib.Data.List.Induction
import Mathlib.Tactic.Common

namespace FileTree

/-- A component of a path. -/
inductive Step (N : Type)
  | here
  | up
  | name (n : N)
deriving DecidableEq

/-- A directory, a file, or a link to the path of its steps. -/
inductive Node (N D : Type)
  | dir
  | file (data : D)
  | link (absolute : Bool) (steps : List (Step N))

/-- What stands at each place. What is not the top stands in a directory. -/
structure Tree (N D : Type) where
  node : List N → Option (Node N D)
  top : node [] = some .dir
  parent : ∀ p n, node (p ++ [n]) ≠ none → node p = some .dir

inductive Fault
  | notFound
  | notDirectory
  | isDirectory
  | alreadyExists
  | tooManyLinks
deriving DecidableEq, Repr

namespace Tree

variable {N D : Type} (t : Tree N D)

def isDir (p : List N) : Bool :=
  match t.node p with
  | some .dir => true
  | _ => false

def isLink (p : List N) : Bool :=
  match t.node p with
  | some (.link _ _) => true
  | _ => false

/-- A tree with nothing in it. -/
def empty : Tree N D where
  node
    | [] => some .dir
    | _ :: _ => none
  top := rfl
  parent p n h := by
    cases p with
    | nil => rfl
    | cons m p => exact absurd rfl h

/-! ### Walking a path -/

/-- Walk the steps from a directory; `onLink` goes on where a link leads. -/
def walkWith (follow : Bool) (onLink : List N → List (Step N) → Except Fault (List N)) :
    List N → List (Step N) → Except Fault (List N)
  | p, [] => .ok p
  | p, .here :: rest => walkWith follow onLink p rest
  | p, .up :: rest => walkWith follow onLink p.dropLast rest
  | p, .name n :: rest =>
    match t.node (p ++ [n]) with
    | some .dir => walkWith follow onLink (p ++ [n]) rest
    | some (.file _) => if rest.isEmpty then .ok (p ++ [n]) else .error .notDirectory
    | some (.link absolute steps) =>
      if rest.isEmpty && !follow then .ok (p ++ [n])
      else onLink (if absolute then [] else p) (steps ++ rest)
    | none => if rest.isEmpty then .ok (p ++ [n]) else .error .notFound

/-- The place a path leads to, at most `links` of them being followed. What is
there need not exist, but what it would stand in does. -/
def walk (follow : Bool) : ℕ → List N → List (Step N) → Except Fault (List N)
  | 0 => t.walkWith follow fun _ _ => .error .tooManyLinks
  | links + 1 => t.walkWith follow (walk follow links)

/-- Put something else, or nothing, at a place that is no directory. -/
def set [DecidableEq N] (p : List N) (x : Option (Node N D)) : Tree N D :=
  if h : p ≠ [] ∧ t.isDir p.dropLast = true ∧ t.isDir p = false then
    { node := fun q => if q = p then x else t.node q
      top := by rw [if_neg (Ne.symm h.1), t.top]
      parent := by
        obtain ⟨hne, hparent, hleaf⟩ := h
        intro q n hq
        have hdir : t.node q = some .dir := by
          by_cases hqn : q ++ [n] = p
          · subst hqn
            rw [List.dropLast_concat] at hparent
            unfold isDir at hparent
            split at hparent
            · assumption
            · cases hparent
          · rw [if_neg hqn] at hq
            exact t.parent q n hq
        have hqp : q ≠ p := by
          rintro rfl
          rw [isDir, hdir] at hleaf
          cases hleaf
        rw [if_neg hqp, hdir] }
  else t

/-! ### What a process asks of the file system -/

variable (links : ℕ) (start : List N) (path : List (Step N))

/-- `lstat`: the path leads to a link, which is not followed. -/
def isSymlink : Bool :=
  match t.walk false links start path with
  | .ok p => t.isLink p
  | .error _ => false

/-- `realpath`: the place of what is there. -/
def canonicalize : Except Fault (List N) :=
  match t.walk true links start path with
  | .error e => .error e
  | .ok p => if (t.node p).isSome then .ok p else .error .notFound

def read : Except Fault (List N × D) :=
  match t.walk true links start path with
  | .error e => .error e
  | .ok p =>
    match t.node p with
    | some (.file data) => .ok (p, data)
    | some .dir => .error .isDirectory
    | some (.link _ _) => .error .tooManyLinks
    | none => .error .notFound

variable [DecidableEq N]

def mkdir : Except Fault (List N × Tree N D) :=
  match t.walk false links start path with
  | .error e => .error e
  | .ok p => if (t.node p).isSome then .error .alreadyExists else .ok (p, t.set p (some .dir))

/-- Create a file, or overwrite it. -/
def write (data : D) : Except Fault (List N × Tree N D) :=
  match t.walk true links start path with
  | .error e => .error e
  | .ok p => if t.isDir p then .error .isDirectory else .ok (p, t.set p (some (.file data)))

/-- Rename a file or a link, over whatever is no directory. -/
def rename (path' : List (Step N)) : Except Fault ((List N × List N) × Tree N D) :=
  match t.walk false links start path with
  | .error e => .error e
  | .ok p =>
    if t.isDir p then .error .isDirectory
    else if (t.node p).isNone then .error .notFound
    else match t.walk false links start path' with
      | .error e => .error e
      | .ok q =>
        if t.isDir q then .error .isDirectory
        else .ok ((p, q), (t.set p none).set q (t.node p))

/-- Remove a file or a link. -/
def remove : Except Fault (List N × Tree N D) :=
  match t.walk false links start path with
  | .error e => .error e
  | .ok p =>
    if t.isDir p then .error .isDirectory
    else if (t.node p).isNone then .error .notFound
    else .ok (p, t.set p none)

end Tree

/-! ### Directories -/

namespace Tree

variable {N D : Type} {t t' : Tree N D} {p q : List N} {n : N}

theorem isDir_iff : t.isDir p = true ↔ t.node p = some .dir := by
  unfold isDir
  split
  · simpa
  · rename_i h
    simpa using h

theorem isDir_top (t : Tree N D) : t.isDir [] = true := isDir_iff.mpr t.top

theorem isLink_iff : t.isLink p = true ↔ ∃ a steps, t.node p = some (.link a steps) := by
  unfold isLink
  split
  · rename_i a steps h
    simp [h]
  · rename_i h
    simp only [Bool.false_eq_true, false_iff, not_exists]
    exact h

theorem isLink_of_isDir (h : t.isDir p = true) : t.isLink p = false := by
  rw [isLink, isDir_iff.mp h]

/-- Above what is there are directories. -/
theorem isDir_of_append (hq : q ≠ []) (h : t.node (p ++ q) ≠ none) : t.isDir p = true := by
  induction q using List.reverseRecOn with
  | nil => exact absurd rfl hq
  | append_singleton q n ih =>
    rw [← List.append_assoc] at h
    have hdir : t.node (p ++ q) = some .dir := t.parent _ _ h
    cases q with
    | nil => rw [isDir_iff, ← hdir, List.append_nil]
    | cons m q => exact ih (by simp) (by rw [hdir]; simp)

theorem isDir_above (hpq : p <+: q) (h : t.isDir q = true) : t.isDir p = true := by
  obtain ⟨r, rfl⟩ := hpq
  by_cases hr : r = []
  · rwa [hr, List.append_nil] at h
  · exact isDir_of_append hr (by rw [isDir_iff.mp h]; simp)

theorem isDir_dropLast (h : t.isDir p = true) : t.isDir p.dropLast = true :=
  isDir_above (List.dropLast_prefix p) h

theorem isDir_concat (h : t.node (p ++ [n]) ≠ none) : t.isDir p = true :=
  isDir_of_append (by simp) h

theorem node_set [DecidableEq N] {x : Option (Node N D)} (hparent : t.isDir p.dropLast = true)
    (hleaf : t.isDir p = false) (q : List N) : (t.set p x).node q = if q = p then x else t.node q := by
  have hne : p ≠ [] := by
    rintro rfl
    rw [isDir_top] at hleaf
    cases hleaf
  unfold set
  rw [dif_pos ⟨hne, hparent, hleaf⟩]

/-- Directories stay when something is put in a place. -/
theorem isDir_set_of_isDir [DecidableEq N] {x : Option (Node N D)} (h : t.isDir q = true) :
    (t.set p x).isDir q = true := by
  unfold set
  split_ifs with hp
  · have hne : q ≠ p := by
      rintro rfl
      rw [hp.2.2] at h
      cases h
    rw [isDir_iff]
    dsimp only
    rwa [if_neg hne, ← isDir_iff]
  · exact h

/-- What is put in a place is no directory, so there are as many as before. -/
theorem isDir_set [DecidableEq N] {x : Option (Node N D)} (hparent : t.isDir p.dropLast = true)
    (hleaf : t.isDir p = false) (hx : x ≠ some .dir) (q : List N) :
    (t.set p x).isDir q = t.isDir q := by
  rw [Bool.eq_iff_iff, isDir_iff, isDir_iff, node_set hparent hleaf]
  by_cases hq : q = p
  · rw [if_pos hq, hq, ← isDir_iff, hleaf]
    exact iff_of_false hx (by decide)
  · rw [if_neg hq]

/-! ### Where a walk leads -/

variable {follow : Bool} {onLink : List N → List (Step N) → Except Fault (List N)} {links : ℕ}
  {rest : List (Step N)} {place : List N}

/-- A walk is a walk with something that goes on from links. -/
theorem walk_eq (follow : Bool) (links : ℕ) :
    ∃ onLink, t.walk follow links = t.walkWith follow onLink := by
  cases links with
  | zero => exact ⟨_, rfl⟩
  | succ links => exact ⟨_, rfl⟩

/-- Directories are walked through. -/
theorem walkWith_dirs (h : t.isDir (p ++ q) = true) :
    t.walkWith follow onLink p (q.map .name ++ rest) = t.walkWith follow onLink (p ++ q) rest := by
  induction q generalizing p with
  | nil => rw [List.append_nil, List.map_nil, List.nil_append]
  | cons n q ih =>
    rw [List.append_cons] at h ⊢
    have hdir : t.node (p ++ [n]) = some .dir :=
      isDir_iff.mp (isDir_above (List.prefix_append _ q) h)
    rw [List.map_cons, List.cons_append, walkWith, hdir]
    exact ih h

/-- A directory is where its path leads. -/
theorem walk_dir (h : t.isDir p = true) : t.walk follow links [] (p.map .name) = .ok p := by
  obtain ⟨onLink, honLink⟩ := t.walk_eq follow links
  have hdirs : t.walkWith follow onLink [] (p.map .name ++ []) = t.walkWith follow onLink p [] :=
    walkWith_dirs (show t.isDir ([] ++ p) = true from h)
  rw [List.append_nil] at hdirs
  rw [honLink, hdirs]
  rfl

/-- A place in a directory is where its path leads, unless it is a link that is
followed. -/
theorem walk_entry (hdir : t.isDir p = true) (hlink : follow = true → t.isLink (p ++ [n]) = false) :
    t.walk follow links [] ((p ++ [n]).map .name) = .ok (p ++ [n]) := by
  obtain ⟨onLink, honLink⟩ := t.walk_eq follow links
  have hwalk : t.walkWith follow onLink [] ((p ++ [n]).map .name) =
      t.walkWith follow onLink p [.name n] := by
    rw [List.map_append]
    exact walkWith_dirs hdir
  rw [honLink, hwalk]
  unfold walkWith
  cases hnode : t.node (p ++ [n]) with
  | none => rfl
  | some x =>
    cases x with
    | dir => rfl
    | file data => rfl
    | link a steps =>
      cases follow with
      | false => rfl
      | true =>
        have hnolink := hlink rfl
        rw [isLink, hnode] at hnolink
        cases hnolink

/-- **Below no link a path leads where it says**, if it leads anywhere. -/
theorem walkWith_lexical {tail : List (Step N)} (htail : tail = [] ∨ tail = [.here])
    (hlink : ∀ r, r ≠ [] → r <+: q → (r = q → follow = true ∨ tail ≠ []) →
      t.isLink (p ++ r) = false)
    (h : t.walkWith follow onLink p (q.map .name ++ tail) = .ok place) : place = p ++ q := by
  induction q generalizing p with
  | nil =>
    rw [List.append_nil]
    rcases htail with rfl | rfl
    · cases h
      rfl
    · cases h
      rfl
  | cons n q ih =>
    rw [List.append_cons]
    rw [List.map_cons, List.cons_append, walkWith] at h
    by_cases hend : q = [] ∧ tail = []
    · obtain ⟨rfl, rfl⟩ := hend
      rw [List.append_nil]
      have hnolink : follow = true → t.isLink (p ++ [n]) = false := fun hfollow =>
        hlink [n] (by simp) List.prefix_rfl fun _ => Or.inl hfollow
      split at h
      · cases h
        rfl
      · cases h
        rfl
      · rename_i a steps hnode
        cases follow with
        | false =>
          cases h
          rfl
        | true =>
          have hlinked := hnolink rfl
          rw [isLink, hnode] at hlinked
          cases hlinked
      · cases h
        rfl
    · have hrest : (q.map Step.name ++ tail).isEmpty = false := by
        rw [List.isEmpty_eq_false_iff, ne_eq, List.append_eq_nil_iff, List.map_eq_nil_iff]
        exact hend
      have hnolink : t.isLink (p ++ [n]) = false := by
        refine hlink [n] (by simp) (List.cons_prefix_cons.mpr ⟨rfl, List.nil_prefix⟩) fun heq => ?_
        exact Or.inr fun htail => hend ⟨(List.cons.inj heq).2.symm, htail⟩
      rw [hrest] at h
      split at h
      · refine ih (fun r hr hrq hfull => ?_) h
        rw [List.append_assoc, List.singleton_append]
        exact hlink (n :: r) (by simp) (List.cons_prefix_cons.mpr ⟨rfl, hrq⟩) fun heq =>
          hfull (List.cons.inj heq).2
      · cases h
      · rename_i a steps hnode
        rw [isLink, hnode] at hnolink
        cases hnolink
      · cases h

/-- **Below no link a path leads where it says**, if it leads anywhere. -/
theorem walk_lexical {tail : List (Step N)} (htail : tail = [] ∨ tail = [.here])
    (hdir : t.isDir p = true) (hlink : ∀ r, r ≠ [] → r <+: q →
      (r = q → follow = true ∨ tail ≠ []) → t.isLink (p ++ r) = false)
    (h : t.walk follow links [] ((p ++ q).map .name ++ tail) = .ok place) : place = p ++ q := by
  obtain ⟨onLink, honLink⟩ := t.walk_eq follow links
  rw [honLink, List.map_append, List.append_assoc] at h
  rw [walkWith_dirs hdir] at h
  exact walkWith_lexical htail hlink h

/-- What a path leads to stands in a directory. -/
theorem walkWith_parent (honLink : ∀ p steps place, t.isDir p = true → onLink p steps = .ok place →
      t.isDir place.dropLast = true) (hp : t.isDir p = true)
    (h : t.walkWith follow onLink p rest = .ok place) : t.isDir place.dropLast = true := by
  induction rest generalizing p with
  | nil =>
    cases h
    exact isDir_dropLast hp
  | cons step rest ih =>
    cases step with
    | here => exact ih hp h
    | up => exact ih (isDir_dropLast hp) h
    | name n =>
      have hentry : t.isDir (p ++ [n]).dropLast = true := by rwa [List.dropLast_concat]
      rw [walkWith] at h
      split at h
      · rename_i hnode
        exact ih (isDir_iff.mpr hnode) h
      · split at h
        · cases h
          exact hentry
        · cases h
      · split at h
        · cases h
          exact hentry
        · refine honLink _ _ _ ?_ h
          split
          · exact t.isDir_top
          · exact hp
      · split at h
        · cases h
          exact hentry
        · cases h

theorem walk_parent (hp : t.isDir p = true) (h : t.walk follow links p rest = .ok place) :
    t.isDir place.dropLast = true := by
  induction links generalizing p rest place with
  | zero => exact walkWith_parent (fun _ _ _ _ h => by cases h) hp h
  | succ links ih => exact walkWith_parent (fun _ _ _ hp h => ih hp h) hp h

/-- A path that ends in a dot leads to a directory. -/
theorem walkWith_here (honLink : ∀ p steps place, t.isDir p = true →
      onLink p (steps ++ [.here]) = .ok place → t.isDir place = true) (hp : t.isDir p = true)
    (h : t.walkWith follow onLink p (rest ++ [.here]) = .ok place) : t.isDir place = true := by
  induction rest generalizing p with
  | nil =>
    cases h
    exact hp
  | cons step rest ih =>
    cases step with
    | here => exact ih hp h
    | up => exact ih (isDir_dropLast hp) h
    | name n =>
      have hrest : (rest ++ [Step.here]).isEmpty = false := by simp
      rw [List.cons_append, walkWith, hrest] at h
      split at h
      · rename_i hnode
        exact ih (isDir_iff.mpr hnode) h
      · cases h
      · rename_i a steps hnode
        rw [Bool.false_and, ← List.append_assoc] at h
        refine honLink _ (steps ++ rest) _ ?_ h
        split
        · exact t.isDir_top
        · exact hp
      · cases h

theorem walk_here (hp : t.isDir p = true)
    (h : t.walk follow links p (rest ++ [.here]) = .ok place) : t.isDir place = true := by
  induction links generalizing p rest place with
  | zero => exact walkWith_here (fun _ _ _ _ h => by cases h) hp h
  | succ links ih => exact walkWith_here (fun _ _ _ hp h => ih hp h) hp h

/-- A name at the end that is not followed is the name of the place. -/
theorem walkWith_last (honLink : ∀ p steps place, onLink p (steps ++ [.name n]) = .ok place →
      place.getLast? = some n) (h : t.walkWith false onLink p (rest ++ [.name n]) = .ok place) :
    place.getLast? = some n := by
  induction rest generalizing p with
  | nil =>
    rw [List.nil_append, walkWith] at h
    have hlast : (p ++ [n]).getLast? = some n := List.getLast?_concat
    split at h <;>
    · cases h
      exact hlast
  | cons step rest ih =>
    cases step with
    | here => exact ih h
    | up => exact ih h
    | name m =>
      have hrest : (rest ++ [Step.name n]).isEmpty = false := by simp
      rw [List.cons_append, walkWith, hrest] at h
      split at h
      · exact ih h
      · cases h
      · rw [Bool.false_and, ← List.append_assoc] at h
        exact honLink _ _ _ h
      · cases h

theorem walk_last (h : t.walk false links p (rest ++ [.name n]) = .ok place) :
    place.getLast? = some n := by
  induction links generalizing p rest place with
  | zero => exact walkWith_last (fun _ _ _ h => by cases h) h
  | succ links ih => exact walkWith_last (fun _ _ _ h => ih h) h

/-- Where a directory is missing, there is no way on. -/
theorem walkWith_missing (habove : ∀ r, r <+: q → t.node (p ++ r) = none ∨ t.isDir (p ++ r) = true)
    (hmissing : t.isDir (p ++ q) = false) (hp : t.isDir p = true) :
    t.walkWith follow onLink p (q.map .name ++ .name n :: rest) = .error .notFound := by
  induction q generalizing p with
  | nil =>
    rw [List.append_nil, hp] at hmissing
    cases hmissing
  | cons m q ih =>
    rw [List.map_cons, List.cons_append, walkWith]
    have hnext : (q.map Step.name ++ Step.name n :: rest).isEmpty = false := by simp
    rcases habove [m] (List.cons_prefix_cons.mpr ⟨rfl, List.nil_prefix⟩) with hnone | hdir
    · rw [hnone, hnext]
      rfl
    · rw [isDir_iff.mp hdir]
      refine ih (fun r hr => ?_) ?_ hdir
      · rw [List.append_assoc, List.singleton_append]
        exact habove (m :: r) (List.cons_prefix_cons.mpr ⟨rfl, hr⟩)
      · rw [List.append_assoc, List.singleton_append]
        exact hmissing

theorem walk_missing (hp : t.isDir p = true)
    (habove : ∀ r, r <+: q → t.node (p ++ r) = none ∨ t.isDir (p ++ r) = true)
    (hmissing : t.isDir (p ++ q) = false) :
    t.walk follow links [] ((p ++ q ++ [n]).map .name) = .error .notFound := by
  obtain ⟨onLink, honLink⟩ := t.walk_eq follow links
  rw [honLink, List.map_append, List.map_append, List.append_assoc, walkWith_dirs hp]
  exact walkWith_missing habove hmissing hp

/-- Where links are followed, a walk ends at none. -/
theorem isLink_walkWith (honLink : ∀ p steps place, t.isDir p = true → onLink p steps = .ok place →
      t.isLink place = false) (hp : t.isDir p = true)
    (h : t.walkWith true onLink p rest = .ok place) : t.isLink place = false := by
  induction rest generalizing p with
  | nil =>
    cases h
    exact isLink_of_isDir hp
  | cons step rest ih =>
    cases step with
    | here => exact ih hp h
    | up => exact ih (isDir_dropLast hp) h
    | name n =>
      rw [walkWith] at h
      split at h
      · rename_i hnode
        exact ih (isDir_iff.mpr hnode) h
      · rename_i data hnode
        split at h
        · cases h
          rw [isLink, hnode]
        · cases h
      · rw [Bool.not_true, Bool.and_false] at h
        refine honLink _ _ _ ?_ h
        split
        · exact t.isDir_top
        · exact hp
      · rename_i hnode
        split at h
        · cases h
          rw [isLink, hnode]
        · cases h

theorem isLink_walk (hp : t.isDir p = true) (h : t.walk true links p rest = .ok place) :
    t.isLink place = false := by
  induction links generalizing p rest place with
  | zero => exact isLink_walkWith (fun _ _ _ _ h => by cases h) hp h
  | succ links ih => exact isLink_walkWith (fun _ _ _ hp h => ih hp h) hp h

variable {path : List (Step N)}

/-- Without following a link at its end, a path leads to the same place or to a
link. -/
theorem walkWith_unfollowed {onLink onLink' : List N → List (Step N) → Except Fault (List N)}
    (hlink : ∀ p path place, onLink p path = .ok place →
      ∃ place', onLink' p path = .ok place' ∧ (place' = place ∨ t.isLink place' = true))
    (h : t.walkWith true onLink p path = .ok place) :
    ∃ place', t.walkWith false onLink' p path = .ok place' ∧
      (place' = place ∨ t.isLink place' = true) := by
  induction path generalizing p with
  | nil =>
    cases h
    exact ⟨_, rfl, Or.inl rfl⟩
  | cons s path ih =>
    cases s with
    | here => exact ih h
    | up => exact ih h
    | name n =>
      rw [walkWith] at h ⊢
      cases hn : t.node (p ++ [n]) with
      | none =>
        rw [hn] at h
        dsimp only at h ⊢
        split_ifs at h with hlast
        rw [if_pos hlast]
        cases h
        exact ⟨_, rfl, Or.inl rfl⟩
      | some x =>
        rw [hn] at h
        cases x with
        | dir => exact ih h
        | file data =>
          dsimp only at h ⊢
          split_ifs at h with hlast
          rw [if_pos hlast]
          cases h
          exact ⟨_, rfl, Or.inl rfl⟩
        | link absolute steps =>
          dsimp only at h ⊢
          rw [if_neg (by simp)] at h
          by_cases hlast : (path.isEmpty && !false) = true
          · rw [if_pos hlast]
            exact ⟨_, rfl, Or.inr (by rw [isLink, hn])⟩
          · rw [if_neg hlast]
            exact hlink _ _ _ h

theorem walk_unfollowed (h : t.walk true links p path = .ok place) :
    ∃ place', t.walk false links p path = .ok place' ∧ (place' = place ∨ t.isLink place' = true) := by
  induction links generalizing p path place with
  | zero => exact walkWith_unfollowed (fun _ _ _ h => by cases h) h
  | succ links ih => exact walkWith_unfollowed (fun p path place h => ih h) h

/-- What a path leads to is there, also if a link at its end is not followed. -/
theorem walk_there (h : t.walk true links p path = .ok place) (hnode : (t.node place).isSome = true) :
    ∃ place', t.walk false links p path = .ok place' ∧ (t.node place').isSome = true := by
  obtain ⟨place', hplace', rfl | hlink⟩ := walk_unfollowed h
  · exact ⟨_, hplace', hnode⟩
  · obtain ⟨absolute, steps, hlink⟩ := isLink_iff.mp hlink
    exact ⟨_, hplace', by rw [hlink]; rfl⟩

/-! ### Trees that differ at leaves -/

/-- Nothing, or a file. -/
def isLeaf (t : Tree N D) (p : List N) : Prop := t.isDir p = false ∧ t.isLink p = false

theorem walkWith_leaves {onLink' : List N → List (Step N) → Except Fault (List N)}
    (hleaves : ∀ q, t.node q = t'.node q ∨ t.isLeaf q ∧ t'.isLeaf q)
    (honLink : ∀ p steps, onLink p steps = .ok place → onLink' p steps = .ok place)
    (h : t.walkWith follow onLink p rest = .ok place) :
    t'.walkWith follow onLink' p rest = .ok place := by
  have hend : ∀ (t : Tree N D) onLink p n, t.isLeaf (p ++ [n]) →
      t.walkWith follow onLink p [.name n] = .ok (p ++ [n]) ∧
        ∀ step rest place, t.walkWith follow onLink p (.name n :: step :: rest) ≠ .ok place := by
    intro t onLink p n hleaf
    unfold walkWith
    cases hn : t.node (p ++ [n]) with
    | none => exact ⟨rfl, fun _ _ _ h => by cases h⟩
    | some x =>
      cases x with
      | file data => exact ⟨rfl, fun _ _ _ h => by cases h⟩
      | dir =>
        have hdir := hleaf.1
        rw [isDir, hn] at hdir
        cases hdir
      | link absolute steps =>
        have hlink := hleaf.2
        rw [isLink, hn] at hlink
        cases hlink
  induction rest generalizing p with
  | nil => exact h
  | cons step rest ih =>
    cases step with
    | here => exact ih h
    | up => exact ih h
    | name n =>
      rcases hleaves (p ++ [n]) with hsame | ⟨hleaf, hleaf'⟩
      · rw [walkWith] at h ⊢
        rw [← hsame]
        split at h
        · exact ih h
        · exact h
        · split at h
          · rename_i hlast
            rw [if_pos hlast]
            exact h
          · rename_i hlast
            rw [if_neg hlast]
            exact honLink _ _ h
        · exact h
      · cases rest with
        | nil =>
          rw [(hend t onLink p n hleaf).1] at h
          rw [(hend t' onLink' p n hleaf').1]
          exact h
        | cons step rest => exact absurd h ((hend t onLink p n hleaf).2 step rest place)

/-- **A walk is the same in trees that differ at leaves.** -/
theorem walk_leaves (hleaves : ∀ q, t.node q = t'.node q ∨ t.isLeaf q ∧ t'.isLeaf q)
    (h : t.walk follow links p rest = .ok place) : t'.walk follow links p rest = .ok place := by
  induction links generalizing p rest with
  | zero => exact walkWith_leaves hleaves (fun _ _ h => h) h
  | succ links ih => exact walkWith_leaves hleaves (fun _ _ h => ih h) h

/-! ### Trees that differ where a walk ends -/

/-- Where the trees differ, the first has no directory and no link. -/
def EndsAt (t t' : Tree N D) (ends : List N → Prop) : Prop :=
  ∀ p, t.node p = t'.node p ∨ ends p ∧ t.isDir p = false ∧ t.isLink p = false

theorem walkWith_congr {ends : List N → Prop}
    {onLink' : List N → List (Step N) → Except Fault (List N)} (hends : EndsAt t t' ends)
    (honLink : ∀ p steps, onLink p steps = .ok place → onLink' p steps = .ok place)
    (hplace : ¬ends place) (h : t.walkWith follow onLink p rest = .ok place) :
    t'.walkWith follow onLink' p rest = .ok place := by
  induction rest generalizing p with
  | nil => exact h
  | cons step rest ih =>
    cases step with
    | here => exact ih h
    | up => exact ih h
    | name n =>
      rw [walkWith] at h ⊢
      rcases hends (p ++ [n]) with hsame | ⟨hend, hdir, hlink⟩
      · rw [← hsame]
        split at h
        · exact ih h
        · exact h
        · split at h
          · rename_i hlast
            rw [if_pos hlast]
            exact h
          · rename_i hlast
            rw [if_neg hlast]
            exact honLink _ _ h
        · exact h
      · -- the walk ends here, if it gets here at all
        split at h
        · rename_i hnode
          rw [isDir, hnode] at hdir
          cases hdir
        · split at h
          · cases h
            exact absurd hend hplace
          · cases h
        · rename_i hnode
          rw [isLink, hnode] at hlink
          cases hlink
        · split at h
          · cases h
            exact absurd hend hplace
          · cases h

/-- **A walk that does not end at a difference is the same in both trees.** -/
theorem walk_congr {ends : List N → Prop} (hends : EndsAt t t' ends) (hplace : ¬ends place)
    (h : t.walk follow links p rest = .ok place) : t'.walk follow links p rest = .ok place := by
  induction links generalizing p rest with
  | zero => exact walkWith_congr hends (fun _ _ h => h) hplace h
  | succ links ih => exact walkWith_congr hends (fun _ _ h => ih h) hplace h

/-! ### What has been made -/

/-- No link comes from putting something else in a place. -/
theorem isLink_set [DecidableEq N] {x : Option (Node N D)}
    (hx : ∀ absolute steps, x ≠ some (.link absolute steps)) (h : (t.set p x).isLink q = true) :
    t.isLink q = true := by
  unfold set at h
  split_ifs at h with hplace
  · obtain ⟨absolute, steps, hnode⟩ := isLink_iff.mp h
    dsimp only at hnode
    split_ifs at hnode with hq
    · exact absurd hnode (hx absolute steps)
    · exact isLink_iff.mpr ⟨absolute, steps, hnode⟩
  · exact h

theorem isLink_empty : (empty : Tree N D).isLink p = false := by
  cases p <;> rfl

theorem walkWith_made {onLink' : List N → List (Step N) → Except Fault (List N)}
    (hmade : ∀ q, t.node q = t'.node q ∨ q = place ∧ t'.isDir q = true) (hnone : t.node place = none)
    (honLink : ∀ p steps, onLink p steps = .ok place → onLink' p steps = .ok place)
    (h : t.walkWith follow onLink p rest = .ok place) :
    t'.walkWith true onLink' p rest = .ok place := by
  induction rest generalizing p with
  | nil => exact h
  | cons step rest ih =>
    cases step with
    | here => exact ih h
    | up => exact ih h
    | name n =>
      rw [walkWith] at h ⊢
      rcases hmade (p ++ [n]) with hsame | ⟨hplace, hdir⟩
      · rw [← hsame]
        split at h
        · exact ih h
        · exact h
        · rename_i absolute steps hnode
          by_cases hlast : (rest.isEmpty && !follow) = true
          · rw [if_pos hlast] at h
            cases h
            rw [hnone] at hnode
            cases hnode
          · rw [if_neg hlast] at h
            rw [Bool.not_true, Bool.and_false]
            exact honLink _ _ h
        · exact h
      · rw [hplace, hnone] at h
        rw [isDir_iff.mp hdir]
        dsimp only at h ⊢
        split_ifs at h with hlast
        rw [List.isEmpty_iff.mp hlast, hplace]
        rfl

/-- **What has been made at the end of a path is where the path leads.** -/
theorem walk_made (hmade : ∀ q, t.node q = t'.node q ∨ q = place ∧ t'.isDir q = true)
    (hnone : t.node place = none) (h : t.walk follow links p rest = .ok place) :
    t'.walk true links p rest = .ok place := by
  induction links generalizing p rest with
  | zero => exact walkWith_made hmade hnone (fun _ _ h => by cases h) h
  | succ links ih => exact walkWith_made hmade hnone (fun _ _ h => ih h) h

end Tree

end FileTree
