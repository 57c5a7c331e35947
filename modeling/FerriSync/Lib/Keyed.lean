/-
# Rows with a key

A table of rows of which no two have the same key (`Keyed`), in the order in which
they were inserted: what a map from keys to values holds and what a database's table
with a primary key does. A row that is put in place of one with its key stays where
that was.

Of rows whose keys may repeat, the first of each key are such a table (`keepFirst`).

Key definitions: `Keyed`, `Keyed.find`, `Keyed.put`, `Keyed.modify`, `Keyed.filter`,
`Keyed.keepFirst`.
Key theorems: `Keyed.find_eq_some_iff`, `Keyed.find_put`, `Keyed.mem_put`,
`Keyed.rows_put_map`, `Keyed.first_put`, `Keyed.mem_keepFirst`.
-/
import Mathlib.Tactic.Common
import Mathlib.Data.List.Induction
import Mathlib.Data.List.Nodup

variable {α β κ : Type}

/-- Rows with distinct keys. -/
structure Keyed (key : α → κ) where
  rows : List α
  nodup : (rows.map key).Nodup

namespace Keyed

variable {key : α → κ}

def empty : Keyed key := ⟨[], List.nodup_nil⟩

def keys (t : Keyed key) : List κ := t.rows.map key

/-- The rows that are left. -/
def filter (t : Keyed key) (keep : α → Bool) : Keyed key :=
  ⟨t.rows.filter keep, t.nodup.sublist (List.filter_sublist.map key)⟩

variable [DecidableEq κ]

/-- The row of a key. -/
def find (t : Keyed key) (k : κ) : Option α := t.rows.find? fun a => decide (key a = k)

/-- The rows with `row` in place of that with its key, or at the end. -/
def putRow (key : α → κ) (row : α) : List α → List α
  | [] => [row]
  | a :: rows => if key a = key row then row :: rows else a :: putRow key row rows

theorem keys_putRow (row : α) : ∀ rows : List α, (putRow key row rows).map key =
    if key row ∈ rows.map key then rows.map key else rows.map key ++ [key row]
  | [] => by simp [putRow]
  | a :: rows => by
    have ih := keys_putRow row rows
    by_cases h : key a = key row
    · simp [putRow, h]
    · have hne : key row ≠ key a := fun heq => h heq.symm
      have hcons : key row ∈ (a :: rows).map key ↔ key row ∈ rows.map key := by simp [hne]
      rw [putRow, if_neg h, List.map_cons, ih, if_congr hcons rfl rfl]
      split_ifs
      · rfl
      · rfl

/-- Insert a row, or replace the one with its key. -/
def put (t : Keyed key) (row : α) : Keyed key where
  rows := putRow key row t.rows
  nodup := by
    rw [keys_putRow]
    split_ifs with h
    · exact t.nodup
    · refine List.nodup_append.mpr ⟨t.nodup, List.nodup_singleton _, fun a ha b hb heq => h ?_⟩
      rw [← List.mem_singleton.mp hb, ← heq]
      exact ha

/-- Change the row of a key, if there is one. -/
def modify (t : Keyed key) (k : κ) (change : α → α) : Keyed key :=
  match t.find k with
  | some row => t.put (change row)
  | none => t

variable (t : Keyed key) {k : κ} {row a : α}

theorem find_eq_some_iff : t.find k = some a ↔ a ∈ t.rows ∧ key a = k := by
  constructor
  · intro h
    exact ⟨List.mem_of_find?_eq_some h, by simpa using List.find?_some h⟩
  · rintro ⟨ha, rfl⟩
    cases hf : t.find (key a) with
    | none => simpa using List.find?_eq_none.mp hf a ha
    | some b =>
      have hb : b ∈ t.rows := List.mem_of_find?_eq_some hf
      have hkey : key b = key a := by simpa using List.find?_some hf
      rw [List.inj_on_of_nodup_map t.nodup hb ha hkey]

theorem find_eq_none_iff : t.find k = none ↔ k ∉ t.keys := by
  simp [find, keys, List.find?_eq_none]

theorem key_of_find (h : t.find k = some a) : key a = k := (t.find_eq_some_iff.mp h).2

theorem mem_of_find (h : t.find k = some a) : a ∈ t.rows := (t.find_eq_some_iff.mp h).1

theorem keys_put : (t.put row).keys = if key row ∈ t.keys then t.keys else t.keys ++ [key row] :=
  keys_putRow row t.rows

theorem find?_putRow (row : α) (k : κ) : ∀ rows : List α,
    (putRow key row rows).find? (fun a => decide (key a = k)) =
      if k = key row then some row else rows.find? fun a => decide (key a = k)
  | [] => by
    by_cases h : k = key row
    · simp [putRow, h]
    · simp [putRow, h, Ne.symm h]
  | a :: rows => by
    have ih := find?_putRow row k rows
    by_cases ha : key a = key row
    · rw [putRow, if_pos ha, List.find?_cons, List.find?_cons, ha]
      by_cases h : k = key row
      · simp [h]
      · simp [h, Ne.symm h]
    · rw [putRow, if_neg ha, List.find?_cons, ih, List.find?_cons]
      by_cases h : k = key row
      · rw [if_pos h, if_pos h, h]
        simp [ha]
      · rw [if_neg h, if_neg h]

/-- **What is found after a row has been put.** -/
theorem find_put : (t.put row).find k = if k = key row then some row else t.find k :=
  find?_putRow row k t.rows

theorem keys_modify {change : α → α} (hkey : ∀ a, key (change a) = key a) :
    (t.modify k change).keys = t.keys := by
  unfold modify
  cases h : t.find k with
  | none => rfl
  | some row =>
    have hrow : key (change row) ∈ t.keys := by
      rw [hkey]
      exact List.mem_map_of_mem (t.mem_of_find h)
    show (t.put (change row)).keys = _
    rw [keys_put, if_pos hrow]

theorem mem_put : a ∈ (t.put row).rows ↔ a = row ∨ a ∈ t.rows ∧ key a ≠ key row := by
  have hfind : a ∈ (t.put row).rows ↔ (t.put row).find (key a) = some a := by
    rw [find_eq_some_iff]
    simp
  rw [hfind, find_put]
  by_cases h : key a = key row
  · rw [if_pos h]
    constructor
    · intro heq
      exact Or.inl (Option.some.inj heq).symm
    · rintro (rfl | ⟨-, hne⟩)
      · rfl
      · exact absurd h hne
  · rw [if_neg h, find_eq_some_iff]
    constructor
    · intro hmem
      exact Or.inr ⟨hmem.1, h⟩
    · rintro (rfl | ⟨hmem, -⟩)
      · exact absurd rfl h
      · exact ⟨hmem, rfl⟩

theorem rows_put_inj {b : α} (h : key a = key b) : (t.put a).rows = (t.put b).rows ↔ a = b := by
  constructor
  · intro heq
    have ha : a ∈ (t.put b).rows := heq ▸ t.mem_put.mpr (Or.inl rfl)
    exact (t.mem_put.mp ha).resolve_right fun hother => hother.2 h
  · rintro rfl
    rfl

/-! ### Rows that are read as others -/

section

variable {key' : β → κ} {f : α → β} (t' : Keyed key')

theorem rows_putRow_map (hkey : ∀ a, key' (f a) = key a) (row : α) : ∀ rows : List α,
    putRow key' (f row) (rows.map f) = (putRow key row rows).map f
  | [] => rfl
  | a :: rows => by
    rw [List.map_cons, putRow, putRow, hkey, hkey]
    split_ifs
    · rfl
    · rw [List.map_cons, rows_putRow_map hkey row rows]

theorem rows_put_map (hkey : ∀ a, key' (f a) = key a) (h : t'.rows = t.rows.map f) (row : α) :
    (t'.put (f row)).rows = (t.put row).rows.map f := by
  show putRow key' (f row) t'.rows = _
  rw [h]
  exact rows_putRow_map hkey row t.rows

theorem find_map (hkey : ∀ a, key' (f a) = key a) (h : t'.rows = t.rows.map f) (k : κ) :
    t'.find k = (t.find k).map f := by
  unfold find
  rw [h, List.find?_map]
  congr 2
  funext a
  exact congrArg (fun k' => decide (k' = k)) (hkey a)

omit [DecidableEq κ] in
theorem keys_map (hkey : ∀ a, key' (f a) = key a) (h : t'.rows = t.rows.map f) : t'.keys = t.keys := by
  unfold keys
  rw [h, List.map_map]
  exact List.map_congr_left fun a _ => hkey a

theorem rows_modify_map (hkey : ∀ a, key' (f a) = key a) (h : t'.rows = t.rows.map f) {change : α → α}
    {change' : β → β} (hchange : ∀ a, change' (f a) = f (change a)) (k : κ) :
    (t'.modify k change').rows = (t.modify k change).rows.map f := by
  unfold modify
  rw [find_map t t' hkey h]
  cases t.find k with
  | none => exact h
  | some row =>
    rw [Option.map_some]
    show (t'.put (change' (f row))).rows = (t.put (change row)).rows.map f
    rw [hchange]
    exact t.rows_put_map t' hkey h (change row)

omit [DecidableEq κ] in
theorem rows_filter_map (h : t'.rows = t.rows.map f) {keep : α → Bool} {keep' : β → Bool}
    (hkeep : ∀ a, keep' (f a) = keep a) : (t'.filter keep').rows = (t.filter keep).rows.map f := by
  show t'.rows.filter keep' = (t.rows.filter keep).map f
  rw [h, List.filter_map]
  congr 2
  funext a
  exact hkeep a

end

/-! ### The first row with a property -/

/-- The keys of the rows before that of a key. -/
def before (t : Keyed key) (k : κ) : List κ := t.keys.takeWhile fun k' => !decide (k' = k)

theorem first_putRow {p : α → Bool} (row : α) {k : κ} : ∀ {rows : List α}, (rows.map key).Nodup →
    (rows.find? p).map key = some k →
    (((putRow key row rows).find? p).map key = some k ↔
      (key row = k → p row = true) ∧
      (key row ∈ (rows.map key).takeWhile (fun k' => !decide (k' = k)) → p row = false))
  | [], _, h => by cases h
  | a :: rows, hnodup, h => by
    obtain ⟨hnew, hrest⟩ := List.nodup_cons.mp (List.map_cons ▸ hnodup)
    have habsent : ∀ b, rows.find? p = some b → key b ≠ key a := fun b hb heq =>
      hnew (heq ▸ List.mem_map_of_mem (List.mem_of_find?_eq_some hb))
    cases ha : p a with
    | true =>
      -- the row of the key is the first one
      obtain rfl : key a = k := by simpa [ha] using h
      by_cases hkey : key a = key row
      · rw [putRow, if_pos hkey]
        cases hrow : p row with
        | true => simp [hrow, hkey]
        | false =>
          simpa [hrow, hkey] using fun b hb => hkey ▸ habsent b hb
      · rw [putRow, if_neg hkey]
        simp [ha, Ne.symm hkey]
    | false =>
      have hfound : (rows.find? p).map key = some k := by simpa [ha] using h
      have hne : key a ≠ k := by
        obtain ⟨b, hb, rfl⟩ := Option.map_eq_some_iff.mp hfound
        exact (habsent b hb).symm
      by_cases hkey : key a = key row
      · rw [putRow, if_pos hkey]
        cases hrow : p row with
        | true => simp [hrow, hne, ← hkey]
        | false => simp [hrow, hne, ← hkey, hfound]
      · have ih := first_putRow row hrest hfound
        rw [putRow, if_neg hkey, List.find?_cons, ha, ih]
        simp [hne, Ne.symm hkey]

/-- **Which row is the first with a property, after one has been put.** It is still
that of the key if the row that is put is not before it, or lacks the property. -/
theorem first_put {p : α → Bool} {k : κ} (h : (t.rows.find? p).map key = some k) :
    (((t.put row).rows.find? p).map key = some k ↔
      (key row = k → p row = true) ∧ (key row ∈ t.before k → p row = false)) :=
  first_putRow row t.nodup h

theorem putRow_of_mem : ∀ {rows : List α}, (rows.map key).Nodup → a ∈ rows → putRow key a rows = rows
  | [], _, h => by cases h
  | b :: rows, hnodup, h => by
    obtain ⟨hnew, hrest⟩ := List.nodup_cons.mp (List.map_cons ▸ hnodup)
    rcases List.mem_cons.mp h with rfl | hmem
    · rw [putRow, if_pos rfl]
    · have hne : key b ≠ key a := fun heq => hnew (heq ▸ List.mem_map_of_mem hmem)
      rw [putRow, if_neg hne, putRow_of_mem hrest hmem]

/-- A row put in its own place. -/
theorem put_of_mem (h : a ∈ t.rows) : (t.put a).rows = t.rows := putRow_of_mem t.nodup h

/-- No row before the first with a property has it. -/
theorem not_of_mem_before {p : α → Bool} (h : (t.rows.find? p).map key = some k) (ha : a ∈ t.rows)
    (hbefore : key a ∈ t.before k) : p a = false := by
  have hsame : ((t.put a).rows.find? p).map key = some k := by rw [t.put_of_mem ha, h]
  exact ((t.first_put h).mp hsame).2 hbefore

/-- A row with a property is the first one if no row before it has it. -/
theorem first_eq_iff {p : α → Bool} (ha : a ∈ t.rows) (hp : p a = true) :
    (t.rows.find? p).map key = some (key a) ↔
      ∀ b ∈ t.rows, key b ∈ t.before (key a) → p b = false := by
  constructor
  · intro h b hb hbefore
    exact t.not_of_mem_before h hb hbefore
  · intro h
    obtain ⟨pre, post, hsplit⟩ := List.append_of_mem ha
    have hnone : ∀ b ∈ pre, ¬p b = true := by
      intro b hb
      rw [Bool.not_eq_true]
      refine h b (hsplit ▸ List.mem_append_left _ hb) ?_
      have hnodup := t.nodup
      rw [hsplit, List.map_append, List.map_cons, List.nodup_append] at hnodup
      have hdistinct : ∀ k ∈ pre.map key, (!decide (k = key a)) = true := fun k hk => by
        simpa using hnodup.2.2 k hk (key a) (List.mem_cons_self ..)
      rw [before, keys, hsplit, List.map_append, List.takeWhile_append_of_pos hdistinct]
      exact List.mem_append_left _ (List.mem_map_of_mem hb)
    rw [hsplit, List.find?_append, List.find?_eq_none.mpr hnone, Option.none_or, List.find?_cons, hp]
    rfl

theorem not_mem_before : k ∉ t.before k := by
  intro h
  simpa using List.all_eq_true.mp List.all_takeWhile k h

/-! ### The first row of each key -/

section

variable (key : α → κ)

/-- The rows so far, and this one unless they have its key. -/
def addFirst (out : List α) (a : α) : List α :=
  if out.any fun b => decide (key b = key a) then out else out ++ [a]

/-- The first row of each key. -/
def keepFirst (rows : List α) : List α := rows.foldl (addFirst key) []

end

theorem addFirst_of_mem {out : List α} {a : α} (h : key a ∈ out.map key) :
    addFirst key out a = out := by
  obtain ⟨b, hb, heq⟩ := List.mem_map.mp h
  exact if_pos (List.any_eq_true.mpr ⟨b, hb, decide_eq_true heq⟩)

theorem addFirst_of_notMem {out : List α} {a : α} (h : key a ∉ out.map key) :
    addFirst key out a = out ++ [a] := by
  refine if_neg fun hany => ?_
  obtain ⟨b, hb, heq⟩ := List.any_eq_true.mp hany
  exact h (List.mem_map.mpr ⟨b, hb, of_decide_eq_true heq⟩)

theorem foldl_addFirst_nodup {rows : List α} : ∀ {out : List α}, (out.map key).Nodup →
    ((rows.foldl (addFirst key) out).map key).Nodup := by
  induction rows with
  | nil => exact fun h => h
  | cons a rows ih =>
    intro out h
    apply ih
    by_cases hmem : key a ∈ out.map key
    · rwa [addFirst_of_mem hmem]
    · rw [addFirst_of_notMem hmem, List.map_append]
      exact h.append (List.nodup_singleton _) (List.disjoint_singleton.mpr hmem)

theorem mem_foldl_addFirst {a : α} {rows : List α} : ∀ {out : List α},
    a ∈ rows.foldl (addFirst key) out ↔ a ∈ out ∨ key a ∉ out.map key ∧
      ∃ before after, rows = before ++ a :: after ∧ key a ∉ before.map key := by
  induction rows with
  | nil => simp
  | cons b rows ih =>
    intro out
    rw [List.foldl_cons, ih]
    by_cases hmem : key b ∈ out.map key
    · rw [addFirst_of_mem hmem]
      refine or_congr_right (and_congr_right fun hnew => ?_)
      constructor
      · rintro ⟨before, after, rfl, hbefore⟩
        have hne : key a ≠ key b := fun heq => hnew (heq ▸ hmem)
        exact ⟨b :: before, after, rfl, by simp [hne, hbefore]⟩
      · rintro ⟨before, after, hrows, hbefore⟩
        cases before with
        | nil =>
          obtain ⟨rfl, -⟩ := List.cons_eq_cons.mp hrows
          exact absurd hmem hnew
        | cons c before =>
          obtain ⟨rfl, rfl⟩ := List.cons_eq_cons.mp hrows
          exact ⟨before, after, rfl, fun h => hbefore (List.mem_cons_of_mem _ h)⟩
    · rw [addFirst_of_notMem hmem, List.map_append, List.mem_append, List.mem_append]
      constructor
      · rintro ((hout | hb) | ⟨hnew, before, after, rfl, hbefore⟩)
        · exact Or.inl hout
        · obtain rfl := List.mem_singleton.mp hb
          exact Or.inr ⟨hmem, [], rows, rfl, by simp⟩
        · rw [not_or] at hnew
          have hne : key a ≠ key b := fun heq => hnew.2 (List.mem_singleton.mpr heq)
          exact Or.inr ⟨hnew.1, b :: before, after, rfl, by simp [hne, hbefore]⟩
      · rintro (hout | ⟨hnew, before, after, hrows, hbefore⟩)
        · exact Or.inl (Or.inl hout)
        · cases before with
          | nil =>
            obtain ⟨rfl, -⟩ := List.cons_eq_cons.mp hrows
            exact Or.inl (Or.inr (List.mem_singleton.mpr rfl))
          | cons c before =>
            obtain ⟨rfl, rfl⟩ := List.cons_eq_cons.mp hrows
            have hne : key a ≠ key b := fun heq => hbefore (by simp [heq])
            refine Or.inr ⟨?_, before, after, rfl, fun h => hbefore (List.mem_cons_of_mem _ h)⟩
            rw [not_or]
            exact ⟨hnew, fun h => hne (List.mem_singleton.mp h)⟩

variable {rows : List α} {a b : α}

theorem keepFirst_nodup (rows : List α) : ((keepFirst key rows).map key).Nodup :=
  foldl_addFirst_nodup List.nodup_nil

theorem mem_keepFirst : a ∈ keepFirst key rows ↔
    ∃ before after, rows = before ++ a :: after ∧ key a ∉ before.map key := by
  have h := @mem_foldl_addFirst α κ key _ a rows []
  unfold keepFirst
  simpa using h

theorem mem_of_mem_keepFirst (h : a ∈ keepFirst key rows) : a ∈ rows := by
  obtain ⟨before, after, rfl, -⟩ := mem_keepFirst.mp h
  exact List.mem_append_right _ (List.mem_cons_self ..)

/-- Every key that occurs is kept. -/
theorem exists_mem_keepFirst (h : a ∈ rows) : ∃ b ∈ keepFirst key rows, key b = key a := by
  induction rows using List.reverseRecOn with
  | nil => cases h
  | append_singleton rows c ih =>
    have hfold : keepFirst key (rows ++ [c]) = addFirst key (keepFirst key rows) c :=
      List.foldl_concat ..
    rw [hfold]
    have hsub : ∀ b ∈ keepFirst key rows, b ∈ addFirst key (keepFirst key rows) c := by
      intro b hb
      unfold addFirst
      split
      · exact hb
      · exact List.mem_append_left _ hb
    rcases List.mem_append.mp h with h | h
    · obtain ⟨b, hb, heq⟩ := ih h
      exact ⟨b, hsub b hb, heq⟩
    · obtain rfl := List.mem_singleton.mp h
      by_cases hmem : key a ∈ (keepFirst key rows).map key
      · obtain ⟨b, hb, heq⟩ := List.mem_map.mp hmem
        exact ⟨b, hsub b hb, heq⟩
      · rw [addFirst_of_notMem hmem]
        exact ⟨a, List.mem_append_right _ (List.mem_singleton_self a), rfl⟩

theorem keys_keepFirst {k : κ} : k ∈ (keepFirst key rows).map key ↔ k ∈ rows.map key := by
  constructor
  · intro h
    obtain ⟨a, ha, rfl⟩ := List.mem_map.mp h
    exact List.mem_map_of_mem (mem_of_mem_keepFirst ha)
  · intro h
    obtain ⟨a, ha, rfl⟩ := List.mem_map.mp h
    obtain ⟨b, hb, heq⟩ : ∃ b ∈ keepFirst key rows, key b = key a := exists_mem_keepFirst ha
    exact heq ▸ List.mem_map_of_mem hb

/-- As many rows are kept as there are exactly if no key occurs twice. -/
theorem length_keepFirst (rows : List α) : (keepFirst key rows).length ≤ rows.length ∧
    ((keepFirst key rows).length = rows.length ↔ (rows.map key).Nodup) := by
  induction rows using List.reverseRecOn with
  | nil => exact ⟨Nat.le_refl _, iff_of_true rfl List.nodup_nil⟩
  | append_singleton rows a ih =>
    have hfold : keepFirst key (rows ++ [a]) = addFirst key (keepFirst key rows) a := List.foldl_concat ..
    rw [hfold, List.length_append, List.length_singleton, List.map_append, List.map_singleton,
      List.nodup_append]
    by_cases hmem : key a ∈ (keepFirst key rows).map key
    · rw [addFirst_of_mem hmem]
      refine ⟨by omega, iff_of_false (by omega) fun h => ?_⟩
      exact h.2.2 _ (keys_keepFirst.mp hmem) _ (List.mem_singleton_self _) rfl
    · rw [addFirst_of_notMem hmem, List.length_append, List.length_singleton]
      refine ⟨by omega, ?_⟩
      rw [Nat.add_right_cancel_iff, ih.2]
      refine ⟨fun h => ⟨h, List.nodup_singleton _, fun x hx y hy heq => ?_⟩, And.left⟩
      rw [heq, List.mem_singleton.mp hy] at hx
      exact hmem (keys_keepFirst.mpr hx)

end Keyed
