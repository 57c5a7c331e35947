/-
# Arguments in any order

What a command makes of its flags and positionals when they are put in another order,
when a flag is repeated, and what becomes of each value (`ParsesWell`). The arguments
come in parts: a positional, a flag with its value, a flag alone (`Arg`).

`unsync` does all of it well. `serve`, `pair` and `watch` take the first token for what they
act on, even where it is the flag, and the value of the first flag only. `add` takes the
first token for the folder too, but then refuses whatever it does not know. And `sync` refuses a
second wait only after one that is not zero, never a second `--dry-run`, and forgets the
wait of all folders. So each is well exactly for some arguments (`parses_well_iff`).

Key definitions: `Arg`, `ArgCommand`, `Rearranged`, `ReplCommand.Keeps`, `ParsesWell`,
`WellGiven`, `TakesFirst`, `waitRun`.
Key theorems: `firstArg_iff`, `parseAdd_ok`, `syncLoop_ok_iff`, `unsyncLoop_ok_iff`,
`parses_well_iff`.
-/
import FerriSync.Repl
import Mathlib.Data.List.Perm.Basic

namespace FerriSync

/-! ### Parts of a command line -/

inductive Flag
  | port
  | device
  | wait
  | dryRun
  | name
  | yes
deriving DecidableEq, Repr

def Flag.text : Flag → String
  | port => "--port"
  | device => "--device"
  | wait => "--wait"
  | dryRun => "--dry-run"
  | name => "--name"
  | yes => "--yes"

/-- A positional, a flag with its value, or a flag alone. -/
inductive Arg
  | positional (text : String)
  | option (f : Flag) (value : String)
  | switch (f : Flag)
deriving DecidableEq, Repr

/-- The commands whose arguments have flags. -/
inductive ArgCommand
  | serve
  | pair
  | watch
  | sync
  | add
  | unsync
deriving DecidableEq, Repr

namespace Arg

def tokens : Arg → List String
  | positional text => [text]
  | option f value => [f.text, value]
  | switch f => [f.text]

def positional? : Arg → Option String
  | positional text => some text
  | _ => none

/-- The value, if this is the flag. -/
def value? (f : Flag) : Arg → Option String
  | option g value => if g = f then some value else none
  | _ => none

def isFlag (f : Flag) : Arg → Bool
  | positional _ => false
  | option g _ => decide (g = f)
  | switch g => decide (g = f)

end Arg

def tokens (gs : List Arg) : List String := gs.flatMap Arg.tokens

def positionals (gs : List Arg) : List String := gs.filterMap Arg.positional?

def values (f : Flag) (gs : List Arg) : List String := gs.filterMap (Arg.value? f)

def flagCount (f : Flag) (gs : List Arg) : ℕ := gs.countP (Arg.isFlag f)

namespace ArgCommand

def word : ArgCommand → String
  | serve => "serve"
  | pair => "pair"
  | watch => "watch"
  | sync => "sync"
  | add => "add"
  | unsync => "unsync"

def options : ArgCommand → List Flag
  | serve => [.port]
  | pair => [.port]
  | watch => [.device]
  | sync => [.device, .wait]
  | add => [.name]
  | unsync => [.device]

def switches : ArgCommand → List Flag
  | sync => [.dryRun]
  | unsync => [.yes]
  | _ => []

/-- The command has such an argument. What looks like a flag is no positional. -/
def Accepts (c : ArgCommand) : Arg → Prop
  | .positional text => looksLikeFlag text = false
  | .option f _ => f ∈ c.options
  | .switch f => f ∈ c.switches

def parse (c : ArgCommand) (gs : List Arg) : Except String ReplCommand :=
  parseCommand c.word (tokens gs)

end ArgCommand

/-- The same arguments in another order, but for the positionals among themselves. -/
structure Rearranged (gs gs' : List Arg) : Prop where
  perm : gs.Perm gs'
  positionals : positionals gs' = positionals gs

/-- The command has the value of the argument. -/
def ReplCommand.Keeps (cmd : ReplCommand) : Arg → Prop
  | .positional _ => True
  | .option f v =>
    match cmd, f with
    | .serve _ port, .port => parseUnsigned u16Bound v = some port
    | .pair _ port, .port => parseUnsigned u16Bound v = some port
    | .watch args, .device => args.device = v
    | .sync args, .device => args.device = some v
    | .sync args, .wait => parseUnsigned u64Bound v = some args.wait
    | .add _ name, .name => name = some v
    | .unsync _ device _, .device => device = some v
    | _, _ => False
  | .switch f =>
    match cmd, f with
    | .sync args, .dryRun => args.dryRun = true
    | .unsync _ _ all, .yes => all = true
    | _, _ => False

/-- The order says nothing, no flag is repeated, and no value is lost. -/
structure ParsesWell (c : ArgCommand) (gs : List Arg) : Prop where
  order : ∀ gs', Rearranged gs gs' → (c.parse gs').toOption = (c.parse gs).toOption
  strict : ∀ f, 2 ≤ flagCount f gs → ∃ e, c.parse gs = .error e
  kept : ∀ cmd, c.parse gs = .ok cmd → ∀ a ∈ gs, cmd.Keeps a

/-- The arguments that a command parses well. -/
def WellGiven : ArgCommand → List Arg → Prop
  | .serve, gs | .pair, gs =>
    (∀ v ∈ values .port gs, parseUnsigned u16Bound v = none) ∨
      (values .port gs).length = 1 ∧ positionals gs = []
  | .watch, gs => values .device gs = [] ∨ (values .device gs).length = 1 ∧ positionals gs = []
  | .add, gs => ¬((positionals gs).length = 1 ∧ (values .name gs).length = 1)
  | .sync, gs =>
    (values .device gs).length ≠ (positionals gs).length ∨ 2 ≤ (positionals gs).length ∨
      (∃ v ∈ values .wait gs, parseUnsigned u64Bound v = none) ∨
      2 ≤ (values .wait gs).countP (fun v => decide (parseUnsigned u64Bound v ≠ some 0)) ∨
      (flagCount .wait gs ≤ 1 ∧ flagCount .dryRun gs ≤ 1 ∧
        (positionals gs = [] → ∀ v ∈ values .wait gs, parseUnsigned u64Bound v = some 0))
  | .unsync, _ => True

/-! ### The parts in another order -/

section

variable {gs gs' pre post : List Arg} {a : Arg} {f : Flag} {v : String} {c : ArgCommand}

@[simp] theorem tokens_nil : tokens [] = [] := rfl

@[simp] theorem positionals_nil : positionals [] = [] := rfl

@[simp] theorem values_nil : values f [] = [] := rfl

@[simp] theorem tokens_cons : tokens (a :: gs) = a.tokens ++ tokens gs := List.flatMap_cons

@[simp] theorem tokens_append : tokens (gs ++ gs') = tokens gs ++ tokens gs' := List.flatMap_append

@[simp] theorem positionals_append : positionals (gs ++ gs') = positionals gs ++ positionals gs' :=
  List.filterMap_append

@[simp] theorem values_append : values f (gs ++ gs') = values f gs ++ values f gs' :=
  List.filterMap_append

@[simp] theorem positionals_positional (text : String) :
    positionals (.positional text :: gs) = text :: positionals gs := rfl

@[simp] theorem positionals_option (value : String) :
    positionals (.option f value :: gs) = positionals gs := rfl

@[simp] theorem positionals_switch : positionals (.switch f :: gs) = positionals gs := rfl

@[simp] theorem values_positional (text : String) : values f (.positional text :: gs) = values f gs := rfl

@[simp] theorem values_switch (g : Flag) : values f (.switch g :: gs) = values f gs := rfl

@[simp] theorem values_option (g : Flag) (value : String) : values f (.option g value :: gs) =
    if g = f then value :: values f gs else values f gs := by
  unfold values
  rw [List.filterMap_cons]
  by_cases h : g = f
  · simp [Arg.value?, h]
  · simp [Arg.value?, h]

theorem Rearranged.refl (gs : List Arg) : Rearranged gs gs := ⟨List.Perm.refl gs, rfl⟩

theorem Rearranged.values (h : Rearranged gs gs') (f : Flag) : (values f gs').Perm (values f gs) :=
  (h.perm.filterMap _).symm

theorem Rearranged.flagCount (h : Rearranged gs gs') (f : Flag) : flagCount f gs' = flagCount f gs :=
  (h.perm.countP_eq _).symm

theorem Rearranged.accepts (h : Rearranged gs gs') (hgs : ∀ a ∈ gs, c.Accepts a) :
    ∀ a ∈ gs', c.Accepts a := fun a ha => hgs a (h.perm.mem_iff.mpr ha)

/-- A flag is put first. -/
theorem Rearranged.option_first : Rearranged (pre ++ .option f v :: post) (.option f v :: (pre ++ post)) :=
  ⟨List.perm_middle, by simp⟩

/-- A flag is put last. -/
theorem Rearranged.option_last :
    Rearranged (pre ++ .option f v :: post) ((pre ++ post) ++ [.option f v]) :=
  ⟨List.perm_middle.trans (List.perm_append_singleton _ _).symm, by simp⟩

theorem mem_values : v ∈ values f gs ↔ .option f v ∈ gs := by
  unfold values
  rw [List.mem_filterMap]
  constructor
  · intro ⟨a, ha, hv⟩
    cases a with
    | positional text => cases hv
    | switch g => cases hv
    | option g w =>
      simp only [Arg.value?] at hv
      split_ifs at hv with hg
      rw [← hg, ← Option.some.inj hv]
      exact ha
  · intro h
    exact ⟨_, h, by simp [Arg.value?]⟩

/-- Where there are only positionals there is one order. -/
theorem eq_positionals (h : ∀ a ∈ gs, ∃ text, a = .positional text) :
    gs = (positionals gs).map .positional := by
  induction gs with
  | nil => rfl
  | cons a gs ih =>
    obtain ⟨text, rfl⟩ := h a List.mem_cons_self
    rw [positionals_positional, List.map_cons, ← ih fun a ha => h a (List.mem_cons_of_mem _ ha)]

end

/-! ### Commands that take the first token -/

/-- Positionals, and one flag with its values. -/
def OnlyFlag (f : Flag) (gs : List Arg) : Prop :=
  ∀ a ∈ gs, (∃ text, a = .positional text ∧ looksLikeFlag text = false) ∨ ∃ v, a = .option f v

/-- What such a command makes of its first token and of the first value of its flag. -/
structure TakesFirst (c : ArgCommand) (f : Flag) where
  result : Option String → Option String → Except String ReplCommand
  /-- The command can read the value. -/
  readable : String → Bool
  /-- What the command acts on. -/
  target : ReplCommand → Option String
  accepts : ∀ {gs}, (∀ a ∈ gs, c.Accepts a) → OnlyFlag f gs
  parse_eq : ∀ {gs}, OnlyFlag f gs → c.parse gs = result (tokens gs).head? (values f gs).head?
  refuses : ∀ first v, readable v = false → ∃ e, result first (some v) = .error e
  takes : ∀ first v, readable v = true → ∃ cmd, result (some first) (some v) = .ok cmd ∧
    target cmd = some first ∧ cmd.Keeps (.option f v)

section

variable {gs gs' pre post : List Arg} {f : Flag} {v : String} {c : ArgCommand}

theorem looksLikeFlag_text (f : Flag) : looksLikeFlag f.text = true := by
  cases f <;> decide

theorem ne_text {text : String} (h : looksLikeFlag text = false) (f : Flag) : text ≠ f.text := by
  intro heq
  rw [heq, looksLikeFlag_text] at h
  cases h

theorem flagValue_cons {tok name : String} (h : tok ≠ name) (args : List String) :
    flagValue (tok :: args) name = flagValue args name := by
  unfold flagValue
  rw [List.dropWhile_cons_of_pos (by simpa using h)]

/-- **The first value is found**, wherever it stands. -/
theorem flagValue_tokens (h : OnlyFlag f gs) :
    flagValue (tokens gs) f.text = .ok (values f gs).head? := by
  induction gs with
  | nil => rfl
  | cons a gs ih =>
    have hrest := ih fun a ha => h a (List.mem_cons_of_mem _ ha)
    obtain ⟨text, rfl, htext⟩ | ⟨v, rfl⟩ := h a List.mem_cons_self
    · rw [tokens_cons, values_positional, ← hrest]
      exact flagValue_cons (ne_text htext f) _
    · rw [tokens_cons, values_option, if_pos rfl, List.head?_cons]
      unfold flagValue
      simp [Arg.tokens]

theorem OnlyFlag.flagCount (h : OnlyFlag f gs) (g : Flag) :
    flagCount g gs = if g = f then (values f gs).length else 0 := by
  induction gs with
  | nil => simp [FerriSync.flagCount]
  | cons a gs ih =>
    have hrest := ih fun a ha => h a (List.mem_cons_of_mem _ ha)
    unfold FerriSync.flagCount at hrest ⊢
    rw [List.countP_cons, hrest]
    obtain ⟨text, rfl, -⟩ | ⟨v, rfl⟩ := h a List.mem_cons_self
    · simp [Arg.isFlag]
    · by_cases hg : f = g
      · simp [Arg.isFlag, hg]
      · simp [Arg.isFlag, hg, Ne.symm hg]

theorem OnlyFlag.positional (h : OnlyFlag f gs) (hvalues : values f gs = []) :
    ∀ a ∈ gs, ∃ text, a = .positional text := by
  intro a ha
  obtain ⟨text, rfl, -⟩ | ⟨v, rfl⟩ := h a ha
  · exact ⟨text, rfl⟩
  · have hmem := mem_values.mpr ha
    rw [hvalues] at hmem
    cases hmem

/-- Positionals have one order. -/
theorem Rearranged.eq_of_positional (h : Rearranged gs gs')
    (hgs : ∀ a ∈ gs, ∃ text, a = .positional text) : gs' = gs := by
  rw [eq_positionals hgs, ← h.positionals]
  exact eq_positionals fun a ha => hgs a (h.perm.mem_iff.mpr ha)

theorem OnlyFlag.length (h : OnlyFlag f gs) :
    gs.length = (positionals gs).length + (values f gs).length := by
  induction gs with
  | nil => rfl
  | cons a gs ih =>
    have hrest := ih fun a ha => h a (List.mem_cons_of_mem _ ha)
    obtain ⟨text, rfl, -⟩ | ⟨v, rfl⟩ := h a List.mem_cons_self
    · simp only [List.length_cons, positionals_positional, values_positional]
      omega
    · simp only [List.length_cons, positionals_option, values_option, if_true]
      omega

/-- A value that cannot be read is refused, wherever it stands. -/
theorem TakesFirst.refused (t : TakesFirst c f) (hgs : ∀ a ∈ gs, c.Accepts a)
    (hunreadable : ∀ v ∈ values f gs, t.readable v = false) (hne : values f gs ≠ []) :
    ∃ e, c.parse gs = .error e := by
  obtain ⟨v, vs, hv⟩ := List.exists_cons_of_ne_nil hne
  rw [t.parse_eq (t.accepts hgs), hv, List.head?_cons]
  apply t.refuses
  apply hunreadable
  rw [hv]
  exact List.mem_cons_self

/-- With the flag in front of them the command acts on the flag's text. -/
theorem TakesFirst.front (t : TakesFirst c f) (hgs : ∀ a ∈ pre ++ .option f v :: post, c.Accepts a)
    (hread : t.readable v = true) :
    ∃ cmd, c.parse (.option f v :: (pre ++ post)) = .ok cmd ∧ t.target cmd = some f.text := by
  have hfront : Rearranged (pre ++ .option f v :: post) (.option f v :: (pre ++ post)) := .option_first
  obtain ⟨cmd, hcmd, htarget, -⟩ := t.takes f.text v hread
  refine ⟨cmd, ?_, htarget⟩
  rw [t.parse_eq (t.accepts (hfront.accepts hgs)), values_option, if_pos rfl]
  exact hcmd

/-- With the flag behind them it acts on the first positional. -/
theorem TakesFirst.back (t : TakesFirst c f) (hgs : ∀ a ∈ pre ++ .option f v :: post, c.Accepts a)
    (hread : t.readable v = true) (hvalues : values f (pre ++ post) = [])
    (hpositionals : positionals (pre ++ post) ≠ []) :
    ∃ cmd text, c.parse ((pre ++ post) ++ [.option f v]) = .ok cmd ∧ t.target cmd = some text ∧
      looksLikeFlag text = false := by
  have hback : Rearranged (pre ++ .option f v :: post) ((pre ++ post) ++ [.option f v]) := .option_last
  have honly := t.accepts (hback.accepts hgs)
  cases hfirst : pre ++ post with
  | nil =>
    rw [hfirst] at hpositionals
    exact absurd rfl hpositionals
  | cons a rest =>
    rw [hfirst] at hvalues honly
    have hpositional : OnlyFlag f (a :: rest) := fun b hb => honly b (List.mem_append_left _ hb)
    obtain ⟨text, rfl⟩ := hpositional.positional hvalues a List.mem_cons_self
    have htext : looksLikeFlag text = false := by
      obtain ⟨text', heq, htext⟩ | ⟨w, heq⟩ := hpositional _ List.mem_cons_self
      · rwa [Arg.positional.inj heq]
      · cases heq
    obtain ⟨cmd, hcmd, htarget, -⟩ := t.takes text v hread
    refine ⟨cmd, text, ?_, htarget, htext⟩
    rw [t.parse_eq honly, values_append, hvalues, values_option, if_pos rfl]
    exact hcmd

/-- What is accepted in one order is what is accepted in the other. -/
theorem ParsesWell.accepted (h : ParsesWell c gs) (hrearranged : Rearranged gs gs') {cmd : ReplCommand}
    (hcmd : c.parse gs' = .ok cmd) : c.parse gs = .ok cmd := by
  have hsame := h.order gs' hrearranged
  rw [hcmd] at hsame
  cases hparse : c.parse gs with
  | error e =>
    rw [hparse] at hsame
    cases hsame
  | ok cmd' =>
    rw [hparse] at hsame
    rw [Option.some.inj hsame]

/-- What is accepted has no flag twice. -/
theorem ParsesWell.once (h : ParsesWell c gs) {cmd : ReplCommand} (hcmd : c.parse gs = .ok cmd) (f : Flag) :
    flagCount f gs ≤ 1 := by
  by_contra hmany
  obtain ⟨e, he⟩ := h.strict f (by omega)
  rw [he] at hcmd
  cases hcmd

/-- Where no order is accepted, nothing is wrong. -/
theorem parsesWell_of_refused
    (h : ∀ gs', Rearranged gs gs' → ∃ e, c.parse gs' = .error e) : ParsesWell c gs := by
  obtain ⟨e, he⟩ := h gs (.refl gs)
  refine ⟨?_, fun _ _ => ⟨e, he⟩, ?_⟩
  · intro gs' hrearranged
    obtain ⟨e', he'⟩ := h gs' hrearranged
    rw [he, he']
    rfl
  · intro cmd hcmd
    rw [he] at hcmd
    cases hcmd

/-- Where there is no flag, nothing is wrong. -/
theorem parsesWell_of_positionals (h : OnlyFlag f gs) (hvalues : values f gs = []) : ParsesWell c gs := by
  have hpositional := h.positional hvalues
  refine ⟨?_, ?_, ?_⟩
  · intro gs' hrearranged
    rw [hrearranged.eq_of_positional hpositional]
  · intro g hg
    rw [h.flagCount, hvalues, List.length_nil, ite_self] at hg
    omega
  · intro cmd _ a ha
    obtain ⟨text, rfl⟩ := hpositional a ha
    trivial

/-- **A command that takes the first token** parses well exactly if it can read no value, or its one
flag stands alone. -/
theorem firstArg_iff (t : TakesFirst c f) (hgs : ∀ a ∈ gs, c.Accepts a) : ParsesWell c gs ↔
    (∀ v ∈ values f gs, t.readable v = false) ∨
      (values f gs).length = 1 ∧ positionals gs = [] := by
  have honly := t.accepts hgs
  constructor
  · intro hwell
    by_contra hnot
    rw [not_or] at hnot
    obtain ⟨hreadable, hlone⟩ := hnot
    push Not at hreadable
    obtain ⟨v, hv, hread⟩ := hreadable
    rw [ne_eq, Bool.not_eq_false] at hread
    obtain ⟨pre, post, rfl⟩ := List.append_of_mem (mem_values.mp hv)
    obtain ⟨cmd, hfront, htarget⟩ := t.front hgs hread
    have haccepted := hwell.accepted .option_first hfront
    have hcount : (values f (pre ++ .option f v :: post)).length = 1 := by
      have hpos := List.length_pos_of_mem hv
      have honce := hwell.once haccepted f
      rw [honly.flagCount, if_pos rfl] at honce
      omega
    have hvalues : values f (pre ++ post) = [] := by
      simp only [values_append, values_option, if_true, List.length_append, List.length_cons] at hcount
      apply List.length_eq_zero_iff.mp
      rw [values_append, List.length_append]
      omega
    have hpositionals : positionals (pre ++ post) ≠ [] := by
      intro hnone
      apply hlone
      refine ⟨hcount, ?_⟩
      rwa [positionals_append, positionals_option, ← positionals_append]
    obtain ⟨cmd', text, hback, htarget', htext⟩ := t.back hgs hread hvalues hpositionals
    have hsame := (hwell.accepted .option_last hback).symm.trans haccepted
    rw [Except.ok.inj hsame, htarget] at htarget'
    exact ne_text htext f (Option.some.inj htarget').symm
  · intro h
    by_cases hunreadable : ∀ v ∈ values f gs, t.readable v = false
    · by_cases hvalues : values f gs = []
      · exact parsesWell_of_positionals honly hvalues
      · apply parsesWell_of_refused
        intro gs' hrearranged
        have hperm := hrearranged.values f
        apply t.refused (hrearranged.accepts hgs)
        · intro v hv
          exact hunreadable v (hperm.mem_iff.mp hv)
        · intro hnil
          rw [hnil] at hperm
          exact hvalues hperm.symm.eq_nil
    · obtain ⟨hcount, hpositionals⟩ := h.resolve_left hunreadable
      have hlength : gs.length = 1 := by rw [honly.length, hpositionals, hcount, List.length_nil]
      obtain ⟨a, rfl⟩ := List.length_eq_one_iff.mp hlength
      obtain ⟨text, rfl, -⟩ | ⟨v, rfl⟩ := honly a List.mem_cons_self
      · cases hcount
      refine ⟨?_, ?_, ?_⟩
      · intro gs' hrearranged
        rw [List.perm_singleton.mp hrearranged.perm.symm]
      · intro g hg
        rw [honly.flagCount, hcount] at hg
        split_ifs at hg
        · omega
        · omega
      · intro cmd hcmd a ha
        obtain rfl := List.mem_singleton.mp ha
        have hread : t.readable v = true := by
          rw [values_option, if_pos rfl, values_nil] at hunreadable
          simpa using hunreadable
        obtain ⟨cmd', hcmd', -, hkeeps⟩ := t.takes f.text v hread
        rw [t.parse_eq honly, values_option, if_pos rfl] at hcmd
        have hsame : Except.ok cmd' = Except.ok cmd := hcmd'.symm.trans hcmd
        rwa [← Except.ok.inj hsame]

end

/-! ### `serve`, `pair`, `watch` -/

/-- The port of a value. -/
def portOf : Option String → Except String ℕ
  | none => .ok defaultPort
  | some p => parseOr u16Bound s!"invalid port '{p}'" p

section

variable {gs : List Arg} {v : String}

@[simp] theorem serve_parse : ArgCommand.serve.parse gs = parseServe (tokens gs) := rfl

@[simp] theorem pair_parse : ArgCommand.pair.parse gs = parsePair (tokens gs) := rfl

@[simp] theorem watch_parse : ArgCommand.watch.parse gs = parseWatch (tokens gs) := rfl

@[simp] theorem add_parse : ArgCommand.add.parse gs = parseAdd (tokens gs) := rfl

@[simp] theorem sync_parse : ArgCommand.sync.parse gs = parseSync (tokens gs) := rfl

@[simp] theorem unsync_parse : ArgCommand.unsync.parse gs = parseUnsync (tokens gs) := rfl

theorem portFlag_tokens (h : OnlyFlag .port gs) :
    portFlag (tokens gs) = portOf (values .port gs).head? := by
  have hflag : flagValue (tokens gs) "--port" = .ok (values .port gs).head? := flagValue_tokens h
  unfold portFlag
  rw [hflag]
  cases (values .port gs).head? with
  | none => rfl
  | some p => rfl

theorem portOf_error (h : (parseUnsigned u16Bound v).isSome = false) :
    ∃ e, portOf (some v) = .error e := by
  rw [Option.isSome_eq_false_iff, Option.isNone_iff_eq_none] at h
  apply Exists.intro
  change parseOr u16Bound _ v = _
  unfold parseOr
  rw [h]

theorem portOf_ok (h : (parseUnsigned u16Bound v).isSome = true) :
    ∃ port, portOf (some v) = .ok port ∧ parseUnsigned u16Bound v = some port := by
  obtain ⟨port, hport⟩ := Option.isSome_iff_exists.mp h
  refine ⟨port, ?_, hport⟩
  change parseOr u16Bound _ v = _
  unfold parseOr
  rw [hport]

/-- What `accepts` asks of a command with one flag that has a value. -/
theorem onlyFlag_of_accepts {c : ArgCommand} {f : Flag} (hoptions : c.options = [f])
    (hswitches : c.switches = []) (hgs : ∀ a ∈ gs, c.Accepts a) : OnlyFlag f gs := by
  intro a ha
  have haccepts := hgs a ha
  cases a with
  | positional text => exact .inl ⟨text, rfl, haccepts⟩
  | option g v =>
    have hg : g ∈ c.options := haccepts
    rw [hoptions, List.mem_singleton] at hg
    exact .inr ⟨v, by rw [hg]⟩
  | switch g =>
    have hg : g ∈ c.switches := haccepts
    rw [hswitches] at hg
    cases hg

def takesFirst_serve : TakesFirst .serve .port where
  result first value := (portOf value).map (.serve first)
  readable v := (parseUnsigned u16Bound v).isSome
  target
    | .serve folder _ => folder
    | _ => none
  accepts := onlyFlag_of_accepts rfl rfl
  parse_eq := by
    intro gs honly
    rw [serve_parse]
    unfold parseServe
    rw [portFlag_tokens honly]
    cases portOf (values .port gs).head? with
    | error e => rfl
    | ok port => rfl
  refuses := by
    intro first v hv
    obtain ⟨e, he⟩ := portOf_error hv
    rw [he]
    exact ⟨e, rfl⟩
  takes := by
    intro first v hv
    obtain ⟨port, hport, hread⟩ := portOf_ok hv
    rw [hport]
    exact ⟨.serve (some first) port, rfl, rfl, hread⟩

def takesFirst_pair : TakesFirst .pair .port where
  result first value :=
    match first with
    | none => .error "usage: pair <ip> [--port <port>]"
    | some ip => (portOf value).map (.pair ip)
  readable v := (parseUnsigned u16Bound v).isSome
  target
    | .pair ip _ => some ip
    | _ => none
  accepts := onlyFlag_of_accepts rfl rfl
  parse_eq := by
    intro gs honly
    rw [pair_parse]
    unfold parsePair
    rw [portFlag_tokens honly]
    cases tokens gs with
    | nil => rfl
    | cons tok toks =>
      cases portOf (values .port gs).head? with
      | error e => rfl
      | ok port => rfl
  refuses := by
    intro first v hv
    obtain ⟨e, he⟩ := portOf_error hv
    cases first with
    | none => exact ⟨_, rfl⟩
    | some ip =>
      rw [he]
      exact ⟨e, rfl⟩
  takes := by
    intro first v hv
    obtain ⟨port, hport, hread⟩ := portOf_ok hv
    rw [hport]
    exact ⟨.pair first port, rfl, rfl, hread⟩

def takesFirst_watch : TakesFirst .watch .device where
  result first value :=
    match first with
    | none => .error "usage: watch <folder> --device <ip[:port]>"
    | some folder =>
      match value with
      | none => .error "missing required flag --device"
      | some device => .ok (.watch ⟨folder, device⟩)
  readable _ := true
  target
    | .watch args => some args.folder
    | _ => none
  accepts := onlyFlag_of_accepts rfl rfl
  parse_eq := by
    intro gs honly
    have hflag : flagValue (tokens gs) "--device" = .ok (values .device gs).head? := flagValue_tokens honly
    rw [watch_parse]
    unfold parseWatch requiredFlag
    rw [hflag]
    cases tokens gs with
    | nil => rfl
    | cons tok toks =>
      cases (values .device gs).head? with
      | none => rfl
      | some device => rfl
  refuses := by
    intro first v hv
    cases hv
  takes := by
    intro first v _
    exact ⟨.watch ⟨first, v⟩, rfl, rfl, rfl⟩

theorem serve_iff (hgs : ∀ a ∈ gs, ArgCommand.serve.Accepts a) :
    ParsesWell .serve gs ↔ WellGiven .serve gs := by
  rw [firstArg_iff takesFirst_serve hgs]
  simp [takesFirst_serve, WellGiven]

theorem pair_iff (hgs : ∀ a ∈ gs, ArgCommand.pair.Accepts a) :
    ParsesWell .pair gs ↔ WellGiven .pair gs := by
  rw [firstArg_iff takesFirst_pair hgs]
  simp [takesFirst_pair, WellGiven]

theorem watch_iff (hgs : ∀ a ∈ gs, ArgCommand.watch.Accepts a) :
    ParsesWell .watch gs ↔ WellGiven .watch gs := by
  rw [firstArg_iff takesFirst_watch hgs]
  simp [takesFirst_watch, WellGiven, List.eq_nil_iff_forall_not_mem]

end

/-! ### `add` -/

section

variable {gs gs' : List Arg} {name : Option String} {path v : String}

/-- After the folder there is nothing, or the name. -/
theorem addLoop_ok {rest : List String} (h : addLoop rest none = .ok name) :
    rest = [] ∧ name = none ∨ ∃ v, rest = ["--name", v] ∧ name = some v := by
  match rest with
  | [] => exact .inl ⟨rfl, (Except.ok.inj h).symm⟩
  | [tok] =>
    unfold addLoop at h
    split_ifs at h
  | [tok, v] =>
    unfold addLoop at h
    split_ifs at h with htok
    · exact .inr ⟨v, by rw [htok], (Except.ok.inj h).symm⟩
  | tok :: v :: next :: _ =>
    unfold addLoop at h
    split_ifs at h
    -- a second name is refused, and so is all else
    change addLoop (next :: _) (some v) = .ok name at h
    unfold addLoop at h
    split_ifs at h with _ hsome
    exact absurd rfl hsome

/-- **What `add` accepts**: a folder, and the name after it. -/
theorem parseAdd_ok {args : List String} {cmd : ReplCommand} (h : parseAdd args = .ok cmd) :
    ∃ path, args = [path] ∧ cmd = .add path none ∨
      ∃ v, args = [path, "--name", v] ∧ cmd = .add path (some v) := by
  cases args with
  | nil => cases h
  | cons path rest =>
    unfold parseAdd at h
    cases hloop : addLoop rest none with
    | error e =>
      simp only [hloop] at h
      cases h
    | ok name =>
      simp only [hloop] at h
      have hcmd := (Except.ok.inj h).symm
      obtain ⟨rfl, rfl⟩ | ⟨v, rfl, rfl⟩ := addLoop_ok hloop
      · exact ⟨path, .inl ⟨rfl, hcmd⟩⟩
      · exact ⟨path, .inr ⟨v, rfl, hcmd⟩⟩

theorem length_tokens (hgs : OnlyFlag .name gs) :
    (tokens gs).length = (positionals gs).length + 2 * (values .name gs).length := by
  induction gs with
  | nil => rfl
  | cons a gs ih =>
    have hrest := ih fun a ha => hgs a (List.mem_cons_of_mem _ ha)
    rw [tokens_cons, List.length_append, hrest]
    obtain ⟨text, rfl, -⟩ | ⟨v, rfl⟩ := hgs a List.mem_cons_self
    · rw [positionals_positional, values_positional, List.length_cons]
      simp only [Arg.tokens, List.length_cons, List.length_nil]
      omega
    · rw [positionals_option, values_option, if_pos rfl, List.length_cons]
      simp only [Arg.tokens, List.length_cons, List.length_nil]
      omega

@[simp] theorem tokens_positionals (texts : List String) : tokens (texts.map .positional) = texts := by
  induction texts with
  | nil => rfl
  | cons text texts ih => rw [List.map_cons, tokens_cons, ih, Arg.tokens, List.singleton_append]

/-- What is not a folder, with at most one name, is refused. -/
theorem add_refused (hgs : OnlyFlag .name gs)
    (hnot : ¬((positionals gs).length = 1 ∧ (values .name gs).length ≤ 1)) :
    ∃ e, ArgCommand.add.parse gs = .error e := by
  cases hparse : ArgCommand.add.parse gs with
  | error e => exact ⟨e, rfl⟩
  | ok cmd =>
    exfalso
    apply hnot
    have hlength := length_tokens hgs
    obtain ⟨path, ⟨htokens, -⟩ | ⟨v, htokens, -⟩⟩ := parseAdd_ok hparse
    · rw [htokens, List.length_singleton] at hlength
      omega
    · have hcounts : (tokens gs).length = 3 := by rw [htokens]; rfl
      by_cases hpositionals : (positionals gs).length = 1
      · omega
      -- three positionals: the second would be the flag
      have hvalues : values .name gs = [] := List.length_eq_zero_iff.mp (by omega)
      have honly := eq_positionals (hgs.positional hvalues)
      have htexts : positionals gs = [path, "--name", v] := by
        rw [← htokens, honly, tokens_positionals, ← honly]
      have hmem : .positional "--name" ∈ gs := by
        rw [honly, htexts]
        simp
      obtain ⟨text, heq, htext⟩ | ⟨w, heq⟩ := hgs _ hmem
      · rw [← Arg.positional.inj heq] at htext
        exact absurd htext (by decide)
      · cases heq

/-- The positionals first, the values behind them. -/
theorem OnlyFlag.perm {f : Flag} (hgs : OnlyFlag f gs) :
    gs.Perm ((positionals gs).map .positional ++ (values f gs).map (.option f)) := by
  induction gs with
  | nil => exact .nil
  | cons a gs ih =>
    have hrest := ih fun a ha => hgs a (List.mem_cons_of_mem _ ha)
    obtain ⟨text, rfl, -⟩ | ⟨v, rfl⟩ := hgs a List.mem_cons_self
    · rw [positionals_positional, values_positional]
      exact hrest.cons _
    · rw [positionals_option, values_option, if_pos rfl]
      exact (hrest.cons _).trans List.perm_middle.symm

/-- **`add`** parses well unless it has one folder and one name, where the order matters. -/
theorem add_iff (hgs : ∀ a ∈ gs, ArgCommand.add.Accepts a) : ParsesWell .add gs ↔ WellGiven .add gs := by
  have honly : OnlyFlag .name gs := onlyFlag_of_accepts rfl rfl hgs
  constructor
  · intro hwell ⟨hpositionals, hvalues⟩
    obtain ⟨path, hpath⟩ := List.length_eq_one_iff.mp hpositionals
    obtain ⟨v, hv⟩ := List.length_eq_one_iff.mp hvalues
    have hperm := honly.perm
    rw [hpath, hv] at hperm
    have hfirst : Rearranged gs [.positional path, .option .name v] := ⟨hperm, hpath.symm⟩
    have hlast : Rearranged gs [.option .name v, .positional path] :=
      ⟨hperm.trans (List.Perm.swap _ _ _), hpath.symm⟩
    have haccepted : ArgCommand.add.parse gs = .ok (.add path (some v)) := hwell.accepted hfirst rfl
    have hsame := hwell.order _ hlast
    rw [haccepted] at hsame
    cases hparse : ArgCommand.add.parse [.option .name v, .positional path] with
    | error e =>
      rw [hparse] at hsame
      cases hsame
    | ok cmd =>
      rw [hparse] at hsame
      have hadd : parseAdd ["--name", v, path] = .ok cmd := hparse
      obtain ⟨path', ⟨htokens, -⟩ | ⟨v', htokens, hcmd⟩⟩ := parseAdd_ok hadd
      · cases htokens
      · -- the name would be the folder
        have hname : path' = "--name" := (List.cons.inj htokens).1.symm
        have hpath' : path' = path := by
          rw [hcmd] at hsame
          exact (ReplCommand.add.inj (Option.some.inj hsame)).1
        have hmem : .positional path ∈ gs := hperm.mem_iff.mpr List.mem_cons_self
        have haccepts : looksLikeFlag path = false := hgs _ hmem
        exact ne_text haccepts .name (hpath'.symm.trans hname)
  · intro hgiven
    by_cases hnone : (positionals gs).length = 1 ∧ values .name gs = []
    · exact parsesWell_of_positionals honly hnone.2
    · apply parsesWell_of_refused
      intro gs' hrearranged
      apply add_refused (onlyFlag_of_accepts rfl rfl (hrearranged.accepts hgs))
      rw [hrearranged.positionals, (hrearranged.values .name).length_eq]
      intro ⟨hpositionals, hvalues⟩
      apply hgiven
      refine ⟨hpositionals, ?_⟩
      have hsome : (values .name gs).length ≠ 0 := by
        intro hzero
        exact hnone ⟨hpositionals, List.length_eq_zero_iff.mp hzero⟩
      omega

end

/-! ### `unsync` -/

section

variable {gs gs' : List Arg} {c : ArgCommand} {f : Flag}

theorem flagCount_eq_zero (hgs : ∀ a ∈ gs, c.Accepts a) (hoption : f ∉ c.options)
    (hswitch : f ∉ c.switches) : flagCount f gs = 0 := by
  unfold flagCount
  rw [List.countP_eq_zero]
  intro a ha
  have haccepts := hgs a ha
  cases a with
  | positional text => simp [Arg.isFlag]
  | option g v =>
    have hne : g ≠ f := fun h => hoption (h ▸ haccepts)
    simp [Arg.isFlag, hne]
  | switch g =>
    have hne : g ≠ f := fun h => hswitch (h ▸ haccepts)
    simp [Arg.isFlag, hne]

/-- A flag with a value is counted by its values. -/
theorem flagCount_eq_length (hgs : ∀ a ∈ gs, c.Accepts a) (hswitch : f ∉ c.switches) :
    flagCount f gs = (values f gs).length := by
  induction gs with
  | nil => rfl
  | cons a gs ih =>
    have hrest := ih fun a ha => hgs a (List.mem_cons_of_mem _ ha)
    have haccepts := hgs a List.mem_cons_self
    unfold flagCount at hrest ⊢
    rw [List.countP_cons, hrest]
    cases a with
    | positional text => simp [Arg.isFlag]
    | option g v =>
      by_cases hg : g = f
      · simp [Arg.isFlag, hg]
      · simp [Arg.isFlag, hg]
    | switch g =>
      have hne : g ≠ f := fun h => hswitch (h ▸ haccepts)
      simp [Arg.isFlag, hne]

theorem flagCount_cons (a : Arg) :
    flagCount f (a :: gs) = flagCount f gs + (Arg.isFlag f a).toNat := by
  unfold flagCount
  rw [List.countP_cons]
  cases Arg.isFlag f a with
  | false => rfl
  | true => rfl

theorem toList_eq_append_nil {o o' : Option String} : o'.toList = o.toList ++ [] ↔ o' = o := by
  rw [List.append_nil]
  constructor
  · intro h
    rw [← Option.head?_toList (o := o'), h, Option.head?_toList]
  · intro h
    rw [h]

/-- What is there already is not there again. -/
theorem toList_ne_append_cons {o o' : Option String} {v : String} {vs : List String}
    (h : o.isSome = true) : o'.toList ≠ o.toList ++ v :: vs := by
  obtain ⟨w, rfl⟩ := Option.isSome_iff_exists.mp h
  intro heq
  have hlength := o'.length_toList_le
  rw [heq] at hlength
  simp at hlength

/-- **The loop over the tokens of `unsync`** succeeds where nothing is there twice. -/
theorem unsyncLoop_ok_iff (hgs : ∀ a ∈ gs, ArgCommand.unsync.Accepts a) {st st' : UnsyncArgs} :
    unsyncLoop (tokens gs) st = .ok st' ↔
      st'.folder.toList = st.folder.toList ++ positionals gs ∧
        st'.device.toList = st.device.toList ++ values .device gs ∧
        st'.yes.toNat = st.yes.toNat + flagCount .yes gs := by
  induction gs generalizing st with
  | nil =>
    obtain ⟨folder, device, yes⟩ := st
    obtain ⟨folder', device', yes'⟩ := st'
    rw [tokens_nil, positionals_nil, values_nil, toList_eq_append_nil, toList_eq_append_nil]
    have hyes : yes'.toNat = yes.toNat ↔ yes' = yes := by cases yes <;> cases yes' <;> simp
    simp only [unsyncLoop, Except.ok.injEq, UnsyncArgs.mk.injEq, flagCount, List.countP_nil, Nat.add_zero,
      hyes, eq_comm]
  | cons a gs ih =>
    have hrest := fun st => @ih (fun a ha => hgs a (List.mem_cons_of_mem _ ha)) st
    have haccepts := hgs a List.mem_cons_self
    rw [flagCount_cons, tokens_cons]
    cases a with
    | positional text =>
      have htext : looksLikeFlag text = false := haccepts
      have hyes : text ≠ "--yes" := ne_text htext .yes
      have hdevice : text ≠ "--device" := ne_text htext .device
      rw [positionals_positional, values_positional]
      change unsyncLoop (text :: tokens gs) st = _ ↔ _
      unfold unsyncLoop
      rw [if_neg hyes, if_neg hdevice, if_neg (by rw [htext]; decide)]
      split_ifs with hfolder
      · rw [hrest, Option.isNone_iff_eq_none.mp hfolder]
        simp [Arg.isFlag]
      · rw [Bool.not_eq_true, Option.isNone_eq_false_iff] at hfolder
        simp [toList_ne_append_cons hfolder]
    | option g v =>
      obtain rfl := List.mem_singleton.mp haccepts
      rw [positionals_option, values_option, if_pos rfl]
      change unsyncLoop ("--device" :: v :: tokens gs) st = _ ↔ _
      unfold unsyncLoop
      rw [if_neg (by decide), if_pos rfl]
      split_ifs with hdevice
      · simp [toList_ne_append_cons hdevice]
      · rw [Bool.not_eq_true, Option.isSome_eq_false_iff, Option.isNone_iff_eq_none] at hdevice
        change unsyncLoop (tokens gs) _ = _ ↔ _
        rw [hrest, hdevice]
        simp [Arg.isFlag]
    | switch g =>
      obtain rfl := List.mem_singleton.mp haccepts
      rw [positionals_switch, values_switch]
      change unsyncLoop ("--yes" :: tokens gs) st = _ ↔ _
      unfold unsyncLoop
      rw [if_pos rfl]
      split_ifs with hyes
      · have hone := st'.yes.toNat_le
        have htwo : ¬st'.yes.toNat =
            st.yes.toNat + (flagCount .yes gs + (Arg.isFlag .yes (.switch .yes)).toNat) := by
          simp only [hyes, Arg.isFlag, decide_true, Bool.toNat_true]
          omega
        simp [htwo]
      · rw [Bool.not_eq_true] at hyes
        rw [hrest, hyes]
        simp [Arg.isFlag, Nat.add_comm]

/-- The command is made of what is there. -/
theorem unsync_ok_iff (hgs : ∀ a ∈ gs, ArgCommand.unsync.Accepts a) {cmd : ReplCommand} :
    ArgCommand.unsync.parse gs = .ok cmd ↔ ∃ folder device yes,
      folder.toList = positionals gs ∧ device.toList = values .device gs ∧
        yes.toNat = flagCount .yes gs ∧ ¬(yes = true ∧ (folder.isSome = true ∨ device.isSome = true)) ∧
        cmd = .unsync folder device yes := by
  rw [unsync_parse]
  unfold parseUnsync
  constructor
  · intro h
    cases hloop : unsyncLoop (tokens gs) {} with
    | error e =>
      rw [hloop] at h
      cases h
    | ok st =>
      simp only [hloop] at h
      obtain ⟨hfolder, hdevice, hyes⟩ := (unsyncLoop_ok_iff hgs).mp hloop
      split_ifs at h with hall
      exact ⟨st.folder, st.device, st.yes, hfolder, hdevice, by simpa using hyes, hall,
        (Except.ok.inj h).symm⟩
  · intro ⟨folder, device, yes, hfolder, hdevice, hyes, hall, hcmd⟩
    have hloop : unsyncLoop (tokens gs) {} = .ok ⟨folder, device, yes⟩ :=
      (unsyncLoop_ok_iff hgs).mpr ⟨hfolder, hdevice, by simpa using hyes⟩
    simp only [hloop, if_neg hall, hcmd]

theorem toOption_congr {p p' : Except String ReplCommand} (h : ∀ cmd, p = .ok cmd ↔ p' = .ok cmd) :
    p.toOption = p'.toOption := by
  cases p' with
  | ok cmd => rw [(h cmd).mpr rfl]
  | error e' =>
    cases p with
    | ok cmd => cases (h cmd).mp rfl
    | error e => rfl

/-- One value at most is the same in every order. -/
theorem toList_eq_perm {o : Option String} {vs vs' : List String} (h : vs'.Perm vs) :
    o.toList = vs' ↔ o.toList = vs := by
  cases o with
  | none =>
    rw [Option.toList_none, eq_comm, @eq_comm _ _ vs]
    constructor
    · rintro rfl
      exact h.symm.eq_nil
    · rintro rfl
      exact h.eq_nil
  | some v =>
    rw [Option.toList_some, eq_comm, @eq_comm _ _ vs]
    constructor
    · rintro rfl
      exact List.perm_singleton.mp h.symm
    · rintro rfl
      exact List.perm_singleton.mp h

/-- **`unsync` parses well**, whatever it is given. -/
theorem unsync_parsesWell (hgs : ∀ a ∈ gs, ArgCommand.unsync.Accepts a) : ParsesWell .unsync gs := by
  refine ⟨?_, ?_, ?_⟩
  · intro gs' hrearranged
    apply toOption_congr
    intro cmd
    rw [unsync_ok_iff hgs, unsync_ok_iff (hrearranged.accepts hgs), hrearranged.positionals,
      hrearranged.flagCount]
    simp only [toList_eq_perm (hrearranged.values .device)]
  · intro f hf
    cases hparse : ArgCommand.unsync.parse gs with
    | error e => exact ⟨e, rfl⟩
    | ok cmd =>
      exfalso
      obtain ⟨folder, device, yes, -, hdevice, hyes, -⟩ := (unsync_ok_iff hgs).mp hparse
      have hdevices := device.length_toList_le
      have hall := yes.toNat_le
      by_cases hoption : f = .device
      · rw [hoption, flagCount_eq_length hgs (by decide), ← hdevice] at hf
        omega
      by_cases hswitch : f = .yes
      · rw [hswitch] at hf
        omega
      · have hzero : flagCount f gs = 0 :=
          flagCount_eq_zero hgs (by simpa [ArgCommand.options] using hoption)
            (by simpa [ArgCommand.switches] using hswitch)
        omega
  · intro cmd hcmd a ha
    obtain ⟨folder, device, yes, -, hdevice, hyes, -, rfl⟩ := (unsync_ok_iff hgs).mp hcmd
    have haccepts := hgs a ha
    cases a with
    | positional text => trivial
    | option g v =>
      obtain rfl := List.mem_singleton.mp haccepts
      have hv := mem_values.mpr ha
      rw [← hdevice, Option.mem_toList] at hv
      exact hv
    | switch g =>
      obtain rfl := List.mem_singleton.mp haccepts
      have hcount : 0 < flagCount .yes gs := List.countP_pos_iff.mpr ⟨_, ha, by decide⟩
      rw [← hyes] at hcount
      cases yes with
      | false => cases hcount
      | true => rfl

end

/-! ### `sync` -/

/-- The waits, one after the other. -/
def waitRun : ℕ → List String → Option ℕ
  | wait, [] => some wait
  | wait, v :: vs =>
    if wait ≠ 0 then none
    else match parseUnsigned u64Bound v with
      | none => none
      | some next => waitRun next vs

section

variable {gs gs' : List Arg} {v : String} {vs : List String} {wait : ℕ}

/-- **The loop over the tokens of `sync`** succeeds where no positional and no device is there
twice, and the waits are taken. -/
theorem syncLoop_ok_iff (hgs : ∀ a ∈ gs, ArgCommand.sync.Accepts a) {st st' : SyncArgs} :
    syncLoop (tokens gs) st = .ok st' ↔
      st'.folder.toList = st.folder.toList ++ positionals gs ∧
        st'.device.toList = st.device.toList ++ values .device gs ∧
        waitRun st.wait (values .wait gs) = some st'.wait ∧
        st'.dryRun = (st.dryRun || decide (0 < flagCount .dryRun gs)) := by
  induction gs generalizing st with
  | nil =>
    obtain ⟨folder, device, wait, dryRun⟩ := st
    obtain ⟨folder', device', wait', dryRun'⟩ := st'
    rw [tokens_nil, positionals_nil, values_nil, values_nil, toList_eq_append_nil, toList_eq_append_nil]
    simp only [syncLoop, waitRun, Except.ok.injEq, SyncArgs.mk.injEq, Option.some.injEq, flagCount,
      List.countP_nil, Nat.lt_irrefl, decide_false, Bool.or_false, eq_comm]
  | cons a gs ih =>
    have hrest := fun st => @ih (fun a ha => hgs a (List.mem_cons_of_mem _ ha)) st
    have haccepts := hgs a List.mem_cons_self
    rw [flagCount_cons, tokens_cons]
    cases a with
    | positional text =>
      have htext : looksLikeFlag text = false := haccepts
      have hdevice : text ≠ "--device" := ne_text htext .device
      have hwait : text ≠ "--wait" := ne_text htext .wait
      have hdry : text ≠ "--dry-run" := ne_text htext .dryRun
      rw [positionals_positional, values_positional, values_positional]
      change syncLoop (text :: tokens gs) st = _ ↔ _
      unfold syncLoop
      rw [if_neg hdevice, if_neg hwait, if_neg hdry, if_neg (by rw [htext]; decide)]
      split_ifs with hfolder
      · rw [hrest, Option.isNone_iff_eq_none.mp hfolder]
        simp [Arg.isFlag]
      · rw [Bool.not_eq_true, Option.isNone_eq_false_iff] at hfolder
        simp [toList_ne_append_cons hfolder]
    | option g v =>
      have hg : g = .device ∨ g = .wait := by
        simpa [ArgCommand.Accepts, ArgCommand.options] using haccepts
      obtain rfl | rfl := hg
      · rw [positionals_option, values_option, if_pos rfl, values_option, if_neg (by decide)]
        change syncLoop ("--device" :: v :: tokens gs) st = _ ↔ _
        unfold syncLoop
        rw [if_pos rfl]
        split_ifs with hdevice
        · simp [toList_ne_append_cons hdevice]
        · rw [Bool.not_eq_true, Option.isSome_eq_false_iff, Option.isNone_iff_eq_none] at hdevice
          change syncLoop (tokens gs) _ = _ ↔ _
          rw [hrest, hdevice]
          simp [Arg.isFlag]
      · rw [positionals_option, values_option, if_neg (by decide), values_option, if_pos rfl]
        change syncLoop ("--wait" :: v :: tokens gs) st = _ ↔ _
        unfold syncLoop waitRun
        rw [if_neg (by decide), if_pos rfl]
        split_ifs with hwait
        · simp
        · cases hparse : parseUnsigned u64Bound v with
          | none => simp [hparse]
          | some next =>
            simp only [hparse]
            rw [hrest]
            simp [Arg.isFlag]
    | switch g =>
      obtain rfl := List.mem_singleton.mp haccepts
      rw [positionals_switch, values_switch, values_switch]
      change syncLoop ("--dry-run" :: tokens gs) st = _ ↔ _
      unfold syncLoop
      rw [if_neg (by decide), if_neg (by decide), if_pos rfl, hrest]
      simp [Arg.isFlag]

/-- The command is made of what is there, but a wait without a folder is left out. -/
theorem sync_ok_iff (hgs : ∀ a ∈ gs, ArgCommand.sync.Accepts a) {cmd : ReplCommand} :
    ArgCommand.sync.parse gs = .ok cmd ↔ ∃ folder device wait,
      folder.toList = positionals gs ∧ device.toList = values .device gs ∧
        waitRun 0 (values .wait gs) = some wait ∧ folder.isSome = device.isSome ∧
        cmd = .sync ⟨folder, device, if folder.isSome = true then wait else 0,
          decide (0 < flagCount .dryRun gs)⟩ := by
  rw [sync_parse]
  unfold parseSync
  constructor
  · intro h
    cases hloop : syncLoop (tokens gs) {} with
    | error e =>
      rw [hloop] at h
      cases h
    | ok st =>
      obtain ⟨folder, device, wait, dryRun⟩ := st
      rw [hloop] at h
      obtain ⟨hfolder, hdevice, hwait, hdry⟩ := (syncLoop_ok_iff hgs).mp hloop
      refine ⟨folder, device, wait, hfolder, hdevice, hwait, ?_⟩
      rw [Bool.false_or] at hdry
      cases folder with
      | none =>
        cases device with
        | none => exact ⟨rfl, by rw [← hdry]; exact (Except.ok.inj h).symm⟩
        | some device => cases h
      | some folder =>
        cases device with
        | none => cases h
        | some device => exact ⟨rfl, by rw [← hdry]; exact (Except.ok.inj h).symm⟩
  · intro ⟨folder, device, wait, hfolder, hdevice, hwait, hboth, hcmd⟩
    have hloop : syncLoop (tokens gs) {} = .ok ⟨folder, device, wait, decide (0 < flagCount .dryRun gs)⟩ :=
      (syncLoop_ok_iff hgs).mpr ⟨hfolder, hdevice, hwait, (Bool.false_or _).symm⟩
    simp only [hloop]
    rw [hcmd]
    cases folder with
    | none =>
      cases device with
      | none => rfl
      | some device => cases hboth
    | some folder =>
      cases device with
      | none => cases hboth
      | some device => rfl

theorem waitRun_cons_iff {w : ℕ} : waitRun wait (v :: vs) = some w ↔
    wait = 0 ∧ ∃ next, parseUnsigned u64Bound v = some next ∧ waitRun next vs = some w := by
  rw [waitRun]
  split_ifs with hwait
  · simp [hwait]
  · rw [not_ne_iff] at hwait
    cases hparse : parseUnsigned u64Bound v with
    | none => simp
    | some next => simp [hwait]

/-- Each wait is a number, and one at most is not zero. -/
theorem waitRun_some {w : ℕ} (h : waitRun wait vs = some w) :
    (∀ v ∈ vs, parseUnsigned u64Bound v ≠ none) ∧
      (if wait = 0 then 0 else 1) +
        vs.countP (fun v => decide (parseUnsigned u64Bound v ≠ some 0)) ≤ 1 := by
  induction vs generalizing wait with
  | nil =>
    rw [List.countP_nil]
    split_ifs
    · simp
    · simp
  | cons v vs ih =>
    obtain ⟨rfl, next, hnext, hrun⟩ := waitRun_cons_iff.mp h
    obtain ⟨hparse, hcount⟩ := ih hrun
    refine ⟨?_, ?_⟩
    · intro v' hv'
      obtain rfl | hv' := List.mem_cons.mp hv'
      · rw [hnext]
        exact Option.some_ne_none next
      · exact hparse v' hv'
    · rw [List.countP_cons, hnext, if_pos rfl]
      by_cases hzero : next = 0
      · rw [if_pos hzero] at hcount
        simpa [hzero] using hcount
      · rw [if_neg hzero] at hcount
        have hnone : vs.countP (fun v => decide (parseUnsigned u64Bound v ≠ some 0)) = 0 := by omega
        rw [hnone]
        simp [hzero]

/-- Waits of zero seconds are forgotten. -/
theorem waitRun_zeros {zs : List String} (hzs : ∀ v ∈ zs, parseUnsigned u64Bound v = some 0) :
    waitRun 0 (zs ++ vs) = waitRun 0 vs := by
  induction zs with
  | nil => rfl
  | cons z zs ih =>
    rw [List.cons_append, waitRun, if_neg (by decide), hzs z List.mem_cons_self]
    exact ih fun v hv => hzs v (List.mem_cons_of_mem _ hv)

theorem waitRun_singleton : waitRun 0 [v] = parseUnsigned u64Bound v := by
  rw [waitRun, if_neg (by decide)]
  cases parseUnsigned u64Bound v with
  | none => rfl
  | some next => rfl

/-- The wait that is not zero comes last. -/
theorem waitRun_sorted (hparse : ∀ v ∈ vs, parseUnsigned u64Bound v ≠ none)
    (hcount : vs.countP (fun v => decide (parseUnsigned u64Bound v ≠ some 0)) ≤ 1) :
    ∃ w, waitRun 0 (vs.filter (fun v => decide (parseUnsigned u64Bound v = some 0)) ++
      vs.filter fun v => decide (parseUnsigned u64Bound v ≠ some 0)) = some w := by
  have hzeros : ∀ v ∈ vs.filter (fun v => decide (parseUnsigned u64Bound v = some 0)),
      parseUnsigned u64Bound v = some 0 := by
    intro v hv
    exact of_decide_eq_true (List.mem_filter.mp hv).2
  rw [waitRun_zeros hzeros]
  rw [List.countP_eq_length_filter] at hcount
  cases hlast : vs.filter fun v => decide (parseUnsigned u64Bound v ≠ some 0) with
  | nil => exact ⟨0, rfl⟩
  | cons v rest =>
    have hmem : v ∈ vs.filter fun v => decide (parseUnsigned u64Bound v ≠ some 0) := by
      rw [hlast]
      exact List.mem_cons_self
    rw [hlast, List.length_cons] at hcount
    obtain rfl : rest = [] := List.length_eq_zero_iff.mp (by omega)
    rw [waitRun_singleton]
    exact Option.ne_none_iff_exists'.mp (hparse v (List.mem_filter.mp hmem).1)

/-- A wait that is not zero. -/
def Arg.isLongWait : Arg → Bool
  | .option .wait v => decide (parseUnsigned u64Bound v ≠ some 0)
  | _ => false

/-- The arguments with the wait that is not zero behind all others. -/
def waitLast (gs : List Arg) : List Arg :=
  gs.filter (fun a => !a.isLongWait) ++ gs.filter Arg.isLongWait

theorem rearranged_waitLast : Rearranged gs (waitLast gs) := by
  refine ⟨?_, ?_⟩
  · exact ((List.filter_append_perm Arg.isLongWait gs).symm.trans List.perm_append_comm)
  · have hshort : positionals (gs.filter fun a => !a.isLongWait) = positionals gs := by
      unfold positionals
      rw [List.filterMap_filter]
      apply List.filterMap_congr
      intro a _
      cases a with
      | positional text => rfl
      | option g v => simp [Arg.positional?]
      | switch g => simp [Arg.positional?]
    have hlong : positionals (gs.filter Arg.isLongWait) = [] := by
      unfold positionals
      rw [List.filterMap_eq_nil_iff]
      intro a ha
      cases a with
      | positional text => cases (List.mem_filter.mp ha).2
      | option g v => rfl
      | switch g => rfl
    rw [waitLast, positionals_append, hshort, hlong, List.append_nil]

theorem values_waitLast : values .wait (waitLast gs) =
    (values .wait gs).filter (fun v => decide (parseUnsigned u64Bound v = some 0)) ++
      (values .wait gs).filter fun v => decide (parseUnsigned u64Bound v ≠ some 0) := by
  rw [waitLast, values_append]
  unfold values
  rw [List.filterMap_filter, List.filterMap_filter, List.filter_filterMap, List.filter_filterMap]
  congr 1
  · apply List.filterMap_congr
    intro a _
    cases a with
    | positional text => rfl
    | option g v => cases g <;> simp [Arg.value?, Arg.isLongWait, Option.filter]
    | switch g => rfl
  · apply List.filterMap_congr
    intro a _
    cases a with
    | positional text => rfl
    | option g v => cases g <;> simp [Arg.value?, Arg.isLongWait, Option.filter]
    | switch g => rfl

/-- Where the devices and the folders do not go together, or the waits cannot be taken in any order,
`sync` is refused. -/
theorem sync_refused (hgs : ∀ a ∈ gs, ArgCommand.sync.Accepts a)
    (hnot : (values .device gs).length ≠ (positionals gs).length ∨ 2 ≤ (positionals gs).length ∨
      (∃ v ∈ values .wait gs, parseUnsigned u64Bound v = none) ∨
      2 ≤ (values .wait gs).countP fun v => decide (parseUnsigned u64Bound v ≠ some 0)) :
    ∃ e, ArgCommand.sync.parse gs = .error e := by
  cases hparse : ArgCommand.sync.parse gs with
  | error e => exact ⟨e, rfl⟩
  | ok cmd =>
    exfalso
    obtain ⟨folder, device, wait, hfolder, hdevice, hwait, hboth, -⟩ := (sync_ok_iff hgs).mp hparse
    obtain ⟨hnumbers, hlong⟩ := waitRun_some hwait
    obtain hne | hmany | ⟨v, hv, hnone⟩ | htwo := hnot
    · apply hne
      rw [← hfolder, ← hdevice, Option.length_toList, Option.length_toList, hboth]
    · rw [← hfolder] at hmany
      have hlength := folder.length_toList_le
      omega
    · exact hnumbers v hv hnone
    · omega

theorem exists_toList {l : List String} (h : l.length ≤ 1) : ∃ o : Option String, o.toList = l := by
  match l with
  | [] => exact ⟨none, rfl⟩
  | [v] => exact ⟨some v, rfl⟩
  | v :: w :: rest =>
    simp only [List.length_cons] at h
    omega

/-- One wait and one `--dry-run` at most, and no wait where no folder is given: nothing is wrong. -/
theorem sync_parsesWell (hgs : ∀ a ∈ gs, ArgCommand.sync.Accepts a) (hwait : flagCount .wait gs ≤ 1)
    (hdry : flagCount .dryRun gs ≤ 1)
    (hkept : positionals gs = [] → ∀ v ∈ values .wait gs, parseUnsigned u64Bound v = some 0) :
    ParsesWell .sync gs := by
  rw [flagCount_eq_length hgs (by decide)] at hwait
  refine ⟨?_, ?_, ?_⟩
  · intro gs' hrearranged
    have hwaits : values .wait gs' = values .wait gs := by
      obtain ⟨o, ho⟩ := exists_toList hwait
      exact ((toList_eq_perm (hrearranged.values .wait)).mpr ho).symm.trans ho
    apply toOption_congr
    intro cmd
    rw [sync_ok_iff hgs, sync_ok_iff (hrearranged.accepts hgs), hrearranged.positionals,
      hrearranged.flagCount, hwaits]
    simp only [toList_eq_perm (hrearranged.values .device)]
  · intro f hf
    cases hparse : ArgCommand.sync.parse gs with
    | error e => exact ⟨e, rfl⟩
    | ok cmd =>
      exfalso
      obtain ⟨folder, device, wait, -, hdevice, -⟩ := (sync_ok_iff hgs).mp hparse
      have hdevices := device.length_toList_le
      by_cases hoption : f = .device
      · rw [hoption, flagCount_eq_length hgs (by decide), ← hdevice] at hf
        omega
      by_cases hlong : f = .wait
      · rw [hlong, flagCount_eq_length hgs (by decide)] at hf
        omega
      by_cases hswitch : f = .dryRun
      · rw [hswitch] at hf
        omega
      · have hzero : flagCount f gs = 0 :=
          flagCount_eq_zero hgs (by simp [ArgCommand.options, hoption, hlong])
            (by simp [ArgCommand.switches, hswitch])
        omega
  · intro cmd hcmd a ha
    obtain ⟨folder, device, wait, hfolder, hdevice, hrun, -, rfl⟩ := (sync_ok_iff hgs).mp hcmd
    have haccepts := hgs a ha
    cases a with
    | positional text => trivial
    | option g v =>
      have hv := mem_values.mpr ha
      have hg : g = .device ∨ g = .wait := by
        simpa [ArgCommand.Accepts, ArgCommand.options] using haccepts
      obtain rfl | rfl := hg
      · rw [← hdevice, Option.mem_toList] at hv
        exact hv
      · change parseUnsigned u64Bound v = some (if folder.isSome = true then wait else 0)
        split_ifs with hsome
        · obtain ⟨o, ho⟩ := exists_toList hwait
          rw [← ho, Option.mem_toList] at hv
          rw [← ho, hv, Option.toList_some, waitRun_singleton] at hrun
          exact hrun
        · apply hkept _ v hv
          rw [← hfolder, Option.toList_eq_nil_iff, ← Option.not_isSome_iff_eq_none]
          exact hsome
    | switch g =>
      obtain rfl := List.mem_singleton.mp haccepts
      exact decide_eq_true (List.countP_pos_iff.mpr ⟨_, ha, by decide⟩)

/-- Otherwise it is accepted with the longest wait behind. -/
theorem sync_accepted (hgs : ∀ a ∈ gs, ArgCommand.sync.Accepts a)
    (hdevices : (values .device gs).length = (positionals gs).length)
    (hfolders : (positionals gs).length ≤ 1)
    (hnumbers : ∀ v ∈ values .wait gs, parseUnsigned u64Bound v ≠ none)
    (hlong : (values .wait gs).countP (fun v => decide (parseUnsigned u64Bound v ≠ some 0)) ≤ 1) :
    ∃ cmd, ArgCommand.sync.parse (waitLast gs) = .ok cmd := by
  have hrearranged : Rearranged gs (waitLast gs) := rearranged_waitLast
  obtain ⟨folder, hfolder⟩ := exists_toList hfolders
  obtain ⟨device, hdevice⟩ := exists_toList (hdevices.trans_le hfolders)
  obtain ⟨wait, hwait⟩ := waitRun_sorted hnumbers hlong
  refine ⟨_, (sync_ok_iff (hrearranged.accepts hgs)).mpr ⟨folder, device, wait, ?_, ?_, ?_, ?_, rfl⟩⟩
  · rw [hrearranged.positionals, hfolder]
  · exact (toList_eq_perm (hrearranged.values .device)).mpr hdevice
  · rw [values_waitLast, hwait]
  · rw [← hfolder, ← hdevice, Option.length_toList, Option.length_toList] at hdevices
    cases folder with
    | none =>
      cases device with
      | none => rfl
      | some device => cases hdevices
    | some folder =>
      cases device with
      | none => cases hdevices
      | some device => rfl

/-- **`sync`** parses well if it is refused in every order, or no flag is there twice and no wait is
left out. -/
theorem sync_iff (hgs : ∀ a ∈ gs, ArgCommand.sync.Accepts a) :
    ParsesWell .sync gs ↔ WellGiven .sync gs := by
  constructor
  · intro hwell
    by_contra hnot
    unfold WellGiven at hnot
    rw [not_or, not_or, not_or, not_or] at hnot
    obtain ⟨hdevices, hfolders, hnumbers, hlong, hrest⟩ := hnot
    apply hrest
    obtain ⟨cmd, hlast⟩ := sync_accepted hgs (not_ne_iff.mp hdevices) (by omega)
      (fun v hv hnone => hnumbers ⟨v, hv, hnone⟩) (by omega)
    have hcmd := hwell.accepted rearranged_waitLast hlast
    refine ⟨hwell.once hcmd .wait, hwell.once hcmd .dryRun, ?_⟩
    intro hempty v hv
    obtain ⟨folder, device, wait, hfolder, -, -, -, heq⟩ := (sync_ok_iff hgs).mp hcmd
    obtain rfl : folder = none := Option.toList_eq_nil_iff.mp (hfolder.trans hempty)
    have hkept := hwell.kept cmd hcmd _ (mem_values.mp hv)
    rw [heq] at hkept
    exact hkept
  · intro hgiven
    by_cases hbad : (values .device gs).length ≠ (positionals gs).length ∨ 2 ≤ (positionals gs).length ∨
        (∃ v ∈ values .wait gs, parseUnsigned u64Bound v = none) ∨
        2 ≤ (values .wait gs).countP fun v => decide (parseUnsigned u64Bound v ≠ some 0)
    · apply parsesWell_of_refused
      intro gs' hrearranged
      have hwaits := hrearranged.values .wait
      apply sync_refused (hrearranged.accepts hgs)
      rw [hrearranged.positionals, (hrearranged.values .device).length_eq, hwaits.countP_eq]
      simpa only [hwaits.mem_iff] using hbad
    · have hgood : flagCount .wait gs ≤ 1 ∧ flagCount .dryRun gs ≤ 1 ∧
          (positionals gs = [] → ∀ v ∈ values .wait gs, parseUnsigned u64Bound v = some 0) := by
        rw [not_or, not_or, not_or] at hbad
        obtain h | h | h | h | h := hgiven
        · exact absurd h hbad.1
        · exact absurd h hbad.2.1
        · exact absurd h hbad.2.2.1
        · exact absurd h hbad.2.2.2
        · exact h
      exact sync_parsesWell hgs hgood.1 hgood.2.1 hgood.2.2

end

/-! ### All six -/

section

variable {gs : List Arg} {c : ArgCommand}

/-- A line of the shell is its command and the arguments. -/
theorem parseLine_arguments {shlexSplit : String → Option (List String)} {line : String}
    (hsplit : shlexSplit (trim line) = some (c.word :: tokens gs)) :
    parseLine shlexSplit line = (c.parse gs).map some := by
  unfold parseLine
  rw [hsplit]
  cases hparse : c.parse gs with
  | error e =>
    have hcommand : parseCommand c.word (tokens gs) = .error e := hparse
    simp only [hcommand]
    rfl
  | ok command =>
    have hcommand : parseCommand c.word (tokens gs) = .ok command := hparse
    simp only [hcommand]
    rfl

/-- **Arguments in any order, no flag twice, no value lost**: a command does so exactly for the
arguments that `WellGiven` describes. -/
theorem parses_well_iff (c : ArgCommand) (gs : List Arg) (hgs : ∀ a ∈ gs, c.Accepts a) :
    ParsesWell c gs ↔ WellGiven c gs := by
  cases c with
  | serve => exact serve_iff hgs
  | pair => exact pair_iff hgs
  | watch => exact watch_iff hgs
  | sync => exact sync_iff hgs
  | add => exact add_iff hgs
  | unsync => exact ⟨fun _ => trivial, fun _ => unsync_parsesWell hgs⟩

/-- `unsync` of one folder on one phone, and `sync` of all folders. -/
theorem parses_well_unsync :
    ParsesWell .unsync [.option .device "phone", .positional "photos"] ∧
      ParsesWell .sync [.switch .dryRun] := by
  refine ⟨(parses_well_iff _ _ ?_).mpr trivial, (parses_well_iff _ _ ?_).mpr ?_⟩
  · simp [ArgCommand.Accepts, ArgCommand.options]
    decide
  · simp [ArgCommand.Accepts, ArgCommand.switches]
  · right; right; right; right
    decide

/-- `serve --port 9000 photos` serves the folder `--port`; the second port of `pair` is not looked at;
and the wait of all folders is forgotten. -/
theorem port_served :
    ArgCommand.serve.parse [.option .port "9000", .positional "photos"] =
        .ok (.serve (some "--port") 9000) ∧
      ArgCommand.serve.parse [.positional "photos", .option .port "9000"] =
        .ok (.serve (some "photos") 9000) ∧
      ArgCommand.pair.parse [.positional "laptop", .option .port "9000", .option .port "9001"] =
        .ok (.pair "laptop" 9000) ∧
      ArgCommand.sync.parse [.option .wait "30"] = .ok (.sync {}) ∧
      ¬ParsesWell .serve [.positional "photos", .option .port "9000"] ∧
      ¬ParsesWell .pair [.positional "laptop", .option .port "9000", .option .port "9001"] ∧
      ¬ParsesWell .sync [.option .wait "30"] := by
  have hserve : ArgCommand.serve.parse [.option .port "9000", .positional "photos"] =
      .ok (.serve (some "--port") 9000) := by decide +kernel
  have hfirst : ArgCommand.serve.parse [.positional "photos", .option .port "9000"] =
      .ok (.serve (some "photos") 9000) := by decide +kernel
  have hpair : ArgCommand.pair.parse [.positional "laptop", .option .port "9000", .option .port "9001"] =
      .ok (.pair "laptop" 9000) := by decide +kernel
  have hsync : ArgCommand.sync.parse [.option .wait "30"] = .ok (.sync {}) := by decide +kernel
  refine ⟨hserve, hfirst, hpair, hsync, ?_, ?_, ?_⟩
  · intro h
    have haccepted := h.accepted ⟨List.Perm.swap _ _ _, rfl⟩ hserve
    rw [hfirst] at haccepted
    simp at haccepted
  · intro h
    exact absurd (h.once hpair .port) (by decide)
  · intro h
    have hkept := h.kept _ hsync (.option .wait "30") List.mem_cons_self
    exact absurd hkept (by change parseUnsigned u64Bound "30" ≠ some 0; decide +kernel)

end

end FerriSync
