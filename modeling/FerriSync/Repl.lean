/-
# The command line of the shell

One line of input as a command (`repl/parser.rs`): its words, split by the rules of a
shell, are a command's name and its arguments. Some commands read their arguments token
by token, `sync`, `unsync` and `add`; `serve`, `pair` and `watch` take the first one for
what they act on, and look for their flag in all of them (`flag_value`).

What does the splitting, a function of the package `shlex`, is a parameter.

Key definitions: `ReplCommand`, `parseLine`, `flagValue`, `syncLoop`, `unsyncLoop`,
`addLoop`.
-/
import FerriSync.Lib.Unsigned
import FerriSync.Renames
import FerriSync.Server

namespace FerriSync

structure SyncArgs where
  folder : Option String := none
  device : Option String := none
  wait : ℕ := 0
  dryRun : Bool := false
deriving DecidableEq, Repr

structure WatchArgs where
  folder : String
  device : String
deriving DecidableEq, Repr

/-- A parsed REPL input line. -/
inductive ReplCommand
  | help
  | status
  | devices
  | folders
  | activity
  | conflicts
  | doctor
  | sessions
  | rename (name : String)
  | reset (yes : Bool)
  | discover (seconds : ℕ)
  | pair (ip : String) (port : ℕ)
  | add (path : String) (name : Option String)
  | sync (args : SyncArgs)
  | unsync (folder device : Option String) (yes : Bool)
  | watch (args : WatchArgs)
  | watches
  | unwatch (id : ℕ)
  | serve (folder : Option String) (port : ℕ)
  | serves
  | unserve (id : ℕ)
  | pendings
  | confirm (n : ℕ)
  | deny (n : ℕ)
  | yes
  | no
  | exit
deriving DecidableEq, Repr

/-! ### Values -/

/-- `str::parse` of an unsigned number below `bound`. -/
def parseUnsigned (bound : ℕ) (text : String) : Option ℕ := Unsigned.parse bound text.toList

def u16Bound : ℕ := 65536

def u32Bound : ℕ := 4294967296

def u64Bound : ℕ := 18446744073709551616

/-- A number, or the error of the command. -/
def parseOr (bound : ℕ) (error : String) (text : String) : Except String ℕ :=
  match parseUnsigned bound text with
  | some n => .ok n
  | none => .error error

/-- What follows the first such token. -/
def flagValue (args : List String) (name : String) : Except String (Option String) :=
  match args.dropWhile fun a => decide (a ≠ name) with
  | [] => .ok none
  | _ :: v :: _ => .ok (some v)
  | [_] => .error s!"missing value for {name}"

def requiredFlag (args : List String) (name : String) : Except String String :=
  match flagValue args name with
  | .error e => .error e
  | .ok none => .error s!"missing required flag {name}"
  | .ok (some v) => .ok v

/-- The port that is given, or the default. -/
def portFlag (args : List String) : Except String ℕ :=
  match flagValue args "--port" with
  | .error e => .error e
  | .ok none => .ok defaultPort
  | .ok (some p) => parseOr u16Bound s!"invalid port '{p}'" p

def firstArg (usage : String) : List String → Except String String
  | [] => .error usage
  | a :: _ => .ok a

def looksLikeFlag (tok : String) : Bool := "--".toList.isPrefixOf tok.toList

/-! ### Loops over the tokens -/

def addUsage : String := "usage: add <folder> [--name <name>]"

/-- The tokens after the folder of `add`. -/
def addLoop : List String → Option String → Except String (Option String)
  | [], name => .ok name
  | tok :: rest, name =>
    if tok = "--name" then
      if name.isSome = true then .error "duplicate --name"
      else match rest with
        | [] => .error "missing value for --name"
        | v :: rest => addLoop rest (some v)
    else .error addUsage

/-- The tokens of `sync`. -/
def syncLoop : List String → SyncArgs → Except String SyncArgs
  | [], st => .ok st
  | tok :: rest, st =>
    if tok = "--device" then
      if st.device.isSome = true then .error "duplicate --device"
      else match rest with
        | [] => .error "missing value for --device"
        | v :: rest => syncLoop rest { st with device := some v }
    else if tok = "--wait" then
      if st.wait ≠ 0 then .error "duplicate --wait"
      else match rest with
        | [] => .error "missing value for --wait"
        | v :: rest =>
          match parseUnsigned u64Bound v with
          | none => .error s!"invalid wait seconds '{v}'"
          | some wait => syncLoop rest { st with wait := wait }
    else if tok = "--dry-run" then syncLoop rest { st with dryRun := true }
    else if looksLikeFlag tok = true then .error s!"unknown flag '{tok}' for sync"
    else if st.folder.isNone = true then syncLoop rest { st with folder := some tok }
    else .error s!"unexpected argument '{tok}'"

structure UnsyncArgs where
  folder : Option String := none
  device : Option String := none
  yes : Bool := false

/-- The tokens of `unsync`. -/
def unsyncLoop : List String → UnsyncArgs → Except String UnsyncArgs
  | [], st => .ok st
  | tok :: rest, st =>
    if tok = "--yes" then
      if st.yes = true then .error "duplicate --yes"
      else unsyncLoop rest { st with yes := true }
    else if tok = "--device" then
      if st.device.isSome = true then .error "duplicate --device"
      else match rest with
        | [] => .error "missing value for --device"
        | v :: rest => unsyncLoop rest { st with device := some v }
    else if looksLikeFlag tok = true then .error s!"unknown flag '{tok}' for unsync"
    else if st.folder.isNone = true then unsyncLoop rest { st with folder := some tok }
    else .error s!"unexpected argument '{tok}'"

/-- The tokens of `reset`. -/
def resetLoop : List String → Bool → Except String Bool
  | [], yes => .ok yes
  | tok :: rest, yes =>
    if tok = "--yes" then
      if yes = true then .error "duplicate --yes" else resetLoop rest true
    else .error "usage: reset [--yes]"

/-! ### The commands -/

def parseAdd (args : List String) : Except String ReplCommand :=
  match args with
  | [] => .error addUsage
  | path :: rest =>
    match addLoop rest none with
    | .error e => .error e
    | .ok name => .ok (.add path name)

def parseSync (args : List String) : Except String ReplCommand :=
  match syncLoop args {} with
  | .error e => .error e
  | .ok st =>
    match st.folder, st.device with
    | none, none => .ok (.sync { dryRun := st.dryRun })
    | some folder, some device =>
      .ok (.sync { folder := some folder, device := some device, wait := st.wait, dryRun := st.dryRun })
    | _, _ => .error "usage: sync [<folder> --device <ip[:port]|name|uuid> [--wait secs] [--dry-run]]"

def parseUnsync (args : List String) : Except String ReplCommand :=
  match unsyncLoop args {} with
  | .error e => .error e
  | .ok st =>
    if st.yes = true ∧ (st.folder.isSome = true ∨ st.device.isSome = true) then
      .error "--yes clears everything; it cannot be combined with a folder or --device"
    else .ok (.unsync st.folder st.device st.yes)

def parsePair (args : List String) : Except String ReplCommand :=
  match firstArg "usage: pair <ip> [--port <port>]" args with
  | .error e => .error e
  | .ok ip =>
    match portFlag args with
    | .error e => .error e
    | .ok port => .ok (.pair ip port)

def parseWatch (args : List String) : Except String ReplCommand :=
  match firstArg "usage: watch <folder> --device <ip[:port]>" args with
  | .error e => .error e
  | .ok folder =>
    match requiredFlag args "--device" with
    | .error e => .error e
    | .ok device => .ok (.watch ⟨folder, device⟩)

def parseServe (args : List String) : Except String ReplCommand :=
  match portFlag args with
  | .error e => .error e
  | .ok port => .ok (.serve args.head? port)

/-- A command with one number. -/
def parseNumber (usage error : String) (command : ℕ → ReplCommand) (args : List String) :
    Except String ReplCommand :=
  match firstArg usage args with
  | .error e => .error e
  | .ok text =>
    match parseOr u32Bound error text with
    | .error e => .error e
    | .ok n => .ok (command n)

def parseRename (args : List String) : Except String ReplCommand :=
  let name := " ".intercalate args
  if trim name = "" then .error "usage: rename <new name> (e.g. rename Mr Desktop)"
  else .ok (.rename name)

def parseDiscover (args : List String) : Except String ReplCommand :=
  match args with
  | [] => .ok (.discover 3)
  | s :: _ =>
    match parseOr u64Bound s!"invalid duration '{s}' (expected seconds)" s with
    | .error e => .error e
    | .ok seconds => .ok (.discover seconds)

def parseReset (args : List String) : Except String ReplCommand :=
  match resetLoop args false with
  | .error e => .error e
  | .ok yes => .ok (.reset yes)

/-- A command by its name. -/
def parseCommand (cmd : String) (args : List String) : Except String ReplCommand :=
  if cmd = "help" ∨ cmd = "?" then .ok .help
  else if cmd = "exit" ∨ cmd = "quit" ∨ cmd = "q" then .ok .exit
  else if cmd = "y" ∨ cmd = "yes" then .ok .yes
  else if cmd = "n" ∨ cmd = "no" then .ok .no
  else if cmd = "status" then .ok .status
  else if cmd = "devices" then .ok .devices
  else if cmd = "folders" then .ok .folders
  else if cmd = "activity" then .ok .activity
  else if cmd = "conflicts" then .ok .conflicts
  else if cmd = "doctor" then .ok .doctor
  else if cmd = "sessions" then .ok .sessions
  else if cmd = "rename" then parseRename args
  else if cmd = "watches" then .ok .watches
  else if cmd = "discover" then parseDiscover args
  else if cmd = "pair" then parsePair args
  else if cmd = "add" then parseAdd args
  else if cmd = "sync" then parseSync args
  else if cmd = "unsync" then parseUnsync args
  else if cmd = "watch" then parseWatch args
  else if cmd = "unwatch" then
    parseNumber "usage: unwatch <id>" "watch id must be a number" .unwatch args
  else if cmd = "serve" then parseServe args
  else if cmd = "serves" then .ok .serves
  else if cmd = "unserve" then
    parseNumber "usage: unserve <id>" "server id must be a number" .unserve args
  else if cmd = "reset" then parseReset args
  else if cmd = "pendings" then .ok .pendings
  else if cmd = "confirm" then
    parseNumber "usage: confirm <n> (see 'pendings')" "pairing number must be a number" .confirm args
  else if cmd = "deny" then
    parseNumber "usage: deny <n> (see 'pendings')" "pairing number must be a number" .deny args
  else .error s!"unknown command: {cmd} (try 'help')"

/-- Tokenize and parse one input line: nothing for blank input. -/
def parseLine (shlexSplit : String → Option (List String)) (line : String) :
    Except String (Option ReplCommand) :=
  match shlexSplit (trim line) with
  | none => .error "unbalanced quotes"
  | some [] => .ok none
  | some (cmd :: args) =>
    match parseCommand cmd args with
    | .error e => .error e
    | .ok command => .ok (some command)

end FerriSync
