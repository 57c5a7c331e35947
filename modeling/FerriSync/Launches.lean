/-
# The identity over launches

The command line and the app may use one data directory, and each loads the device's
certificate and key from it when it is started, or makes them (`load_or_create_crypto` in
`app.rs`, `load_or_create_identity` in `api/mod.rs`). A launch can be stopped at any change
that it makes to the directory, by a crash or because a write fails, and a rename may not
work.

Once a launch has succeeded, every later one of either program does, with the same identity
(`launches_agree`). But each program takes over an identity under the names of its own older
versions by two renames, and the key comes last: stopped between them, the identity is in
neither place, and the next launch makes a new one (`takeover_keeps_iff`).

Key definitions: `DataDir`, `Launch`, `loadOrCreateCrypto`, `loadOrCreateIdentity`,
`Program.found`, `Launch.cutsKey`.
Key theorems: `launched_installed`, `launches_agree`, `takeover_keeps_iff`.
-/
import FerriSync.Domain
import FerriSync.Lib.Effects
import FerriSync.Lib.Runs

namespace FerriSync

open Effects

/-! ### The data directory -/

/-- The files that hold an identity, or did in older versions. -/
inductive IdentityFile
  | identityCrt
  | identityKey
  /-- `cert.der`, of the command line. -/
  | certDer
  | keyDer
  /-- `identity.cert.der`, of the app. -/
  | identityCertDer
  | identityKeyDer
deriving DecidableEq

abbrev DataDir := IdentityFile → Option Bytes

structure Identity where
  cert : Bytes
  key : Bytes
deriving DecidableEq

namespace DataDir

def set (d : DataDir) (f : IdentityFile) (data : Option Bytes) : DataDir :=
  fun g => if g = f then data else d g

def moved (d : DataDir) (f g : IdentityFile) : DataDir := (d.set g (d f)).set f none

/-- The identity in two files. -/
def pair (d : DataDir) (cert key : IdentityFile) : Option Identity :=
  match d cert, d key with
  | some c, some k => some ⟨c, k⟩
  | _, _ => none

@[simp] theorem set_self (d : DataDir) (f : IdentityFile) (data : Option Bytes) : d.set f data f = data :=
  if_pos rfl

theorem set_of_ne (d : DataDir) {f g : IdentityFile} (data : Option Bytes) (h : g ≠ f) :
    d.set f data g = d g :=
  if_neg h

theorem pair_eq_some {d : DataDir} {cert key : IdentityFile} {id : Identity} :
    d.pair cert key = some id ↔ d cert = some id.cert ∧ d key = some id.key := by
  unfold pair
  cases hc : d cert with
  | none => simp
  | some c =>
    cases hk : d key with
    | none => simp
    | some k => cases id; simp

theorem pair_isSome {d : DataDir} {cert key : IdentityFile} :
    (d.pair cert key).isSome = ((d cert).isSome && (d key).isSome) := by
  unfold pair
  cases d cert <;> cases d key <;> rfl

end DataDir

/-! ### A launch -/

/-- What a launch meets: what `CryptoProvider::generate` gives, which files cannot be read and
which not be renamed, and the change at which it is stopped, with the bytes that a write has
got down by then, if it has begun. -/
structure Launch where
  fresh : Option Identity
  unreadable : IdentityFile → Bool := fun _ => false
  stuck : IdentityFile → Bool := fun _ => false
  stop : Option (ℕ × Option ℕ) := none

inductive LaunchError
  | stopped
  | read
  | rename
  /-- "failed to load private key" -/
  | key
  | generate
deriving DecidableEq

/-- The directory and how many changes the launch has made to it. -/
structure LaunchState where
  dir : DataDir
  changes : ℕ

abbrev LaunchM := EStateM LaunchError LaunchState

section

variable (parses : Bytes → Bool) (l : Launch)

/-- A change, which may be the one at which the launch is stopped. -/
def change (whole : DataDir → DataDir) (part : Option ℕ → DataDir → DataDir) : LaunchM Unit := do
  let s ← get
  match l.stop with
  | some (n, done) =>
    if s.changes = n then
      set { s with dir := part done s.dir }
      throw .stopped
    else set (⟨whole s.dir, s.changes + 1⟩ : LaunchState)
  | none => set (⟨whole s.dir, s.changes + 1⟩ : LaunchState)

def fsExists (f : IdentityFile) : LaunchM Bool := return ((← get).dir f).isSome

/-- A read, with its failure as no result. -/
def tryRead (f : IdentityFile) : LaunchM (Option Bytes) := do
  let s ← get
  return if l.unreadable f then none else s.dir f

def fsRead (f : IdentityFile) : LaunchM Bytes := do
  match ← tryRead l f with
  | some data => return data
  | none => throw .read

/-- Whether the rename has worked. -/
def fsRename (f g : IdentityFile) : LaunchM Bool := do
  if l.stuck f then return false
  change l (·.moved f g) fun _ d => d
  return true

def fsWrite (f : IdentityFile) (data : Bytes) : LaunchM Unit :=
  change l (·.set f (some data)) fun done d => done.elim d fun k => d.set f (some (data.take k))

/-- `CryptoProvider::load` -/
def load (cert key : Bytes) : LaunchM Identity :=
  if parses key then return ⟨cert, key⟩ else throw .key

/-- `CryptoProvider::generate`, which loads the key it has made. -/
def generate : LaunchM Identity :=
  match l.fresh with
  | some id => if parses id.key then return id else throw .generate
  | none => throw .generate

def loadCrypto : LaunchM Identity := do
  let cert ← fsRead l .identityCrt
  let key ← fsRead l .identityKey
  load parses cert key

/-- The command line's. -/
def loadOrCreateCrypto : LaunchM Identity := do
  if (← fsExists .identityCrt) && (← fsExists .identityKey) then
    loadCrypto parses l
  else if (← fsExists .certDer) && (← fsExists .keyDer) then
    unless ← fsRename l .certDer .identityCrt do throw .rename
    unless ← fsRename l .keyDer .identityKey do throw .rename
    loadCrypto parses l
  else
    let id ← generate parses l
    fsWrite l .identityCrt id.cert
    fsWrite l .identityKey id.key
    return id

/-- The app's. -/
def loadOrCreateIdentity : LaunchM Identity := do
  match ← tryRead l .identityCrt, ← tryRead l .identityKey with
  | some cert, some key => load parses cert key
  | _, _ =>
    match ← tryRead l .identityCertDer, ← tryRead l .identityKeyDer with
    | some cert, some key =>
      unless ← fsRename l .identityCertDer .identityCrt do fsWrite l .identityCrt cert
      unless ← fsRename l .identityKeyDer .identityKey do fsWrite l .identityKey key
      load parses cert key
    | _, _ =>
      let id ← generate parses l
      fsWrite l .identityCrt id.cert
      fsWrite l .identityKey id.key
      return id

end

inductive Program
  | cli
  | app
deriving DecidableEq

namespace Program

/-- The names that older versions gave the certificate and the key. -/
def legacy : Program → IdentityFile × IdentityFile
  | .cli => (.certDer, .keyDer)
  | .app => (.identityCertDer, .identityKeyDer)

def launch (p : Program) (parses : Bytes → Bool) (l : Launch) : LaunchM Identity :=
  match p with
  | .cli => loadOrCreateCrypto parses l
  | .app => loadOrCreateIdentity parses l

/-- The identity that a program finds in the directory. -/
def found (p : Program) (d : DataDir) : Option Identity :=
  (d.pair .identityCrt .identityKey).or (d.pair p.legacy.1 p.legacy.2)

end Program

/-- What a launch gives. -/
def DataDir.result (parses : Bytes → Bool) (d : DataDir) (q : Program × Launch) : Option Identity :=
  match q.1.launch parses q.2 ⟨d, 0⟩ with
  | .ok id _ => some id
  | .error _ _ => none

/-- The directory after a launch. -/
def DataDir.launched (parses : Bytes → Bool) (d : DataDir) (q : Program × Launch) : DataDir :=
  (after (q.1.launch parses q.2) ⟨d, 0⟩).dir

/-! ### The calls, one by one -/

/-- How a file gets its new name: by a rename, or by a copy of what was read. -/
inductive Put
  | move (f : IdentityFile)
  | write (data : Bytes)

namespace Put

def whole (x : Put) (g : IdentityFile) (d : DataDir) : DataDir :=
  match x with
  | move f => d.moved f g
  | write data => d.set g (some data)

/-- When the launch is stopped there. -/
def part (x : Put) (g : IdentityFile) (done : Option ℕ) (d : DataDir) : DataDir :=
  match x, done with
  | write data, some k => d.set g (some (data.take k))
  | _, _ => d

theorem part_none (x : Put) (g : IdentityFile) (d : DataDir) : x.part g none d = d := by
  cases x <;> rfl

/-- The directory after the certificate is put, or the launch stopped. -/
def one (l : Launch) (cert : Put) (d : DataDir) : DataDir :=
  match l.stop with
  | some (0, done) => cert.part .identityCrt done d
  | _ => cert.whole .identityCrt d

/-- And after the certificate and the key. -/
def both (l : Launch) (cert key : Put) (d : DataDir) : DataDir :=
  match l.stop with
  | some (0, done) => cert.part .identityCrt done d
  | some (1, done) => key.part .identityKey done (cert.whole .identityCrt d)
  | _ => key.whole .identityKey (cert.whole .identityCrt d)

end Put

section

variable {parses : Bytes → Bool} {l : Launch} {s : LaunchState}

theorem fsExists_eq (f : IdentityFile) : fsExists f s = .ok (s.dir f).isSome s := rfl

theorem tryRead_eq (f : IdentityFile) :
    tryRead l f s = .ok (if l.unreadable f then none else s.dir f) s := rfl

theorem fsRead_eq {f : IdentityFile} (h : l.unreadable f = false) {data : Bytes}
    (hdata : s.dir f = some data) : fsRead l f s = .ok data s := by
  have hread : tryRead l f s = .ok (some data) s := by rw [tryRead_eq, h, ← hdata]; rfl
  unfold fsRead
  rw [bind_ok hread]
  rfl

theorem load_eq (cert key : Bytes) :
    load parses cert key s = if parses key then .ok ⟨cert, key⟩ s else .error .key s := by
  unfold load
  split <;> rfl

theorem loadCrypto_eq (h : ∀ f, l.unreadable f = false) {cert key : Bytes}
    (hcert : s.dir .identityCrt = some cert) (hkey : s.dir .identityKey = some key) :
    loadCrypto parses l s = if parses key then .ok ⟨cert, key⟩ s else .error .key s := by
  unfold loadCrypto
  rw [bind_ok (fsRead_eq (h _) hcert), bind_ok (fsRead_eq (h _) hkey), load_eq]

/-- What puts a file in its place. -/
def put (l : Launch) (g : IdentityFile) (x : Put) : LaunchM Unit :=
  change l (x.whole g) (x.part g)

theorem put_done {g : IdentityFile} {x : Put} (h : ∀ done, l.stop ≠ some (s.changes, done)) :
    put l g x s = .ok () ⟨x.whole g s.dir, s.changes + 1⟩ := by
  unfold put change
  show (match l.stop with | some (n, done) => _ | none => _ : LaunchM Unit) s = _
  cases hstop : l.stop with
  | none => rfl
  | some q =>
    have hne : s.changes ≠ q.1 := fun heq => h q.2 (by rw [hstop, heq])
    dsimp only
    rw [if_neg hne]
    rfl

theorem put_stopped {g : IdentityFile} {x : Put} {done : Option ℕ}
    (h : l.stop = some (s.changes, done)) :
    put l g x s = .error .stopped { s with dir := x.part g done s.dir } := by
  unfold put change
  show (match l.stop with | some (n, done) => _ | none => _ : LaunchM Unit) s = _
  rw [h]
  dsimp only
  rw [if_pos rfl]
  rfl

theorem fsRename_eq (f g : IdentityFile) :
    fsRename l f g = if l.stuck f then pure false else (put l g (.move f) >>= fun _ => pure true) := by
  unfold fsRename
  split
  · rfl
  · rfl

theorem fsWrite_eq (g : IdentityFile) (data : Bytes) : fsWrite l g data = put l g (.write data) := by
  have hpart : (fun (done : Option ℕ) (d : DataDir) => done.elim d fun k => d.set g (some (data.take k))) =
      (Put.write data).part g := by
    funext done d
    cases done <;> rfl
  unfold fsWrite put
  rw [hpart]
  rfl

/-- It leaves the directory as it is. -/
def LaunchReads {α : Type} (x : LaunchM α) : Prop := ∀ s, after x s = s

theorem reads_load (cert key : Bytes) : LaunchReads (load parses cert key) := fun s => by
  unfold load
  split <;> rfl

theorem reads_bind {α β : Type} {x : LaunchM α} {f : α → LaunchM β} (hx : LaunchReads x)
    (hf : ∀ a, LaunchReads (f a)) : LaunchReads (x >>= f) := fun s => by
  rcases after_bind x f s with hsame | ⟨a, s', hok, hafter⟩
  · rw [hsame, hx]
  · have hs := hx s
    rw [after_ok hok] at hs
    rw [hafter, hf, hs]

theorem reads_fsRead (f : IdentityFile) : LaunchReads (fsRead l f) :=
  reads_bind (fun _ => rfl) fun a => by cases a <;> exact fun _ => rfl

theorem reads_loadCrypto : LaunchReads (loadCrypto parses l) :=
  reads_bind (reads_fsRead _) fun _ => reads_bind (reads_fsRead _) fun _ => reads_load _ _

/-- One put, and what changes nothing after it. -/
theorem dir_one {α : Type} {x : LaunchM α} (hx : LaunchReads x) (cert : Put) (d : DataDir) :
    (after (put l .identityCrt cert >>= fun _ => x) ⟨d, 0⟩).dir = Put.one l cert d := by
  have hgoes : (∀ done, l.stop ≠ some (0, done)) →
      (after (put l .identityCrt cert >>= fun _ => x) ⟨d, 0⟩).dir = cert.whole .identityCrt d := by
    intro h
    rw [after, bind_ok (put_done (s := ⟨d, 0⟩) h)]
    exact congrArg LaunchState.dir (hx _)
  unfold Put.one
  rcases hstop : l.stop with _ | ⟨_ | n, done⟩
  · exact hgoes (by simp [hstop])
  · rw [after_error (bind_error (put_stopped (s := ⟨d, 0⟩) hstop))]
    rfl
  · exact hgoes (by simp [hstop])

theorem dir_both {α : Type} {x : LaunchM α} (hx : LaunchReads x) (cert key : Put) (d : DataDir) :
    (after (put l .identityCrt cert >>= fun _ => put l .identityKey key >>= fun _ => x) ⟨d, 0⟩).dir =
      Put.both l cert key d := by
  have hgoes : (∀ done, l.stop ≠ some (0, done)) → (∀ done, l.stop ≠ some (1, done)) →
      (after (put l .identityCrt cert >>= fun _ => put l .identityKey key >>= fun _ => x) ⟨d, 0⟩).dir =
        key.whole .identityKey (cert.whole .identityCrt d) := by
    intro h₀ h₁
    rw [after, bind_ok (put_done (s := ⟨d, 0⟩) h₀),
      bind_ok (put_done (s := ⟨cert.whole .identityCrt d, 1⟩) h₁)]
    exact congrArg LaunchState.dir (hx _)
  unfold Put.both
  rcases hstop : l.stop with _ | ⟨_ | _ | n, done⟩
  · exact hgoes (by simp [hstop]) (by simp [hstop])
  · rw [after_error (bind_error (put_stopped (s := ⟨d, 0⟩) hstop))]
    rfl
  · have hfirst : ∀ done, l.stop ≠ some (0, done) := by simp [hstop]
    rw [after_error ((bind_ok (put_done (s := ⟨d, 0⟩) hfirst)).trans
      (bind_error (put_stopped (s := ⟨cert.whole .identityCrt d, 1⟩) hstop)))]
    rfl
  · exact hgoes (by simp [hstop]) (by simp [hstop])

end

/-! ### What a launch does -/

/-- How the app puts a file that it has read. -/
def Launch.take (l : Launch) (f : IdentityFile) (data : Bytes) : Put :=
  if l.stuck f then .write data else .move f

def putBoth {α : Type} (l : Launch) (cert key : Put) (x : LaunchM α) : LaunchM α :=
  put l .identityCrt cert >>= fun _ => put l .identityKey key >>= fun _ => x

/-- A launch that can read, by what it finds. -/
def Launch.course (l : Launch) (p : Program) (parses : Bytes → Bool) (d : DataDir) : LaunchM Identity :=
  match d.pair .identityCrt .identityKey, d.pair p.legacy.1 p.legacy.2 with
  | some id, _ => load parses id.cert id.key
  | none, some id =>
    match p with
    | .cli =>
      if l.stuck .certDer then throw .rename
      else if l.stuck .keyDer then put l .identityCrt (.move .certDer) >>= fun _ => throw .rename
      else putBoth l (.move .certDer) (.move .keyDer) (loadCrypto parses l)
    | .app =>
      putBoth l (l.take .identityCertDer id.cert) (l.take .identityKeyDer id.key)
        (load parses id.cert id.key)
  | none, none =>
    match l.fresh with
    | some id =>
      if parses id.key then putBoth l (.write id.cert) (.write id.key) (return id) else throw .generate
    | none => throw .generate

/-- The directory that it leaves. -/
def Launch.leaves (l : Launch) (p : Program) (parses : Bytes → Bool) (d : DataDir) : DataDir :=
  match d.pair .identityCrt .identityKey, d.pair p.legacy.1 p.legacy.2 with
  | some _, _ => d
  | none, some id =>
    match p with
    | .cli =>
      if l.stuck .certDer then d
      else if l.stuck .keyDer then Put.one l (.move .certDer) d
      else Put.both l (.move .certDer) (.move .keyDer) d
    | .app => Put.both l (l.take .identityCertDer id.cert) (l.take .identityKeyDer id.key) d
  | none, none =>
    match l.fresh with
    | some id => if parses id.key then Put.both l (.write id.cert) (.write id.key) d else d
    | none => d

section

variable {parses : Bytes → Bool} {l : Launch} {d : DataDir}

/-- Two questions first, which change nothing. -/
theorem bind_two {α β γ : Type} {x : LaunchM α} {y : LaunchM β} {f : α → β → LaunchM γ} {a : α} {b : β}
    {s : LaunchState} (hx : x s = .ok a s) (hy : y s = .ok b s) :
    (x >>= fun a => y >>= fun b => f a b) s = f a b s := by
  rw [bind_ok hx, bind_ok hy]

theorem create_eq : (do
      let id ← generate parses l
      fsWrite l .identityCrt id.cert
      fsWrite l .identityKey id.key
      return id) = match l.fresh with
      | some id =>
        if parses id.key then putBoth l (.write id.cert) (.write id.key) (return id) else throw .generate
      | none => throw .generate := by
  unfold generate
  cases l.fresh with
  | none => rfl
  | some id =>
    dsimp only
    split
    · simp only [fsWrite_eq, pure_bind]
      rfl
    · rfl

theorem load_of_pair (h : ∀ f, l.unreadable f = false) {s : LaunchState} {id : Identity}
    (hid : s.dir.pair .identityCrt .identityKey = some id) :
    loadCrypto parses l s = load parses id.cert id.key s := by
  obtain ⟨hcert, hkey⟩ := DataDir.pair_eq_some.mp hid
  rw [loadCrypto_eq h hcert hkey, load_eq]

theorem cli_eq (h : ∀ f, l.unreadable f = false) :
    loadOrCreateCrypto parses l ⟨d, 0⟩ = l.course .cli parses d ⟨d, 0⟩ := by
  unfold loadOrCreateCrypto Launch.course
  rw [bind_two (fsExists_eq _) (fsExists_eq _)]
  dsimp only
  rw [← DataDir.pair_isSome]
  cases hnew : d.pair .identityCrt .identityKey with
  | some id => exact load_of_pair h hnew
  | none =>
    rw [if_neg (by decide), bind_two (fsExists_eq _) (fsExists_eq _)]
    dsimp only [Program.legacy]
    rw [← DataDir.pair_isSome]
    cases d.pair .certDer .keyDer with
    | none => exact congrFun create_eq _
    | some id =>
      rw [if_pos (show (some id).isSome = true from rfl), fsRename_eq, fsRename_eq]
      cases l.stuck .certDer with
      | true => rfl
      | false =>
        simp only [Bool.false_eq_true, if_false, bind_assoc, pure_bind, if_true]
        cases l.stuck .keyDer with
        | true => rfl
        | false =>
          simp only [Bool.false_eq_true, if_false, bind_assoc, pure_bind, if_true]
          rfl

theorem put_take (f g : IdentityFile) (data : Bytes) {α : Type} (x : LaunchM α) :
    (do
      unless ← fsRename l f g do fsWrite l g data
      x) = (put l g (l.take f data) >>= fun _ => x) := by
  rw [fsRename_eq, fsWrite_eq]
  unfold Launch.take
  cases l.stuck f with
  | true => rfl
  | false => simp only [Bool.false_eq_true, if_false, bind_assoc, pure_bind, if_true]

theorem app_eq (h : ∀ f, l.unreadable f = false) :
    loadOrCreateIdentity parses l ⟨d, 0⟩ = l.course .app parses d ⟨d, 0⟩ := by
  have hread : ∀ f, tryRead l f ⟨d, 0⟩ = .ok (d f) ⟨d, 0⟩ := fun f => by
    rw [tryRead_eq, h]
    rfl
  unfold loadOrCreateIdentity Launch.course DataDir.pair
  rw [bind_two (hread _) (hread _)]
  dsimp only [Program.legacy]
  cases d .identityCrt <;> cases d .identityKey
  case some.some cert key => rfl
  all_goals
    dsimp only
    rw [bind_two (hread _) (hread _)]
    cases d .identityCertDer <;> cases d .identityKeyDer
    case some.some cert key =>
      dsimp only
      rw [put_take, put_take]
      rfl
    all_goals exact congrFun create_eq _

theorem launch_eq (p : Program) (h : ∀ f, l.unreadable f = false) :
    p.launch parses l ⟨d, 0⟩ = l.course p parses d ⟨d, 0⟩ := by
  cases p with
  | cli => exact cli_eq h
  | app => exact app_eq h

theorem launched_eq (p : Program) (h : ∀ f, l.unreadable f = false) :
    d.launched parses (p, l) = l.leaves p parses d := by
  unfold DataDir.launched after
  rw [launch_eq p h]
  show (after (l.course p parses d) ⟨d, 0⟩).dir = _
  unfold Launch.course Launch.leaves
  cases d.pair .identityCrt .identityKey with
  | some id =>
    rw [reads_load]
  | none =>
    cases d.pair p.legacy.1 p.legacy.2 with
    | some id =>
      cases p with
      | app => exact dir_both (reads_load _ _) _ _ d
      | cli =>
        dsimp only
        split
        · rfl
        · split
          · exact dir_one (x := throw .rename) (fun _ => rfl) (.move .certDer) d
          · exact dir_both reads_loadCrypto (.move .certDer) (.move .keyDer) d
    | none =>
      cases l.fresh with
      | none => rfl
      | some id =>
        dsimp only
        split
        · exact dir_both (x := pure id) (fun _ => rfl) (.write id.cert) (.write id.key) d
        · rfl

/-! ### What a launch gives -/

/-- Nothing has been done to the directory where it would not have ended well. -/
theorem both_ok {α : Type} {x : LaunchM α} {cert key : Put} {a : α} {s : LaunchState}
    (h : putBoth l cert key x ⟨d, 0⟩ = .ok a s) :
    x ⟨key.whole .identityKey (cert.whole .identityCrt d), 2⟩ = .ok a s := by
  have hfirst : ∀ done, l.stop ≠ some (0, done) := fun done hstop => by
    unfold putBoth at h
    rw [bind_error (put_stopped (s := ⟨d, 0⟩) hstop)] at h
    cases h
  have hsecond : ∀ done, l.stop ≠ some (1, done) := fun done hstop => by
    unfold putBoth at h
    rw [bind_ok (put_done (s := ⟨d, 0⟩) hfirst),
      bind_error (put_stopped (s := ⟨cert.whole .identityCrt d, 1⟩) hstop)] at h
    cases h
  unfold putBoth at h
  rwa [bind_ok (put_done (s := ⟨d, 0⟩) hfirst),
    bind_ok (put_done (s := ⟨cert.whole .identityCrt d, 1⟩) hsecond)] at h

theorem bind_throw {α β : Type} {x : LaunchM α} {e : LaunchError} {s s' : LaunchState} {b : β} :
    (x >>= fun _ => throw e) s ≠ .ok b s' := by
  intro h
  cases hx : x s with
  | ok a s₁ =>
    rw [bind_ok hx] at h
    cases h
  | error e₁ s₁ =>
    rw [bind_error hx] at h
    cases h

theorem load_ok {cert key : Bytes} {id : Identity} {s s' : LaunchState}
    (h : load parses cert key s = .ok id s') : id = ⟨cert, key⟩ ∧ parses key = true ∧ s' = s := by
  rw [load_eq] at h
  split at h
  case isTrue hparses =>
    cases h
    exact ⟨rfl, hparses, rfl⟩
  case isFalse => cases h

theorem result_eq_some {q : Program × Launch} {id : Identity} :
    d.result parses q = some id ↔ ∃ s, q.1.launch parses q.2 ⟨d, 0⟩ = .ok id s := by
  unfold DataDir.result
  cases q.1.launch parses q.2 ⟨d, 0⟩ with
  | ok a s =>
    constructor
    · intro h
      exact ⟨s, by rw [Option.some.inj h]⟩
    · rintro ⟨s', h⟩
      cases h
      rfl
  | error e s =>
    constructor
    · exact fun h => nomatch h
    · rintro ⟨s', h⟩
      cases h

/-- The identity is in its place, and its key can be loaded. -/
structure DataDir.Installed (parses : Bytes → Bool) (id : Identity) (d : DataDir) : Prop where
  pair : d.pair .identityCrt .identityKey = some id
  parses : parses id.key = true

/-- **An identity in its place is what every launch gives**, and stays there. -/
theorem launched_installed {id : Identity} (hid : d.Installed parses id) (p : Program)
    (h : ∀ f, l.unreadable f = false) :
    d.result parses (p, l) = some id ∧ d.launched parses (p, l) = d := by
  constructor
  · refine result_eq_some.mpr ⟨⟨d, 0⟩, ?_⟩
    rw [launch_eq p h, Launch.course, hid.pair]
    exact (load_eq _ _).trans (if_pos hid.parses)
  · rw [launched_eq p h, Launch.leaves, hid.pair]

/-- What comes to a file's place is its content under the older name. -/
def Put.Brings (x : Put) (f : IdentityFile) (data : Bytes) (d : DataDir) : Prop :=
  match x with
  | move g => g = f ∧ d f = some data
  | write written => written = data

theorem brings_take {f : IdentityFile} {data : Bytes} (hdata : d f = some data) :
    (l.take f data).Brings f data d := by
  unfold Launch.take
  split
  · rfl
  · exact ⟨rfl, hdata⟩

theorem whole_crt {p : Program} {cert : Put} {data : Bytes} (h : cert.Brings p.legacy.1 data d) :
    cert.whole .identityCrt d .identityCrt = some data := by
  cases cert with
  | move f =>
    obtain ⟨rfl, hdata⟩ := h
    rw [← hdata]
    cases p <;> rfl
  | write written => exact congrArg some h

/-- The certificate is put without a change to the key's places. -/
theorem whole_ne {p : Program} {cert : Put} {data : Bytes} (h : cert.Brings p.legacy.1 data d)
    {f : IdentityFile} (hf : f = .identityKey ∨ f = p.legacy.2) : cert.whole .identityCrt d f = d f := by
  cases cert with
  | move g =>
    obtain ⟨rfl, -⟩ := h
    cases p <;> rcases hf with rfl | rfl <;> rfl
  | write written => cases p <;> rcases hf with rfl | rfl <;> rfl

theorem whole_key {p : Program} {key : Put} {data : Bytes} (h : key.Brings p.legacy.2 data d) :
    key.whole .identityKey d .identityKey = some data ∧
      key.whole .identityKey d .identityCrt = d .identityCrt := by
  cases key with
  | move f =>
    obtain ⟨rfl, hdata⟩ := h
    rw [← hdata]
    cases p <;> exact ⟨rfl, rfl⟩
  | write written => exact ⟨congrArg some h, rfl⟩

theorem Put.Brings.after {p : Program} {cert key : Put} {c k : Bytes} (h : key.Brings p.legacy.2 k d)
    (hcert : cert.Brings p.legacy.1 c d) : key.Brings p.legacy.2 k (cert.whole .identityCrt d) := by
  cases key with
  | move f => exact ⟨h.1, (whole_ne hcert (Or.inr rfl)).trans h.2⟩
  | write written => exact h

theorem pair_both (p : Program) (cert key : Put) {id : Identity} (hcert : cert.Brings p.legacy.1 id.cert d)
    (hkey : key.Brings p.legacy.2 id.key d) :
    (key.whole .identityKey (cert.whole .identityCrt d)).pair .identityCrt .identityKey = some id := by
  obtain ⟨hk, hc⟩ := whole_key (hkey.after hcert)
  exact DataDir.pair_eq_some.mpr ⟨hc.trans (whole_crt hcert), hk⟩

/-- **What a launch gives is in its place afterwards.** -/
theorem installed_of_result {p : Program} {id : Identity} (h : ∀ f, l.unreadable f = false)
    (hid : d.result parses (p, l) = some id) : (d.launched parses (p, l)).Installed parses id := by
  obtain ⟨s, hrun⟩ := result_eq_some.mp hid
  have hdir : d.launched parses (p, l) = s.dir := by
    unfold DataDir.launched
    rw [after_ok hrun]
  rw [hdir]
  rw [launch_eq p h] at hrun
  unfold Launch.course at hrun
  cases hnew : d.pair .identityCrt .identityKey with
  | some i =>
    rw [hnew] at hrun
    obtain ⟨rfl, hparses, rfl⟩ := load_ok hrun
    exact ⟨hnew, hparses⟩
  | none =>
    rw [hnew] at hrun
    cases hold : d.pair p.legacy.1 p.legacy.2 with
    | some i =>
      rw [hold] at hrun
      obtain ⟨hcert, hkey⟩ := DataDir.pair_eq_some.mp hold
      cases p with
      | app =>
        have hpair := pair_both .app _ _ (brings_take (l := l) hcert) (brings_take (l := l) hkey)
        obtain ⟨rfl, hparses, rfl⟩ := load_ok (both_ok hrun)
        exact ⟨hpair, hparses⟩
      | cli =>
        have hpair := pair_both .cli (.move .certDer) (.move .keyDer) ⟨rfl, hcert⟩ ⟨rfl, hkey⟩
        dsimp only at hrun
        split at hrun
        · cases hrun
        · split at hrun
          · exact absurd hrun bind_throw
          · have hload := both_ok hrun
            rw [load_of_pair h hpair] at hload
            obtain ⟨rfl, hparses, rfl⟩ := load_ok hload
            exact ⟨hpair, hparses⟩
    | none =>
      rw [hold] at hrun
      cases hfresh : l.fresh with
      | none => rw [hfresh] at hrun; cases hrun
      | some i =>
        rw [hfresh] at hrun
        dsimp only at hrun
        split at hrun
        case isFalse => cases hrun
        case isTrue hparses =>
          have hpair := pair_both .app (d := d) (.write i.cert) (.write i.key) rfl rfl
          cases both_ok hrun
          exact ⟨hpair, hparses⟩

end

/-! ### Launch after launch -/

/-- What launches give, one after another. -/
def DataDir.results (parses : Bytes → Bool) : DataDir → List (Program × Launch) → List (Option Identity)
  | _, [] => []
  | d, q :: qs => d.result parses q :: (d.launched parses q).results parses qs

section

variable {parses : Bytes → Bool} {d : DataDir} {qs : List (Program × Launch)}

theorem results_installed {id : Identity} (hid : d.Installed parses id)
    (h : ∀ q ∈ qs, ∀ f, q.2.unreadable f = false) :
    d.results parses qs = List.replicate qs.length (some id) := by
  induction qs with
  | nil => rfl
  | cons q qs ih =>
    obtain ⟨p, l⟩ := q
    obtain ⟨hresult, hdir⟩ := launched_installed hid p (h _ List.mem_cons_self)
    rw [DataDir.results, hresult, hdir, ih fun q hq => h q (List.mem_cons_of_mem _ hq)]
    rfl

/-- **The launches of both programs agree**: some fail, and all after them give one identity,
wherever they are stopped and whatever cannot be renamed, as long as the files can be read. -/
theorem launches_agree (h : ∀ q ∈ qs, ∀ f, q.2.unreadable f = false) :
    ∃ failed given id, d.results parses qs = List.replicate failed none ++ List.replicate given (some id) := by
  induction qs generalizing d with
  | nil => exact ⟨0, 0, ⟨[], []⟩, rfl⟩
  | cons q qs ih =>
    have hlater : ∀ r ∈ qs, ∀ f, r.2.unreadable f = false := fun r hr => h r (List.mem_cons_of_mem _ hr)
    cases hresult : d.result parses q with
    | none =>
      obtain ⟨failed, given, id, hrest⟩ := ih (d := d.launched parses q) hlater
      exact ⟨failed + 1, given, id, by rw [DataDir.results, hresult, hrest]; rfl⟩
    | some id =>
      have hplace := installed_of_result (h q List.mem_cons_self) hresult
      refine ⟨0, (q :: qs).length, id, ?_⟩
      rw [DataDir.results, hresult, results_installed hplace hlater]
      rfl

end

/-- The command line is stopped before it has written the key, the app makes an identity, and
the command line takes that. -/
theorem launches_agree_three :
    DataDir.results (fun _ => true) (fun _ => none)
        [(.cli, { fresh := some ⟨[1], [2]⟩, stop := some (1, none) }), (.app, { fresh := some ⟨[3], [4]⟩ }),
          (.cli, { fresh := some ⟨[5], [6]⟩ })] = [none, some ⟨[3], [4]⟩, some ⟨[3], [4]⟩] ∧
      ∃ failed given id, DataDir.results (fun _ => true) (fun _ => none)
        [(.cli, { fresh := some ⟨[1], [2]⟩, stop := some (1, none) }), (.app, { fresh := some ⟨[3], [4]⟩ }),
          (.cli, { fresh := some ⟨[5], [6]⟩ })] =
        List.replicate failed none ++ List.replicate given (some id) :=
  ⟨by decide, launches_agree (by simp)⟩

/-! ### Taking over an older version's identity -/

/-- No key is in its place without the certificate. -/
def DataDir.CertFirst (d : DataDir) : Prop := (d .identityKey).isSome → (d .identityCrt).isSome

/-- The launch is stopped with the certificate moved and the key not. -/
def Launch.cutsKey (l : Launch) (p : Program) (key : Bytes) : Bool :=
  match p, l.stop with
  | .cli, some (0, _) => false
  | .cli, some (1, _) => !l.stuck .certDer
  | .cli, _ => !l.stuck .certDer && l.stuck .keyDer
  -- a key that is copied may be cut short itself, when the identity is another one
  | .app, some (1, some k) =>
    if l.stuck .identityKeyDer then k < key.length else !l.stuck .identityCertDer
  | .app, some (1, none) => !l.stuck .identityCertDer
  | .app, _ => false

section

variable {parses : Bytes → Bool} {l : Launch} {d : DataDir} {id : Identity}

theorem pair_none_key (h : d .identityKey = none) : d.pair .identityCrt .identityKey = none := by
  unfold DataDir.pair
  rw [h]
  cases d .identityCrt <;> rfl

theorem key_none (hfirst : d.CertFirst) (hnew : d.pair .identityCrt .identityKey = none) :
    d .identityKey = none := by
  rw [Option.eq_none_iff_forall_ne_some]
  intro k hk
  obtain ⟨c, hc⟩ := Option.isSome_iff_exists.mp (hfirst (by rw [hk]; rfl))
  have hpair : d.pair .identityCrt .identityKey = some ⟨c, k⟩ := DataDir.pair_eq_some.mpr ⟨hc, hk⟩
  rw [hpair] at hnew
  cases hnew

theorem found_eq (p : Program) (hkey : d .identityKey = none) : p.found d = d.pair p.legacy.1 p.legacy.2 := by
  unfold Program.found
  rw [pair_none_key hkey]
  rfl

theorem found_of_pair (p : Program) (h : d.pair .identityCrt .identityKey = some id) : p.found d = some id := by
  unfold Program.found
  rw [h]
  rfl

/-- Stopped at the certificate, a launch has not touched what it was taking over. -/
theorem found_part (p : Program) (cert : Put) (done : Option ℕ) (hkey : d .identityKey = none)
    (hid : p.found d = some id) : p.found (cert.part .identityCrt done d) = some id := by
  have hset : ∀ data, p.found (d.set .identityCrt data) = some id := by
    intro data
    rw [found_eq p (by rw [DataDir.set_of_ne d data (by decide), hkey]), ← hid, found_eq p hkey]
    cases p <;> rfl
  cases cert with
  | move f => exact hid
  | write data =>
    cases done with
    | none => exact hid
    | some k => exact hset _

/-- With the certificate put, the identity is found if that was a copy. -/
theorem found_crt (p : Program) {cert : Put} (hcert : cert.Brings p.legacy.1 id.cert d)
    (hkey : d .identityKey = none) (hold : d.pair p.legacy.1 p.legacy.2 = some id) :
    p.found (cert.whole .identityCrt d) = some id ↔ ∃ data, cert = .write data := by
  have hnone : cert.whole .identityCrt d .identityKey = none := (whole_ne hcert (Or.inl rfl)).trans hkey
  rw [found_eq p hnone]
  cases cert with
  | move f =>
    obtain ⟨rfl, -⟩ := hcert
    refine iff_of_false (fun h => ?_) (fun ⟨_, h⟩ => nomatch h)
    have hgone := (DataDir.pair_eq_some.mp h).1
    rw [show (Put.move p.legacy.1).whole .identityCrt d p.legacy.1 = none from DataDir.set_self _ _ _] at hgone
    cases hgone
  | write data =>
    refine iff_of_true ?_ ⟨data, rfl⟩
    rw [← hold]
    cases p <;> rfl

/-- A key cut short, with the certificate in its place. -/
theorem found_cut (p : Program) {cert : Put} (hcert : cert.Brings p.legacy.1 id.cert d) (k : ℕ) :
    p.found ((Put.write id.key).part .identityKey (some k) (cert.whole .identityCrt d)) = some id ↔
      id.key.length ≤ k := by
  have hpair : ((Put.write id.key).part .identityKey (some k) (cert.whole .identityCrt d)).pair
      .identityCrt .identityKey = some ⟨id.cert, id.key.take k⟩ :=
    DataDir.pair_eq_some.mpr ⟨whole_crt hcert, rfl⟩
  rw [found_of_pair p hpair]
  constructor
  · intro h
    have hlength := congrArg (fun i : Identity => i.key.length) (Option.some.inj h)
    rw [List.length_take] at hlength
    omega
  · intro h
    rw [List.take_of_length_le h]

theorem take_eq_write {f : IdentityFile} {data : Bytes} :
    (∃ written, l.take f data = .write written) ↔ l.stuck f = true := by
  unfold Launch.take
  cases l.stuck f <;> simp

/-- Stopped once the certificate is put, the command line has moved it. -/
theorem found_cli (hkey : d .identityKey = none) (hold : d.pair .certDer .keyDer = some id) :
    Program.cli.found
        (if l.stuck .certDer then d
          else if l.stuck .keyDer then Put.one l (.move .certDer) d
          else Put.both l (.move .certDer) (.move .keyDer) d) = some id ↔ l.cutsKey .cli id.key = false := by
  have hid : Program.cli.found d = some id := (found_eq .cli hkey).trans hold
  obtain ⟨hcert, hlegacy⟩ := DataDir.pair_eq_some.mp hold
  have hone : (Put.move .certDer).Brings Program.cli.legacy.1 id.cert d := ⟨rfl, hcert⟩
  have hboth := found_of_pair .cli (pair_both .cli (.move .certDer) (.move .keyDer) hone ⟨rfl, hlegacy⟩)
  have hlost : Program.cli.found ((Put.move .certDer).whole .identityCrt d) ≠ some id := fun h => by
    obtain ⟨data, hdata⟩ := (found_crt .cli hone hkey hold).mp h
    cases hdata
  unfold Launch.cutsKey Put.one Put.both
  cases l.stuck .certDer with
  | true => exact iff_of_true hid (by rcases l.stop with _ | ⟨_ | _ | n, done⟩ <;> rfl)
  | false =>
    cases l.stuck .keyDer with
    | true =>
      rcases l.stop with _ | ⟨_ | _ | n, done⟩
      case some.zero => exact iff_of_true hid rfl
      all_goals exact iff_of_false hlost nofun
    | false =>
      rcases l.stop with _ | ⟨_ | _ | n, done⟩
      case some.zero => exact iff_of_true hid rfl
      case some.succ.zero => exact iff_of_false hlost nofun
      all_goals exact iff_of_true hboth rfl

/-- The app has moved it if it could, and may have begun to copy the key. -/
theorem found_app (hkey : d .identityKey = none)
    (hold : d.pair .identityCertDer .identityKeyDer = some id) :
    Program.app.found (Put.both l (l.take .identityCertDer id.cert) (l.take .identityKeyDer id.key) d) =
        some id ↔ l.cutsKey .app id.key = false := by
  have hid : Program.app.found d = some id := (found_eq .app hkey).trans hold
  obtain ⟨hcert, hlegacy⟩ := DataDir.pair_eq_some.mp hold
  have hone : (l.take .identityCertDer id.cert).Brings Program.app.legacy.1 id.cert d := brings_take hcert
  have hboth := found_of_pair .app (pair_both .app _ _ hone (brings_take (l := l) hlegacy))
  have hcrt : Program.app.found ((l.take .identityCertDer id.cert).whole .identityCrt d) = some id ↔
      (!l.stuck .identityCertDer) = false := by
    rw [found_crt .app hone hkey hold, take_eq_write, Bool.not_eq_false']
  unfold Launch.cutsKey Put.both
  rcases l.stop with _ | ⟨_ | _ | n, _ | k⟩
  case some.zero.none => exact iff_of_true (found_part .app _ none hkey hid) rfl
  case some.zero.some => exact iff_of_true (found_part .app _ (some k) hkey hid) rfl
  case some.succ.zero.none =>
    show Program.app.found ((l.take .identityKeyDer id.key).part .identityKey none _) = some id ↔ _
    rw [Put.part_none]
    exact hcrt
  case some.succ.zero.some =>
    show Program.app.found ((l.take .identityKeyDer id.key).part .identityKey (some k) _) = some id ↔
      (if l.stuck .identityKeyDer then decide (k < id.key.length) else !l.stuck .identityCertDer) = false
    cases hstuck : l.stuck .identityKeyDer with
    | true =>
      rw [Launch.take, hstuck, if_pos rfl, if_pos rfl, found_cut .app hone k]
      simp
    | false =>
      rw [Launch.take, hstuck, if_neg (by simp), if_neg (by simp)]
      exact hcrt
  all_goals exact iff_of_true hboth rfl

/-- The identity that a launch takes over is still found after it unless the key is cut off. -/
theorem found_leaves (p : Program) (hfirst : d.CertFirst) (hid : p.found d = some id) :
    p.found (l.leaves p parses d) = some id ↔
      (d.pair .identityCrt .identityKey = none → l.cutsKey p id.key = false) := by
  unfold Launch.leaves
  cases hnew : d.pair .identityCrt .identityKey with
  | some i => exact iff_of_true hid nofun
  | none =>
    have hkey := key_none hfirst hnew
    have hold : d.pair p.legacy.1 p.legacy.2 = some id := (found_eq p hkey).symm.trans hid
    rw [hold]
    refine Iff.trans ?_ (forall_prop_of_true rfl).symm
    cases p with
    | cli => exact found_cli hkey hold
    | app => exact found_app hkey hold

theorem certFirst_crt {c : Bytes} (h : d .identityCrt = some c) : d.CertFirst := fun _ => by
  rw [h]
  rfl

theorem certFirst_part (cert : Put) (done : Option ℕ) (h : d.CertFirst) :
    (cert.part .identityCrt done d).CertFirst := by
  cases cert with
  | move f => exact h
  | write data =>
    cases done with
    | none => exact h
    | some k => exact certFirst_crt (c := data.take k) rfl

theorem certFirst_one {p : Program} {cert : Put} (hcert : cert.Brings p.legacy.1 id.cert d) (h : d.CertFirst) :
    (Put.one l cert d).CertFirst := by
  unfold Put.one
  split
  · exact certFirst_part cert _ h
  · exact certFirst_crt (whole_crt hcert)

theorem certFirst_both {p : Program} (cert key : Put) (hcert : cert.Brings p.legacy.1 id.cert d)
    (hkey : key.Brings p.legacy.2 id.key d) (h : d.CertFirst) : (Put.both l cert key d).CertFirst := by
  have hcrt : cert.whole .identityCrt d .identityCrt = some id.cert := whole_crt hcert
  unfold Put.both
  split
  · exact certFirst_part cert _ h
  · refine certFirst_crt (c := id.cert) ?_
    rw [← hcrt]
    unfold Put.part
    split
    · rfl
    · rfl
  · exact certFirst_crt ((whole_key (hkey.after hcert)).2.trans hcrt)

/-- No launch puts a key before its certificate. -/
theorem certFirst_leaves (p : Program) (h : d.CertFirst) : (l.leaves p parses d).CertFirst := by
  unfold Launch.leaves
  cases d.pair .identityCrt .identityKey with
  | some id => exact h
  | none =>
    cases hold : d.pair p.legacy.1 p.legacy.2 with
    | some id =>
      obtain ⟨hcert, hkey⟩ := DataDir.pair_eq_some.mp hold
      cases p with
      | cli =>
        have hone : (Put.move .certDer).Brings Program.cli.legacy.1 id.cert d := ⟨rfl, hcert⟩
        dsimp only
        split
        · exact h
        · split
          · exact certFirst_one hone h
          · exact certFirst_both (.move .certDer) (.move .keyDer) hone ⟨rfl, hkey⟩ h
      | app => exact certFirst_both (p := .app) _ _ (brings_take hcert) (brings_take hkey) h
    | none =>
      cases l.fresh with
      | none => exact h
      | some id =>
        dsimp only
        split
        · exact certFirst_both (p := p) (.write id.cert) (.write id.key) rfl rfl h
        · exact h

end

/-- A launch that can read the files. -/
abbrev ReadableLaunch := {l : Launch // ∀ f, l.unreadable f = false}

/-- A launch of the program, as a step. -/
def Program.step (p : Program) (parses : Bytes → Bool) (d : DataDir) (l : ReadableLaunch) : DataDir :=
  d.launched parses (p, l.1)

/-- **A program's launches keep the identity that it would take over** exactly if none of them
is stopped between the moves of the certificate and of the key. -/
theorem takeover_keeps_iff (parses : Bytes → Bool) (p : Program) {d : DataDir} {id : Identity}
    {ls : List ReadableLaunch} (hfirst : d.CertFirst) (hid : p.found d = some id) :
    Runs.Always (p.step parses) (fun d => p.found d = some id) d ls ↔
      Runs.Meets (p.step parses)
        (fun d l => d.pair .identityCrt .identityKey = none → l.1.cutsKey p id.key = false) d ls := by
  refine Runs.always_iff_meets (J := DataDir.CertFirst) ?_ ?_ hfirst hid
  · intro d l h
    unfold Program.step
    rw [launched_eq p l.2]
    exact certFirst_leaves p h
  · intro d l h hfound
    unfold Program.step
    rw [launched_eq p l.2]
    exact found_leaves p h hfound

/-- A command line whose key cannot be renamed. -/
theorem takeover_keeps_iff_stuck :
    Runs.Always (Program.cli.step fun _ => true) (fun d => Program.cli.found d = some ⟨[1], [2]⟩)
        (DataDir.set (DataDir.set (fun _ => none) .certDer (some [1])) .keyDer (some [2]))
        [⟨{ fresh := none, stuck := fun f => f = .keyDer }, fun _ => rfl⟩] ↔
      Runs.Meets (Program.cli.step fun _ => true)
        (fun d l => d.pair .identityCrt .identityKey = none → l.1.cutsKey .cli [2] = false)
        (DataDir.set (DataDir.set (fun _ => none) .certDer (some [1])) .keyDer (some [2]))
        [⟨{ fresh := none, stuck := fun f => f = .keyDer }, fun _ => rfl⟩] :=
  takeover_keeps_iff (fun _ => true) .cli nofun rfl

/-- A launch that nothing stops gives the identity that its program finds. -/
theorem result_of_found {parses : Bytes → Bool} {p : Program} {d : DataDir} {id : Identity} {l : Launch}
    (h : ∀ f, l.unreadable f = false) (hid : p.found d = some id) (hparses : parses id.key = true)
    (hstuck : ∀ f, l.stuck f = false) (hstop : l.stop = none) : d.result parses (p, l) = some id := by
  have hloads : ∀ {s : LaunchState}, load parses id.cert id.key s = .ok id s := fun {s} => by
    rw [load_eq, if_pos hparses]
  have hputs : ∀ {cert key : Put} {x : LaunchM Identity}, putBoth l cert key x ⟨d, 0⟩ =
      x ⟨key.whole .identityKey (cert.whole .identityCrt d), 2⟩ := fun {cert key x} => by
    unfold putBoth
    rw [bind_ok (put_done (s := ⟨d, 0⟩) (by simp [hstop])),
      bind_ok (put_done (s := ⟨cert.whole .identityCrt d, 1⟩) (by simp [hstop]))]
  unfold Program.found at hid
  refine result_eq_some.mpr ?_
  rw [launch_eq p h]
  unfold Launch.course
  cases hnew : d.pair .identityCrt .identityKey with
  | some i =>
    rw [hnew] at hid
    obtain rfl := Option.some.inj hid
    exact ⟨_, hloads⟩
  | none =>
    rw [hnew, Option.none_or] at hid
    rw [hid]
    cases p with
    | app => exact ⟨_, hputs.trans hloads⟩
    | cli =>
      obtain ⟨hcert, hkey⟩ := DataDir.pair_eq_some.mp hid
      have hpair := pair_both .cli (.move .certDer) (.move .keyDer) ⟨rfl, hcert⟩ ⟨rfl, hkey⟩
      dsimp only
      rw [if_neg (by simp [hstuck]), if_neg (by simp [hstuck]), hputs, load_of_pair h hpair]
      exact ⟨_, hloads⟩

/-! ### A key that cannot be read -/

section

variable {parses : Bytes → Bool} {l : Launch} {d : DataDir} {id : Identity}

/-- The command line fails, and leaves the identity as it is. -/
theorem cli_keeps_unread (hid : d.pair .identityCrt .identityKey = some id)
    (hkey : l.unreadable .identityKey = true) :
    d.result parses (.cli, l) = none ∧ d.launched parses (.cli, l) = d := by
  obtain ⟨hcert, hin⟩ := DataDir.pair_eq_some.mp hid
  have hread : fsRead l .identityKey ⟨d, 0⟩ = .error .read ⟨d, 0⟩ := by
    have htry : tryRead l .identityKey ⟨d, 0⟩ = .ok none ⟨d, 0⟩ := by
      rw [tryRead_eq, hkey]
      rfl
    unfold fsRead
    rw [bind_ok htry]
    rfl
  have hload : loadCrypto parses l ⟨d, 0⟩ = .error .read ⟨d, 0⟩ := by
    unfold loadCrypto
    cases hcrt : l.unreadable .identityCrt with
    | false => rw [bind_ok (fsRead_eq hcrt hcert), bind_error hread]
    | true =>
      have htry : tryRead l .identityCrt ⟨d, 0⟩ = .ok none ⟨d, 0⟩ := by
        rw [tryRead_eq, hcrt]
        rfl
      unfold fsRead
      rw [bind_assoc, bind_ok htry]
      rfl
  have hrun : Program.cli.launch parses l ⟨d, 0⟩ = .error .read ⟨d, 0⟩ := by
    show loadOrCreateCrypto parses l ⟨d, 0⟩ = _
    unfold loadOrCreateCrypto
    rw [bind_two (fsExists_eq _) (fsExists_eq _)]
    dsimp only
    rw [← DataDir.pair_isSome, hid]
    exact hload
  unfold DataDir.result DataDir.launched
  rw [after_error hrun]
  dsimp only
  rw [hrun]
  exact ⟨rfl, rfl⟩

theorem of_read {unreadable : Bool} {there : Option Bytes} {data : Bytes}
    (h : (if unreadable = true then none else there) = some data) : there = some data := by
  cases unreadable with
  | true => cases h
  | false => exact h

/-- **The app puts a new identity in the place of one that it cannot read.** -/
theorem app_replaces_unread {fresh : Identity} (hkey : l.unreadable .identityKey = true)
    (hold : d.pair .identityCertDer .identityKeyDer = none) (hfresh : l.fresh = some fresh)
    (hparses : parses fresh.key = true) (hstop : l.stop = none) :
    d.result parses (.app, l) = some fresh ∧
      (d.launched parses (.app, l)).pair .identityCrt .identityKey = some fresh := by
  have hrun : Program.app.launch parses l ⟨d, 0⟩ =
      .ok fresh ⟨(d.set .identityCrt (some fresh.cert)).set .identityKey (some fresh.key), 2⟩ := by
    have hcreates : (do
        let id ← generate parses l
        fsWrite l .identityCrt id.cert
        fsWrite l .identityKey id.key
        return id) ⟨d, 0⟩ =
          .ok fresh ⟨(d.set .identityCrt (some fresh.cert)).set .identityKey (some fresh.key), 2⟩ := by
      rw [create_eq, hfresh]
      dsimp only
      rw [if_pos hparses]
      unfold putBoth
      rw [bind_ok (put_done (s := ⟨d, 0⟩) (by simp [hstop])),
        bind_ok (put_done (s := ⟨(Put.write fresh.cert).whole .identityCrt d, 1⟩) (by simp [hstop]))]
      rfl
    have hnew : tryRead l .identityKey ⟨d, 0⟩ = .ok none ⟨d, 0⟩ := by
      rw [tryRead_eq, hkey]
      rfl
    show loadOrCreateIdentity parses l ⟨d, 0⟩ = _
    unfold loadOrCreateIdentity
    rw [bind_two (tryRead_eq _) hnew]
    dsimp only
    -- whatever is read of the certificate, the older version's files come next
    cases (if l.unreadable .identityCrt = true then none else d .identityCrt : Option Bytes)
    all_goals
      dsimp only
      rw [bind_two (tryRead_eq _) (tryRead_eq _)]
      dsimp only
      cases hcert : (if l.unreadable .identityCertDer = true then none else d .identityCertDer : Option Bytes)
      case none => exact hcreates
      case some c =>
        cases hin : (if l.unreadable .identityKeyDer = true then none else d .identityKeyDer : Option Bytes) with
        | none => exact hcreates
        | some k =>
          have hboth : d.pair .identityCertDer .identityKeyDer = some ⟨c, k⟩ :=
            DataDir.pair_eq_some.mpr ⟨of_read hcert, of_read hin⟩
          rw [hold] at hboth
          cases hboth
  unfold DataDir.result DataDir.launched
  rw [after_ok hrun]
  dsimp only
  rw [hrun]
  exact ⟨rfl, DataDir.pair_eq_some.mpr ⟨rfl, rfl⟩⟩

end

end FerriSync
