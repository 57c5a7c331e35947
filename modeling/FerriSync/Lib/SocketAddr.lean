/-
# Addresses and how they are written

The addresses of Rust's `core::net`: how they are printed, and the recursive
descent parser that reads them. A reader takes characters off the front of its
input, or fails and takes none. An address of version 4 is printed in a form that
the parser reads back (`readIpv4Addr_chars`), and with a port behind it is a socket
address (`parseSocketAddr_append`). One of version 6 is none, and with a port behind
it only when it stands in brackets (`parseSocketAddr_of_v6`,
`parseSocketAddr_v6_append`).

Key definitions: `Reader`, `readIpv4Addr`, `readIpv6Addr`, `parseIpAddr`,
`parseSocketAddr`, `IpAddr.toCanonical`, `IpAddr.chars`.
Key theorems: `readIpv4Addr_chars`, `parseSocketAddr_append`,
`parseSocketAddr_of_v6`, `parseSocketAddr_v6_append`.
-/
import Mathlib.Data.List.Basic
import Mathlib.Data.List.TakeWhile

namespace Net

/-! ### Addresses -/

structure Ipv4Addr where
  a : UInt8
  b : UInt8
  c : UInt8
  d : UInt8
deriving DecidableEq, Repr

/-- Eight groups of two bytes. -/
structure Ipv6Addr where
  segments : List UInt16
  length_eq : segments.length = 8
deriving DecidableEq, Repr

inductive IpAddr
  | v4 (ip : Ipv4Addr)
  | v6 (ip : Ipv6Addr)
deriving DecidableEq, Repr

inductive SocketAddr
  | v4 (ip : Ipv4Addr) (port : UInt16)
  | v6 (ip : Ipv6Addr) (port : UInt16) (scopeId : UInt32)
deriving DecidableEq, Repr

def SocketAddr.ip : SocketAddr → IpAddr
  | .v4 ip _ => .v4 ip
  | .v6 ip _ _ => .v6 ip

def SocketAddr.port : SocketAddr → UInt16
  | .v4 _ port => port
  | .v6 _ port _ => port

/-- The two groups that hold an address of version 4. -/
def Ipv4Addr.groups (ip : Ipv4Addr) : List UInt16 :=
  [ip.a.toUInt16 * 256 + ip.b.toUInt16, ip.c.toUInt16 * 256 + ip.d.toUInt16]

/-- The first eight groups, and zeros where there are fewer. -/
def Ipv6Addr.ofGroups (gs : List UInt16) : Ipv6Addr where
  segments := (gs ++ List.replicate 8 0).take 8
  length_eq := by
    simp only [List.length_take, List.length_append, List.length_replicate]
    omega

/-- `to_ipv4_mapped`: the address in `::ffff:0:0/96`. -/
def Ipv6Addr.toIpv4Mapped (ip : Ipv6Addr) : Option Ipv4Addr :=
  if ip.segments.take 6 = [0, 0, 0, 0, 0, 0xffff] then
    let x := ip.segments.getD 6 0
    let y := ip.segments.getD 7 0
    some ⟨(x >>> 8).toUInt8, x.toUInt8, (y >>> 8).toUInt8, y.toUInt8⟩
  else none

def IpAddr.toCanonical : IpAddr → IpAddr
  | .v4 ip => .v4 ip
  | .v6 ip => (ip.toIpv4Mapped.map IpAddr.v4).getD (.v6 ip)

/-- What is still of version 6 is no mapped address. -/
theorem toIpv4Mapped_of_toCanonical {addr : IpAddr} {ip : Ipv6Addr} (h : addr.toCanonical = .v6 ip) :
    ip.toIpv4Mapped = none := by
  cases addr with
  | v4 v4 => cases h
  | v6 v6 =>
    have h : (v6.toIpv4Mapped.map IpAddr.v4).getD (.v6 v6) = .v6 ip := h
    cases hmapped : v6.toIpv4Mapped with
    | none =>
      rw [hmapped] at h
      rwa [← IpAddr.v6.inj h]
    | some v4 =>
      rw [hmapped, Option.map_some, Option.getD_some] at h
      cases h

def IpAddr.isIpv4 : IpAddr → Bool
  | .v4 _ => true
  | .v6 _ => false

/-! ### Printing -/

def decimal (n : ℕ) : List Char := (Nat.repr n).toList

/-- `{:x}` of a group. -/
def hex (g : UInt16) : List Char :=
  [Nat.digitChar (g.toNat / 4096), Nat.digitChar (g.toNat / 256 % 16),
    Nat.digitChar (g.toNat / 16 % 16)].dropWhile (fun c => decide (c = '0')) ++
  [Nat.digitChar (g.toNat % 16)]

def Ipv4Addr.chars (ip : Ipv4Addr) : List Char :=
  decimal ip.a.toNat ++ '.' :: decimal ip.b.toNat ++ '.' :: decimal ip.c.toNat ++
    '.' :: decimal ip.d.toNat

structure Span where
  start : ℕ
  len : ℕ

/-- The first of the longest runs of zeros: `i` is the place of the next group. -/
def longestZeros : ℕ → Span → Span → List UInt16 → Span
  | _, _, longest, [] => longest
  | i, current, longest, g :: gs =>
    if g = 0 then
      let current := ⟨if current.len = 0 then i else current.start, current.len + 1⟩
      longestZeros (i + 1) current (if longest.len < current.len then current else longest) gs
    else longestZeros (i + 1) ⟨0, 0⟩ longest gs

/-- `fmt_subslice`. -/
def groupChars : List UInt16 → List Char
  | [] => []
  | g :: gs => hex g ++ gs.flatMap fun g => ':' :: hex g

def Ipv6Addr.chars (ip : Ipv6Addr) : List Char :=
  match ip.toIpv4Mapped with
  | some v4 => "::ffff:".toList ++ v4.chars
  | none =>
    let zeros := longestZeros 0 ⟨0, 0⟩ ⟨0, 0⟩ ip.segments
    if 1 < zeros.len then
      groupChars (ip.segments.take zeros.start) ++ ':' :: ':' ::
        groupChars (ip.segments.drop (zeros.start + zeros.len))
    else groupChars ip.segments

def IpAddr.chars : IpAddr → List Char
  | .v4 ip => ip.chars
  | .v6 ip => ip.chars

/-! ### Reading -/

/-- A reader that fails leaves its input as it was (`read_atomically`). -/
abbrev Reader (α : Type) := List Char → Option (α × List Char)

/-- `parse_with`: all of the text has to be read. -/
def parseWith {α : Type} (p : Reader α) (text : List Char) : Option α :=
  (p text).bind fun r => if r.2 = [] then some r.1 else none

/-- One reader after the other. -/
def andThen {α β : Type} (p : Reader α) (f : α → Reader β) : Reader β := fun cs =>
  (p cs).bind fun r => f r.1 r.2

def yields {α : Type} (a : α) : Reader α := fun cs => some (a, cs)

def readGivenChar (target : Char) : Reader Unit
  | [] => none
  | c :: cs => if c = target then some ((), cs) else none

def readSeparator {α : Type} (sep : Char) (index : ℕ) (inner : Reader α) : Reader α :=
  if index = 0 then inner else andThen (readGivenChar sep) fun _ => inner

/-- `char::to_digit`. -/
def toDigit (radix : ℕ) (c : Char) : Option ℕ :=
  let n := c.toNat
  let digit :=
    if 48 ≤ n ∧ n ≤ 57 then n - 48
    else if 97 ≤ n ∧ n ≤ 122 then n - 87
    else if 65 ≤ n ∧ n ≤ 90 then n - 55
    else radix
  if digit < radix then some digit else none

def isDigit (radix : ℕ) (c : Char) : Bool := (toDigit radix c).isSome

/-- `read_number`, of a type whose values are below `bound`. A number that overflows
at one of its digits is too large as a whole. -/
def readNumber (bound radix : ℕ) (maxDigits : Option ℕ) (allowZeroPrefix : Bool) : Reader ℕ :=
  fun cs =>
    let digits := cs.takeWhile (isDigit radix)
    let value := digits.foldl (fun n c => n * radix + (toDigit radix c).getD 0) 0
    if (maxDigits.any fun most => decide (most < digits.length)) = true then none
    else if digits = [] then none
    else if allowZeroPrefix = false ∧ digits.head? = some '0' ∧ 1 < digits.length then none
    else if value < bound then some (value, cs.dropWhile (isDigit radix))
    else none

/-- A number of version 4's notation, which may not look octal. -/
def readOctet : Reader UInt8 :=
  andThen (readNumber 256 10 (some 3) false) fun n => yields (UInt8.ofNat n)

def readIpv4Addr : Reader Ipv4Addr :=
  andThen (readSeparator '.' 0 readOctet) fun a =>
  andThen (readSeparator '.' 1 readOctet) fun b =>
  andThen (readSeparator '.' 2 readOctet) fun c =>
  andThen (readSeparator '.' 3 readOctet) fun d =>
  yields ⟨a, b, c, d⟩

def readGroup : Reader UInt16 :=
  andThen (readNumber 65536 16 (some 4) true) fun n => yields (UInt16.ofNat n)

/-- `read_groups` from group `i` on, with so many left: the groups, whether the last two
of them are an address of version 4, and the rest of the input. -/
def readGroups : ℕ → ℕ → List Char → List UInt16 × Bool × List Char
  | _, 0, cs => ([], false, cs)
  | i, left + 1, cs =>
    match if 0 < left then readSeparator ':' i readIpv4Addr cs else none with
    | some (v4, rest) => (v4.groups, true, rest)
    | none =>
      match readSeparator ':' i readGroup cs with
      | some (g, rest) =>
        let more := readGroups (i + 1) left rest
        (g :: more.1, more.2)
      | none => ([], false, cs)

def readIpv6Addr : Reader Ipv6Addr := fun cs =>
  let head := readGroups 0 8 cs
  if head.1.length = 8 then some (.ofGroups head.1, head.2.2)
  else if head.2.1 = true then none
  else
    (andThen (readGivenChar ':') (fun _ => readGivenChar ':') head.2.2).bind fun r =>
      let tail := readGroups 0 (8 - (head.1.length + 1)) r.2
      some (.ofGroups (head.1 ++ List.replicate (8 - head.1.length - tail.1.length) 0 ++ tail.1),
        tail.2.2)

def readIpAddr : Reader IpAddr := fun cs =>
  (andThen readIpv4Addr (fun ip => yields (IpAddr.v4 ip)) cs).or
    (andThen readIpv6Addr (fun ip => yields (IpAddr.v6 ip)) cs)

def readPort : Reader UInt16 :=
  andThen (readGivenChar ':') fun _ =>
  andThen (readNumber 65536 10 none true) fun n => yields (UInt16.ofNat n)

/-- The scope, which may be left out. -/
def readScopeId : Reader UInt32 := fun cs =>
  (andThen (readGivenChar '%') (fun _ =>
    andThen (readNumber 4294967296 10 none true) fun n => yields (UInt32.ofNat n)) cs).or
    (some (0, cs))

def readSocketAddrV4 : Reader SocketAddr :=
  andThen readIpv4Addr fun ip => andThen readPort fun port => yields (.v4 ip port)

def readSocketAddrV6 : Reader SocketAddr :=
  andThen (readGivenChar '[') fun _ =>
  andThen readIpv6Addr fun ip =>
  andThen readScopeId fun scopeId =>
  andThen (readGivenChar ']') fun _ =>
  andThen readPort fun port => yields (.v6 ip port scopeId)

def readSocketAddr : Reader SocketAddr := fun cs =>
  (readSocketAddrV4 cs).or (readSocketAddrV6 cs)

/-- `str::parse::<IpAddr>`. -/
def parseIpAddr : List Char → Option IpAddr := parseWith readIpAddr

/-- `str::parse::<SocketAddr>`. -/
def parseSocketAddr : List Char → Option SocketAddr := parseWith readSocketAddr

example : parseSocketAddr "[2001:db8::1]:9847".toList =
    some (.v6 (.ofGroups [0x2001, 0xdb8, 0, 0, 0, 0, 0, 1]) 9847 0) := by decide +kernel

example : (IpAddr.v6 (.ofGroups [0x2001, 0xdb8, 0, 0, 1, 0, 0, 1])).chars = "2001:db8::1:0:0:1".toList := by
  decide +kernel

example : parseIpAddr "::ffff:192.168.1.5".toList =
    some (.v6 (.ofGroups [0, 0, 0, 0, 0, 0xffff, 0xc0a8, 0x105])) := by decide +kernel

example : parseSocketAddr "192.168.01.5:80".toList = none := by decide +kernel

/-! ### What a reader takes -/

section

variable {α β : Type} {p : Reader α} {f : α → Reader β} {P : Char → Prop} {cs rest sfx : List Char}

/-- The reader takes characters off the front, each of which is one of these. -/
def Takes (P : Char → Prop) (p : Reader α) : Prop :=
  ∀ cs a rest, p cs = some (a, rest) → ∃ used, cs = used ++ rest ∧ ∀ c ∈ used, P c

/-- The reader does the same when there is more to come. -/
def Extends (sfx : List Char) (p : Reader α) : Prop :=
  ∀ cs a rest, p cs = some (a, rest) → p (cs ++ sfx) = some (a, rest ++ sfx)

theorem andThen_eq_some {r : β × List Char} :
    andThen p f cs = some r ↔ ∃ a rest, p cs = some (a, rest) ∧ f a rest = some r := by
  unfold andThen
  rw [Option.bind_eq_some_iff]
  constructor
  · intro ⟨x, hx, hr⟩
    exact ⟨x.1, x.2, hx, hr⟩
  · intro ⟨a, rest, hp, hr⟩
    exact ⟨(a, rest), hp, hr⟩

theorem parseWith_eq_some {a : α} : parseWith p cs = some a ↔ p cs = some (a, []) := by
  unfold parseWith
  cases p cs with
  | none => simp
  | some r =>
    obtain ⟨b, rest⟩ := r
    by_cases hrest : rest = []
    · simp [hrest]
    · simp [hrest]

theorem Takes.yields (a : α) : Takes P (yields a) := by
  intro cs b rest h
  obtain ⟨-, rfl⟩ := Prod.mk.inj (Option.some.inj h)
  exact ⟨[], rfl, by simp⟩

theorem Takes.andThen (hp : Takes P p) (hf : ∀ a, Takes P (f a)) : Takes P (andThen p f) := by
  intro cs b rest h
  obtain ⟨a, mid, hfirst, hsecond⟩ := andThen_eq_some.mp h
  obtain ⟨used, rfl, hused⟩ := hp cs a mid hfirst
  obtain ⟨more, rfl, hmore⟩ := hf a mid b rest hsecond
  refine ⟨used ++ more, by rw [List.append_assoc], ?_⟩
  intro c hc
  apply (List.mem_append.mp hc).elim
  · exact hused c
  · exact hmore c

theorem readGivenChar_eq_some {target : Char} {r : Unit × List Char} :
    readGivenChar target cs = some r ↔ cs = target :: r.2 := by
  cases cs with
  | nil => simp [readGivenChar]
  | cons c cs =>
    by_cases hc : c = target
    · rw [readGivenChar, if_pos hc, hc]
      constructor
      · intro h
        rw [← Option.some.inj h]
      · intro h
        rw [(List.cons.inj h).2]
    · simp [readGivenChar, hc]

theorem readSeparator_cons (sep : Char) (i : ℕ) (p : Reader α) (cs : List Char) :
    readSeparator sep (i + 1) p (sep :: cs) = p cs := by
  unfold readSeparator
  rw [if_neg (Nat.succ_ne_zero i)]
  cases h : p cs with
  | none => simp [andThen, readGivenChar, h]
  | some r => simp [andThen, readGivenChar, h]

theorem Takes.readGivenChar {target : Char} (h : P target) : Takes P (readGivenChar target) := by
  intro cs a rest hread
  exact ⟨[target], readGivenChar_eq_some.mp hread, by simpa using h⟩

theorem Takes.readSeparator {sep : Char} (h : P sep) (hp : Takes P p) (i : ℕ) :
    Takes P (readSeparator sep i p) := by
  unfold Net.readSeparator
  split_ifs
  · exact hp
  · exact (Takes.readGivenChar h).andThen fun _ => hp

/-- What `readNumber` makes of its digits. -/
theorem readNumber_eq_some {bound radix n : ℕ} {most : Option ℕ} {zero : Bool}
    (h : readNumber bound radix most zero cs = some (n, rest)) :
    rest = cs.dropWhile (isDigit radix) ∧ n < bound := by
  unfold readNumber at h
  dsimp only at h
  split_ifs at h with _ _ _ hlt
  obtain ⟨rfl, rfl⟩ := Prod.mk.inj (Option.some.inj h)
  exact ⟨rfl, hlt⟩

theorem Takes.readNumber {bound radix : ℕ} {most : Option ℕ} {zero : Bool}
    (h : ∀ c, isDigit radix c = true → P c) : Takes P (readNumber bound radix most zero) := by
  intro cs n rest hread
  obtain ⟨rfl, -⟩ := readNumber_eq_some hread
  refine ⟨cs.takeWhile (isDigit radix), (List.takeWhile_append_dropWhile ..).symm, ?_⟩
  intro c hc
  exact h c (List.mem_takeWhile_imp hc)

theorem Extends.yields (a : α) : Extends sfx (yields a) := by
  intro cs b rest h
  obtain ⟨rfl, rfl⟩ := Prod.mk.inj (Option.some.inj h)
  rfl

theorem Extends.andThen (hp : Extends sfx p) (hf : ∀ a, Extends sfx (f a)) :
    Extends sfx (andThen p f) := by
  intro cs b rest h
  obtain ⟨a, mid, hfirst, hsecond⟩ := andThen_eq_some.mp h
  exact andThen_eq_some.mpr ⟨a, mid ++ sfx, hp cs a mid hfirst, hf a mid b rest hsecond⟩

theorem Extends.readGivenChar (target : Char) : Extends sfx (readGivenChar target) := by
  intro cs a rest h
  rw [readGivenChar_eq_some] at h ⊢
  rw [h, List.cons_append]

theorem Extends.readSeparator (sep : Char) (hp : Extends sfx p) (i : ℕ) :
    Extends sfx (readSeparator sep i p) := by
  unfold Net.readSeparator
  split_ifs
  · exact hp
  · exact (Extends.readGivenChar sep).andThen fun _ => hp

/-- A number ends where there is no digit. -/
theorem Extends.readNumber {bound radix : ℕ} {most : Option ℕ} {zero : Bool}
    (h : ∀ c ∈ sfx.head?, isDigit radix c = false) :
    Extends sfx (readNumber bound radix most zero) := by
  intro cs n rest hread
  have hnone : sfx.takeWhile (isDigit radix) = [] ∧ sfx.dropWhile (isDigit radix) = sfx := by
    cases sfx with
    | nil => exact ⟨rfl, rfl⟩
    | cons c sfx =>
      have hc := h c rfl
      exact ⟨by rw [List.takeWhile_cons, hc]; rfl, by rw [List.dropWhile_cons, hc]; rfl⟩
  have hdigits : (cs ++ sfx).takeWhile (isDigit radix) = cs.takeWhile (isDigit radix) := by
    rw [List.takeWhile_append, hnone.1]
    split_ifs with hall
    · rw [List.append_nil, (List.takeWhile_prefix _).eq_of_length hall]
    · rfl
  have hrest : (cs ++ sfx).dropWhile (isDigit radix) = cs.dropWhile (isDigit radix) ++ sfx := by
    rw [List.dropWhile_append, hnone.2]
    split_ifs with hempty
    · rw [List.isEmpty_iff.mp hempty, List.nil_append]
    · rfl
  obtain ⟨rfl, -⟩ := readNumber_eq_some hread
  unfold Net.readNumber at hread ⊢
  dsimp only at hread ⊢
  rw [hdigits, hrest]
  split_ifs at hread with h1 h2 h3 h4
  rw [if_neg h1, if_neg h2, if_neg h3, if_pos h4, (Prod.mk.inj (Option.some.inj hread)).1]

end

/-! ### Addresses of version 4 -/

section

variable {cs rest sfx : List Char}

theorem digit_ne_colon (c : Char) (hc : isDigit 10 c = true) : c ≠ ':' := by
  intro heq
  rw [heq] at hc
  exact absurd hc (by decide)

theorem takes_readOctet {P : Char → Prop} (h : ∀ c, isDigit 10 c = true → P c) : Takes P readOctet :=
  (Takes.readNumber h).andThen fun n => .yields (UInt8.ofNat n)

theorem takes_readIpv4Addr {P : Char → Prop} (h : ∀ c, isDigit 10 c = true → P c) (hdot : P '.') :
    Takes P readIpv4Addr := by
  have hoctet : ∀ i, Takes P (readSeparator '.' i readOctet) :=
    Takes.readSeparator hdot (takes_readOctet h)
  exact (hoctet 0).andThen fun a => (hoctet 1).andThen fun b => (hoctet 2).andThen fun c =>
    (hoctet 3).andThen fun d => .yields _

theorem takes_readPort {P : Char → Prop} (h : ∀ c, isDigit 10 c = true → P c) (hcolon : P ':') :
    Takes P readPort :=
  (Takes.readGivenChar hcolon).andThen fun _ => (Takes.readNumber h).andThen fun _ => .yields _

theorem extends_readOctet (h : ∀ c ∈ sfx.head?, isDigit 10 c = false) : Extends sfx readOctet :=
  (Extends.readNumber h).andThen fun n => .yields (UInt8.ofNat n)

theorem extends_readIpv4Addr (h : ∀ c ∈ sfx.head?, isDigit 10 c = false) :
    Extends sfx readIpv4Addr := by
  have hoctet : ∀ i, Extends sfx (readSeparator '.' i readOctet) :=
    Extends.readSeparator '.' (extends_readOctet h)
  exact (hoctet 0).andThen fun a => (hoctet 1).andThen fun b => (hoctet 2).andThen fun c =>
    (hoctet 3).andThen fun d => .yields _

/-- A byte is read back as it is printed. -/
theorem readOctet_decimal (a : UInt8) (h : ∀ c ∈ sfx.head?, isDigit 10 c = false) :
    readOctet (decimal a.toNat ++ sfx) = some (a, sfx) := by
  have hall : ∀ n : Fin 256, readOctet (Nat.toDigits 10 n.val) = some (UInt8.ofNat n.val, []) := by
    decide +kernel
  have hread := hall ⟨a.toNat, a.toNat_lt⟩
  rw [UInt8.ofNat_toNat, ← Nat.toList_repr] at hread
  exact extends_readOctet h (decimal a.toNat) a [] hread

theorem readSeparator_decimal (i : ℕ) (a : UInt8) (h : ∀ c ∈ sfx.head?, isDigit 10 c = false) :
    readSeparator '.' (i + 1) readOctet ('.' :: (decimal a.toNat ++ sfx)) = some (a, sfx) :=
  (readSeparator_cons '.' i readOctet _).trans (readOctet_decimal a h)

/-- **An address of version 4 is read back as it is printed.** -/
theorem readIpv4Addr_chars (ip : Ipv4Addr) (h : ∀ c ∈ sfx.head?, isDigit 10 c = false) :
    readIpv4Addr (ip.chars ++ sfx) = some (ip, sfx) := by
  have hdot : ∀ more, ∀ c ∈ ('.' :: more).head?, isDigit 10 c = false := by
    intro more c hc
    rw [← Option.some.inj hc]
    decide
  simp only [Ipv4Addr.chars, List.append_assoc, List.cons_append]
  unfold readIpv4Addr
  have hd := readSeparator_decimal 2 ip.d h
  have hc := readSeparator_decimal 1 ip.c (hdot (decimal ip.d.toNat ++ sfx))
  have hb := readSeparator_decimal 0 ip.b (hdot (decimal ip.c.toNat ++ '.' :: (decimal ip.d.toNat ++ sfx)))
  have ha := readOctet_decimal ip.a (hdot (decimal ip.b.toNat ++ '.' :: (decimal ip.c.toNat ++
    '.' :: (decimal ip.d.toNat ++ sfx))))
  have hfirst : readSeparator '.' 0 readOctet = readOctet := if_pos rfl
  rw [hfirst]
  refine andThen_eq_some.mpr ⟨ip.a, _, ha, ?_⟩
  exact andThen_eq_some.mpr ⟨ip.b, _, hb, andThen_eq_some.mpr ⟨ip.c, _, hc,
    andThen_eq_some.mpr ⟨ip.d, sfx, hd, rfl⟩⟩⟩

/-- With a port behind it the text of an address of version 4 is a socket address. -/
theorem parseSocketAddr_append {ip : Ipv4Addr} {port : UInt16} {text : List Char}
    (h : readIpv4Addr text = some (ip, [])) (hport : readPort sfx = some (port, [])) :
    parseSocketAddr (text ++ sfx) = some (.v4 ip port) := by
  have hcolon : ∀ c ∈ sfx.head?, isDigit 10 c = false := by
    obtain ⟨_, rest, hhead, -⟩ := andThen_eq_some.mp hport
    rw [readGivenChar_eq_some.mp hhead]
    intro c hc
    rw [← Option.some.inj hc]
    decide
  have hread := extends_readIpv4Addr hcolon text ip [] h
  have hv4 : readSocketAddrV4 (text ++ sfx) = some (.v4 ip port, []) :=
    andThen_eq_some.mpr ⟨ip, sfx, hread, andThen_eq_some.mpr ⟨port, [], hport, rfl⟩⟩
  unfold parseSocketAddr
  rw [parseWith_eq_some, readSocketAddr, hv4, Option.some_or]

/-- What a socket address of version 4 looks like. -/
theorem text_of_readSocketAddrV4 {text : List Char} {addr : SocketAddr}
    (h : readSocketAddrV4 text = some (addr, [])) : text.count ':' = 1 ∧
      ∀ c ∈ text, isDigit 10 c = true ∨ c = '.' ∨ c = ':' := by
  constructor
  · obtain ⟨ip, mid, hip, hrest⟩ := andThen_eq_some.mp h
    obtain ⟨port, last, hport, hlast⟩ := andThen_eq_some.mp hrest
    obtain ⟨-, rfl⟩ := Prod.mk.inj (Option.some.inj hlast)
    obtain ⟨used, rfl, hused⟩ := takes_readIpv4Addr digit_ne_colon (by decide) text ip mid hip
    obtain ⟨_, digits, hhead, hnumber⟩ := andThen_eq_some.mp hport
    obtain ⟨n, last, hnumber, hlast⟩ := andThen_eq_some.mp hnumber
    obtain ⟨-, rfl⟩ := Prod.mk.inj (Option.some.inj hlast)
    obtain ⟨more, rfl, hmore⟩ := Takes.readNumber digit_ne_colon digits n [] hnumber
    rw [readGivenChar_eq_some.mp hhead, List.append_nil, List.count_append, List.count_cons_self,
      List.count_eq_zero.mpr fun hmem => hused _ hmem rfl,
      List.count_eq_zero.mpr fun hmem => hmore _ hmem rfl]
  · have hip : Takes (fun c => isDigit 10 c = true ∨ c = '.' ∨ c = ':') readIpv4Addr :=
      takes_readIpv4Addr (fun c => Or.inl) (Or.inr (Or.inl rfl))
    have hport : Takes (fun c => isDigit 10 c = true ∨ c = '.' ∨ c = ':') readPort :=
      takes_readPort (fun c => Or.inl) (Or.inr (Or.inr rfl))
    obtain ⟨used, htext, hused⟩ := (hip.andThen fun ip => hport.andThen fun port =>
      .yields (SocketAddr.v4 ip port)) text addr [] h
    rwa [htext, List.append_nil]

/-- **What is no socket address**: a text that does not begin with a bracket, and is none of
version 4. -/
theorem parseSocketAddr_eq_none {text : List Char} (hbracket : text.head? ≠ some '[')
    (hv4 : ∀ addr, readSocketAddrV4 text ≠ some (addr, [])) : parseSocketAddr text = none := by
  rw [Option.eq_none_iff_forall_not_mem]
  intro addr hparse
  apply (Option.or_eq_some_iff.mp (parseWith_eq_some.mp hparse)).elim
  · exact hv4 addr
  · intro hv6
    obtain ⟨_, mid, hhead, -⟩ := andThen_eq_some.mp hv6.2
    rw [readGivenChar_eq_some.mp hhead] at hbracket
    exact hbracket rfl

theorem parseSocketAddr_colon {text : List Char} (hbracket : text.head? ≠ some '[')
    (hcolon : text.count ':' ≠ 1) : parseSocketAddr text = none :=
  parseSocketAddr_eq_none hbracket fun _ h => hcolon (text_of_readSocketAddrV4 h).1

theorem parseSocketAddr_char {text : List Char} {c : Char} (hbracket : text.head? ≠ some '[')
    (hc : c ∈ text) (hdigit : isDigit 10 c = false) (hdot : c ≠ '.') (hcolon : c ≠ ':') :
    parseSocketAddr text = none := by
  refine parseSocketAddr_eq_none hbracket fun addr h => ?_
  have hall := (text_of_readSocketAddrV4 h).2 c hc
  rw [hdigit] at hall
  simp [hdot, hcolon] at hall

/-- The text of an address of version 4 has no colon. -/
theorem readIpv4Addr_of_parseIpAddr {text : List Char} {ip : Ipv4Addr}
    (h : parseIpAddr text = some (.v4 ip)) : readIpv4Addr text = some (ip, []) ∧ ':' ∉ text := by
  have hread : readIpv4Addr text = some (ip, []) := by
    apply (Option.or_eq_some_iff.mp (parseWith_eq_some.mp h)).elim
    · intro hv4
      obtain ⟨v4, mid, hip, hlast⟩ := andThen_eq_some.mp hv4
      obtain ⟨heq, rfl⟩ := Prod.mk.inj (Option.some.inj hlast)
      rwa [← IpAddr.v4.inj heq]
    · intro hv6
      obtain ⟨v6, mid, -, hlast⟩ := andThen_eq_some.mp hv6.2
      cases (Prod.mk.inj (Option.some.inj hlast)).1
  obtain ⟨used, htext, hused⟩ := takes_readIpv4Addr digit_ne_colon (by decide) text ip [] hread
  refine ⟨hread, fun hmem => ?_⟩
  rw [htext, List.append_nil] at hmem
  exact hused _ hmem rfl

end

/-! ### Addresses of version 6 -/

section

variable {cs rest : List Char} {c : Char}

theorem readNumber_of_not_digit {bound radix : ℕ} {most : Option ℕ} {zero : Bool}
    (h : isDigit radix c = false) : readNumber bound radix most zero (c :: cs) = none := by
  unfold readNumber
  simp only [List.takeWhile_cons, h, Bool.false_eq_true, ite_false, if_true]
  split_ifs
  · rfl
  · rfl

theorem readIpv4Addr_of_not_digit (h : isDigit 10 c = false) : readIpv4Addr (c :: cs) = none := by
  simp [readIpv4Addr, readSeparator, andThen, readOctet, readNumber_of_not_digit h]

theorem readGroup_of_not_digit (h : isDigit 16 c = false) : readGroup (c :: cs) = none := by
  simp [readGroup, andThen, readNumber_of_not_digit h]

/-- No address begins with a bracket. -/
theorem readIpAddr_bracket : readIpAddr ('[' :: cs) = none := by
  have hv4 : readIpv4Addr ('[' :: cs) = none := readIpv4Addr_of_not_digit (by decide)
  have hgroup : readGroup ('[' :: cs) = none := readGroup_of_not_digit (by decide)
  have hgroups : readGroups 0 8 ('[' :: cs) = ([], false, '[' :: cs) := by
    simp [readGroups, readSeparator, hv4, hgroup]
  have hv6 : readIpv6Addr ('[' :: cs) = none := by
    simp [readIpv6Addr, hgroups, andThen, readGivenChar]
  simp [readIpAddr, andThen, hv4, hv6]

/-- After the first group a colon comes first. -/
theorem readSeparator_colon {α : Type} {p : Reader α} {i : ℕ} {r : α × List Char}
    (h : readSeparator ':' (i + 1) p cs = some r) : ':' ∈ cs := by
  unfold readSeparator at h
  rw [if_neg (Nat.succ_ne_zero i)] at h
  obtain ⟨_, mid, hhead, -⟩ := andThen_eq_some.mp h
  rw [readGivenChar_eq_some.mp hhead]
  exact List.mem_cons_self

theorem Takes.suffix {α : Type} {p : Reader α} {P : Char → Prop} (hp : Takes P p) {a : α}
    (h : p cs = some (a, rest)) : rest <:+ cs := by
  obtain ⟨used, rfl, -⟩ := hp cs a rest h
  exact List.suffix_append used rest

theorem takes_groups : Takes (fun _ => True) readIpv4Addr ∧ Takes (fun _ => True) readGroup :=
  ⟨takes_readIpv4Addr (fun _ _ => trivial) trivial,
    (Takes.readNumber fun _ _ => trivial).andThen fun _ => .yields _⟩

theorem readGroups_suffix (i left : ℕ) (cs : List Char) : (readGroups i left cs).2.2 <:+ cs := by
  induction left generalizing i cs with
  | zero => exact List.suffix_refl cs
  | succ left ih =>
    unfold readGroups
    split
    · next v4 rest h =>
      split_ifs at h
      exact (takes_groups.1.readSeparator trivial i).suffix h
    · split
      · next g rest h =>
        exact (ih (i + 1) rest).trans ((takes_groups.2.readSeparator trivial i).suffix h)
      · exact List.suffix_refl cs

theorem readGroups_colon {i left : ℕ} (h : (readGroups (i + 1) left cs).1 ≠ []) : ':' ∈ cs := by
  cases left with
  | zero => exact absurd rfl h
  | succ left =>
    unfold readGroups at h
    split at h
    · next v4 rest hread =>
      split_ifs at hread
      exact readSeparator_colon hread
    · split at h
      · next g rest hread => exact readSeparator_colon hread
      · exact absurd rfl h

/-- **An address of version 6 has a colon.** -/
theorem colon_mem_of_readIpv6Addr {ip : Ipv6Addr} (h : readIpv6Addr cs = some (ip, rest)) :
    ':' ∈ cs := by
  unfold readIpv6Addr at h
  dsimp only at h
  split_ifs at h with hall hv4
  · -- eight groups: there are seven after the first one
    unfold readGroups at hall
    split at hall
    · cases hall
    · split at hall
      · next g rest hread =>
        have hmore : (readGroups 1 7 rest).1 ≠ [] := by
          intro hnil
          rw [List.length_cons, hnil] at hall
          cases hall
        exact (takes_groups.2.readSeparator trivial 0).suffix hread |>.subset (readGroups_colon hmore)
      · cases hall
  · obtain ⟨r, hcolons, -⟩ := Option.bind_eq_some_iff.mp h
    obtain ⟨_, mid, hhead, -⟩ := andThen_eq_some.mp hcolons
    apply (readGroups_suffix 0 8 cs).subset
    rw [readGivenChar_eq_some.mp hhead]
    exact List.mem_cons_self

/-- **Its text is no socket address.** -/
theorem parseSocketAddr_of_v6 {text : List Char} {ip : Ipv6Addr}
    (h : parseIpAddr text = some (.v6 ip)) : ':' ∈ text ∧ parseSocketAddr text = none := by
  have hread := parseWith_eq_some.mp h
  have hboth := Option.or_eq_some_iff.mp hread
  have hv4 : andThen readIpv4Addr (fun ip => yields (IpAddr.v4 ip)) text = none := by
    apply hboth.elim
    · intro hv4
      obtain ⟨v4, mid, -, hlast⟩ := andThen_eq_some.mp hv4
      cases (Prod.mk.inj (Option.some.inj hlast)).1
    · exact And.left
  have hv6 : ∃ mid, readIpv6Addr text = some (ip, mid) := by
    rw [hv4] at hboth
    obtain ⟨v6, mid, hv6, hlast⟩ := andThen_eq_some.mp (hboth.resolve_left (by simp)).2
    obtain ⟨heq, -⟩ := Prod.mk.inj (Option.some.inj hlast)
    rw [IpAddr.v6.inj heq] at hv6
    exact ⟨mid, hv6⟩
  obtain ⟨mid, hv6⟩ := hv6
  refine ⟨colon_mem_of_readIpv6Addr hv6, ?_⟩
  rw [Option.eq_none_iff_forall_not_mem]
  intro addr hparse
  apply (Option.or_eq_some_iff.mp (parseWith_eq_some.mp hparse)).elim
  · intro hsocket
    obtain ⟨v4, mid, hip, -⟩ := andThen_eq_some.mp hsocket
    simp [andThen, hip, yields] at hv4
  · intro hsocket
    obtain ⟨_, mid, hhead, -⟩ := andThen_eq_some.mp hsocket.2
    rw [readGivenChar_eq_some.mp hhead, readIpAddr_bracket] at hread
    cases hread

theorem hex_ne_bracket {g : UInt16} (h : c ∈ hex g) : c ≠ '[' := by
  have hdigit : ∀ m < 16, Nat.digitChar m ≠ '[' := by decide
  have hlt : g.toNat < 65536 := g.toNat_lt
  unfold hex at h
  apply (List.mem_append.mp h).elim
  · intro hfirst
    have hmem := (List.dropWhile_sublist _).subset hfirst
    simp only [List.mem_cons, List.not_mem_nil, or_false] at hmem
    obtain rfl | rfl | rfl := hmem
    · exact hdigit _ (by omega)
    · exact hdigit _ (by omega)
    · exact hdigit _ (by omega)
  · intro hlast
    rw [List.mem_singleton.mp hlast]
    exact hdigit _ (by omega)

theorem groupChars_ne_bracket {gs : List UInt16} (h : c ∈ groupChars gs) : c ≠ '[' := by
  cases gs with
  | nil => simp [groupChars] at h
  | cons g gs =>
    apply (List.mem_append.mp h).elim
    · exact hex_ne_bracket
    · intro htail
      obtain ⟨g', -, hc⟩ := List.mem_flatMap.mp htail
      apply (List.mem_cons.mp hc).elim
      · intro heq
        rw [heq]
        decide
      · exact hex_ne_bracket

theorem chars_ne_bracket {ip : Ipv6Addr} (hip : ip.toIpv4Mapped = none) (h : c ∈ ip.chars) :
    c ≠ '[' := by
  unfold Ipv6Addr.chars at h
  rw [hip] at h
  dsimp only at h
  split_ifs at h
  · simp only [List.mem_append, List.mem_cons] at h
    obtain hhead | rfl | rfl | htail := h
    · exact groupChars_ne_bracket hhead
    · decide
    · decide
    · exact groupChars_ne_bracket htail
  · exact groupChars_ne_bracket h

theorem colon_mem_chars {ip : Ipv6Addr} (hip : ip.toIpv4Mapped = none) : ':' ∈ ip.chars := by
  have hlen := ip.length_eq
  unfold Ipv6Addr.chars
  rw [hip]
  dsimp only
  split_ifs
  · simp
  · match hsegments : ip.segments with
    | [] => simp [hsegments] at hlen
    | [_] => simp [hsegments] at hlen
    | g :: g' :: gs => simp [groupChars]

/-- **An address of version 6 and a port are no socket address** without the brackets. -/
theorem parseSocketAddr_v6_append {ip : Ipv6Addr} (hip : ip.toIpv4Mapped = none) (port : List Char) :
    parseSocketAddr (ip.chars ++ ':' :: port) = none := by
  have hcolon := colon_mem_chars hip
  apply parseSocketAddr_colon
  · intro hhead
    obtain ⟨c, more, hchars⟩ := List.exists_cons_of_ne_nil (List.ne_nil_of_mem hcolon)
    rw [hchars, List.cons_append, List.head?_cons, Option.some.injEq] at hhead
    apply chars_ne_bracket hip (c := c) _ hhead
    rw [hchars]
    exact List.mem_cons_self
  · have hpos := List.count_pos_iff.mpr hcolon
    rw [List.count_append, List.count_cons_self]
    omega

end

end Net
