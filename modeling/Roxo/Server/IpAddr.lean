import Mathlib.Data.UInt

/-!
# IP addresses

`std::net::IpAddr` as far as the server looks at it, and how the standard library parses one.
-/

namespace Roxo

structure Ipv4Addr where
  a : UInt8
  b : UInt8
  c : UInt8
  d : UInt8
  deriving DecidableEq, Repr

structure Ipv6Addr where
  a : UInt16
  b : UInt16
  c : UInt16
  d : UInt16
  e : UInt16
  f : UInt16
  g : UInt16
  h : UInt16
  deriving DecidableEq, Repr

inductive IpAddr where
  | v4 (addr : Ipv4Addr)
  | v6 (addr : Ipv6Addr)
  deriving DecidableEq, Repr

namespace Ipv4Addr

def unspecified : Ipv4Addr := ⟨0, 0, 0, 0⟩

def isLoopback (addr : Ipv4Addr) : Bool := addr.a = 127

def isPrivate (addr : Ipv4Addr) : Bool :=
  addr.a = 10 || (addr.a = 172 && addr.b &&& 0xf0 = 16) || (addr.a = 192 && addr.b = 168)

def isLinkLocal (addr : Ipv4Addr) : Bool := addr.a = 169 && addr.b = 254

end Ipv4Addr

namespace Ipv6Addr

def unspecified : Ipv6Addr := ⟨0, 0, 0, 0, 0, 0, 0, 0⟩

def localhost : Ipv6Addr := ⟨0, 0, 0, 0, 0, 0, 0, 1⟩

def toIpv4Mapped (addr : Ipv6Addr) : Option Ipv4Addr :=
  if addr.a = 0 ∧ addr.b = 0 ∧ addr.c = 0 ∧ addr.d = 0 ∧ addr.e = 0 ∧ addr.f = 0xffff then
    some ⟨(addr.g >>> 8).toUInt8, addr.g.toUInt8, (addr.h >>> 8).toUInt8, addr.h.toUInt8⟩
  else none

def ofSegments : List UInt16 → Option Ipv6Addr
  | [a, b, c, d, e, f, g, h] => some ⟨a, b, c, d, e, f, g, h⟩
  | _ => none

end Ipv6Addr

namespace IpAddr

def isLoopback : IpAddr → Bool
  | v4 addr => addr.isLoopback
  | v6 addr => addr = .localhost

def isUnspecified : IpAddr → Bool
  | v4 addr => addr = .unspecified
  | v6 addr => addr = .unspecified

/-! ## Parsing -/

/-- What a parser has read, and what is left. -/
abbrev Parser (α : Type) := List Char → Option (α × List Char)

/-- `char::to_digit`. -/
def toDigit (radix : ℕ) (c : Char) : Option ℕ :=
  let digit :=
    if '0' ≤ c ∧ c ≤ '9' then some (c.toNat - '0'.toNat)
    else if 'a' ≤ c ∧ c ≤ 'z' then some (c.toNat - 'a'.toNat + 10)
    else if 'A' ≤ c ∧ c ≤ 'Z' then some (c.toNat - 'A'.toNat + 10)
    else none
  digit.filter (· < radix)

def readDigits (radix : ℕ) : List Char → List ℕ × List Char
  | [] => ([], [])
  | c :: rest =>
    match toDigit radix c with
    | some digit =>
      let (digits, rest) := readDigits radix rest
      (digit :: digits, rest)
    | none => ([], c :: rest)

/-- A number below the limit. -/
def readNumber (radix maxDigits limit : ℕ) (allowZeroPrefix : Bool) : Parser ℕ := fun input =>
  let (digits, rest) := readDigits radix input
  let result := digits.foldl (fun result digit => result * radix + digit) 0
  if digits = [] ∨ maxDigits < digits.length ∨ limit ≤ result then none
  else if allowZeroPrefix = false ∧ digits.head? = some 0 ∧ 1 < digits.length then none
  else some (result, rest)

/-- The separator stands before every item but the first. -/
def readSeparator {α : Type} (separator : Char) (index : ℕ) (inner : Parser α) : Parser α :=
  fun input =>
    if index = 0 then inner input
    else
      match input with
      | c :: rest => if c = separator then inner rest else none
      | [] => none

def readIpv4Addr : Parser Ipv4Addr := fun input => do
  let octet (index : ℕ) := readSeparator '.' index (readNumber 10 3 256 false)
  let (a, rest) ← octet 0 input
  let (b, rest) ← octet 1 rest
  let (c, rest) ← octet 2 rest
  let (d, rest) ← octet 3 rest
  some (⟨.ofNat a, .ofNat b, .ofNat c, .ofNat d⟩, rest)

/-- Groups from the one at `index` on while there is room for `room` of them, and whether an IPv4
address ends them. -/
def readGroups (room index : ℕ) (input : List Char) : (List UInt16 × Bool) × List Char :=
  match room with
  | 0 => (([], false), input)
  | room + 1 =>
    match if room = 0 then none else readSeparator ':' index readIpv4Addr input with
    | some (addr, rest) =>
      (([addr.a.toUInt16 <<< 8 ||| addr.b.toUInt16, addr.c.toUInt16 <<< 8 ||| addr.d.toUInt16],
        true), rest)
    | none =>
      match readSeparator ':' index (readNumber 16 4 65536 true) input with
      | some (group, rest) =>
        let ((groups, ipv4), rest) := readGroups room (index + 1) rest
        ((.ofNat group :: groups, ipv4), rest)
      | none => (([], false), input)

def readIpv6Addr : Parser Ipv6Addr := fun input =>
  let ((head, headIpv4), rest) := readGroups 8 0 input
  if head.length = 8 then (Ipv6Addr.ofSegments head).map (·, rest)
  else if headIpv4 then none
  else
    match rest with
    | ':' :: ':' :: rest =>
      let ((tail, _), rest) := readGroups (8 - (head.length + 1)) 0 rest
      let zeros := List.replicate (8 - head.length - tail.length) 0
      (Ipv6Addr.ofSegments (head ++ zeros ++ tail)).map (·, rest)
    | _ => none

def readIpAddr : Parser IpAddr := fun input =>
  match readIpv4Addr input with
  | some (addr, rest) => some (.v4 addr, rest)
  | none => (readIpv6Addr input).map fun (addr, rest) => (.v6 addr, rest)

/-- `str::parse`. Nothing may be left. -/
def parse (s : String) : Option IpAddr :=
  match readIpAddr s.toList with
  | some (addr, []) => some addr
  | _ => none

example : parse "fe80::1" = some (.v6 ⟨0xfe80, 0, 0, 0, 0, 0, 0, 1⟩) := by decide +kernel

example : parse "::ffff:127.0.0.1" = some (.v6 ⟨0, 0, 0, 0, 0, 0xffff, 0x7f00, 1⟩) := by
  decide +kernel

end IpAddr

end Roxo
