import Mathlib.Algebra.Group.Int.Defs

/-!
# Texts

The few texts the scheduler takes apart: a decimal version number, the parts of
a key between slashes, and a dotted IPv4 address. All three follow the parsers
of the source language's standard library; they work on the list of characters.
-/

namespace Inferx

/-- The value of a decimal digit. -/
def digit? (c : Char) : Option ℕ :=
  if '0' ≤ c ∧ c ≤ '9' then some (c.toNat - '0'.toNat) else none

/-- A non-empty run of decimal digits. -/
def parseDigits : List Char → Option ℕ
  | [] => none
  | cs => cs.foldlM (fun n c => (digit? c).map (n * 10 + ·)) 0

/-- `str::parse::<i64>`: an optional sign, digits, and the value in range. -/
def parseI64 (cs : List Char) : Option ℤ := do
  let n : ℤ ← match cs with
    | '-' :: ds => (parseDigits ds).map fun n => -(n : ℤ)
    | '+' :: ds => (parseDigits ds).map fun n => (n : ℤ)
    | ds => (parseDigits ds).map fun n => (n : ℤ)
  if -(2 ^ 63) ≤ n ∧ n < 2 ^ 63 then some n else none

/-- One octet of an address: one to three digits, no leading zero, below 256. -/
def parseOctet (cs : List Char) : Option ℕ := do
  let n ← parseDigits cs
  if cs.length ≤ 3 ∧ (cs.length = 1 ∨ cs.head? ≠ some '0') ∧ n < 256 then some n else none

/-- `IpAddress::FromString`: a dotted IPv4 address as a 32-bit number. -/
def parseIpv4 (text : String) : Option UInt32 :=
  match text.toList.splitOn '.' with
  | [a, b, c, d] => do
    let a ← parseOctet a
    let b ← parseOctet b
    let c ← parseOctet c
    let d ← parseOctet d
    return UInt32.ofNat (((a * 256 + b) * 256 + c) * 256 + d)
  | _ => none


end Inferx
