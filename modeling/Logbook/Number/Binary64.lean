/-
Binary floating point numbers of 64 bits, as bit patterns.

A number is kept as the bits it arrived with, and everything about it is read off
those bits in exact arithmetic on natural numbers: a finite number is a sign and
`m · 2 ^ q`. Two conversions produce such numbers: a number of 32 bits is widened,
which loses nothing, and a natural number is rounded to the nearest 64-bit number,
of two equally near ones to the one with an even significand.
-/

set_option autoImplicit false

namespace Logbook

/-- A 64-bit floating point number, by its bits. -/
structure Binary64 where
  bits : UInt64
  deriving DecidableEq, Repr, Inhabited

namespace Binary64

/-- What the bits stand for. -/
inductive Meaning where
  | nan
  | infinite (negative : Bool)
  /-- The number `m · 2 ^ q`, negated if `negative`. -/
  | finite (negative : Bool) (m : Nat) (q : Int)
  deriving DecidableEq, Repr

/-- Fraction bits of a significand. -/
def fractionBits : Nat := 52

/-- The number with the given sign, biased exponent and fraction. -/
def ofParts (negative : Bool) (exponent fraction : Nat) : Binary64 :=
  let sign := if negative then Nat.pow 2 63 else 0
  ⟨UInt64.ofNat (sign + exponent * Nat.pow 2 fractionBits + fraction)⟩

/-- Sign, exponent and fraction, read off the bits. -/
def meaning (x : Binary64) : Meaning :=
  let n := x.bits.toNat
  let negative := n / Nat.pow 2 63 == 1
  let exponent : Nat := n / Nat.pow 2 fractionBits % Nat.pow 2 11
  let fraction : Nat := n % Nat.pow 2 fractionBits
  if exponent = 2047 then
    if fraction = 0 then .infinite negative else .nan
  else if exponent = 0 then
    -- a subnormal number or zero, with no implicit one
    .finite negative fraction (-1074)
  else
    .finite negative (Nat.pow 2 fractionBits + fraction) (exponent - 1075)

def isNaN (x : Binary64) : Bool := x.meaning = .nan

/-- **Widens a 32-bit number**, given by its bits: the same sign, the same value,
and a fraction padded with zeros. A subnormal number becomes a normal one. This is `to_value`
of the narrow floating point type. -/
def ofBinary32 (bits : UInt32) : Binary64 :=
  let n := bits.toNat
  let negative := n / Nat.pow 2 31 == 1
  let exponent := n / Nat.pow 2 23 % Nat.pow 2 8
  let fraction := n % Nat.pow 2 23
  if exponent = 255 then
    ofParts negative 2047 (fraction * Nat.pow 2 29)
  else if exponent = 0 then
    if fraction = 0 then
      ofParts negative 0 0
    else
      -- the leading one of the fraction becomes the implicit one of a normal number
      let top := fraction.log2
      ofParts negative (top + 874)
        (fraction * Nat.pow 2 (fractionBits - top) - Nat.pow 2 fractionBits)
  else
    ofParts negative (exponent + 896) (fraction * Nat.pow 2 29)

/-- `n` divided by `2 ^ k`, rounded to the nearest integer, a half to the even one. -/
def shiftRightRounded (n k : Nat) : Nat :=
  let divisor := Nat.pow 2 k
  let quotient := n / divisor
  let rest := n % divisor
  if divisor < 2 * rest ∨ (2 * rest = divisor ∧ quotient % 2 = 1) then quotient + 1 else quotient

/-- **The number nearest to a natural number** below `2 ^ 1023`. A significand that
is rounded up to the next power of two carries into the exponent. -/
def ofNat (n : Nat) : Binary64 :=
  if n = 0 then
    ofParts false 0 0
  else
    let top := n.log2
    let significand :=
      if top ≤ fractionBits then n * Nat.pow 2 (fractionBits - top)
      else shiftRightRounded n (top - fractionBits)
    -- the implicit one is taken away again, after a carry has reached the exponent
    ⟨UInt64.ofNat ((top + 1023) * Nat.pow 2 fractionBits + significand - Nat.pow 2 fractionBits)⟩

end Binary64

end Logbook
