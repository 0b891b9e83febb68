/-
Numbers as they are logged, and their text.

A number is an integer or a floating point number. An integer is written with its
digits. A floating point number is written with the digits of its shortest
decimal: positionally from `10 ^ -6` on and below `10 ^ 21`, otherwise with one
digit before the point and a signed power of ten. Whole numbers have no point, and
both zeros are `0`.
-/
import Logbook.Number.Decimal

set_option autoImplicit false

namespace Logbook

/-- **A numeric argument**, `Number`. An integer has 64 bits with a sign wherever it is made, and
nothing is computed with it after that. -/
inductive Number where
  | int (i : Int)
  | float (x : Binary64)
  deriving DecidableEq, Repr, Inhabited

/-- The decisions of a layout of decimals. -/
structure DecimalStyle where
  /-- The least power of ten written positionally. -/
  positionalFrom : Int
  /-- The least power of ten written with an exponent again. -/
  positionalBelow : Int
  /-- What stands before an exponent that is not negative. -/
  positiveExponent : String

namespace Decimal

/-- An integer by its digits, with a sign only if it is negative. -/
def intText (i : Int) : String :=
  if i < 0 then "-" ++ String.ofList (digitsOf i.natAbs) else String.ofList (digitsOf i.natAbs)

/-- `digits · 10 ^ scale` without an exponent. -/
def positional (digits : List Char) (scale : Int) : List Char :=
  if 0 ≤ scale then
    digits ++ List.replicate scale.toNat '0'
  else
    let places := (-scale).toNat
    if places < digits.length then
      digits.take (digits.length - places) ++ '.' :: digits.drop (digits.length - places)
    else
      '0' :: '.' :: List.replicate (places - digits.length) '0' ++ digits

/-- `digits · 10 ^ scale` with one digit before the point. -/
def scientific (style : DecimalStyle) (digits : List Char) (exponent : Int) : String :=
  let mantissa :=
    match digits with
    | first :: second :: rest => first :: '.' :: second :: rest
    | ds => ds
  String.ofList mantissa ++ "e" ++ (if exponent < 0 then "" else style.positiveExponent)
    ++ intText exponent

/-- A decimal in a layout. -/
def text (style : DecimalStyle) (d : Decimal) : String :=
  let digits := digitsOf d.digits
  -- the power of ten of the first digit decides, not that of the last
  let exponent := d.scale + digits.length - 1
  if style.positionalFrom ≤ exponent ∧ exponent < style.positionalBelow then
    String.ofList (positional digits d.scale)
  else
    scientific style digits exponent

end Decimal

namespace Number

/-- Log texts are positional from a millionth on and below `10 ^ 21`, and an exponent
always has its sign. -/
def style : DecimalStyle :=
  { positionalFrom := -6, positionalBelow := 21, positiveExponent := "+" }

/-- A natural number as an argument: an integer if it fits 64 bits with a sign, and
else the nearest floating point number. This is `to_value` of the wide unsigned types. -/
def ofNat (n : Nat) : Number :=
  if n < Nat.pow 2 63 then .int n else .float (Binary64.ofNat n)

/-- **The text of a number**, as `Number` is displayed. A zero has no sign, whichever it is. -/
def text : Number → String
  | .int i => Decimal.intText i
  | .float x =>
    match x.meaning with
    | .nan => "NaN"
    | .infinite negative => if negative then "-Infinity" else "Infinity"
    | .finite negative m q =>
      if m = 0 then "0"
      else (if negative then "-" else "") ++ (Decimal.shortest m q).text style

end Number

end Logbook
