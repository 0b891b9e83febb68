/-
The shortest decimal that reads back as a given binary number.

Rounding to binary sends a whole interval of reals to one number. Among the
decimals in that interval the one with the fewest digits is wanted, and of those
the nearest to the number. On the grid of the multiples of `10 ^ k` only the two
neighbours of the number matter: if any point of the grid lies in the interval, one
of them does. So the grids are tried from the coarsest on, and the first with a
neighbour in the interval has the answer. Its points have no trailing zero, since
otherwise a coarser grid would have held the same point.

All comparisons are between natural numbers: the interval, the number and the grid
are brought to a common denominator first.
-/
import Logbook.Number.Binary64

set_option autoImplicit false

namespace Logbook

/-- The number `digits · 10 ^ scale`. -/
structure Decimal where
  digits : Nat
  scale : Int
  deriving DecidableEq, Repr

/-- A positive number with the interval of reals that round to it. The three
numerators stand over one `denominator`. -/
structure RoundingInterval where
  low : Nat
  value : Nat
  high : Nat
  denominator : Nat
  /-- The ends of the interval belong to it. -/
  closed : Bool
  deriving DecidableEq, Repr

namespace RoundingInterval

/-- **The reals that round to `m · 2 ^ q`.** The interval reaches half way to each
neighbour. Below a power of two the neighbour is only half as far, so there the
interval is shorter on its low side. A real half way between two numbers rounds to
the even one, so the ends belong to the interval of an even significand. -/
def ofBinary (m : Nat) (q : Int) : RoundingInterval :=
  let below := if m = Nat.pow 2 Binary64.fractionBits then 1 else 2
  -- everything is in quarters of `2 ^ q`, so that the middle between neighbours is a whole number
  let up := Nat.pow 2 (q - 2).toNat
  { low := (4 * m - below) * up
    value := 4 * m * up
    high := (4 * m + 2) * up
    denominator := Nat.pow 2 (2 - q).toNat
    closed := m % 2 == 0 }

/-- Whether `x` over `den` lies in the interval whose numerators are `w`'s, each
times `stretch`, over the same `den`. -/
def holds (w : RoundingInterval) (stretch x : Nat) : Bool :=
  if w.closed then w.low * stretch ≤ x && x ≤ w.high * stretch
  else w.low * stretch < x && x < w.high * stretch

/-- The point of the grid of multiples of `10 ^ k` to take for the number, as a
multiple: its lower or its upper neighbour, whichever lies in the interval, the
nearer one if both do, and the upper one if they are equally near. -/
def pointOn? (w : RoundingInterval) (k : Int) : Option Nat :=
  let stretch := Nat.pow 10 (-k).toNat
  let step := Nat.pow 10 k.toNat * w.denominator
  let value := w.value * stretch
  let lower := value / step
  match w.holds stretch (lower * step), w.holds stretch ((lower + 1) * step) with
  | true, true =>
    -- `≤`: of two that are equally near the upper one is taken
    if (lower + 1) * step - value ≤ value - lower * step then some (lower + 1) else some lower
  | true, false => some lower
  | false, true => some (lower + 1)
  | false, false => none

/-- Tries `tries` grids from `10 ^ k` on to finer ones. -/
def search (w : RoundingInterval) : (tries : Nat) → (k : Int) → Decimal
  | 0, k => ⟨0, k⟩
  | tries + 1, k =>
    match w.pointOn? k with
    | some digits => ⟨digits, k⟩
    | none => w.search tries (k - 1)

end RoundingInterval

namespace Decimal

/-- The digits of a natural number in base ten. -/
def digitsOf (n : Nat) : List Char := Nat.toDigits 10 n

/-- No 64-bit number needs a grid finer than the multiples of `10 ^ -324`: there the
interval of every number is wider than a step. -/
def finest : Nat := 324

/-- **The shortest decimal that reads back as `m · 2 ^ q`**, for `m` above zero. The
search starts at a grid with no point but zero at or below the interval. -/
def shortest (m : Nat) (q : Int) : Decimal :=
  let w := RoundingInterval.ofBinary m q
  let start := (digitsOf (w.high / w.denominator)).length
  w.search (start + finest + 1) start

end Decimal

end Logbook
