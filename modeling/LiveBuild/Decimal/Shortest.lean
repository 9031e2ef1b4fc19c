import LiveBuild.Binary64

/-!
# Shortest decimals

The decimal of a finite number with the fewest digits among those that lie in the interval of reals
which round to it. The ends of the interval belong to it iff the significand is even. For one, two,
up to seventeen digits the two neighbours of the number on that decimal grid are tried; of two that
lie in the interval the nearer is taken, and of two equally near ones the even one.

* `Interval`: the reals that round to a number, as fractions with the denominator `2 ^ 1076`;
* `Grid`: the multiples of a power of ten;
* `shortest`: the digits and the exponent of the first digit.
-/

namespace LiveBuild.Decimal

/-- The reals around a positive number that round to it, in quarters of `2 ^ -1074`. -/
structure Interval where
  low : Nat
  middle : Nat
  high : Nat
  /-- The ends themselves round to the number. -/
  closed : Bool

/-- The interval of a finite number. Below a power of two the numbers lie twice as close. -/
def Interval.ofBinary64 (x : Binary64) : Interval :=
  let m := x.significand
  let below := if m = Binary64.hiddenBit && 0 < x.unit then 1 else 2
  ⟨(4 * m - below) <<< x.unit, (4 * m) <<< x.unit, (4 * m + 2) <<< x.unit, m % 2 == 0⟩

/-- The multiples of `10 ^ exponent`. -/
structure Grid where
  exponent : Int

namespace Grid

/-- The factor that takes a numerator to the grid. -/
def up (g : Grid) : Nat := Nat.pow 10 (-g.exponent).toNat

/-- The denominator of the interval's fractions, taken to the grid. -/
def den (g : Grid) : Nat := Nat.pow 10 g.exponent.toNat <<< 1076

/-- The multiple `c` of the grid lies in the interval. -/
def holds (g : Grid) (i : Interval) (c : Nat) : Bool :=
  if i.closed then i.low * g.up ≤ c * g.den && c * g.den ≤ i.high * g.up
  else i.low * g.up < c * g.den && c * g.den < i.high * g.up

/-- The neighbour of the interval's middle on the grid that lies in the interval, the nearer one if
both do. -/
def pick (g : Grid) (i : Interval) : Option Nat :=
  let mid := i.middle * g.up
  let c := mid / g.den
  let below := mid - c * g.den
  let above := (c + 1) * g.den - mid
  match g.holds i c, g.holds i (c + 1) with
  | true, true =>
    some (if below < above then c else if above < below then c + 1 else c + c % 2)
  | true, false => some c
  | false, true => some (c + 1)
  | false, false => none

end Grid

/-- A positive decimal: its digits, the first of them before the point, times a power of ten. -/
structure Scientific where
  digits : List Char
  exponent : Int
  deriving DecidableEq, Repr

/-- The digits without the zeros at their end. -/
def dropTrailingZeros (ds : List Char) : List Char :=
  (ds.reverse.dropWhile (· == '0')).reverse

/-- The decimal `c * 10 ^ k`. -/
def Scientific.ofScaled (c : Nat) (k : Int) : Scientific :=
  let ds := Nat.toDigits 10 c
  ⟨dropTrailingZeros ds, k + ds.length - 1⟩

/-- The exponent of the first digit of a finite positive number, which is at least `10 ^ -324`. -/
def leadingExponent (x : Binary64) : Int :=
  (Nat.toDigits 10 ((x.steps * Nat.pow 10 324) >>> 1074)).length - 325

/-- The shortest decimal with at most `digits + fuel` digits, starting from `digits`. -/
def shortestFrom (i : Interval) (first : Int) (digits : Nat) : Nat → Scientific
  | 0 =>
    let k := first + 1 - digits
    Scientific.ofScaled (i.middle * (Grid.mk k).up / (Grid.mk k).den) k
  | fuel + 1 =>
    let k := first + 1 - digits
    match (Grid.mk k).pick i with
    | some c => Scientific.ofScaled c k
    | none => shortestFrom i first (digits + 1) fuel

/-- The shortest decimal of the magnitude of a finite number that is not zero. -/
def shortest (x : Binary64) : Scientific :=
  shortestFrom (Interval.ofBinary64 x) (leadingExponent x) 1 17

end LiveBuild.Decimal
