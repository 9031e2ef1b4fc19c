/-!
# Binary floating point numbers of 64 bits

A number is its word: a sign bit, eleven exponent bits and fifty-two fraction bits. A finite number
is, up to its sign, `significand * 2 ^ unit` steps of the least positive number `2 ^ -1074`, so
magnitudes are compared and computed as natural numbers.

* `significand`, `unit`: the two factors of a magnitude;
* `ofRatio`: the number nearest to a quotient, a tie going to the even significand;
* `mul`, `div`: the exact result of a finite operation, rounded once;
* `numEq`: equality of numbers, by which the two zeros are equal and a NaN equals nothing.
-/

namespace LiveBuild

/-- A floating point number, given by its word. -/
structure Binary64 where
  bits : UInt64
  deriving DecidableEq, Repr

namespace Binary64

/-- The place of the sign in a word. -/
def signBit : Nat := 1 <<< 63

/-- The first bit of the significand of a normal number, which its word does not hold. -/
def hiddenBit : Nat := 1 <<< 52

/-- The word as a natural number. -/
def word (x : Binary64) : Nat := x.bits.toNat

/-- The sign bit. -/
def negative (x : Binary64) : Bool := x.word / signBit == 1

/-- The eleven exponent bits. -/
def exponentBits (x : Binary64) : Nat := x.word / hiddenBit % 2048

/-- The fifty-two fraction bits. -/
def fractionBits (x : Binary64) : Nat := x.word % hiddenBit

/-- Neither infinite nor a NaN. -/
def isFinite (x : Binary64) : Bool := x.exponentBits != 2047

/-- Not a number. -/
def isNaN (x : Binary64) : Bool := x.exponentBits == 2047 && x.fractionBits != 0

/-- One of the two infinities. -/
def isInfinite (x : Binary64) : Bool := x.exponentBits == 2047 && x.fractionBits == 0

/-- One of the two zeros. -/
def isZero (x : Binary64) : Bool := x.word % signBit == 0

/-- The significand of a finite number, with the hidden bit of a normal one. -/
def significand (x : Binary64) : Nat :=
  if x.exponentBits = 0 then x.fractionBits else hiddenBit + x.fractionBits

/-- The exponent of a finite number's last place, counted from `-1074`. -/
def unit (x : Binary64) : Nat := x.exponentBits - 1

/-- The magnitude of a finite number in steps of `2 ^ -1074`. -/
def steps (x : Binary64) : Nat := x.significand <<< x.unit

/-- The word of the positive infinity. -/
def infinityWord : Nat := 2047 * hiddenBit

/-- The number with the given sign and the given remaining sixty-three bits. -/
def ofWord (negative : Bool) (w : Nat) : Binary64 :=
  ⟨UInt64.ofNat ((if negative then signBit else 0) + w)⟩

/-- The quiet NaN without payload. -/
def nan : Binary64 := ofWord false (infinityWord + hiddenBit / 2)

/-- The natural number nearest to a quotient; a tie goes to the even one. -/
def roundDiv (n d : Nat) : Nat :=
  let k := n / d
  let r := n % d
  if 2 * r < d then k else if d < 2 * r then k + 1 else k + k % 2

/-- The number nearest to `num / den` in magnitude, for a positive `den`. A tie goes to the even
significand, and a quotient beyond the largest finite number to infinity. -/
def ofRatio (negative : Bool) (num den : Nat) : Binary64 :=
  let scaled := num <<< 1074
  let unit := Nat.log2 (scaled / den) - 52
  let significand := roundDiv scaled (den <<< unit)
  ofWord negative (min infinityWord (unit * hiddenBit + significand))

/-- The number nearest to an integer. -/
def ofInt (n : Int) : Binary64 := ofRatio (n < 0) n.natAbs 1

/-- The number with the opposite sign. -/
def neg (x : Binary64) : Binary64 := ofWord (!x.negative) (x.word % signBit)

/-- The rounded product of two finite numbers. -/
def mul (x y : Binary64) : Binary64 :=
  ofRatio (x.negative != y.negative) (x.steps * y.steps) (1 <<< 2148)

/-- The rounded quotient of two finite numbers, the second one not zero. -/
def div (x y : Binary64) : Binary64 :=
  ofRatio (x.negative != y.negative) x.steps y.steps

/-- Equality of numbers. -/
def numEq (x y : Binary64) : Bool :=
  !x.isNaN && !y.isNaN && (x == y || (x.isZero && y.isZero))

end Binary64

end LiveBuild
