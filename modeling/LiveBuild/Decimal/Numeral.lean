import LiveBuild.Binary64

/-!
# Numerals

A numeral is a number as it is written: a sign, whole digits, and perhaps a fraction and an
exponent. It is kept digit by digit, because what it means depends on how it is written: a numeral
without fraction and exponent is an integer if sixty-four bits hold it, and every other numeral is a
floating point number.

* `chars`: the characters of a numeral;
* `integer?`: the integer that a numeral denotes, if it denotes one;
* `float?`: the floating point number that it denotes, unless it is too large.

A fraction is read through a significand of sixty-four bits, which is rounded, and then through a
power of ten, which is rounded too; the digits that the significand cannot take up count only by
their number.
-/

namespace LiveBuild

/-- The sign that is written before an exponent. -/
inductive ExponentSign
  | none
  | plus
  | minus
  deriving DecidableEq, Repr

/-- The written exponent of a numeral. -/
structure Exponent where
  sign : ExponentSign
  digits : List Char
  deriving DecidableEq, Repr

/-- A number as it is written. An empty `fraction` means that there is no decimal point. -/
structure Numeral where
  negative : Bool
  whole : List Char
  fraction : List Char
  exponent : Option Exponent
  deriving DecidableEq, Repr

namespace ExponentSign

/-- The characters of an exponent's sign. -/
def chars : ExponentSign → List Char
  | none => []
  | plus => ['+']
  | minus => ['-']

end ExponentSign

namespace Exponent

/-- The characters of an exponent. -/
def chars (e : Exponent) : List Char := 'e' :: (e.sign.chars ++ e.digits)

end Exponent

namespace Numeral

/-- The number that a digit stands for. -/
def digitValue (c : Char) : Nat := c.toNat - 48

/-- The number that a sequence of digits stands for. -/
def digitsValue (ds : List Char) : Nat := ds.foldl (fun n c => 10 * n + digitValue c) 0

/-- The characters of a numeral. -/
def chars (n : Numeral) : List Char :=
  (if n.negative then ['-'] else []) ++ n.whole ++
    (if n.fraction = [] then [] else '.' :: n.fraction) ++
    (match n.exponent with
      | some e => e.chars
      | none => [])

/-- The text of a numeral. -/
def text (n : Numeral) : String := String.ofList n.chars

/-- The numeral of an integer: its digits after its sign. -/
def ofInt (n : Int) : Numeral := ⟨n < 0, Nat.toDigits 10 n.natAbs, [], none⟩

/-- Written without fraction and exponent. -/
def isWhole (n : Numeral) : Bool := n.fraction == [] && n.exponent.isNone

/-- The integer that a numeral denotes: it must be written whole, a positive one must fit sixty-four
bits without sign, and a negative one sixty-four bits with sign. A negative zero is no integer. -/
def integer? (n : Numeral) : Option Int :=
  let v := digitsValue n.whole
  if !n.isWhole then none
  else if n.negative then if 0 < v && Int64.minValue.toInt ≤ -v then some (-v) else none
  else if v < UInt64.size then some v else none

/-! ## Floating point readings -/

/-- A significand below `2 ^ 64` and the power of ten that belongs to it. -/
structure Scaled where
  significand : Nat
  exponent : Int
  /-- Some digit did not fit the significand. -/
  full : Bool
  deriving DecidableEq, Repr

namespace Scaled

/-- Takes up a whole digit, or counts it once a digit did not fit. -/
def whole (s : Scaled) (c : Char) : Scaled :=
  let v := 10 * s.significand + digitValue c
  if s.full || UInt64.size ≤ v then ⟨s.significand, s.exponent + 1, true⟩
  else ⟨v, s.exponent, false⟩

/-- Takes up a digit of the fraction, or drops it once a digit did not fit. -/
def fraction (s : Scaled) (c : Char) : Scaled :=
  let v := 10 * s.significand + digitValue c
  if s.full || UInt64.size ≤ v then ⟨s.significand, s.exponent, true⟩
  else ⟨v, s.exponent - 1, false⟩

end Scaled

/-- The power of ten that a written exponent denotes. -/
def exponentValue : Option Exponent → Int
  | none => 0
  | some ⟨.minus, ds⟩ => -digitsValue ds
  | some ⟨_, ds⟩ => digitsValue ds

/-- The significand of a numeral and its power of ten. -/
def scaled (n : Numeral) : Scaled :=
  let w := n.whole.foldl Scaled.whole ⟨0, 0, false⟩
  let f := n.fraction.foldl Scaled.fraction ⟨w.significand, w.exponent, false⟩
  ⟨f.significand, f.exponent + exponentValue n.exponent, f.full⟩

/-- The rounded power of ten. -/
def powerOfTen (k : Nat) : Binary64 := Binary64.ofRatio false (Nat.pow 10 k) 1

/-- Division by a power of ten in steps of at most `10 ^ 308`. Two full steps bring a significand
below `2 ^ 64` to zero. -/
def divPowerOfTen (x : Binary64) (k : Nat) : Binary64 :=
  if k ≤ 308 then x.div (powerOfTen k)
  else if k ≤ 616 then (x.div (powerOfTen 308)).div (powerOfTen (k - 308))
  else Binary64.ofRatio false 0 1

/-- The magnitude of a scaled significand, unless it is too large. -/
def magnitude? (s : Scaled) : Option Binary64 :=
  let x := Binary64.ofRatio false s.significand 1
  match s.exponent with
  | .negSucc k => some (divPowerOfTen x (k + 1))
  | .ofNat k =>
    if s.significand = 0 then some x
    else if 308 < k then none
    else
      let y := x.mul (powerOfTen k)
      if y.isInfinite then none else some y

/-- The floating point number that a numeral denotes, unless it is too large. -/
def float? (n : Numeral) : Option Binary64 :=
  match n.integer? with
  | some i => some (Binary64.ofInt i)
  | none => (magnitude? n.scaled).map fun x => if n.negative then x.neg else x

end Numeral

end LiveBuild
