import LiveBuild.Decimal.Numeral
import LiveBuild.Decimal.Shortest

/-!
# Layouts of floating point numbers

A layout decides which decimals are written out and how the exponent of the others looks. A decimal
that is written out has at least one digit after the point; any other has its point, if it needs
one, after the first digit.

* `wire`: the layout of values that are exchanged with a library;
* `display`: the layout of values that are shown to a reader.
-/

namespace LiveBuild.Decimal

/-- The decisions of a layout. -/
structure Layout where
  /-- The least exponent of a decimal that is written out. -/
  least : Int
  /-- The greatest exponent of a decimal that is written out. -/
  greatest : Int
  /-- The sign of an exponent that is not negative. -/
  plus : ExponentSign

/-- Written out from `10 ^ -5` to below `10 ^ 16`, and both signs of an exponent are written. -/
def wire : Layout := ⟨-5, 15, .plus⟩

/-- Written out from `10 ^ -4` to below `10 ^ 16`, and only a negative exponent has a sign. -/
def display : Layout := ⟨-4, 15, .none⟩

/-- A decimal written out, with at least one digit after the point. -/
def plain (negative : Bool) (s : Scientific) : Numeral :=
  match s.exponent with
  | .ofNat e =>
    let ds := s.digits ++ List.replicate (e + 1 - s.digits.length) '0'
    let fraction := ds.drop (e + 1)
    ⟨negative, ds.take (e + 1), if fraction = [] then ['0'] else fraction, none⟩
  | .negSucc e => ⟨negative, ['0'], List.replicate e '0' ++ s.digits, none⟩

/-- A decimal with an exponent. -/
def Layout.withExponent (l : Layout) (negative : Bool) (s : Scientific) : Numeral :=
  let sign := if s.exponent < 0 then .minus else l.plus
  ⟨negative, s.digits.take 1, s.digits.drop 1,
    some ⟨sign, Nat.toDigits 10 s.exponent.natAbs⟩⟩

/-- The numeral of a finite number. -/
def Layout.numeral (l : Layout) (x : Binary64) : Numeral :=
  if x.isZero then ⟨x.negative, ['0'], ['0'], none⟩
  else
    let s := shortest x
    if l.least ≤ s.exponent && s.exponent ≤ l.greatest then plain x.negative s
    else l.withExponent x.negative s

end LiveBuild.Decimal
