/-!
# Numbers in sixty-four bits

A sequence of decimal digits is read into sixty-four bits, one digit after the other. A product or a
sum that sixty-four bits do not hold ends the reading; nothing wraps around.

* `push?`: the number with one more digit behind it;
* `ofDigits?`: the number that a sequence of digits denotes.
-/

namespace LiveBuild.Word

/-- The product, if sixty-four bits hold it. -/
def mul? (a b : UInt64) : Option UInt64 :=
  if a.toNat * b.toNat < UInt64.size then some (a * b) else none

/-- The sum, if sixty-four bits hold it. -/
def add? (a b : UInt64) : Option UInt64 :=
  if a.toNat + b.toNat < UInt64.size then some (a + b) else none

/-- The digit that a character stands for. -/
def digit? (c : Char) : Option UInt64 :=
  if c.isDigit then some (.ofNat (c.toNat - 48)) else none

/-- The number with one more digit behind it. -/
def push? (n : UInt64) (c : Char) : Option UInt64 := do
  let d ← digit? c
  let tens ← mul? n 10
  add? tens d

/-- The number that a sequence of digits denotes. There must be a digit. -/
def ofDigits? : List Char → Option UInt64
  | [] => none
  | c :: cs => (c :: cs).foldlM push? 0

end LiveBuild.Word
