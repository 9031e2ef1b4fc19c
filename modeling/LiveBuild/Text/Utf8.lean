/-!
# UTF-8

Bytes are read as a list of pieces: a character, or a gap where the bytes are no character. A gap is
the longest run of bytes that could still have begun a character, and at least one byte.

* `decode?` accepts only texts without gaps;
* `decodeLossy` writes U+FFFD for each gap;
* `encode` writes the bytes of a text.
-/

namespace LiveBuild.Utf8

/-- A continuation byte. -/
def isTail (b : UInt8) : Bool := 0x80 ≤ b && b ≤ 0xbf

/-- The bytes that may follow `lead` in a character of three bytes. -/
def secondOfThree (lead b : UInt8) : Bool :=
  if lead == 0xe0 then 0xa0 ≤ b && b ≤ 0xbf
  else if lead == 0xed then 0x80 ≤ b && b ≤ 0x9f
  else isTail b

/-- The bytes that may follow `lead` in a character of four bytes. -/
def secondOfFour (lead b : UInt8) : Bool :=
  if lead == 0xf0 then 0x90 ≤ b && b ≤ 0xbf
  else if lead == 0xf4 then 0x80 ≤ b && b ≤ 0x8f
  else isTail b

/-- The payload of a continuation byte. -/
def low6 (b : UInt8) : Nat := b.toNat % 64

/-- The pieces of a byte string; `none` stands for a gap. -/
def pieces : List UInt8 → List (Option Char)
  | [] => []
  | b₁ :: r₁ =>
    if b₁ < 0x80 then some (Char.ofNat b₁.toNat) :: pieces r₁
    else if 0xc2 ≤ b₁ && b₁ ≤ 0xdf then
      match r₁ with
      | b₂ :: r₂ =>
        if isTail b₂ then some (Char.ofNat (b₁.toNat % 32 * 64 + low6 b₂)) :: pieces r₂
        else none :: pieces (b₂ :: r₂)
      | [] => [none]
    else if 0xe0 ≤ b₁ && b₁ ≤ 0xef then
      match r₁ with
      | b₂ :: b₃ :: r₃ =>
        if secondOfThree b₁ b₂ then
          if isTail b₃ then
            some (Char.ofNat (b₁.toNat % 16 * 4096 + low6 b₂ * 64 + low6 b₃)) :: pieces r₃
          else none :: pieces (b₃ :: r₃)
        else none :: pieces (b₂ :: b₃ :: r₃)
      | [b₂] => if secondOfThree b₁ b₂ then [none] else none :: pieces [b₂]
      | [] => [none]
    else if 0xf0 ≤ b₁ && b₁ ≤ 0xf4 then
      match r₁ with
      | b₂ :: b₃ :: b₄ :: r₄ =>
        if secondOfFour b₁ b₂ then
          if isTail b₃ then
            if isTail b₄ then
              some (Char.ofNat
                (b₁.toNat % 8 * 262144 + low6 b₂ * 4096 + low6 b₃ * 64 + low6 b₄)) :: pieces r₄
            else none :: pieces (b₄ :: r₄)
          else none :: pieces (b₃ :: b₄ :: r₄)
        else none :: pieces (b₂ :: b₃ :: b₄ :: r₄)
      | [b₂, b₃] =>
        if secondOfFour b₁ b₂ then
          if isTail b₃ then [none] else none :: pieces [b₃]
        else none :: pieces [b₂, b₃]
      | [b₂] => if secondOfFour b₁ b₂ then [none] else none :: pieces [b₂]
      | [] => [none]
    else none :: pieces r₁

/-- The character that is written for a gap. -/
def replacement : Char := Char.ofNat 0xfffd

/-- The text of a byte string, if it is UTF-8 throughout. -/
def decode? (bytes : List UInt8) : Option String :=
  ((pieces bytes).mapM id).map String.ofList

/-- The text of a byte string, with the replacement character for each gap. -/
def decodeLossy (bytes : List UInt8) : String :=
  String.ofList ((pieces bytes).map (·.getD replacement))

/-- The bytes of a text. -/
def encode (s : String) : List UInt8 := s.toList.flatMap String.utf8EncodeChar

end LiveBuild.Utf8
