import LiveBuild.Json.Basic

/-!
# Reading JSON

The strict grammar: blanks are space, tab, line feed and carriage return; there are no comments, no
trailing commas and no text after the value; a numeral has no superfluous zero and no plus sign, and
a string holds no raw control character. Nothing else is checked here: how deep a tree is nested and
whether its strings and numerals can be used is a matter of who reads the tree.

* `number`, `string`: the two kinds of tokens, each with the rest of the text;
* `value`, `items`, `members`: the three recursive parts, by a bound on the number of calls;
* `parse?`: the tree of a whole text.
-/

namespace LiveBuild.Json.Reader

/-- The blanks of JSON. -/
def isBlank (c : Char) : Bool := c = ' ' || c = '\t' || c = '\n' || c = '\r'

/-- The text after its blanks. -/
def skipBlank (cs : List Char) : List Char := cs.dropWhile isBlank

/-! ## Numerals -/

/-- The digits at the beginning of a text, of which there must be one. -/
def digits (cs : List Char) : Option (List Char × List Char) :=
  match cs.span Char.isDigit with
  | ([], _) => none
  | r => some r

/-- Whole digits: a zero stands alone. -/
def whole (cs : List Char) : Option (List Char × List Char) :=
  match digits cs with
  | some ('0' :: _ :: _, _) => none
  | r => r

/-- The digits after a decimal point, if there is one. -/
def fraction : List Char → Option (List Char × List Char)
  | '.' :: cs => digits cs
  | cs => some ([], cs)

/-- An exponent's sign. -/
def exponentSign : List Char → ExponentSign × List Char
  | '+' :: cs => (.plus, cs)
  | '-' :: cs => (.minus, cs)
  | cs => (.none, cs)

/-- The exponent after its mark. -/
def exponentTail (cs : List Char) : Option (Option Exponent × List Char) :=
  let (sign, cs) := exponentSign cs
  (digits cs).map fun (ds, rest) => (some ⟨sign, ds⟩, rest)

/-- An exponent, if there is one. -/
def exponent : List Char → Option (Option Exponent × List Char)
  | 'e' :: cs => exponentTail cs
  | 'E' :: cs => exponentTail cs
  | cs => some (none, cs)

/-- A numeral after its sign. -/
def unsigned (negative : Bool) (cs : List Char) : Option (Numeral × List Char) := do
  let (w, cs) ← whole cs
  let (f, cs) ← fraction cs
  let (e, cs) ← exponent cs
  return (⟨negative, w, f, e⟩, cs)

/-- A numeral. -/
def number : List Char → Option (Numeral × List Char)
  | '-' :: cs => unsigned true cs
  | cs => unsigned false cs

/-! ## Strings -/

/-- A part of a string: a character, or the number in an escape. -/
inductive Piece
  | char (c : Char)
  | unit (n : Nat)
  deriving DecidableEq, Repr

/-- The value of a hexadecimal digit. -/
def hexValue? (c : Char) : Option Nat :=
  if '0' ≤ c && c ≤ '9' then some (c.toNat - '0'.toNat)
  else if 'a' ≤ c && c ≤ 'f' then some (c.toNat - 'a'.toNat + 10)
  else if 'A' ≤ c && c ≤ 'F' then some (c.toNat - 'A'.toNat + 10)
  else none

/-- The number of four hexadecimal digits. -/
def hex4? (a b c d : Char) : Option Nat := do
  let a ← hexValue? a
  let b ← hexValue? b
  let c ← hexValue? c
  let d ← hexValue? d
  return ((a * 16 + b) * 16 + c) * 16 + d

/-- The character that a letter after a backslash stands for. -/
def shortEscape? : Char → Option Char
  | '"' => some '"'
  | '\\' => some '\\'
  | '/' => some '/'
  | 'b' => some '\x08'
  | 'f' => some '\x0c'
  | 'n' => some '\n'
  | 'r' => some '\r'
  | 't' => some '\t'
  | _ => none

/-- The pieces of a string up to its closing quote, and the text after that. -/
def pieces : List Char → Option (List Piece × List Char)
  | [] => none
  | '"' :: r => some ([], r)
  | '\\' :: 'u' :: a :: b :: c :: d :: r => do
    let n ← hex4? a b c d
    let (ps, rest) ← pieces r
    return (.unit n :: ps, rest)
  | '\\' :: e :: r => do
    let c ← shortEscape? e
    let (ps, rest) ← pieces r
    return (.char c :: ps, rest)
  | c :: r => if c < ' ' then none else do
    let (ps, rest) ← pieces r
    return (.char c :: ps, rest)

/-- The first half of a surrogate pair. -/
def isHigh (n : Nat) : Bool := 0xd800 ≤ n && n ≤ 0xdbff

/-- The second half of a surrogate pair. -/
def isLow (n : Nat) : Bool := 0xdc00 ≤ n && n ≤ 0xdfff

/-- The text of a string's pieces. Two escapes that are a surrogate pair are one character; half a
pair is none. -/
def join : List Piece → Option (List Char)
  | [] => some []
  | .char c :: ps => (join ps).map (c :: ·)
  | .unit n :: .unit m :: ps =>
    if isHigh n && isLow m then
      (join ps).map (Char.ofNat (0x10000 + (n - 0xd800) * 0x400 + (m - 0xdc00)) :: ·)
    else if isHigh n || isLow n then none
    else (join (.unit m :: ps)).map (Char.ofNat n :: ·)
  | .unit n :: ps =>
    if isHigh n || isLow n then none else (join ps).map (Char.ofNat n :: ·)

/-- A string after its opening quote. -/
def string (cs : List Char) : Option (Option String × List Char) :=
  (pieces cs).map fun (ps, rest) => ((join ps).map String.ofList, rest)

/-! ## Values -/

mutual

/-- A value; `fuel` bounds the number of nested calls. -/
def value : Nat → List Char → Option (Json × List Char)
  | 0, _ => none
  | fuel + 1, cs =>
    match skipBlank cs with
    | 'n' :: 'u' :: 'l' :: 'l' :: r => some (.null, r)
    | 't' :: 'r' :: 'u' :: 'e' :: r => some (.bool true, r)
    | 'f' :: 'a' :: 'l' :: 's' :: 'e' :: r => some (.bool false, r)
    | '"' :: r => (string r).map fun (s, rest) => (.str s, rest)
    | '[' :: r =>
      match skipBlank r with
      | ']' :: rest => some (.arr [], rest)
      | r => (items fuel r).map fun (vs, rest) => (.arr vs, rest)
    | '{' :: r =>
      match skipBlank r with
      | '}' :: rest => some (.obj [], rest)
      | r => (members fuel r).map fun (ms, rest) => (.obj ms, rest)
    | r => (number r).map fun (n, rest) => (.num n, rest)

/-- The items of an array, from the first item to the closing bracket. -/
def items : Nat → List Char → Option (List Json × List Char)
  | 0, _ => none
  | fuel + 1, cs => do
    let (v, r) ← value fuel cs
    match skipBlank r with
    | ']' :: rest => some ([v], rest)
    | ',' :: r =>
      let (vs, rest) ← items fuel r
      return (v :: vs, rest)
    | _ => none

/-- The members of an object, from the first name to the closing brace. -/
def members : Nat → List Char → Option (List (Option String × Json) × List Char)
  | 0, _ => none
  | fuel + 1, cs =>
    match skipBlank cs with
    | '"' :: r => do
      let (name, r) ← string r
      match skipBlank r with
      | ':' :: r =>
        let (v, r) ← value fuel r
        match skipBlank r with
        | '}' :: rest => some ([(name, v)], rest)
        | ',' :: r =>
          let (ms, rest) ← members fuel r
          return ((name, v) :: ms, rest)
        | _ => none
      | _ => none
    | _ => none

end

end Reader

/-- The tree of a text. Each nested call but every second one takes up a character, so twice the
number of characters bounds the calls. -/
def parse? (cs : List Char) : Option Json := do
  let (j, rest) ← Reader.value (2 * cs.length + 2) cs
  if Reader.skipBlank rest = [] then return j else none

end LiveBuild.Json
