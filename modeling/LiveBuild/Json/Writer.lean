import LiveBuild.Json.Basic

/-!
# Writing JSON

The compact form of a tree: no blanks, members in order, and in strings only the quote, the
backslash and the control characters below U+0020 escaped.

`Json.chars` is the form of a tree and `Json.write` its text.
-/

namespace LiveBuild.Json

namespace Writer

/-- The spelling of a character in a string. -/
def escape (c : Char) : List Char :=
  if c = '"' then ['\\', '"']
  else if c = '\\' then ['\\', '\\']
  else if c = '\x08' then ['\\', 'b']
  else if c = '\x0c' then ['\\', 'f']
  else if c = '\n' then ['\\', 'n']
  else if c = '\r' then ['\\', 'r']
  else if c = '\t' then ['\\', 't']
  else if c < ' ' then
    ['\\', 'u', '0', '0', Nat.digitChar (c.toNat / 16), Nat.digitChar (c.toNat % 16)]
  else [c]

/-- A string in its quotes. -/
def quoted (s : String) : List Char := '"' :: s.toList.flatMap escape ++ ['"']

/-- A string in its quotes; half a surrogate pair stands for a string that is no text. -/
def string : Option String → List Char
  | some s => quoted s
  | none => ['"', '\\', 'u', 'd', '8', '0', '0', '"']

/-- The parts with commas between them. -/
def commas : List (List Char) → List Char
  | [] => []
  | [part] => part
  | part :: rest => part ++ ',' :: commas rest

end Writer

open Writer

mutual

/-- The compact form of a tree. -/
def chars : Json → List Char
  | null => ['n', 'u', 'l', 'l']
  | bool true => ['t', 'r', 'u', 'e']
  | bool false => ['f', 'a', 'l', 's', 'e']
  | num n => n.chars
  | str s => string s
  | arr items => '[' :: commas (itemChars items) ++ [']']
  | obj members => '{' :: commas (memberChars members) ++ ['}']

/-- The compact forms of the items of an array. -/
def itemChars : List Json → List (List Char)
  | [] => []
  | j :: rest => j.chars :: itemChars rest

/-- The compact forms of the members of an object. -/
def memberChars : List (Option String × Json) → List (List Char)
  | [] => []
  | (name, j) :: rest => (string name ++ ':' :: j.chars) :: memberChars rest

end

/-- The compact text of a tree. -/
def write (j : Json) : String := String.ofList j.chars

/-- A string that is a text. -/
def ofString (s : String) : Json := str (some s)

/-- An object whose names are texts. -/
def record (members : List (String × Json)) : Json := obj (members.map fun m => (some m.1, m.2))

end LiveBuild.Json
