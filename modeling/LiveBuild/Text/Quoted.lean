import LiveBuild.Text.Printable

/-!
# Quoted texts

A text is quoted between double quotes so that it stands on one line and shows every character:
the quote and the backslash are escaped, as are line feed, carriage return, tab and NUL by a letter,
and everything else that is not printable, or that extends the character before it, by its number
in hexadecimal between braces.

`escape` is the spelling of one character and `quote` that of a text.
-/

namespace LiveBuild.Text

/-- The spelling of a character by its number. -/
def escapeByNumber (c : Char) : List Char :=
  ['\\', 'u', '{'] ++ Nat.toDigits 16 c.toNat ++ ['}']

/-- The spelling of a character between quotes. -/
def escape (c : Char) : List Char :=
  if c = '"' then ['\\', '"']
  else if c = '\\' then ['\\', '\\']
  else if c = '\n' then ['\\', 'n']
  else if c = '\r' then ['\\', 'r']
  else if c = '\t' then ['\\', 't']
  else if c = Char.ofNat 0 then ['\\', '0']
  else if ' ' ≤ c && c ≤ '~' then [c]
  else if isExtending c || !isPrintable c then escapeByNumber c
  else [c]

/-- The quoted form of a list of characters. -/
def quoteChars (cs : List Char) : List Char :=
  '"' :: cs.flatMap escape ++ ['"']

/-- The quoted form of a text. -/
def quote (s : String) : String :=
  String.ofList (quoteChars s.toList)

end LiveBuild.Text
