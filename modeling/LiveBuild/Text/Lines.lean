/-!
# Lines

A text is cut at its line feeds. A carriage return just before a line feed belongs to the line end;
any other carriage return is text. An empty last piece is no line, so a final line feed ends the
last line and begins none.

* `lines`: the lines of a text, in order and without their ends;
* `consFirst`: one more character at the beginning of the first piece.
-/

namespace LiveBuild.Text

/-- Puts a character in front of the first piece; without a piece, it is one by itself. -/
def consFirst (c : Char) : List (List Char) → List (List Char)
  | [] => [[c]]
  | l :: ls => (c :: l) :: ls

/-- The lines of a text, without their ends. -/
def lines : List Char → List (List Char)
  | [] => []
  | '\n' :: cs => [] :: lines cs
  | '\r' :: '\n' :: cs => [] :: lines cs
  | c :: cs => consFirst c (lines cs)

end LiveBuild.Text
