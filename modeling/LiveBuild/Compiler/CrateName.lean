import LiveBuild.Path

/-!
# Crate names

The name under which an on-disk output is compiled comes from the last name of its path: the stem
without one leading `lib`, with an underscore for every character that is neither an ASCII letter
nor an ASCII digit. It must begin with a letter, and is given a prefix if it does not.
-/

namespace LiveBuild.CrateName

/-- An ASCII letter or digit is kept, anything else becomes an underscore. -/
def legal (c : Char) : Char := if c.isAlphanum then c else '_'

/-- The text without one leading `lib`. -/
def dropLib : List Char → List Char
  | 'l' :: 'i' :: 'b' :: cs => cs
  | cs => cs

/-- What is put in front of a name that does not begin with a letter. -/
def lead : List Char := ['d', 'y', 'n', 'c', 'o', 'd', 'e', '_']

/-- A crate name from a stem. -/
def ofStem (stem : List Char) : List Char :=
  match (dropLib stem).map legal with
  | c :: cs => if c.isAlpha then c :: cs else lead ++ c :: cs
  | [] => lead

/-- The crate name of an output path. -/
def ofPath (p : Path) : String := String.ofList (ofStem (p.fileStem?.getD []))

end LiveBuild.CrateName
