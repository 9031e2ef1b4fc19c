import LiveBuild.Decimal.Numeral

/-!
# JSON trees

A tree keeps a JSON text without its blanks: the numerals digit by digit, the members of an object
in order and with repetitions. A string may escape half a surrogate pair, and then it is no Unicode
text; the tree keeps such a string as `none`, so that a reader may pass over it but not use it.

* `Json.isSound`: every part of a tree can be used by a reader that may open a given number of
  levels of arrays and objects;
* `Json.slots?`: the fields of a record, which is written as an object or as an array;
* `Json.list?`: the items of an array, each read by a given reader.
-/

namespace LiveBuild

/-- A JSON text as a tree. -/
inductive Json
  | null
  | bool (b : Bool)
  | num (n : Numeral)
  /-- A string; `none` if it is no Unicode text. -/
  | str (s : Option String)
  | arr (items : List Json)
  | obj (members : List (Option String × Json))
  deriving Inhabited

namespace Json

/-- The number of levels of arrays and objects that a reader may open. -/
def maxLevels : Nat := 127

mutual

/-- Every string is a text, every numeral is in range, and at most `levels` levels of arrays and
objects are nested. -/
def isSound (levels : Nat) : Json → Bool
  | null => true
  | bool _ => true
  | num n => n.float?.isSome
  | str s => s.isSome
  | arr items => match levels with
    | 0 => false
    | l + 1 => areSound l items
  | obj members => match levels with
    | 0 => false
    | l + 1 => areSoundMembers l members

/-- Every tree of a list is sound. -/
def areSound (levels : Nat) : List Json → Bool
  | [] => true
  | j :: rest => j.isSound levels && areSound levels rest

/-- Every name is a text and every value is sound. -/
def areSoundMembers (levels : Nat) : List (Option String × Json) → Bool
  | [] => true
  | (name, j) :: rest => name.isSome && j.isSound levels && areSoundMembers levels rest

end

/-- The text of a string. -/
def text? : Json → Option String
  | str s => s
  | _ => none

/-- The value of a truth value. -/
def bool? : Json → Option Bool
  | bool b => some b
  | _ => none

/-- The integer below `bound` that a numeral denotes. -/
def natBelow? (bound : Nat) : Json → Option Nat
  | num n => match n.integer? with
    | some (.ofNat k) => if k < bound then some k else none
    | _ => none
  | _ => none

/-- The members of an object, if every name is a text. -/
def members? : Json → Option (List (String × Json))
  | obj members => members.mapM fun m => m.1.map (·, m.2)
  | _ => none

/-- The values of a name, in order. -/
def valuesOf (name : String) (members : List (String × Json)) : List Json :=
  (members.filter (·.1 == name)).map (·.2)

/-- The value of a name that occurs at most once: `none` if it is repeated, `some none` if it is
missing. -/
def unique? (name : String) (members : List (String × Json)) : Option (Option Json) :=
  match valuesOf name members with
  | [] => some none
  | [j] => some (some j)
  | _ => none

/-- The fields of a record with the given names, each one present or missing. A record is an object,
whose other members are passed over, or an array of the fields in order, which may end early. -/
def slots? (names : List String) : Json → Option (List (Option Json))
  | obj members => do
    let members ← (obj members).members?
    names.mapM (unique? · members)
  | arr items =>
    if items.length ≤ names.length then
      some (items.map some ++ List.replicate (names.length - items.length) none)
    else none
  | _ => none

/-- The items of an array, read by `read`. The array opens a level. -/
def list? {α : Type} (levels : Nat) (read : Nat → Json → Option α) : Json → Option (List α)
  | arr items => match levels with
    | 0 => none
    | l + 1 => items.mapM (read l)
  | _ => none

end Json

end LiveBuild
