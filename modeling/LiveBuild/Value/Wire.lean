import LiveBuild.Decimal.Layout
import LiveBuild.Json.Reader
import LiveBuild.Json.Writer
import LiveBuild.Value.Basic

/-!
# The wire form of values

A value is exchanged as a tagged JSON tree: an object with the members `kind` and `value`, in which
the null value has no `value`, or an array of the two.

* `Value.toJson`, `Value.write`: the tree and the text that are written;
* `Value.ofJson?`, `Value.read?`: the value of a tree and of a text.

A reader takes the members in any order and passes over names that it does not know. It may open a
given number of levels of arrays and objects. What stands under `value` before the kind is known is
set aside, and for that all of it must be sound. In a tree that was set aside, a kind that is spelled
as an object may hold the empty object in place of null.
-/

namespace LiveBuild

/-- The kinds of values. -/
inductive Value.Kind
  | null
  | bool
  | int
  | float
  | str
  | array
  | object
  deriving DecidableEq, Repr

namespace Json

/-- No content: null, and in a tree that was set aside also the empty object. -/
def isVoid (aside : Bool) : Json → Bool
  | null => true
  | obj [] => aside
  | _ => false

/-- A choice among names: a string, or an object whose one member has no content. The object opens a
level. -/
def choice? (aside : Bool) (levels : Nat) : Json → Option String
  | str s => s
  | obj [(some name, j)] => if 0 < levels && j.isVoid aside then some name else none
  | _ => none

/-- The first of two names that occurs among the members of an object is `name`. -/
def comesFirst (name other : String) : Json → Bool
  | obj members =>
    (members.find? fun m => m.1 == some name || m.1 == some other).any (·.1 == some name)
  | _ => false

end Json

namespace Value

namespace Kind

/-- The name of a kind. -/
def name : Kind → String
  | null => "null"
  | bool => "bool"
  | int => "int"
  | float => "float"
  | str => "str"
  | array => "array"
  | object => "object"

/-- The kind of a name. -/
def ofName? (s : String) : Option Kind :=
  [null, bool, int, float, str, array, object].find? (·.name == s)

/-- The kind that a tree spells. -/
def ofJson? (aside : Bool) (levels : Nat) (j : Json) : Option Kind :=
  j.choice? aside levels >>= ofName?

end Kind

/-! ## Writing -/

/-- A tagged tree. -/
def tagged (kind : Kind) (payload : Json) : Json :=
  .record [("kind", .ofString kind.name), ("value", payload)]

/-- The tree of a floating point number, which is null if the number is not finite. -/
def floatJson (x : Binary64) : Json :=
  if x.isFinite then .num (Decimal.wire.numeral x) else .null

mutual

/-- The tree of a value. -/
def toJson : Value → Json
  | null => .record [("kind", .ofString Kind.null.name)]
  | bool b => tagged .bool (.bool b)
  | int n => tagged .int (.num (.ofInt n.toInt))
  | float x => tagged .float (floatJson x)
  | str s => tagged .str (.ofString s)
  | array items => tagged .array (.arr (itemsJson items))
  | object t fields => tagged .object
      (.record [("type_name", .ofString t), ("fields", .obj (fieldsJson fields))])

/-- The trees of the items of an array. -/
def itemsJson : List Value → List Json
  | [] => []
  | v :: rest => v.toJson :: itemsJson rest

/-- The trees of the fields of an object. -/
def fieldsJson : List (String × Value) → List (Option String × Json)
  | [] => []
  | (name, v) :: rest => (some name, v.toJson) :: fieldsJson rest

end

/-- The text of a value. -/
def write (v : Value) : String := v.toJson.write

/-! ## Reading -/

/-- What stands under the tag of a tree is set aside, because it comes before the kind. -/
def setsAside (j : Json) : Bool := j.comesFirst "value" "kind"

/-- The kind of a tagged tree and what stands under it, read within `levels` levels. -/
def untag? (aside : Bool) (levels : Nat) : Json → Option (Kind × Option Json)
  | .arr [k, v] => (Kind.ofJson? aside levels k).map (·, some v)
  | .obj members => do
    let named ← (Json.obj members).members?
    let kind ← Kind.ofJson? aside levels (← ← Json.unique? "kind" named)
    let payload ← Json.unique? "value" named
    if setsAside (.obj members) && !payload.all (·.isSound levels) then none
    else return (kind, payload)
  | _ => none

/-- The type name and the fields of an object. -/
def objectParts? (j : Json) : Option (String × List (String × Json)) := do
  match ← j.slots? ["type_name", "fields"] with
  | [some t, some fields] => return (← t.text?, ← fields.members?)
  | _ => none

/-- The integer that a numeral denotes, if sixty-four bits with sign hold it. -/
def intOfNumeral? (n : Numeral) : Option Int64 := do
  let i ← n.integer?
  if i ≤ Int64.maxValue.toInt then return Int64.ofInt i else none

/-- An array whose items are read by `read`. -/
def arrayOf? (read : Json → Option Value) : Json → Option Value
  | .arr items => (items.mapM read).map array
  | _ => none

/-- An object whose fields are read by `read`. -/
def objectOf? (read : Json → Option Value) (j : Json) : Option Value := do
  let (typeName, fields) ← objectParts? j
  let fields ← fields.mapM fun f => (read f.2).map (f.1, ·)
  return ofFields typeName fields

/-- The value of a kind and of what stands under it, in which arrays and objects are read by
`array?` and `object?`. -/
def payload? (array? object? : Json → Option Value) : Kind × Option Json → Option Value
  | (.null, none) => some null
  | (.null, some .null) => some null
  | (.bool, some (.bool b)) => some (bool b)
  | (.int, some (.num n)) => (intOfNumeral? n).map int
  | (.float, some (.num n)) => n.float?.map float
  | (.str, some (.str s)) => s.map str
  | (.array, some j) => array? j
  | (.object, some j) => object? j
  | _ => none

/-- The value of a tree, which may be part of one that was set aside. Its reader may open `levels`
levels: one for the tag, one more for an array, and two more for an object and its fields. -/
def ofPart? (aside : Bool) : Nat → Json → Option Value
  | 0, _ => none
  | 1, j => untag? aside 0 j >>= payload? (fun _ => none) (fun _ => none)
  | 2, j => untag? aside 1 j >>=
      payload? (arrayOf? (ofPart? (aside || setsAside j) 0)) (fun _ => none)
  | levels + 3, j => untag? aside (levels + 2) j >>=
      payload? (arrayOf? (ofPart? (aside || setsAside j) (levels + 1)))
        (objectOf? (ofPart? (aside || setsAside j) levels))

/-- The value of a tree whose reader may open `levels` levels. -/
def ofJson? (levels : Nat) (j : Json) : Option Value := ofPart? false levels j

/-- The value of a text. -/
def read? (s : String) : Option Value := do
  ofJson? Json.maxLevels (← Json.parse? s.toList)

end Value

end LiveBuild
