import LiveBuild.Decimal.Layout
import LiveBuild.Text.Quoted
import LiveBuild.Value.Basic

/-!
# Values for a reader

The layout in which values are shown: the kind of a value in front of its content in parentheses,
texts quoted, fields by name.
-/

namespace LiveBuild.Value

/-- The text of a floating point number. -/
def displayFloat (x : Binary64) : String :=
  if x.isNaN then "NaN"
  else if x.isFinite then (Decimal.display.numeral x).text
  else if x.negative then "-inf" else "inf"

mutual

/-- A value as it is shown. -/
def display : Value → String
  | null => "Null"
  | bool b => "Bool(" ++ (if b then "true" else "false") ++ ")"
  | int n => "Int(" ++ (Numeral.ofInt n.toInt).text ++ ")"
  | float x => "Float(" ++ displayFloat x ++ ")"
  | str s => "Str(" ++ Text.quote s ++ ")"
  | array items => "Array([" ++ ", ".intercalate (displayItems items) ++ "])"
  | object t fields =>
    "Object(ObjectValue \x7b type_name: " ++ Text.quote t ++ ", fields: \x7b" ++
      ", ".intercalate (displayFields fields) ++ "\x7d \x7d)"

/-- The items of an array as they are shown. -/
def displayItems : List Value → List String
  | [] => []
  | v :: rest => v.display :: displayItems rest

/-- The fields of an object as they are shown. -/
def displayFields : List (String × Value) → List String
  | [] => []
  | (name, v) :: rest => (Text.quote name ++ ": " ++ v.display) :: displayFields rest

end

/-- A value that may be missing, as it is shown. -/
def displayOption : Option Value → String
  | some v => "Some(" ++ v.display ++ ")"
  | none => "None"

end LiveBuild.Value
