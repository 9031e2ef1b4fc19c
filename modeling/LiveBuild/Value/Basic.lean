import LiveBuild.Binary64
import LiveBuild.Value.Fields

/-!
# Values

The dynamically typed values that are passed to a member and come back from it.

* `Value.typeName?`: the type that an object is an instance of;
* `Value.same`: equality of values, in which floating point numbers are compared as numbers;
* `Value.IsOrdered`: the fields of every object ascend, as `Value.ofFields` builds them.
-/

namespace LiveBuild

/-- A dynamically typed value. -/
inductive Value
  | null
  | bool (b : Bool)
  | int (n : Int64)
  | float (x : Binary64)
  | str (s : String)
  | array (items : List Value)
  | object (typeName : String) (fields : List (String × Value))
  deriving Inhabited

namespace Value

/-- The type of an object. -/
def typeName? : Value → Option String
  | object t _ => some t
  | _ => none

/-- The fields of an object; any other value has none. -/
def fields : Value → List (String × Value)
  | object _ fs => fs
  | _ => []

/-- A field by its name. -/
def field? (v : Value) (name : String) : Option Value := Fields.get? name v.fields

/-- An object with the given fields; of a repeated name the last one. -/
def ofFields (typeName : String) (fields : List (String × Value)) : Value :=
  object typeName (Fields.ofList fields)

/-- An object with one more field, or with a field replaced. -/
def withField (v : Value) (name : String) (w : Value) : Value :=
  match v with
  | object t fields => object t (Fields.insert name w fields)
  | v => v

mutual

/-- Equality of values. An integer never equals a floating point number. -/
def same : Value → Value → Bool
  | null, null => true
  | bool a, bool b => a == b
  | int a, int b => a == b
  | float x, float y => x.numEq y
  | str a, str b => a == b
  | array xs, array ys => sameItems xs ys
  | object t fs, object u gs => t == u && sameFields fs gs
  | _, _ => false

/-- Equality of items, place by place. -/
def sameItems : List Value → List Value → Bool
  | [], [] => true
  | x :: xs, y :: ys => x.same y && sameItems xs ys
  | _, _ => false

/-- Equality of fields, in their order. -/
def sameFields : List (String × Value) → List (String × Value) → Bool
  | [], [] => true
  | (n, x) :: xs, (m, y) :: ys => n == m && x.same y && sameFields xs ys
  | _, _ => false

end

mutual

/-- The fields of every object in a value ascend. -/
def IsOrdered : Value → Prop
  | array items => AreOrdered items
  | object _ fields => Fields.Sorted fields ∧ AreOrderedFields fields
  | _ => True

/-- Every item is ordered. -/
def AreOrdered : List Value → Prop
  | [] => True
  | v :: rest => v.IsOrdered ∧ AreOrdered rest

/-- Every field is ordered. -/
def AreOrderedFields : List (String × Value) → Prop
  | [] => True
  | (_, v) :: rest => v.IsOrdered ∧ AreOrderedFields rest

end

end Value

end LiveBuild
