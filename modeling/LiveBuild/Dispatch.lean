import LiveBuild.Value.Wire

/-!
# Dispatch

The two texts that are exchanged with a library when one of its members is invoked: a request names
the type and the member and carries the target and the arguments, and a response holds a value, no
value, or the reason why there is none.
-/

namespace LiveBuild.Dispatch

/-- What is asked of a library. -/
structure Request where
  typeName : String
  member : String
  target : Option Value
  arguments : List Value

/-- What a library answers. -/
inductive Response
  /-- The member ran, with or without a value. -/
  | ok (value : Option Value)
  /-- The arguments or the target do not fit the member. -/
  | mismatch (msg : String)
  /-- The member failed. -/
  | fault (msg : String)

/-- The tree of a request. A missing target is null, which no value is written as. -/
def Request.toJson (r : Request) : Json :=
  .record [("type_name", .ofString r.typeName), ("member", .ofString r.member),
    ("target", match r.target with
      | some v => v.toJson
      | none => .null),
    ("arguments", .arr (Value.itemsJson r.arguments))]

/-- The text of a request. -/
def Request.write (r : Request) : String := r.toJson.write

/-- The response of a tree: an object with one member. -/
def Response.ofJson? : Nat → Json → Option Response
  | _ + 1, .obj [(some "ok", .null)] => some (.ok none)
  | levels + 1, .obj [(some "ok", j)] => (Value.ofJson? levels j).map fun v => .ok (some v)
  | _ + 1, .obj [(some "mismatch", .str s)] => s.map .mismatch
  | _ + 1, .obj [(some "fault", .str s)] => s.map .fault
  | _, _ => none

/-- The response of a text. -/
def Response.read? (s : String) : Option Response := do
  ofJson? Json.maxLevels (← Json.parse? s.toList)

end LiveBuild.Dispatch
