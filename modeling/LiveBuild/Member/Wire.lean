import LiveBuild.Member.Basic
import LiveBuild.Value.Wire

/-!
# The wire form of members

A member is written as an object with `name`, `kind`, for a method `arity`, `is_static` and
`visibility`. A reader takes the members of the object in any order; a missing visibility is public.
The kind decides what else is asked for, so all members but the name, the staticness and the
visibility are set aside until it is known, and what is set aside must be sound.

* `Member.toJson`, `Member.write`: the tree and the text that are written;
* `Member.ofJson?`, `Member.read?`: the member of a tree and of a text.
-/

namespace LiveBuild.Member

/-! ## Writing -/

/-- The members of the object that tell the kind. -/
def Kind.toJson : Kind → List (String × Json)
  | method n => [("kind", .ofString "method"), ("arity", .num (.ofInt n.toNat))]
  | property => [("kind", .ofString "property")]

/-- The name of a visibility. -/
def Visibility.name : Visibility → String
  | isPublic => "public"
  | nonPublic => "non_public"

/-- The tree of a member. -/
def toJson (m : Member) : Json :=
  .record (("name", .ofString m.name) :: m.kind.toJson ++
    [("is_static", .bool m.isStatic), ("visibility", .ofString m.visibility.name)])

/-- The text of a member. -/
def write (m : Member) : String := m.toJson.write

/-! ## Reading -/

/-- The visibility of a name. -/
def Visibility.ofName? (s : String) : Option Visibility :=
  [isPublic, nonPublic].find? (·.name == s)

/-- The names of the kinds, which may also be given by their place in this list. -/
def kindNames : List String := ["method", "property"]

/-- The name of a kind that a tree spells. -/
def kindName? : Json → Option String
  | .str s => s
  | .num n => do kindNames[← (Json.num n).natBelow? kindNames.length]?
  | _ => none

/-- The kind that the members set aside tell. -/
def kindOf? (members : List (String × Json)) : Option Kind := do
  match ← kindName? (← ← Json.unique? "kind" members) with
  | "method" =>
    let arity ← (← ← Json.unique? "arity" members).natBelow? UInt64.size
    return .method (UInt64.ofNat arity)
  | "property" => return .property
  | _ => none

/-- The names that every member has of its own. -/
def ownNames : List String := ["name", "is_static", "visibility"]

/-- The member of a tree whose reader may open `levels` levels. -/
def ofJson? : Nat → Json → Option Member
  | levels + 1, .obj members => do
    let members ← (Json.obj members).members?
    let name ← (← ← Json.unique? "name" members).text?
    let isStatic ← (← ← Json.unique? "is_static" members).bool?
    let visibility ← match ← Json.unique? "visibility" members with
      | some j => j.choice? false levels >>= Visibility.ofName?
      | none => some .isPublic
    let rest := members.filter fun m => !ownNames.contains m.1
    if rest.all (·.2.isSound levels) then return ⟨name, ← kindOf? rest, isStatic, visibility⟩
    else none
  | _, _ => none

/-- The member of a text. -/
def read? (s : String) : Option Member := do
  ofJson? Json.maxLevels (← Json.parse? s.toList)

end LiveBuild.Member
