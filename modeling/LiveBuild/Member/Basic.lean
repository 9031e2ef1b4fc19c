import LiveBuild.Text.Quoted

/-!
# Members

What an artifact says about a member of one of its types: the name, whether it is a method of some
arity or a property, whether it belongs to the type itself or to its instances, and its visibility.
-/

namespace LiveBuild

/-- Methods take a fixed number of arguments, properties take none. -/
inductive Member.Kind
  | method (arity : UInt64)
  | property
  deriving DecidableEq, Repr

/-- Visibility is reported but restricts nothing. -/
inductive Member.Visibility
  | isPublic
  | nonPublic
  deriving DecidableEq, Repr

/-- The description of a member. -/
structure Member where
  name : String
  kind : Member.Kind
  isStatic : Bool
  visibility : Member.Visibility := .isPublic
  deriving DecidableEq, Repr

namespace Member

/-- A public method. -/
def method (name : String) (arity : UInt64) (isStatic : Bool) : Member :=
  ⟨name, .method arity, isStatic, .isPublic⟩

/-- A public property. -/
def property (name : String) (isStatic : Bool) : Member :=
  ⟨name, .property, isStatic, .isPublic⟩

/-- The same member, hidden from the public. -/
def hidden (m : Member) : Member := { m with visibility := .nonPublic }

/-- The arity of a method. -/
def arity? (m : Member) : Option UInt64 :=
  match m.kind with
  | .method n => some n
  | .property => none

/-- The member is a property. -/
def isProperty (m : Member) : Bool := m.kind == .property

/-! ## Members for a reader -/

/-- A kind as it is shown. -/
def Kind.display : Kind → String
  | method n => "Method \x7b arity: " ++ toString n.toNat ++ " \x7d"
  | property => "Property"

/-- A visibility as it is shown. -/
def Visibility.display : Visibility → String
  | isPublic => "Public"
  | nonPublic => "NonPublic"

/-- A member as it is shown. -/
def display (m : Member) : String :=
  "MemberInfo \x7b name: " ++ Text.quote m.name ++ ", kind: " ++ m.kind.display ++
    ", is_static: " ++ (if m.isStatic then "true" else "false") ++
    ", visibility: " ++ m.visibility.display ++ " \x7d"

end Member

end LiveBuild
