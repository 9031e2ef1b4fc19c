import LiveBuild.Member.Basic
import LiveBuild.Value.Basic

/-!
# Artifacts

An artifact is compiled code as a caller sees it: the names of its types, the members of each type,
and a way to run a member. Running may change the state of the artifact, of type `σ`.

* `Artifact.Call`: one run of a member that the artifact has described;
* `Artifact.Reply`: how the run ended.
-/

namespace LiveBuild

/-- One run of a member. -/
structure Artifact.Call where
  typeName : String
  member : Member
  /-- The receiver of an instance member. -/
  target : Option Value
  arguments : List Value

/-- How a run ended. -/
inductive Artifact.Reply
  /-- The member returned, with or without a value. -/
  | returned (value : Option Value)
  /-- The arguments or the target do not fit the member. -/
  | mismatch (msg : String)
  /-- The member reported a failure. -/
  | threw (msg : String)
  /-- The member broke off; the text is empty if it left none. -/
  | panicked (msg : String)

/-- Compiled code as a caller sees it. -/
structure Artifact (σ : Type) where
  types : List String
  membersOf : String → List Member
  run : Artifact.Call → σ → Artifact.Reply × σ

/-- What a caller asks for: a member by its names, which the artifact may or may not have. -/
structure Invocation where
  typeName : String
  memberName : String
  isStatic : Bool
  arguments : List Value
  target : Option Value

namespace Invocation

/-- The invocation of a static member without arguments. -/
def static (typeName memberName : String) : Invocation := ⟨typeName, memberName, true, [], none⟩

/-- The invocation of an instance member without arguments. -/
def ofInstance (typeName memberName : String) (target : Value) : Invocation :=
  ⟨typeName, memberName, false, [], some target⟩

end Invocation

end LiveBuild
