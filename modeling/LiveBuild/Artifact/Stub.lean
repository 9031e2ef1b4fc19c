import LiveBuild.Artifact.Basic
import LiveBuild.Text.Quoted

/-!
# Artifacts in memory

An artifact whose members are functions of the host. Classes and members are kept in the order in
which they were defined, with repetitions; a name stands for the first class that has it, and a
description for the first member of the class that has it.

A body may read and change what it shares with the rest of the host. That is of type `σ`, and it is
the state of the artifact; the artifact has no other.

* `Stub.lookup?`: the member that a call runs;
* `Stub.artifact`: the artifact.
-/

namespace LiveBuild

/-- What a member does: from its target, its arguments and the state of the host. -/
abbrev Stub.Body (σ : Type) := Option Value → List Value → σ → Artifact.Reply × σ

/-- A member with its body. -/
structure Stub.Entry (σ : Type) where
  info : Member
  body : Stub.Body σ

/-- A named list of members. -/
structure Stub.Class (σ : Type) where
  name : String
  entries : List (Stub.Entry σ)

/-- The classes of an artifact in memory. -/
structure Stub (σ : Type) where
  classes : List (Stub.Class σ)

namespace Stub

variable {σ : Type}

/-! ## Defining members -/

namespace Entry

/-- A body that is given its target; a call without one is refused. -/
def withTarget (body : Value → List Value → σ → Artifact.Reply × σ) : Body σ :=
  fun target arguments s => match target with
    | some v => body v arguments s
    | none => (.mismatch "missing target", s)

/-- A static method. -/
def staticMethod (name : String) (arity : UInt64)
    (body : List Value → σ → Artifact.Reply × σ) : Entry σ :=
  ⟨.method name arity true, fun _ arguments => body arguments⟩

/-- An instance method. -/
def instanceMethod (name : String) (arity : UInt64)
    (body : Value → List Value → σ → Artifact.Reply × σ) : Entry σ :=
  ⟨.method name arity false, withTarget body⟩

/-- A static property. -/
def staticProperty (name : String) (getter : σ → Artifact.Reply × σ) : Entry σ :=
  ⟨.property name true, fun _ _ => getter⟩

/-- A static property that is hidden from the public. -/
def hiddenStaticProperty (name : String) (getter : σ → Artifact.Reply × σ) : Entry σ :=
  ⟨(Member.property name true).hidden, fun _ _ => getter⟩

/-- An instance property. -/
def instanceProperty (name : String) (getter : Value → σ → Artifact.Reply × σ) : Entry σ :=
  ⟨.property name false, withTarget fun target _ => getter target⟩

end Entry

/-! ## Running members -/

/-- The first class with a name. -/
def class? (s : Stub σ) (name : String) : Option (Class σ) := s.classes.find? (·.name == name)

/-- The members of the first class with a name. -/
def membersOf (s : Stub σ) (name : String) : List Member :=
  match s.class? name with
  | some c => c.entries.map (·.info)
  | none => []

/-- The first member of a class that a description fits. -/
def lookup? (s : Stub σ) (typeName : String) (m : Member) : Option (Entry σ) :=
  (s.class? typeName).bind fun c => c.entries.find? (·.info == m)

/-- Runs the body that a call means. -/
def run (s : Stub σ) (c : Artifact.Call) (host : σ) : Artifact.Reply × σ :=
  match s.lookup? c.typeName c.member with
  | none =>
    (.mismatch ("'" ++ c.member.name ++ "' is not a member of '" ++ c.typeName ++ "'"), host)
  | some entry =>
    if !c.member.isStatic && c.target.isNone then
      (.mismatch ("'" ++ c.member.name ++ "' needs a target"), host)
    else entry.body c.target c.arguments host

/-- The artifact of the classes. -/
def artifact (s : Stub σ) : Artifact σ := ⟨s.classes.map (·.name), s.membersOf, s.run⟩

/-! ## Artifacts in memory for a reader -/

/-- The artifact as it is shown: the names of its types. -/
def display (s : Stub σ) : String :=
  "ModuleStub \x7b types: [" ++ ", ".intercalate (s.classes.map fun c => Text.quote c.name) ++
    "] \x7d"

/-- A class as it is shown. -/
def Class.display (c : Class σ) : String :=
  "ClassStub \x7b name: " ++ Text.quote c.name ++ ", members: [" ++
    ", ".intercalate (c.entries.map (·.info.display)) ++ "] \x7d"

/-- The definition of an artifact as it is shown: its classes with their members. -/
def displayDefinition (s : Stub σ) : String :=
  "ModuleStubBuilder \x7b classes: [" ++ ", ".intercalate (s.classes.map (·.display)) ++ "] \x7d"

end Stub

end LiveBuild
