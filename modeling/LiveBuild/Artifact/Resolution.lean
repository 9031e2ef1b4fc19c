import LiveBuild.Artifact.Basic
import LiveBuild.Text.Blank

/-!
# Resolution

An invocation names a type and a member; resolution finds the member of the artifact that is meant,
or the reason why there is none. The candidates are the members with the name and the staticness
that are asked for. The first property among them is taken, and then no arguments are passed;
otherwise the first method whose arity is the number of arguments. An instance member needs a
target, and a target that is an object must be an instance of the type.

* `Resolution.call?`: the call that an invocation stands for, or a failure;
* `Resolution.invoke`: the call, run once, and how it ended.
-/

namespace LiveBuild

/-- What a failed invocation is reported as. -/
inductive FailureKind
  | typeNotFound
  | memberNotFound
  | arityMismatch
  | invocationThrew
  deriving DecidableEq, Repr

/-- The name of a kind. -/
def FailureKind.name : FailureKind → String
  | typeNotFound => "TypeNotFound"
  | memberNotFound => "MemberNotFound"
  | arityMismatch => "ArityMismatch"
  | invocationThrew => "InvocationThrew"

/-- Why an invocation has no result. -/
inductive Failure
  /-- No type has the name. -/
  | typeNotFound (typeName : String)
  /-- No member has the name and the staticness. -/
  | memberNotFound (typeName memberName : String) (isStatic : Bool)
  /-- No method takes that many arguments. -/
  | wrongArity (memberName : String) (arities : List UInt64) (supplied : Nat)
  /-- An instance member was invoked without a target. -/
  | noTarget (typeName : String)
  /-- The target is an instance of another type. -/
  | wrongTarget (actual expected : String)
  /-- The member refused its arguments. -/
  | refused (msg : String)
  /-- The member failed or broke off. -/
  | threw (msg : String)
  deriving DecidableEq, Repr

namespace Failure

/-- The kind of a failure. -/
def kind : Failure → FailureKind
  | typeNotFound _ => .typeNotFound
  | memberNotFound _ _ _ => .memberNotFound
  | wrongArity _ _ _ => .arityMismatch
  | noTarget _ => .arityMismatch
  | wrongTarget _ _ => .arityMismatch
  | refused _ => .arityMismatch
  | threw _ => .invocationThrew

/-- A message, or a general one in place of a message that is blank. -/
def orGeneral (msg : String) : String :=
  if msg.toList.all Text.isBlank then "invoked code failed without a message" else msg

/-- The text of a failure. -/
def detail : Failure → String
  | typeNotFound t => "Type '" ++ t ++ "' not found"
  | memberNotFound t m isStatic =>
    (if isStatic then "Static" else "Instance") ++ " member '" ++ m ++ "' not found on '" ++ t ++
      "'"
  | wrongArity m arities supplied =>
    "'" ++ m ++ "' takes " ++ ", ".intercalate (arities.map fun n => toString n.toNat) ++
      " argument(s), " ++ toString supplied ++ " supplied"
  | noTarget t => "Instance member of '" ++ t ++ "' invoked without a target"
  | wrongTarget actual expected =>
    "Target is an instance of '" ++ actual ++ "', expected '" ++ expected ++ "'"
  | refused msg => msg
  | threw msg => orGeneral msg

end Failure

namespace Resolution

/-- The members that an invocation may mean. -/
def candidates (members : List Member) (i : Invocation) : List Member :=
  members.filter fun m => m.name == i.memberName && m.isStatic == i.isStatic

/-- The method takes that many arguments. -/
def takes (n : Nat) (m : Member) : Bool := m.arity?.any (·.toNat == n)

/-- The candidate that is meant, with the arguments that are passed to it. -/
def select? (candidates : List Member) (arguments : List Value) : Option (Member × List Value) :=
  match candidates.find? (·.isProperty) with
  | some m => some (m, [])
  | none => (candidates.find? (takes arguments.length)).map (·, arguments)

/-- The target of an instance member. -/
def target? (i : Invocation) : Except Failure Value :=
  match i.target with
  | none => .error (.noTarget i.typeName)
  | some v => match v.typeName? with
    | some actual =>
      if actual = i.typeName then .ok v else .error (.wrongTarget actual i.typeName)
    | none => .ok v

/-- The call that an invocation stands for. -/
def call? {σ : Type} (a : Artifact σ) (i : Invocation) : Except Failure Artifact.Call :=
  if !a.types.contains i.typeName then .error (.typeNotFound i.typeName)
  else
    let found := candidates (a.membersOf i.typeName) i
    if found.isEmpty then .error (.memberNotFound i.typeName i.memberName i.isStatic)
    else match select? found i.arguments with
      | none => .error (.wrongArity i.memberName (found.filterMap (·.arity?)) i.arguments.length)
      | some (m, arguments) =>
        if m.isStatic then .ok ⟨i.typeName, m, none, arguments⟩
        else (target? i).map fun v => ⟨i.typeName, m, some v, arguments⟩

/-- What a caller learns from a reply. -/
def outcome : Artifact.Reply → Except Failure (Option Value)
  | .returned v => .ok v
  | .mismatch msg => .error (.refused msg)
  | .threw msg => .error (.threw msg)
  | .panicked msg => .error (.threw msg)

/-- Resolves an invocation and runs the call that it stands for, if there is one. -/
def invoke {σ : Type} (a : Artifact σ) (i : Invocation) (s : σ) :
    Except Failure (Option Value) × σ :=
  match call? a i with
  | .error e => (.error e, s)
  | .ok c =>
    let (reply, s) := a.run c s
    (outcome reply, s)

end Resolution

end LiveBuild
