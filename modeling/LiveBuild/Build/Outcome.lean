import LiveBuild.Build.Parameters
import LiveBuild.Build.Report

/-!
# Outcomes of a build

A build ends in exactly one way: with an artifact, with the errors that the compiler found, of which
there is at least one, or with the cause for which it was given up.

* `Outcome.ofReport`: the outcome of what a compiler reported;
* `Outcome.ofAnswer`: the same for a compiler that may have failed;
* `Outcome.isSuccess`, `Outcome.diagnostics`, `Outcome.build?`, `Outcome.message?`: the four parts
  that a caller sees.
-/

namespace LiveBuild

/-- An error that the compiler found. -/
structure Diagnostic where
  line : UInt32
  column : UInt32
  code : String
  message : String
  deriving DecidableEq, Repr

/-- The diagnostic of an entry. -/
def Diagnostic.ofEntry (e : Entry) : Diagnostic := ⟨e.line, e.column, e.code, e.message⟩

/-- An artifact with the mode and the path of its build. -/
structure Build (α : Type) where
  mode : OutputMode
  path : Option Path
  artifact : α

/-- Why a build was given up. -/
inductive Abort
  | rejected (r : Rejection)
  | faulted (f : Fault)
  /-- There was no error, but no artifact either. -/
  | noArtifact
  deriving DecidableEq, Repr

/-- The text of a cause. -/
def Abort.message : Abort → String
  | rejected r => r.message
  | faulted f => f.message
  | noArtifact => "Backend reported no errors but produced no artifact"

/-- How a build ended. -/
inductive Outcome (α : Type)
  | built (b : Build α)
  | failed (first : Diagnostic) (rest : List Diagnostic)
  | aborted (cause : Abort)

namespace Outcome

variable {α : Type}

/-- The build succeeded. -/
def isSuccess : Outcome α → Bool
  | built _ => true
  | _ => false

/-- The errors of a failed build. -/
def diagnostics : Outcome α → List Diagnostic
  | failed first rest => first :: rest
  | _ => []

/-- The artifact of a successful build. -/
def build? : Outcome α → Option (Build α)
  | built b => some b
  | _ => none

/-- The text of the cause for which a build was given up. -/
def message? : Outcome α → Option String
  | aborted cause => some cause.message
  | _ => none

/-- The outcome of a report. One error decides, even if there is an artifact; warnings are
dropped. -/
def ofReport (mode : OutputMode) (target : Target) (r : Report α) : Outcome α :=
  match (r.entries.filter (·.isError)).map Diagnostic.ofEntry with
  | first :: rest => failed first rest
  | [] => match r.artifact with
    | some a => built ⟨mode, target.path?, a⟩
    | none => aborted .noArtifact

/-- The outcome of what a compiler answered. -/
def ofAnswer (mode : OutputMode) (target : Target) : Except Fault (Report α) → Outcome α
  | .ok r => ofReport mode target r
  | .error f => aborted (.faulted f)

end Outcome

end LiveBuild
