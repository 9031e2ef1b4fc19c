/-!
# What a compiler reports

A compiler that ran reports entries, errors and warnings at places in the source, and perhaps an
artifact. One that could not run, or failed without saying where, ends in a fault.

* `Report.errors`: the entries that are errors;
* `Fault.message`: the text of a fault.
-/

namespace LiveBuild

/-- How grave an entry is. -/
inductive Severity
  | error
  | warning
  deriving DecidableEq, Repr

/-- One entry of a report. An entry without a place has line and column zero. -/
structure Entry where
  severity : Severity
  line : UInt32
  column : UInt32
  code : String
  message : String
  deriving DecidableEq, Repr

namespace Entry

/-- The entry is an error. -/
def isError (e : Entry) : Bool := e.severity == .error

/-- The entry is an error at a place in the source. -/
def isLocatedError (e : Entry) : Bool := e.isError && 0 < e.line

end Entry

/-- What came out of a compile that was attempted. The artifact counts only if no entry is an
error. -/
structure Report (α : Type) where
  entries : List Entry
  artifact : Option α

/-- Why a compile could not be attempted, or failed without an error in the source. -/
inductive Fault
  /-- The compiler could not be started. -/
  | launch (msg : String)
  /-- A file could not be read or written. -/
  | io (msg : String)
  /-- The compiler failed and named no place in the source. -/
  | toolchain (msg : String)
  /-- The output could not be loaded. -/
  | load (msg : String)
  /-- The compile took longer than the time limit, in milliseconds. -/
  | timedOut (ms : Nat)
  deriving DecidableEq, Repr

/-- The text of a fault. -/
def Fault.message : Fault → String
  | launch msg => "failed to launch compiler: " ++ msg
  | io msg => msg
  | toolchain msg => "compiler failed without source diagnostics: " ++ msg
  | load msg => "failed to load compiled artifact: " ++ msg
  | timedOut ms => "compilation timed out after " ++ toString ms ++ " ms"

end LiveBuild
