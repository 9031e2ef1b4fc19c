import LiveBuild.Decimal.Word
import LiveBuild.Path
import LiveBuild.Text.Blank
import LiveBuild.Text.Quoted

/-!
# Settings

Where the compiler and the work directory are, which edition is compiled, and how long a compile may
take. Each setting has a variable of its own, and a default that holds while the variable is unset.
The time limit is the one setting that can be wrong: it is a number of milliseconds below `2 ^ 64`
in decimal digits, perhaps after a plus sign, between blanks.

* `Settings.ofLookup`: the settings of a look-up of variables, or the variable that is wrong;
* `Settings.milliseconds?`: the number that a time limit denotes.
-/

namespace LiveBuild

/-- The settings of a service. -/
structure Settings where
  compiler : Path
  workDir : Path
  edition : String
  /-- The time limit of a compile in milliseconds. -/
  timeLimit : Option Nat
  deriving DecidableEq, Repr

namespace Settings

/-- The variables that hold the settings. -/
inductive Variable
  | compiler
  | workDir
  | edition
  | timeLimit
  deriving DecidableEq, Repr

/-- The name of a variable. -/
def Variable.name : Variable → String
  | compiler => "DYNCODE_RUSTC"
  | workDir => "DYNCODE_WORK_DIR"
  | edition => "DYNCODE_EDITION"
  | timeLimit => "DYNCODE_COMPILE_TIMEOUT_MS"

/-- A variable whose value cannot be used. -/
inductive Error
  | invalidValue (var : Variable) (value : String)
  deriving DecidableEq, Repr

/-- The text of an error. -/
def Error.message : Error → String
  | invalidValue var value => "Invalid value for " ++ var.name ++ ": " ++ Text.quote value

/-- An error as it is shown. -/
def Error.display : Error → String
  | invalidValue var value =>
    "InvalidValue \x7b var: " ++ Text.quote var.name ++ ", value: " ++ Text.quote value ++ " \x7d"

/-- The directory for temporary files. -/
def defaultTempDir : Path := ⟨"/tmp"⟩

/-- The settings while no variable is set. -/
def default (tempDir : Path) : Settings :=
  ⟨⟨"rustc"⟩, tempDir.child "dyncode", "2021", none⟩

/-- The text without one plus sign at its beginning. -/
def dropPlus : List Char → List Char
  | '+' :: cs => cs
  | cs => cs

/-- The number of milliseconds that a time limit denotes. -/
def milliseconds? (s : String) : Option UInt64 :=
  Word.ofDigits? (dropPlus (Text.trim s.toList))

/-- The settings of a look-up of variables. -/
def ofLookup (tempDir : Path) (lookup : Variable → Option String) : Except Error Settings := do
  let timeLimit ← match lookup .timeLimit with
    | none => .ok none
    | some s => match milliseconds? s with
      | some ms => .ok (some ms.toNat)
      | none => .error (.invalidValue .timeLimit s)
  let defaults := default tempDir
  return {
    compiler := (lookup .compiler).elim defaults.compiler Path.mk
    workDir := (lookup .workDir).elim defaults.workDir Path.mk
    edition := (lookup .edition).getD defaults.edition
    timeLimit }

/-- Equality of settings, in which paths are compared by their components. -/
def same (s t : Settings) : Bool :=
  s.compiler.same t.compiler && s.workDir.same t.workDir && s.edition == t.edition &&
    s.timeLimit == t.timeLimit

end Settings

end LiveBuild
