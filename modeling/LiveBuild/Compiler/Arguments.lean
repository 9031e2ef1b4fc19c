import LiveBuild.Build.Parameters

/-!
# Arguments of the compiler

The argument list that a compiler is started with: the source, the options with fixed values, the
warning setting, the output, and then what the parameters ask for.
-/

namespace LiveBuild.Compiler

/-- The kind of output of a target. -/
def crateType : Target → String
  | .executable _ => "bin"
  | .inMemory => "cdylib"
  | .library _ => "cdylib"

/-- The warning setting: warnings are errors, or are dropped at level zero, or stay warnings. -/
def lintFlags (params : Parameters) : List String :=
  if params.warningsAsErrors then ["-D", "warnings"]
  else if params.warningLevel = 0 then ["-A", "warnings"]
  else ["--cap-lints", "warn"]

/-- The argument list for a source and an output. -/
def arguments (params : Parameters) (edition crateName : String) (source output : Path) :
    List String :=
  [source.spelling, "--error-format=json", "--edition", edition, "--crate-name", crateName,
    "--crate-type", crateType params.target] ++ lintFlags params ++ ["-o", output.spelling] ++
    (if params.debugInformation then ["-g"] else []) ++
    (if params.optimize then ["-O"] else []) ++
    params.dependencies.flatMap fun d => ["--extern", d]

end LiveBuild.Compiler
