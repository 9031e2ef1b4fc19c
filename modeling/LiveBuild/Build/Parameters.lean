import LiveBuild.Build.Request
import LiveBuild.Text.Quoted

/-!
# Parameters of a build

What a compiler is handed: where the output goes, how to compile, and one source. They follow from
a request, or the request is rejected: its output path may be empty, or it may have no source. A
source file that exists is taken before a source text.

* `Request.parameters?`: the parameters of a request, or why there are none;
* `Request.source?`: the source of a request, given which files exist;
* `Request.prepare`: both, an empty output path being noticed first.
-/

namespace LiveBuild

/-- Where the output of a build goes. -/
inductive Target
  | inMemory
  | library (path : Path)
  | executable (path : Path)
  deriving DecidableEq, Repr

/-- The path of a target on disk. -/
def Target.path? : Target → Option Path
  | inMemory => none
  | library path => some path
  | executable path => some path

/-- How to compile. -/
structure Parameters where
  target : Target
  debugInformation : Bool
  warningLevel : Nat
  warningsAsErrors : Bool
  optimize : Bool
  dependencies : List String
  resources : List Path
  deriving DecidableEq, Repr

/-- What to compile. -/
inductive Source
  | text (text : String)
  | file (path : Path)
  deriving DecidableEq, Repr

/-- The reasons for which a request is rejected. -/
inductive Rejection
  | noSource (file : Option Path)
  | emptyOutputPath (mode : OutputMode)
  deriving DecidableEq, Repr

namespace Rejection

/-- A path that may be missing, as it is shown. -/
def displayPath : Option Path → String
  | some p => "Some(" ++ Text.quote p.spelling ++ ")"
  | none => "None"

/-- The text of a rejection. -/
def message : Rejection → String
  | noSource file =>
    "No source to compile: source file " ++ displayPath file ++
      " does not exist and no source text was given"
  | emptyOutputPath mode => "Output path for " ++ mode.name ++ " is empty"

end Rejection

namespace Request

/-- The warning level of every build. -/
def warningLevel : Nat := 2

/-- The target of a request, unless its path is empty. -/
def target? (r : Request) : Except Rejection Target :=
  match r.mode, r.outputPath? with
  | .inMemoryLibrary, _ => .ok .inMemory
  | .onDiskLibrary, some path =>
    if path.isEmpty then .error (.emptyOutputPath .onDiskLibrary) else .ok (.library path)
  | .onDiskExecutable, some path =>
    if path.isEmpty then .error (.emptyOutputPath .onDiskExecutable) else .ok (.executable path)
  | mode, none => .error (.emptyOutputPath mode)

/-- The parameters of a request. -/
def parameters? (r : Request) : Except Rejection Parameters :=
  r.target?.map fun target => ⟨target, true, warningLevel, false, true, r.dependencies, r.resources⟩

/-- The source of a request: the file if it exists, else the text if there is any. -/
def source? (fileExists : Path → Bool) (r : Request) : Except Rejection Source :=
  let text : Except Rejection Source :=
    match r.sourceText with
    | some text => if text = "" then .error (.noSource r.sourceFile) else .ok (.text text)
    | none => .error (.noSource r.sourceFile)
  match r.sourceFile with
  | some file => if fileExists file then .ok (.file file) else text
  | none => text

/-- A source file is looked for, unless the request is rejected before. -/
def looksForFile (r : Request) : Bool := r.parameters?.isOk && r.sourceFile.isSome

/-- What a compiler is handed for a request. -/
def prepare (fileExists : Path → Bool) (r : Request) : Except Rejection (Parameters × Source) := do
  let params ← r.parameters?
  let source ← r.source? fileExists
  return (params, source)

end Request

end LiveBuild
