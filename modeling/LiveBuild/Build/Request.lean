import LiveBuild.Path

/-!
# Build requests

What a caller asks for: a source text or a source file, an output path in one of two forms or none,
resources to embed and dependencies to refer to. A request is made step by step; a step sets a
field or adds to a list.

* `Request.mode`, `Request.outputPath?`: what is to be built, and where;
* `Request.ofSteps`: the request that a list of steps makes.
-/

namespace LiveBuild

/-- What is built. -/
inductive OutputMode
  | inMemoryLibrary
  | onDiskLibrary
  | onDiskExecutable
  deriving DecidableEq, Repr

/-- The name of a mode. -/
def OutputMode.name : OutputMode → String
  | inMemoryLibrary => "InMemoryLibrary"
  | onDiskLibrary => "OnDiskLibrary"
  | onDiskExecutable => "OnDiskExecutable"

/-- What is asked of one build. -/
structure Request where
  sourceText : Option String := none
  sourceFile : Option Path := none
  executablePath : Option Path := none
  libraryPath : Option Path := none
  resources : List Path := []
  dependencies : List String := []
  deriving DecidableEq, Repr

namespace Request

/-- An executable path decides before a library path; without either, the library stays in
memory. -/
def mode (r : Request) : OutputMode :=
  if r.executablePath.isSome then .onDiskExecutable
  else if r.libraryPath.isSome then .onDiskLibrary
  else .inMemoryLibrary

/-- The output path that belongs to the mode. -/
def outputPath? (r : Request) : Option Path :=
  match r.mode with
  | .onDiskExecutable => r.executablePath
  | .onDiskLibrary => r.libraryPath
  | .inMemoryLibrary => none

/-- One step in the making of a request. -/
inductive Step
  | sourceText (text : String)
  | sourceFile (path : Path)
  | executablePath (path : Path)
  | libraryPath (path : Path)
  | resource (path : Path)
  | dependency (name : String)
  deriving DecidableEq, Repr

/-- The request after one more step. -/
def apply (r : Request) : Step → Request
  | .sourceText text => { r with sourceText := some text }
  | .sourceFile path => { r with sourceFile := some path }
  | .executablePath path => { r with executablePath := some path }
  | .libraryPath path => { r with libraryPath := some path }
  | .resource path => { r with resources := r.resources ++ [path] }
  | .dependency name => { r with dependencies := r.dependencies ++ [name] }

/-- The request that a list of steps makes. -/
def ofSteps (steps : List Step) : Request := steps.foldl apply {}

end Request

end LiveBuild
