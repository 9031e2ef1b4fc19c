import LiveBuild.Artifact.Library
import LiveBuild.Build.Service
import LiveBuild.Build.Settings
import LiveBuild.Compiler.Arguments
import LiveBuild.Compiler.CrateName
import LiveBuild.Compiler.Resources
import LiveBuild.Compiler.Run
import LiveBuild.Files

/-!
# Compiling

A compile writes the source to the work directory, unless a file can be compiled where it is, runs
the compiler, judges the run, and loads the output. Each build has an identifier of its own, and
what it writes to the work directory is named after it and stays there.

The dynamic loader answers a path that it has opened before with what it mapped then. So a library
with a path of its own, which may be built again, is loaded from a copy under a fresh name.

* `Compiler.materialize`, `Compiler.layout`: the source file and the output of a build;
* `Compiler.start`: a run of the compiler;
* `Compiler.load`: the product of a run that succeeded;
* `Compiler.compile`: all of it;
* `Service.compile`: a request from its parameters to its outcome.
-/

namespace LiveBuild.Compiler

/-- The identifier of a build, with dashes and as plain digits. -/
structure BuildId where
  dashed : String
  digits : String
  deriving DecidableEq, Repr

/-- What all compiles of a service share. The compiler gets the number of its earlier starts, its
arguments and the files, and may never end; compiled code of kind `ι` exports functions over the
state `σ`. -/
structure Toolchain (ι σ : Type) where
  compiler : Path
  workDir : Path
  edition : String
  /-- The directories in which a program is searched for that is called by its name alone. -/
  searchPath : List Path
  run : Nat → List String → Files ι → Option Finished × Files ι
  exports : ι → Library.Exports σ

/-- What compiles change. -/
structure Host (ι : Type) where
  files : Files ι
  /-- The arguments of each start of the compiler. -/
  starts : List (List String)
  /-- The paths that the loader has opened, with what it mapped. -/
  mapped : List (Path × ι)

/-- Why a compile has no report. -/
inductive Halt
  | fault (f : Fault)
  /-- The compiler does not end. -/
  | never
  deriving DecidableEq, Repr

/-- A step of a compile. -/
abbrev Work (ι : Type) := ExceptT Halt (StateM (Host ι))

variable {ι σ : Type}

/-- Files before any compile. -/
def Host.ofFiles (files : Files ι) : Host ι := ⟨files, [], []⟩

/-- The compiler, the work directory and the edition as the settings say. -/
def Toolchain.ofSettings (s : Settings) (searchPath : List Path)
    (run : Nat → List String → Files ι → Option Finished × Files ι)
    (exports : ι → Library.Exports σ) : Toolchain ι σ :=
  ⟨s.compiler, s.workDir, s.edition, searchPath, run, exports⟩

/-- Ends a compile with a fault. -/
def fail {α : Type} (f : Fault) : Work ι α := throw (.fault f)

/-- A fault of the files: what was tried, and the error. -/
def ioFault (context : String) (e : OsError) : Fault := .io (context ++ ": " ++ e.message)

/-- A look at the files. -/
def look {α : Type} (context : String) (f : Files ι → Except OsError α) : Work ι α := do
  match f (← get).files with
  | .ok a => return a
  | .error e => fail (ioFault context e)

/-- A change of the files. -/
def change (context : String) (f : Files ι → Except OsError (Files ι)) : Work ι Unit := do
  let files ← look context f
  modify fun h => { h with files }

/-- Makes a directory and those above it that are missing. -/
def ensureDirectories (context : String) (p : Path) : Work ι Unit := do
  let (r, files) := (← get).files.makeDirectories p
  modify fun h => { h with files }
  match r with
  | .ok () => return
  | .error e => fail (ioFault context e)

/-! ## Source and output -/

/-- What a file holds, as text. Compiled code is no text. -/
def textOf? : Content ι → Except OsError String
  | .bytes bs => match Utf8.decode? bs with
    | some s => .ok s
    | none => .error .notUtf8
  | .image _ => .error .notUtf8

/-- The file that is handed to the compiler. -/
def materialize (t : Toolchain ι σ) (id : BuildId) (source : Source) (resources : List Path) :
    Work ι Path := do
  let write (text : String) : Work ι Path := do
    let path := t.workDir.child (id.dashed ++ ".rs")
    let cwd := (← get).files.current
    let contents := if resources.isEmpty then text else text ++ Resources.table cwd resources
    change "Failed to write source file" (·.write path (.bytes (Utf8.encode contents)))
    return path
  match source with
  | .text text => write text
  | .file path =>
    if resources.isEmpty then return path
    else
      let text ← look ("Failed to read " ++ path.spelling) fun files => do
        textOf? (← files.read? path)
      write text

/-- The name of the crate that belongs to a build. -/
def ownCrateName (id : BuildId) : String := "dyncode_" ++ id.digits

/-- The directory that belongs to a build. -/
def ownDirectory (t : Toolchain ι σ) (id : BuildId) : Path := t.workDir.child id.dashed

/-- The library file that belongs to a build. -/
def ownLibrary (t : Toolchain ι σ) (id : BuildId) : Path :=
  (ownDirectory t id).child ("lib" ++ ownCrateName id ++ ".so")

/-- Where the output of a build goes, and under which name it is compiled. -/
def layout (t : Toolchain ι σ) (id : BuildId) : Target → Work ι (Path × String)
  | .inMemory => do
    ensureDirectories "Failed to create output directory" (ownDirectory t id)
    return (ownLibrary t id, ownCrateName id)
  | .library path => return (path, CrateName.ofPath path)
  | .executable path => return (path, CrateName.ofPath path)

/-! ## Running the compiler -/

/-- Why the file at a path cannot be started as a program. -/
def programError? (files : Files ι) (p : Path) : Option OsError :=
  match files.stat? p with
  | .error e => some e
  | .ok (_, .file _ true) => none
  | .ok _ => some .permissionDenied

/-- Why a program that is called by its name alone cannot be started. A file of that name that is no
program is passed over, and is what is wrong only if no directory has the program. -/
def searchError? (files : Files ι) (searchPath : List Path) (name : String) : Option OsError :=
  let errors := searchPath.map fun directory => programError? files (directory.child name)
  if name = "" then some .notFound
  else if errors.contains none then none
  else if errors.contains (some .permissionDenied) then some .permissionDenied
  else some .notFound

/-- Why the compiler cannot be started. A name without a slash is searched for. -/
def startError? (files : Files ι) (searchPath : List Path) (compiler : Path)
    (arguments : List String) : Option OsError :=
  if (compiler.spelling :: arguments).any (·.toList.contains (Char.ofNat 0)) then
    some .nulInArgument
  else if compiler.spelling.toList.contains '/' then programError? files compiler
  else searchError? files searchPath compiler.spelling

/-- A run of the compiler. -/
def start (t : Toolchain ι σ) (arguments : List String) : Work ι Finished := do
  match startError? (← get).files t.searchPath t.compiler arguments with
  | some e => fail (.launch (t.compiler.spelling ++ ": " ++ e.message))
  | none =>
    let h ← get
    let (finished, files) := t.run h.starts.length arguments h.files
    modify fun h => { h with files, starts := h.starts ++ [arguments] }
    match finished with
    | some f => return f
    | none => throw .never

/-! ## Loading the output -/

/-- The text in place of what the dynamic loader says about a file that it refuses. -/
def loaderErrorText : String := "<loader error>"

/-- The code that the loader maps for a path: what it mapped before, or else what is there. -/
def openImage? (h : Host ι) (p : Path) : Option ι :=
  match h.mapped.find? (·.1 == p) with
  | some m => some m.2
  | none => match h.files.read? p with
    | .ok (.image i) => some i
    | _ => none

/-- Opens a library. -/
def openLibrary (t : Toolchain ι σ) (p : Path) : ExceptT Library.LoadError (StateM (Host ι))
    (Library σ) := do
  match openImage? (← get) p with
  | none => throw (.cannotOpen p loaderErrorText)
  | some i =>
    modify fun h => { h with mapped := h.mapped ++ [(p, i)] }
    match Library.load? p (t.exports i) with
    | .ok l => return l
    | .error e => throw e

/-- Opens the library of a build. -/
def loadLibrary (t : Toolchain ι σ) (p : Path) : Work ι (Product σ) := do
  match ← (openLibrary t p).run with
  | .ok l => return .library l
  | .error e => fail (.load e.message)

/-- The product of a run that succeeded. -/
def load (t : Toolchain ι σ) (id : BuildId) (target : Target) : Work ι (Product σ) :=
  match target with
  | .executable path => do
    let _ ← look "Failed to stat executable" (·.stat? path)
    change "Failed to mark executable" (·.makeExecutable path)
    return .executable path
  | .inMemory => loadLibrary t (ownLibrary t id)
  | .library path => do
    ensureDirectories "Failed to create load directory" (ownDirectory t id)
    change ("Failed to copy " ++ path.spelling) (·.copy path (ownLibrary t id))
    loadLibrary t (ownLibrary t id)

/-- One compile. -/
def compile (t : Toolchain ι σ) (id : BuildId) (params : Parameters) (source : Source) :
    Work ι (Report (Product σ)) := do
  ensureDirectories "Failed to create work directory" t.workDir
  let sourcePath ← materialize t id source params.resources
  let (output, crateName) ← layout t id params.target
  let finished ← start t (arguments params t.edition crateName sourcePath output)
  match finished.judge with
  | .sourceErrors entries => return ⟨entries, none⟩
  | .failure msg => fail (.toolchain msg)
  | .success entries => return ⟨entries, some (← load t id params.target)⟩

end LiveBuild.Compiler

namespace LiveBuild.Service

open Compiler

variable {ι σ : Type}

/-- What a service with a time limit makes of a compile. One that does not end is given up when the
time is over, and goes on for ever without a limit. -/
def within {α : Type} (limit : Option Nat) : Except Halt α → Option (Except Fault α)
  | .ok r => some (.ok r)
  | .error (.fault f) => some (.error f)
  | .error .never => limit.map fun ms => .error (.timedOut ms)

/-- The compiler of a toolchain, under a time limit. It may never end. -/
def toolchain (t : Toolchain ι σ) (limit : Option Nat) (id : BuildId) :
    Backend (OptionT (StateM (Host ι))) (Product σ) := fun params source =>
  OptionT.mk (within limit <$> (Compiler.compile t id params source).run)

/-- A request from its parameters to its outcome; none if the compile goes on for ever. -/
def compile (t : Toolchain ι σ) (limit : Option Nat) (id : BuildId) (r : Request) (h : Host ι) :
    Option (Outcome (Product σ)) × Host ι :=
  (handle h.files.pathExists r (toolchain t limit id)).run h

end LiveBuild.Service
