import LiveBuild.Artifact.Resolution
import LiveBuild.Compiler.Compile
import LiveBuild.Value.Display

/-!
# The walkthrough

A program that shows the service at work: it compiles a source with an error and prints what the
compiler found, compiles a sample library, invokes a static property of it and an instance property
of the value, and shows what an unknown member fails with.

`Walkthrough.run` is the program, as a function of its settings and of the two sources.
-/

namespace LiveBuild.Walkthrough

open Compiler

/-- What a program leaves: its two outputs and its exit code. -/
structure Screen where
  stdout : String
  stderr : String
  exitCode : Nat
  deriving DecidableEq, Repr

/-- The screen of a program that ends in an error, which is shown. -/
def Screen.failed (stdout shown : String) : Screen := ⟨stdout, "Error: " ++ shown ++ "\n", 1⟩

/-- A source with an error in its second line. -/
def brokenSource : String := "pub fn broken() -> i64 \x7b\n    let x = 1\n    x\n\x7d\n"

/-- The line that is printed for a diagnostic. -/
def diagnosticLine (d : Diagnostic) : String :=
  toString d.line.toNat ++ ":" ++ toString d.column.toNat ++ " " ++ d.code ++ " " ++ d.message ++
    "\n"

/-- What a caller sees of the value of an invocation. -/
def valueOf (r : Except Failure (Option Value)) : Option Value :=
  match r with
  | .ok v => v
  | .error _ => none

/-- The kind and the detail of a failure, as they are shown. -/
def failureLine (r : Except Failure (Option Value)) : String :=
  match r with
  | .ok _ => "None: None\n"
  | .error e => "Some(" ++ e.kind.name ++ "): Some(" ++ Text.quote e.detail ++ ")\n"

/-- What is printed about the members of an artifact. -/
def tour {σ : Type} (a : Artifact σ) (s : σ) : String :=
  let (foo, s) := Resolution.invoke a (.static "Bar" "MyFoo") s
  let (property, s) := match valueOf foo with
    | some v =>
      let (r, s) := Resolution.invoke a (.ofInstance "Foo" "MyProperty" v) s
      ("Foo.MyProperty = " ++ Value.displayOption (valueOf r) ++ "\n", s)
    | none => ("", s)
  let missing := { Invocation.static "Bar" "Nope" with arguments := [.null] }
  let (nope, _) := Resolution.invoke a missing s
  "Bar.MyFoo = " ++ Value.displayOption (valueOf foo) ++ "\n" ++ property ++ failureLine nope

variable {ι σ : Type}

/-- The program, after its settings were read. It shows nothing if a compile goes on for ever. -/
def withSettings (t : Toolchain ι σ) (limit : Option Nat) (sampleSource : String)
    (first second : BuildId) (initial : σ) (h : Host ι) : Option Screen × Host ι :=
  match Service.compile t limit first { sourceText := some brokenSource } h with
  | (none, h) => (none, h)
  | (some broken, h) =>
    let found := String.join (broken.diagnostics.map diagnosticLine)
    match Service.compile t limit second { sourceText := some sampleSource } h with
    | (none, h) => (none, h)
    | (some (.built b), h) =>
      (some ⟨found ++ tour b.artifact.artifact (.start initial), "", 0⟩, h)
    | (some outcome, h) =>
      let msg := outcome.message?.getD "compilation failed"
      (some (.failed found (Text.quote msg)), h)

/-- The program: `read` are its settings, or what is wrong with them. -/
def run (read : Except Settings.Error Settings) (searchPath : List Path)
    (compiler : Nat → List String → Files ι → Option Finished × Files ι)
    (exports : ι → Library.Exports σ) (sampleSource : String) (first second : BuildId)
    (initial : σ) (h : Host ι) : Option Screen × Host ι :=
  match read with
  | .error e => (some (.failed "" e.display), h)
  | .ok s =>
    let t : Toolchain ι σ := .ofSettings s searchPath compiler exports
    withSettings t s.timeLimit sampleSource first second initial h

end LiveBuild.Walkthrough
