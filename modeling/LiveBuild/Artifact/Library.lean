import LiveBuild.Artifact.Basic
import LiveBuild.Text.Quoted
import LiveBuild.Dispatch
import LiveBuild.Manifest
import LiveBuild.Path

/-!
# Loaded libraries

A compiled library may export three functions: one that returns its manifest, one that answers
dispatch requests, and one that takes answers back. Texts cross the border as bytes that end at the
first NUL. A library without a manifest has no types, and one that takes no answers back keeps them.

* `Library.load?`: the library of a path and of what it exports;
* `Library.run`: a call as a request to the library, and the reply that its answer means;
* `Library.Traffic`: what went over the border, which is the state of the artifact together with
  the state `σ` of the library itself.

An executable is not loaded; as an artifact it has no types and refuses every call.
-/

namespace LiveBuild

/-- The text in place of what a JSON reader says about a text that it refuses. -/
def Json.errorText : String := "<json error>"

/-- The bytes of a text that has no NUL in it, or the place of its first NUL. -/
def cString? (s : String) : Except Nat (List UInt8) :=
  match (Utf8.encode s).findIdx? (· == 0) with
  | some i => .error i
  | none => .ok (Utf8.encode s)

/-- The functions that a compiled library exports. -/
structure Library.Exports (σ : Type) where
  /-- The manifest function, with the bytes that it returns, if any. -/
  manifest : Option (Option (List UInt8))
  /-- The dispatch function. -/
  dispatch : Option (List UInt8 → σ → Option (List UInt8) × σ)
  /-- Answers are taken back. -/
  releases : Bool

/-- A library that was loaded. -/
structure Library (σ : Type) where
  path : Path
  types : Manifest
  dispatch : Option (List UInt8 → σ → Option (List UInt8) × σ)
  releases : Bool

/-- What went over the border so far. -/
structure Library.Traffic (σ : Type) where
  inner : σ
  /-- The requests, in order. -/
  requests : List (List UInt8)
  /-- The number of answers that were given back. -/
  released : Nat

namespace Library

variable {σ : Type}

/-- Why a library cannot be loaded. -/
inductive LoadError
  /-- The loader refused the file. -/
  | cannotOpen (path : Path) (msg : String)
  /-- The manifest cannot be read. -/
  | malformedManifest (path : Path) (msg : String)
  deriving DecidableEq, Repr

/-- The text of an error. -/
def LoadError.message : LoadError → String
  | cannotOpen path msg => "cannot open " ++ path.spelling ++ ": " ++ msg
  | malformedManifest path msg => "malformed manifest in " ++ path.spelling ++ ": " ++ msg

/-- The library of a path and of what it exports. -/
def load? (path : Path) (exports : Exports σ) : Except LoadError (Library σ) :=
  match exports.manifest with
  | none => .ok ⟨path, [], exports.dispatch, exports.releases⟩
  | some bytes => match Manifest.read? bytes with
    | some types => .ok ⟨path, types, exports.dispatch, exports.releases⟩
    | none => .error (.malformedManifest path Json.errorText)

namespace Traffic

/-- Nothing was exchanged yet. -/
def start (inner : σ) : Traffic σ := ⟨inner, [], 0⟩

/-- The dispatch function was called with a request. -/
def exchange (t : Traffic σ) (request : List UInt8) (inner : σ) : Traffic σ :=
  { t with inner, requests := t.requests ++ [request] }

/-- An answer was given back. -/
def release (t : Traffic σ) : Traffic σ := { t with released := t.released + 1 }

end Traffic

/-- The reply that the text of an answer means. -/
def replyOf (text : String) : Artifact.Reply :=
  match Dispatch.Response.read? text with
  | some (.ok v) => .returned v
  | some (.mismatch msg) => .mismatch msg
  | some (.fault msg) => .threw msg
  | none => .threw ("malformed response " ++ Text.quote text ++ ": " ++ Json.errorText)

/-- The request that a call is sent as. -/
def requestOf (c : Artifact.Call) : Dispatch.Request :=
  ⟨c.typeName, c.member.name, c.target, c.arguments⟩

/-- Sends a call to the library. -/
def run (l : Library σ) (c : Artifact.Call) (t : Traffic σ) : Artifact.Reply × Traffic σ :=
  match l.dispatch with
  | none => (.threw (l.path.spelling ++ " does not export dyncode_invoke"), t)
  | some dispatch => match cString? (requestOf c).write with
    | .error i =>
      (.mismatch ("nul byte found in provided data at position: " ++ toString i), t)
    | .ok request =>
      let (answer, inner) := dispatch request t.inner
      let t := t.exchange request inner
      match answer with
      | none => (.threw (c.typeName ++ "::" ++ c.member.name ++ " returned no response"), t)
      | some bytes =>
        (replyOf (Utf8.decodeLossy (untilNul bytes)), if l.releases then t.release else t)

/-- The artifact of a library. -/
def artifact (l : Library σ) : Artifact (Traffic σ) :=
  ⟨l.types.map (·.name), l.types.membersOf, l.run⟩

end Library

/-! ## Executables -/

namespace Executable

/-- An executable refuses every call. -/
def refuse (path : Path) (c : Artifact.Call) : Artifact.Reply :=
  .mismatch (path.spelling ++ " is an executable, " ++ c.typeName ++ "::" ++ c.member.name ++
    " cannot be invoked in-process")

/-- The artifact of an executable. -/
def artifact (σ : Type) (path : Path) : Artifact σ :=
  ⟨[], fun _ => [], fun c s => (refuse path c, s)⟩

/-- An executable as it is shown. -/
def display (path : Path) : String :=
  "ExecutableModule \x7b path: " ++ Text.quote path.spelling ++ " \x7d"

end Executable

/-- What a build ends in: a library that was loaded, or an executable on disk. -/
inductive Product (σ : Type)
  | library (l : Library σ)
  | executable (path : Path)

/-- The artifact of a product. -/
def Product.artifact {σ : Type} : Product σ → Artifact (Library.Traffic σ)
  | library l => l.artifact
  | executable path => Executable.artifact _ path

end LiveBuild
