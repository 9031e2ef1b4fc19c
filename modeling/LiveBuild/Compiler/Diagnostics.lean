import LiveBuild.Build.Report
import LiveBuild.Json.Reader
import LiveBuild.Text.Blank
import LiveBuild.Text.Lines

/-!
# Diagnostics

A compiler writes its messages line by line, each as a JSON object among lines of other text. A line
yields at most one entry: it must hold a message that is a diagnostic and an error or a warning, and
a message that points nowhere counts only if it is an error and no summary.

* `Message.ofJson?`: the message of a tree;
* `Message.yield?`: the entry that a message yields;
* `Diagnostics.ofLine?`: the entry that a line yields;
* `Diagnostics.parse`: the entries of a whole output, in order.
-/

namespace LiveBuild.Compiler

/-- A place in the source that a message points to. -/
structure Span where
  line : UInt32
  column : UInt32
  isPrimary : Bool
  deriving DecidableEq, Repr

/-- One message of the compiler. -/
structure Message where
  /-- What the message is about; absent in older output. -/
  type : Option String
  text : String
  code : Option String
  level : String
  spans : List Span
  deriving DecidableEq, Repr

/-! ## Reading messages -/

/-- A number of thirty-two bits. -/
def word32? (j : Json) : Option UInt32 := (j.natBelow? UInt32.size).map UInt32.ofNat

/-- A value that may be missing or null. -/
def nullable? {α : Type} (read : Json → Option α) : Option Json → Option (Option α)
  | none => some none
  | some .null => some none
  | some j => (read j).map some

/-- The span of a tree whose reader may open `levels` levels. -/
def Span.ofJson? : Nat → Json → Option Span
  | 0, _ => none
  | _ + 1, j => do
    match ← j.slots? ["line_start", "column_start", "is_primary"] with
    | [some line, some column, none] => return ⟨← word32? line, ← word32? column, false⟩
    | [some line, some column, some primary] =>
      return ⟨← word32? line, ← word32? column, ← primary.bool?⟩
    | _ => none

/-- The code of a tree whose reader may open `levels` levels. -/
def codeOfJson? : Nat → Json → Option String
  | 0, _ => none
  | _ + 1, j => do
    match ← j.slots? ["code"] with
    | [some code] => code.text?
    | _ => none

/-- The message of a tree whose reader may open `levels` levels. -/
def Message.ofJson? : Nat → Json → Option Message
  | 0, _ => none
  | levels + 1, j => do
    match ← j.slots? ["$message_type", "message", "code", "level", "spans"] with
    | [type, some text, code, some level, spans] =>
      let spans ← match spans with
        | some j => j.list? levels Span.ofJson?
        | none => some []
      return ⟨← nullable? Json.text? type, ← text.text?, ← nullable? (codeOfJson? levels) code,
        ← level.text?, spans⟩
    | _ => none

/-! ## Entries -/

namespace Message

/-- The severity that a level stands for: every level that begins with `error` is an error, and
only `warning` itself is a warning. -/
def severity? (m : Message) : Option Severity :=
  if "error".toList.isPrefixOf m.level.toList then some .error
  else if m.level = "warning" then some .warning
  else none

/-- The place of a message: the first primary span, or else the first span. -/
def place? (m : Message) : Option Span := m.spans.find? (·.isPrimary) <|> m.spans.head?

/-- A summary of errors that were reported before. -/
def isSummary (m : Message) : Bool := "aborting due to".toList.isPrefixOf m.text.toList

/-- The message is a diagnostic. -/
def isDiagnostic (m : Message) : Bool := m.type.all (· == "diagnostic")

/-- The entry that a message yields. -/
def yield? (m : Message) : Option Entry :=
  if !m.isDiagnostic then none
  else
    let code := m.code.getD ""
    match m.severity?, m.place? with
    | some severity, some span => some ⟨severity, span.line, span.column, code, m.text⟩
    | some .error, none => if m.isSummary then none else some ⟨.error, 0, 0, code, m.text⟩
    | _, none => none
    | none, _ => none

end Message

namespace Diagnostics

/-- The entry that a line yields. A line that does not begin with a brace is passed over. -/
def ofLine? (line : List Char) : Option Entry :=
  let line := Text.trim line
  if line.head? = some '{' then do (← Message.ofJson? Json.maxLevels (← Json.parse? line)).yield?
  else none

/-- The entries of a compiler's output. -/
def parse (stderr : String) : List Entry := (Text.lines stderr.toList).filterMap ofLine?

/-- Some error points into the source. -/
def hasLocatedError (entries : List Entry) : Bool := entries.any (·.isLocatedError)

end Diagnostics

end LiveBuild.Compiler
