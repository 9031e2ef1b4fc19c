import LiveBuild.Text.Lines

/-!
# Paths

A path is text in which slashes separate names. Empty segments and the name `.` say nothing and are
dropped, except that a relative path keeps a `.` at its beginning; the name `..` is kept, since what
it means is for the file system to decide.

* `Path.names`: the names that count, in order;
* `Path.components`: the names with the root or the leading `.`; two paths are the same if their
  components are;
* `Path.absolute`: the lexically absolute form of a path;
* `Path.fileName?`, `Path.fileStem?`: the last name, and the part of it before its last dot.
-/

namespace LiveBuild

/-- A path, as it is spelled. -/
structure Path where
  spelling : String
  deriving DecidableEq, Repr, Inhabited

namespace Path

/-- The parts of a text between its slashes. -/
def splitSlashes : List Char → List (List Char)
  | [] => [[]]
  | '/' :: cs => [] :: splitSlashes cs
  | c :: cs => Text.consFirst c (splitSlashes cs)

/-- The parts between the slashes of a path. -/
def segments (p : Path) : List (List Char) := splitSlashes p.spelling.toList

/-- A segment that is neither empty nor a single dot. -/
def isName (segment : List Char) : Bool := segment != [] && segment != ['.']

/-- The names of a path. -/
def names (p : Path) : List (List Char) := p.segments.filter isName

/-- The path without any text. -/
def isEmpty (p : Path) : Bool := p.spelling == ""

/-- A path that begins with a slash. -/
def isAbsolute (p : Path) : Bool := p.spelling.toList.head? == some '/'

/-- A path that ends with a slash. -/
def endsWithSlash (p : Path) : Bool := p.spelling.toList.getLast? == some '/'

/-- The parts of a path that count. -/
inductive Component
  /-- The slash at the beginning of an absolute path. -/
  | root
  /-- The dot at the beginning of a relative path. -/
  | current
  | name (cs : List Char)
  deriving DecidableEq, Repr

/-- The components of a path. -/
def components (p : Path) : List Component :=
  (if p.isAbsolute then [.root] else if p.segments.head? = some ['.'] then [.current] else []) ++
    p.names.map .name

/-- Two paths are the same if they have the same components. -/
def same (p q : Path) : Bool := p.components == q.components

theorem same_iff {p q : Path} : p.same q = true ↔ p.components = q.components := by
  rw [same, beq_iff_eq]

theorem same_symm {p q : Path} (h : p.same q = true) : q.same p = true :=
  same_iff.2 (same_iff.1 h).symm

/-! ## Spelling paths -/

/-- Names with slashes between them. -/
def joinNames (names : List (List Char)) : List Char := ['/'].intercalate names

/-- The path with one more name at its end. -/
def child (p : Path) (name : String) : Path :=
  if p.isEmpty || p.endsWithSlash then ⟨p.spelling ++ name⟩ else ⟨p.spelling ++ "/" ++ name⟩

/-- What stands before the first name of an absolute path: one slash, unless there are exactly
two. -/
def lead : List Char → List Char
  | '/' :: '/' :: '/' :: _ => ['/']
  | '/' :: '/' :: _ => ['/', '/']
  | _ => ['/']

/-- The characters of a lexically absolute path. A relative path continues `cwd`. A slash at the end
is kept. -/
def absoluteChars (p cwd : Path) : List Char :=
  let body :=
    if p.isAbsolute then lead p.spelling.toList ++ joinNames p.names
    else '/' :: joinNames (cwd.names ++ p.names)
  if p.endsWithSlash && body.getLast? != some '/' then body ++ ['/'] else body

/-- The lexically absolute form of a path; the empty path stays empty. -/
def absolute (p cwd : Path) : Path :=
  if p.isEmpty then p else ⟨String.ofList (p.absoluteChars cwd)⟩

/-! ## The last name -/

/-- The characters of the last name, unless there is none or it is `..`. -/
def fileNameChars? (p : Path) : Option (List Char) :=
  match p.names.getLast? with
  | some name => if name = ['.', '.'] then none else some name
  | none => none

/-- The last name of a path, unless it is `..`. -/
def fileName? (p : Path) : Option String := p.fileNameChars?.map String.ofList

/-- The part of a name before its last dot; a name whose only dot stands first has no such part, and
is its own stem. -/
def stem (name : List Char) : List Char :=
  let before := ((name.reverse.dropWhile (· != '.')).drop 1).reverse
  if before = [] then name else before

/-- The last name without its extension. -/
def fileStem? (p : Path) : Option (List Char) := p.fileNameChars?.map stem

end Path

end LiveBuild
