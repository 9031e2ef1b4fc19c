import LiveBuild.Path

/-!
# Files

A tree of directories and files, as far as a build needs it. A file holds bytes, or compiled code of
some kind `ι`, and may be executable. In a sealed directory nothing can be created.

A path is followed name by name from the root or from the current directory: every name but the last
must be a directory, `.` stays, and `..` goes to the parent.

* `Files.locate?`: the place that a path leads to;
* `Files.read?`, `Files.write`, `Files.copy`, `Files.makeExecutable`: files;
* `Files.makeDirectory`, `Files.makeDirectories`: directories.
-/

namespace LiveBuild

/-- Why an operation on files fails. -/
inductive OsError
  | notFound
  | permissionDenied
  | exists
  | notDirectory
  | isDirectory
  /-- What is to be copied is no file. -/
  | notRegular
  /-- The path has a NUL in it. -/
  | nulInPath
  /-- An argument of a program has a NUL in it. -/
  | nulInArgument
  /-- What is read as text is not UTF-8. -/
  | notUtf8
  deriving DecidableEq, Repr

/-- The text of an error. -/
def OsError.message : OsError → String
  | notFound => "No such file or directory (os error 2)"
  | permissionDenied => "Permission denied (os error 13)"
  | .exists => "File exists (os error 17)"
  | notDirectory => "Not a directory (os error 20)"
  | isDirectory => "Is a directory (os error 21)"
  | notRegular => "the source path is neither a regular file nor a symlink to a regular file"
  | nulInPath => "file name contained an unexpected NUL byte"
  | nulInArgument => "nul byte found in provided data"
  | notUtf8 => "stream did not contain valid UTF-8"

/-- What a file holds. -/
inductive Content (ι : Type)
  | bytes (bs : List UInt8)
  /-- Compiled code. -/
  | image (i : ι)
  deriving DecidableEq, Repr

/-- A place in the tree: the names from the root. -/
abbrev Place := List (List Char)

/-- What is at a place. -/
inductive Node (ι : Type)
  | directory
  | file (content : Content ι) (executable : Bool)
  deriving DecidableEq, Repr

/-- A tree of files. -/
structure Files (ι : Type) where
  nodes : List (Place × Node ι)
  /-- The directories in which nothing can be created. -/
  sealedPlaces : List Place
  /-- The current directory. -/
  current : Path

namespace Files

variable {ι : Type}

/-- What is at a place; the root is always a directory. -/
def node? (fs : Files ι) (place : Place) : Option (Node ι) :=
  if place = [] then some .directory else (fs.nodes.find? (·.1 == place)).map (·.2)

/-- Puts a node at a place. -/
def put (fs : Files ι) (place : Place) (n : Node ι) : Files ι :=
  { fs with nodes := fs.nodes.filter (·.1 != place) ++ [(place, n)] }

/-! ## Following paths -/

/-- The steps of a path from the root. -/
def stepsOf (fs : Files ι) (p : Path) : Place :=
  if p.isAbsolute then p.segments else fs.current.names ++ p.segments

/-- Follows steps from a directory. Every name but the last must be a directory; the last one may
be missing. -/
def follow (fs : Files ι) (here : Place) : Place → Except OsError Place
  | [] => .ok here
  | step :: rest =>
    if !Path.isName step then fs.follow here rest
    else if step = ['.', '.'] then fs.follow here.dropLast rest
    else if rest = [] then .ok (here ++ [step])
    else match fs.node? (here ++ [step]) with
      | some .directory => fs.follow (here ++ [step]) rest
      | some (.file _ _) => .error .notDirectory
      | none => .error .notFound

/-- The place that a path leads to. Its last name may be missing there. -/
def locate? (fs : Files ι) (p : Path) : Except OsError Place :=
  if p.spelling.toList.contains (Char.ofNat 0) then .error .nulInPath
  else if p.isEmpty then .error .notFound
  else fs.follow [] (fs.stepsOf p)

/-- The place that a path leads to, with what is there. -/
def stat? (fs : Files ι) (p : Path) : Except OsError (Place × Node ι) := do
  let place ← fs.locate? p
  match fs.node? place with
  | some n => .ok (place, n)
  | none => .error .notFound

/-- Something is at the end of a path. -/
def pathExists (fs : Files ι) (p : Path) : Bool := (fs.stat? p).isOk

/-- A new node can be put at a place. -/
def isOpen (fs : Files ι) (place : Place) : Bool := !fs.sealedPlaces.contains place.dropLast

/-! ## Files -/

/-- What a file holds. -/
def read? (fs : Files ι) (p : Path) : Except OsError (Content ι) := do
  match ← fs.stat? p with
  | (_, .file content _) => .ok content
  | (_, .directory) => .error .isDirectory

/-- Writes a file. A new file is not executable, and one that was there stays as it was in that. -/
def write (fs : Files ι) (p : Path) (content : Content ι) : Except OsError (Files ι) := do
  let place ← fs.locate? p
  match fs.node? place with
  | some .directory => .error .isDirectory
  | some (.file _ executable) => .ok (fs.put place (.file content executable))
  | none =>
    if fs.isOpen place then .ok (fs.put place (.file content false)) else .error .notFound

/-- Copies a file to a path, and whether it is executable. -/
def copy (fs : Files ι) (source target : Path) : Except OsError (Files ι) := do
  match ← fs.stat? source with
  | (_, .directory) => .error .notRegular
  | (_, .file content executable) =>
    let fs ← fs.write target content
    let place ← fs.locate? target
    .ok (fs.put place (.file content executable))

/-- Makes a file executable; a directory stays as it is. -/
def makeExecutable (fs : Files ι) (p : Path) : Except OsError (Files ι) := do
  match ← fs.stat? p with
  | (_, .directory) => .ok fs
  | (place, .file content _) => .ok (fs.put place (.file content true))

/-! ## Directories -/

/-- Makes the directory at the end of steps from the root. -/
def makeDirectory (fs : Files ι) (steps : Place) : Except OsError (Files ι) := do
  match (steps.reverse.dropWhile (· == [])) with
  | [] => .error .exists
  | name :: before =>
    let parent ← fs.follow [] (before.reverse ++ [[]])
    if !Path.isName name || name = ['.', '.'] then .error .exists
    else match fs.node? (parent ++ [name]) with
      | some _ => .error .exists
      | none =>
        if fs.isOpen (parent ++ [name]) then .ok (fs.put (parent ++ [name]) .directory)
        else .error .notFound

/-- A directory is at the end of steps from the root. -/
def isDirectory (fs : Files ι) (steps : Place) : Bool :=
  match fs.follow [] steps with
  | .ok place => match fs.node? place with
    | some .directory => true
    | _ => false
  | .error _ => false

/-- Makes a directory unless it is there. -/
def ensureDirectory (fs : Files ι) (steps : Place) : Except OsError Unit × Files ι :=
  match fs.makeDirectory steps with
  | .ok fs => (.ok (), fs)
  | .error .exists => (if fs.isDirectory steps then .ok () else .error .exists, fs)
  | .error e => (.error e, fs)

/-- Makes the first of a list of directories, each one in the next, and before it those of the
others that are missing. -/
def makeTree (fs : Files ι) : List Place → Except OsError Unit × Files ι
  | [] => (.ok (), fs)
  | steps :: parents =>
    match fs.ensureDirectory steps with
    | (.error .notFound, _) =>
      match fs.makeTree parents with
      | (.ok (), fs) => fs.ensureDirectory steps
      | (.error e, fs) => (.error e, fs)
    | r => r

/-- The beginnings of a list of names that are neither empty nor all of it, the longest first. -/
def properPrefixes (names : Place) : List Place :=
  ((List.range names.length).map names.take).reverse.filter (· != [])

/-- Makes a directory and those above it that are missing. -/
def makeDirectories (fs : Files ι) (p : Path) : Except OsError Unit × Files ι :=
  if p.spelling.toList.contains (Char.ofNat 0) then (.error .nulInPath, fs)
  else
    let steps := fs.stepsOf p
    fs.makeTree (steps :: properPrefixes (steps.filter Path.isName))

end Files

end LiveBuild
