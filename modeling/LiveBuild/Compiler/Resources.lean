import LiveBuild.Path
import LiveBuild.Text.Quoted

/-!
# Embedded resources

A source that embeds resources is followed by a table of them: for each path its last name and its
content, which the compiler reads from the absolute path. The table begins with a line feed, so the
lines of the source stay where they are, and the texts in it are quoted, so no path can end its
literal early.
-/

namespace LiveBuild.Resources

/-- One entry of the table. -/
def entry (cwd p : Path) : String :=
  "    (" ++ Text.quote (p.fileName?.getD "") ++ ", include_bytes!(" ++
    Text.quote (p.absolute cwd |>.spelling) ++ ")),\n"

/-- What stands before the entries. -/
def tableHead : String :=
  "\n#[allow(dead_code)]\npub static EMBEDDED_RESOURCES: &[(&str, &[u8])] = &[\n"

/-- What stands after the entries. -/
def tableEnd : String := "];\n"

/-- The table of the given resources, in order. -/
def table (cwd : Path) (paths : List Path) : String :=
  tableHead ++ String.join (paths.map (entry cwd)) ++ tableEnd

end LiveBuild.Resources
