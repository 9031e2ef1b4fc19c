import LiveBuild.Proofs.Compiler.Steps
import LiveBuild.Proofs.Files.Absolute
import LiveBuild.Proofs.Text.Lines
import LiveBuild.Proofs.Text.Literal
import LiveBuild.Proofs.Text.Utf8

/-!
# The table of embedded resources

The table is read back as tokens: a fixed head, and then entries of two literals each, and nothing
else is a table (`read?_eq_some_iff`). What is read are the pairs that were written, in their order,
whatever characters the paths have (`read?_table`), since a quoted text is one literal that ends
nowhere but at its closing quote.

`run_materialize_eq_ok_iff` is the whole of what materializing does to a source with resources, and
`materialize_reads_back` says what the compiler finds in the file: the text as it was, line by line,
and behind it the table.
-/

namespace LiveBuild.Resources

open Text

/-! ## Reading tables -/

/-- The tokens before the entries. -/
def headTokens : List Token :=
  [.mark '#', .mark '[', .word "allow", .mark '(', .word "dead_code", .mark ')', .mark ']',
    .word "pub", .word "static", .word "EMBEDDED_RESOURCES", .mark ':', .mark '&', .mark '[',
    .mark '(', .mark '&', .word "str", .mark ',', .mark '&', .mark '[', .word "u8", .mark ']',
    .mark ')', .mark ']', .mark '=', .mark '&', .mark '[']

/-- The tokens of an entry. -/
def entryTokens (e : String × String) : List Token :=
  [.mark '(', .literal e.1, .mark ',', .word "include_bytes", .mark '!', .mark '(', .literal e.2,
    .mark ')', .mark ')', .mark ',']

/-- The tokens after the entries. -/
def endTokens : List Token := [.mark ']', .mark ';']

/-- The entries up to the end of the table. -/
def entries? : List Token → Option (List (String × String))
  | [.mark ']', .mark ';'] => some []
  | .mark '(' :: .literal name :: .mark ',' :: .word "include_bytes" :: .mark '!' :: .mark '(' ::
      .literal path :: .mark ')' :: .mark ')' :: .mark ',' :: ts =>
    (entries? ts).map ((name, path) :: ·)
  | _ => none

/-- The entries of a table: names and paths. -/
def read? (cs : List Char) : Option (List (String × String)) := do
  let ts ← tokens? cs
  if ts.take headTokens.length = headTokens then entries? (ts.drop headTokens.length) else none

theorem entries?_entryTokens (e : String × String) (ts : List Token) :
    entries? (entryTokens e ++ ts) = (entries? ts).map (e :: ·) := rfl

/-- What is read as entries: their tokens, and nothing else. -/
theorem entries?_eq_some_iff {ts : List Token} {es : List (String × String)} :
    entries? ts = some es ↔ ts = es.flatMap entryTokens ++ endTokens := by
  constructor
  · intro h
    induction ts using entries?.induct generalizing es with
    | case1 =>
      obtain rfl := Option.some_inj.1 h
      rfl
    | case2 name path ts ih =>
      obtain ⟨es', hes', rfl⟩ := Option.map_eq_some_iff.1 h
      rw [ih hes']
      rfl
    | case3 ts hend hentry =>
      rw [entries?] at h
      · cases h
      · exact hend
      · exact hentry
  · rintro rfl
    induction es with
    | nil => rfl
    | cons e es ih =>
      rw [List.flatMap_cons, List.append_assoc, entries?_entryTokens, ih, Option.map_some]

/-- **The tokens of a table.** -/
theorem read?_eq_some_iff {cs : List Char} {es : List (String × String)} :
    read? cs = some es ↔
      tokens? cs = some (headTokens ++ (es.flatMap entryTokens ++ endTokens)) := by
  rw [read?, Option.bind_eq_bind, Option.bind_eq_some_iff]
  constructor
  · rintro ⟨ts, hts, h⟩
    split_ifs at h with hhead
    have hparts : headTokens ++ ts.drop headTokens.length = ts := by
      calc headTokens ++ ts.drop headTokens.length
          = ts.take headTokens.length ++ ts.drop headTokens.length := by rw [hhead]
        _ = ts := List.take_append_drop _ ts
    rw [hts, ← entries?_eq_some_iff.1 h, hparts]
  · intro hts
    refine ⟨_, hts, ?_⟩
    rw [List.take_left, if_pos rfl, List.drop_left]
    exact entries?_eq_some_iff.2 rfl

/-! ## Tables -/

/-- What is entered for a resource: its last name and its absolute form. -/
def pair (cwd p : Path) : String × String := (p.fileName?.getD "", (p.absolute cwd).spelling)

theorem scan_entry (cwd p : Path) :
    scan .between (entry cwd p).toList = some (entryTokens (pair cwd p), .between) := by
  have hopen : scan .between "    (".toList = some ([.mark '('], .between) := by decide +kernel
  have hinner : scan .closed ", include_bytes!(".toList =
      some ([.mark ',', .word "include_bytes", .mark '!', .mark '('], .between) := by
    decide +kernel
  have hclose : scan .closed ")),\n".toList =
      some ([.mark ')', .mark ')', .mark ','], .between) := by
    decide +kernel
  rw [entry, String.toList_append, String.toList_append, String.toList_append,
    String.toList_append]
  exact scan_trans (scan_trans (scan_trans (scan_trans hopen (scan_quote _)) hinner)
    (scan_quote _)) hclose

theorem scan_entries (cwd : Path) (paths : List Path) :
    scan .between (String.join (paths.map (entry cwd))).toList =
      some (paths.flatMap fun p => entryTokens (pair cwd p), .between) := by
  induction paths with
  | nil => rfl
  | cons p paths ih =>
    rw [List.map_cons, String.join_cons, String.toList_append, List.flatMap_cons]
    exact scan_trans (scan_entry cwd p) ih

theorem tokens?_table (cwd : Path) (paths : List Path) : tokens? (table cwd paths).toList =
    some (headTokens ++ (paths.flatMap fun p => entryTokens (pair cwd p)) ++ endTokens) := by
  have hhead : scan .between tableHead.toList = some (headTokens, .between) := by decide +kernel
  have hend : scan .between tableEnd.toList = some (endTokens, .between) := by decide +kernel
  have htable := scan_trans (scan_trans hhead (scan_entries cwd paths)) hend
  rw [← String.toList_append, ← String.toList_append, ← table] at htable
  rw [tokens?, htable]

/-- **A table is read back as it was written.** -/
theorem read?_table (cwd : Path) (paths : List Path) :
    read? (table cwd paths).toList = some (paths.map (pair cwd)) := by
  rw [read?_eq_some_iff, tokens?_table, List.flatMap_map, List.append_assoc]

/-- The table begins on a line of its own. -/
theorem exists_table_eq (cwd : Path) (paths : List Path) :
    ∃ s, table cwd paths = "\n" ++ s ∧ read? s.toList = some (paths.map (pair cwd)) := by
  have hhead : tableHead = "\n" ++ String.ofList (tableHead.toList.drop 1) := by decide +kernel
  obtain ⟨s, hs⟩ : ∃ s, table cwd paths = "\n" ++ s := by
    rw [table, hhead, String.append_assoc, String.append_assoc]
    exact ⟨_, rfl⟩
  have hfeed : read? ('\n' :: s.toList) = read? s.toList := by
    rw [read?, tokens?_cons_blank rfl, read?]
  have hread := read?_table cwd paths
  rw [hs, String.toList_append] at hread
  exact ⟨s, hs, hfeed.symm.trans hread⟩

end LiveBuild.Resources

namespace LiveBuild.Compiler

open Text

variable {ι σ : Type} {t : Toolchain ι σ} {id : BuildId} {source : Source} {resources : List Path}
  {text : String} {h h' : Host ι} {p : Path}

/-! ## The source file -/

/-- The text of a source: its own, or that of its file. -/
def textIn? (files : Files ι) : Source → Except OsError String
  | .text text => .ok text
  | .file path => files.read? path >>= textOf?

theorem textIn?_of_write {files files' : Files ι}
    (hwrite : files.write p (.bytes (Utf8.encode text)) = .ok files') :
    textIn? files' (.file p) = .ok text := by
  have htext : textOf? (.bytes (Utf8.encode text) : Content ι) = .ok text := by
    rw [textOf?, Utf8.decode?_encode]
  rw [textIn?, Files.read?_of_write hwrite]
  exact htext

theorem run_writeSource_eq_ok_iff :
    (writeSource t id resources text).run h = (.ok p, h') ↔
      p = sourceFile t id ∧ ∃ files, h.files.write (sourceFile t id)
        (.bytes (Utf8.encode (sourceText h.files.current resources text))) = .ok files ∧
        h' = { h with files } := by
  rw [writeSource, run_get_bind, run_bind_eq_ok_iff]
  constructor
  · rintro ⟨a, h₁, hchange, hpure⟩
    obtain ⟨files, hwrite, rfl⟩ := run_change_eq_ok_iff.1 hchange
    cases hpure
    exact ⟨rfl, files, hwrite, rfl⟩
  · rintro ⟨rfl, files, hwrite, rfl⟩
    exact ⟨(), _, run_change_eq_ok_iff.2 ⟨files, hwrite, rfl⟩, rfl⟩

/-- A source with resources is compiled from a file of its own, the table behind its text. -/
theorem run_materialize_eq_ok_iff (hne : resources ≠ []) :
    (materialize t id source resources).run h = (.ok p, h') ↔
      p = sourceFile t id ∧ ∃ text files, textIn? h.files source = .ok text ∧
        h.files.write (sourceFile t id) (.bytes (Utf8.encode
          (text ++ Resources.table h.files.current resources))) = .ok files ∧
        h' = { h with files } := by
  have hempty : ¬ resources.isEmpty = true := by simpa using hne
  have hwriteSource (text : String) :
      (writeSource t id resources text).run h = (.ok p, h') ↔
        p = sourceFile t id ∧ ∃ files, h.files.write (sourceFile t id) (.bytes (Utf8.encode
          (text ++ Resources.table h.files.current resources))) = .ok files ∧
          h' = { h with files } := by
    rw [run_writeSource_eq_ok_iff, sourceText, if_neg hempty]
  cases source with
  | text text =>
    rw [Point.materialize_text, hwriteSource]
    constructor
    · rintro ⟨hp, files, hwrite, hh⟩
      exact ⟨hp, text, files, rfl, hwrite, hh⟩
    · rintro ⟨hp, text', files, htext, hwrite, hh⟩
      obtain rfl := Except.ok.inj htext
      exact ⟨hp, files, hwrite, hh⟩
  | file path =>
    rw [Point.materialize_file, if_neg hempty, run_bind_eq_ok_iff]
    constructor
    · rintro ⟨text, h₁, hlook, hrun⟩
      obtain ⟨htext, rfl⟩ := run_look_eq_ok_iff.1 hlook
      obtain ⟨hp, files, hwrite, hh⟩ := (hwriteSource text).1 hrun
      exact ⟨hp, text, files, htext, hwrite, hh⟩
    · rintro ⟨hp, text, files, htext, hwrite, hh⟩
      exact ⟨text, h, run_look_eq_ok_iff.2 ⟨htext, rfl⟩,
        (hwriteSource text).2 ⟨hp, files, hwrite, hh⟩⟩

/-- **No path breaks the table.** A source with resources is compiled from a file of its own. That
it can be written is a matter of the files alone. What it holds is the text of the source, a line
feed and a table, so that the lines of the source are where they were, and the table is read back as
the last names and the absolute forms of the resources, in their order. Whatever a quoted text is
followed by, it is read as one literal that stands for the text, and nothing ends before its last
character. -/
theorem materialize_reads_back (hne : resources ≠ []) :
    (∀ (t : Toolchain ι σ) (id : BuildId) (source : Source) (h : Host ι),
      (∃ p h', (materialize t id source resources).run h = (.ok p, h')) ↔
        (∃ text, textIn? h.files source = .ok text) ∧
        ∃ files, h.files.write (sourceFile t id) (.bytes []) = .ok files) ∧
    (∀ (t : Toolchain ι σ) (id : BuildId) (source : Source) (h : Host ι) (p : Path) (h' : Host ι),
      (materialize t id source resources).run h = (.ok p, h') →
      ∃ text table : String,
        textIn? h.files source = .ok text ∧
        textIn? h'.files (.file p) = .ok (text ++ "\n" ++ table) ∧
        (∀ (k : ℕ) (line : List Char), (text.toList.splitOn '\n')[k]? = some line →
          ((text ++ "\n" ++ table).toList.splitOn '\n')[k]? = some line) ∧
        Resources.read? table.toList = some (resources.map fun q =>
          (q.fileName?.getD "", (q.absolute h.files.current).spelling))) ∧
    (∀ q cwd : Path, q.isEmpty = true → q.absolute cwd = q) ∧
    (∀ q cwd : Path, q.isEmpty = false → (q.absolute cwd).isAbsolute = true ∧
      (q.absolute cwd).names = if q.isAbsolute then q.names else cwd.names ++ q.names) ∧
    ∀ (s : String) (xs ys : List Char),
      scan .between ((quote s).toList ++ ys) = (scan .closed ys).map (before [.literal s]) ∧
      ((quote s).toList = xs ++ ys → ys ≠ [] → ∃ r, scan .between xs = some ([], r)) := by
  refine ⟨fun t id source h => ⟨?_, ?_⟩, fun t id source h p h' hrun => ?_,
    fun q cwd hq => Path.absolute_of_isEmpty hq cwd,
    fun q cwd hq => ⟨Path.isAbsolute_absolute hq cwd, Path.names_absolute hq cwd⟩,
    fun s xs ys => ⟨?_, fun heq hys => ?_⟩⟩
  · rintro ⟨p, h', hrun⟩
    obtain ⟨-, text, files, htext, hwrite, -⟩ := (run_materialize_eq_ok_iff hne).1 hrun
    exact ⟨⟨text, htext⟩, Files.exists_write_of_write hwrite _⟩
  · rintro ⟨⟨text, htext⟩, files, hwrite⟩
    obtain ⟨files', hwrite'⟩ := Files.exists_write_of_write hwrite (.bytes (Utf8.encode
      (text ++ Resources.table h.files.current resources)))
    exact ⟨_, _, (run_materialize_eq_ok_iff hne).2 ⟨rfl, text, files', htext, hwrite', rfl⟩⟩
  · obtain ⟨rfl, text, files, htext, hwrite, rfl⟩ := (run_materialize_eq_ok_iff hne).1 hrun
    obtain ⟨table, htable, hread⟩ := Resources.exists_table_eq h.files.current resources
    rw [htable, ← String.append_assoc] at hwrite
    refine ⟨text, table, htext, textIn?_of_write hwrite, fun k line hline => ?_, hread⟩
    rw [String.toList_append, String.toList_append, List.append_assoc]
    exact getElem?_splitOn_append_feed hline table.toList
  · exact scan_append_of_eq (scan_quote s) ys
  · exact exists_scan_of_quote_eq heq hys

/-- A host with a work directory. -/
def workHost : Host Unit := .ofFiles ⟨[([['w', 'o', 'r', 'k']], .directory)], [], ⟨"/src"⟩⟩

/-- Paths with a quote, a backslash and a line feed, with a combining accent, and with nothing. -/
def oddResources : List Path := [⟨"a\"b\\\nc"⟩, ⟨"/\u0301"⟩, ⟨""⟩]

/-- The table of odd paths, behind a text that does not end its last line. -/
theorem materialize_reads_back_oddResources :
    oddResources ≠ [] ∧
    ∃ p h', (materialize Service.noLinkerToolchain Service.firstBuild (.text "fn main() \x7b\x7d")
        oddResources).run workHost = (.ok p, h') ∧
      ∃ table : String,
        textIn? h'.files (.file p) = .ok ("fn main() \x7b\x7d" ++ "\n" ++ table) ∧
        Resources.read? table.toList =
          some [("a\"b\\\nc", "/src/a\"b\\\nc"), ("\u0301", "/\u0301"), ("", "")] := by
  have hne : oddResources ≠ [] := by decide
  have hreads := materialize_reads_back (ι := Unit) (σ := Unit) hne
  obtain ⟨p, h', hrun⟩ := (hreads.1 Service.noLinkerToolchain Service.firstBuild
    (.text "fn main() \x7b\x7d") workHost).2 ⟨⟨_, rfl⟩, _, rfl⟩
  obtain ⟨text, table, htext, hfile, -, htable⟩ := hreads.2.1 _ _ _ _ _ _ hrun
  obtain rfl := Except.ok.inj htext
  have hpairs : (oddResources.map fun q =>
      (q.fileName?.getD "", (q.absolute workHost.files.current).spelling)) =
        [("a\"b\\\nc", "/src/a\"b\\\nc"), ("\u0301", "/\u0301"), ("", "")] := by
    decide +kernel
  exact ⟨hne, p, h', hrun, table, hfile, htable.trans (congrArg some hpairs)⟩

end LiveBuild.Compiler
