import LiveBuild.Proofs.Compiler.Messages

/-!
# Entries line by line

The entries of an output are those of its lines, and each line stands for itself: `parse_by_lines`
says it of every text, wherever it is cut and whatever stands beside a line. What a line yields
follows from the message that it holds, and so does whether some error points into the source
(`classified_line`).

The lines of a text lose the carriage return before their line feed, but the blanks at the ends of a
line count for nothing, so that the pieces between line feeds yield the same (`parse_eq`).
-/

namespace LiveBuild.Compiler.Diagnostics

variable {line : List Char} {e : Entry}

theorem ofLine?_eq (line : List Char) :
    ofLine? line = (Message.ofLine? line).bind Message.yield? := by
  rw [ofLine?, Message.ofLine?]
  split
  · exact (Option.bind_assoc _ _ _).symm
  · rfl

/-- A line yields what the message that it holds yields. -/
theorem ofLine?_eq_some_iff :
    ofLine? line = some e ↔ ∃ m : Message, m.IsLine line ∧ m.Yields e := by
  rw [ofLine?_eq, Option.bind_eq_some_iff]
  simp only [Message.ofLine?_eq_some_iff, Message.yield?_eq_some_iff]

theorem ofLine?_of_isLine {m : Message} (h : m.IsLine line) : ofLine? line = m.yield? := by
  rw [ofLine?_eq, Message.ofLine?_eq_some_iff.2 h, Option.bind_some]

/-! ## Texts and their lines -/

theorem parse_eq (s : String) : parse s = (s.toList.splitOn '\n').filterMap ofLine? := by
  refine Text.filterMap_lines rfl (fun l => ?_) s.toList
  rw [ofLine?, Text.trim_append_blank rfl, ofLine?]

theorem parse_append (a b : String) : parse (a ++ "\n" ++ b) = parse a ++ parse b := by
  have hsplit : (a ++ "\n" ++ b).toList.splitOn '\n' =
      a.toList.splitOn '\n' ++ b.toList.splitOn '\n' := by
    rw [String.toList_append, String.toList_append, List.append_assoc]
    exact List.splitOn_append_cons_self _ _
  rw [parse_eq, hsplit, List.filterMap_append, ← parse_eq, ← parse_eq]

/-- The entries of a text without a line feed. -/
theorem parse_line {line : String} (h : '\n' ∉ line.toList) :
    parse line = (ofLine? line.toList).toList := by
  rw [parse_eq, List.splitOn_eq_singleton h]
  cases hline : ofLine? line.toList <;> simp [hline]

theorem parse_eq_flatMap (s : String) :
    parse s = (s.toList.splitOn '\n').flatMap fun line => parse (String.ofList line) := by
  rw [parse_eq, List.filterMap_eq_flatMap_toList]
  refine List.flatMap_congr fun line hline => ?_
  rw [parse_line (by simpa using Text.feed_notMem_of_mem_splitOn hline), String.toList_ofList]

/-- A line yields one entry or none. -/
theorem length_parse_le {line : String} (h : '\n' ∉ line.toList) : (parse line).length ≤ 1 := by
  rw [parse_line h]
  cases ofLine? line.toList <;> simp

/-- A line that holds no diagnostic yields nothing. -/
theorem parse_eq_nil {line : String} (h : '\n' ∉ line.toList)
    (hno : ¬ ∃ m : Message, m.IsReport ∧ m.IsLine line.toList) : parse line = [] := by
  rw [parse_line h]
  cases hline : ofLine? line.toList with
  | none => rfl
  | some e =>
    obtain ⟨m, hm, hyields⟩ := ofLine?_eq_some_iff.1 hline
    exact absurd ⟨m, hyields.report, hm⟩ hno

/-- **Every line stands for itself.** Two texts with a line feed between them yield the entries of
the first and then those of the second; a text yields the entries of its lines, at most one for
each; and a line that holds no diagnostic can be put anywhere. -/
theorem parse_by_lines :
    (∀ a b : String, parse (a ++ "\n" ++ b) = parse a ++ parse b) ∧
    (∀ s : String,
      parse s = (s.toList.splitOn '\n').flatMap fun line => parse (String.ofList line)) ∧
    (∀ line : String, '\n' ∉ line.toList → (parse line).length ≤ 1) ∧
    ∀ line : String, '\n' ∉ line.toList →
      (¬ ∃ m : Message, m.IsReport ∧ m.IsLine line.toList) →
      ∀ a b : String,
        parse (line ++ "\n" ++ b) = parse b ∧
        parse (a ++ "\n" ++ line) = parse a ∧
        parse (a ++ "\n" ++ line ++ "\n" ++ b) = parse (a ++ "\n" ++ b) := by
  refine ⟨parse_append, parse_eq_flatMap, fun _ => length_parse_le, fun line h hno a b => ?_⟩
  have hnil := parse_eq_nil h hno
  refine ⟨?_, ?_, ?_⟩
  · rw [parse_append, hnil, List.nil_append]
  · rw [parse_append, hnil, List.append_nil]
  · rw [parse_append, parse_append, parse_append, hnil, List.append_nil]

/-- A message that breaks off, between a message that ends in a carriage return and nothing. -/
theorem parse_by_lines_truncated :
    '\n' ∉ "\x7b\"level\":".toList ∧
    (¬ ∃ m : Message, m.IsReport ∧ m.IsLine "\x7b\"level\":".toList) ∧
    parse ("\x7b\"message\":\"m\",\"level\":\"error\"\x7d\r" ++ "\n" ++ "\x7b\"level\":" ++
      "\n" ++ "") = [⟨.error, 0, 0, "", "m"⟩] := by
  have hfeed : '\n' ∉ "\x7b\"level\":".toList := by decide
  have hno : ¬ ∃ m : Message, m.IsReport ∧ m.IsLine "\x7b\"level\":".toList := by
    rintro ⟨m, -, hm⟩
    have hnone : Message.ofLine? "\x7b\"level\":".toList = none := by decide +kernel
    rw [Message.ofLine?_eq_some_iff.2 hm] at hnone
    cases hnone
  refine ⟨hfeed, hno, ?_⟩
  rw [(parse_by_lines.2.2.2 _ hfeed hno _ _).2.2, parse_by_lines.1]
  decide +kernel

/-! ## Messages and their entries -/

/-- What a line yields if it holds a message. -/
theorem mem_parse_iff {m : Message} {line : String} (h : '\n' ∉ line.toList)
    (hm : m.IsLine line.toList) : e ∈ parse line ↔ m.Yields e := by
  rw [parse_line h, ofLine?_of_isLine hm, Option.mem_toList, ← Message.yield?_eq_some_iff]

/-- Some message yields a located error. -/
theorem hasLocatedError_parse_iff {stderr : String} : hasLocatedError (parse stderr) = true ↔
    ∃ line ∈ stderr.toList.splitOn '\n', ∃ m : Message, m.IsLine line ∧
      ∃ e, m.Yields e ∧ e.severity = .error ∧ 0 < e.line := by
  rw [hasLocatedError, List.any_eq_true, parse_eq]
  simp only [List.mem_filterMap, ofLine?_eq_some_iff, Entry.isLocatedError, Entry.isError,
    Bool.and_eq_true, beq_iff_eq, decide_eq_true_eq]
  constructor
  · rintro ⟨e, ⟨line, hline, m, hm, hyields⟩, hlocated⟩
    exact ⟨line, hline, m, hm, e, hyields, hlocated⟩
  · rintro ⟨line, hline, m, hm, e, hyields, hlocated⟩
    exact ⟨e, ⟨line, hline, m, hm, hyields⟩, hlocated⟩

/-- **Whether and how a message is reported.** Every message has a line; a line with a message
yields an entry under conditions on the message alone, which also tell its severity, its place and
its texts; and an error points into the source if and only if such a message does. -/
theorem classified_line :
    (∀ m : Message, ∃ line : String, '\n' ∉ line.toList ∧ m.IsLine line.toList) ∧
    (∀ (m : Message) (line : String), '\n' ∉ line.toList → m.IsLine line.toList →
      (parse line ≠ [] ↔
        (m.type = none ∨ m.type = some "diagnostic") ∧
        ("error".toList <+: m.level.toList ∨ m.level = "warning") ∧
        (m.spans ≠ [] ∨ "error".toList <+: m.level.toList ∧
          ¬ "aborting due to".toList <+: m.text.toList)) ∧
      ∀ e ∈ parse line, parse line = [e] ∧
        (e.severity = .error ↔ "error".toList <+: m.level.toList) ∧
        (e.severity = .warning ↔ m.level = "warning") ∧
        m.Points e.line e.column ∧ e.code = m.code.getD "" ∧ e.message = m.text) ∧
    ∀ stderr : String, hasLocatedError (parse stderr) = true ↔
      ∃ line ∈ stderr.toList.splitOn '\n', ∃ m : Message, m.IsLine line ∧
        (m.type = none ∨ m.type = some "diagnostic") ∧ "error".toList <+: m.level.toList ∧
        (m.spans ≠ [] ∨ ¬ "aborting due to".toList <+: m.text.toList) ∧
        ∃ l c, m.Points l c ∧ 0 < l := by
  refine ⟨fun m => ⟨_, m.feed_notMem_write, m.isLine_write⟩, fun m line h hm => ⟨?_, ?_⟩, ?_⟩
  · constructor
    · intro hne
      obtain ⟨e, he⟩ := List.exists_mem_of_ne_nil _ hne
      have hyields := (mem_parse_iff h hm).1 he
      exact ⟨hyields.report, hyields.level, hyields.counts⟩
    · rintro ⟨hreport, hlevel, hcounts⟩
      obtain ⟨e, he⟩ := Message.exists_yields hreport hlevel hcounts
      exact List.ne_nil_of_mem ((mem_parse_iff h hm).2 he)
  · intro e he
    have hyields := (mem_parse_iff h hm).1 he
    have hsingle : parse line = [e] := by
      rw [parse_line h, ofLine?_of_isLine hm, Message.yield?_eq_some_iff.2 hyields]
      rfl
    exact ⟨hsingle, hyields.severity, hyields.severity_eq_warning_iff, hyields.place, hyields.code,
      hyields.message⟩
  · intro stderr
    rw [hasLocatedError_parse_iff]
    refine exists_congr fun line => and_congr_right fun _ => exists_congr fun m =>
      and_congr_right fun _ => ⟨?_, ?_⟩
    · rintro ⟨e, he, herror, hline⟩
      exact ⟨he.report, he.severity.1 herror, he.counts.imp_right And.right, _, _, he.place, hline⟩
    · rintro ⟨hreport, herror, hcounts, l, c, hplace, hl⟩
      obtain ⟨e, he⟩ := Message.exists_yields hreport (.inl herror)
        (hcounts.imp_right fun hsummary => ⟨herror, hsummary⟩)
      have hline : e.line = l := (he.place.unique hplace).1
      exact ⟨e, he, he.severity.2 herror, hline ▸ hl⟩

/-- An error whose primary span stands after another span, without a type and without a code. -/
def unexpectedToken : Message :=
  ⟨none, "expected `;`", none, "error: parse", [⟨3, 14, false⟩, ⟨4, 5, true⟩, ⟨9, 1, true⟩]⟩

/-- The error points to its first primary span, and the output that holds it to the source. -/
theorem classified_line_unexpectedToken :
    ∃ line : String, '\n' ∉ line.toList ∧ unexpectedToken.IsLine line.toList ∧
      (∃ e ∈ parse line, e.severity = .error ∧ unexpectedToken.Points e.line e.column ∧
        e.line = 4 ∧ e.column = 5 ∧ e.code = "") ∧
      hasLocatedError (parse line) = true := by
  obtain ⟨line, hfeed, hline⟩ := classified_line.1 unexpectedToken
  have herror : "error".toList <+: unexpectedToken.level.toList := by decide
  have hspans : unexpectedToken.spans ≠ [] := by decide
  have hsplit : unexpectedToken.spans = [⟨3, 14, false⟩] ++ ⟨4, 5, true⟩ :: [⟨9, 1, true⟩] := rfl
  have hplace : unexpectedToken.Points 4 5 := .primary hsplit (by decide) rfl
  obtain ⟨hiff, hentries⟩ := classified_line.2.1 unexpectedToken line hfeed hline
  obtain ⟨e, he⟩ := List.exists_mem_of_ne_nil _ (hiff.2 ⟨.inl rfl, .inl herror, .inl hspans⟩)
  obtain ⟨-, hseverity, -, hpoints, hcode, -⟩ := hentries e he
  obtain ⟨hl, hc⟩ := hpoints.unique hplace
  refine ⟨line, hfeed, hline, ⟨e, he, hseverity.2 herror, hpoints, hl, hc, hcode⟩, ?_⟩
  refine (classified_line.2.2 line).2 ⟨line.toList, ?_, unexpectedToken, hline, .inl rfl, herror,
    .inl hspans, 4, 5, hplace, by decide⟩
  rw [List.splitOn_eq_singleton hfeed]
  exact List.mem_singleton_self _

end LiveBuild.Compiler.Diagnostics
