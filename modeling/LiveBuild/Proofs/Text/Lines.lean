import LiveBuild.Text.Blank
import LiveBuild.Text.Lines
import Mathlib.Data.List.DropRight

/-!
# Lines and line feeds

The lines of a text are almost the pieces between its line feeds. They differ in two ways: a line
has lost the carriage return before its line feed, and an empty last piece is no line. A reader of
lines that takes nothing from an empty line and does not mind a carriage return at the end of one
cannot tell the difference (`filterMap_lines`), and the pieces of a text are those of its parts, so
that what is put behind a text moves none of them (`getElem?_splitOn_append_feed`).

A text without its blanks begins with no blank (`isBlank_of_head?_trim`), and a blank after it is
removed with the others (`trim_append_blank`). What is removed is blank (`exists_eq_append_trim`),
and what is not blank stays between any blanks (`trim_between`).
-/

namespace LiveBuild.Text

/-! ## Lines -/

/-- Puts characters in front of the first piece; without a piece, they are one by themselves. -/
def startWith (cs : List Char) : List (List Char) → List (List Char)
  | [] => [cs]
  | l :: ls => (cs ++ l) :: ls

theorem startWith_consFirst (cs : List Char) (c : Char) (ls : List (List Char)) :
    startWith cs (consFirst c ls) = startWith (cs ++ [c]) ls := by
  cases ls <;> simp [consFirst, startWith]

theorem startWith_splitOn (pre : List Char) {c : Char} (hc : c ≠ '\n') (cs : List Char) :
    startWith pre ((c :: cs).splitOn '\n') = startWith (pre ++ [c]) (cs.splitOn '\n') := by
  rw [List.splitOn_cons_eq_if_modifyHead, if_neg (by simpa using hc)]
  obtain ⟨l, ls, hsplit⟩ := List.exists_cons_of_ne_nil (List.splitOn_ne_nil '\n' cs)
  simp [hsplit, startWith]

theorem splitOn_feed (cs : List Char) : ('\n' :: cs).splitOn '\n' = [] :: cs.splitOn '\n' := by
  rw [List.splitOn_cons_eq_if_modifyHead, if_pos (by decide)]

/-- No piece between line feeds has a line feed in it. -/
theorem feed_notMem_of_mem_splitOn {cs l : List Char} (h : l ∈ cs.splitOn '\n') : '\n' ∉ l := by
  induction cs generalizing l with
  | nil =>
    rw [List.splitOn_nil, List.mem_singleton] at h
    simp [h]
  | cons c cs ih =>
    by_cases hc : c = '\n'
    · rw [hc, splitOn_feed] at h
      rcases List.mem_cons.1 h with rfl | h
      · exact List.not_mem_nil
      · exact ih h
    · obtain ⟨first, rest, hsplit⟩ := List.exists_cons_of_ne_nil (List.splitOn_ne_nil '\n' cs)
      rw [List.splitOn_cons_eq_if_modifyHead, if_neg (by simpa using hc), hsplit,
        List.modifyHead_cons] at h
      rcases List.mem_cons.1 h with rfl | h
      · have hfirst : '\n' ∉ first := ih (by simp [hsplit])
        simp [hfirst, Ne.symm hc]
      · exact ih (by simp [hsplit, h])

/-- Text behind a line feed leaves the lines before it where they are. -/
theorem getElem?_splitOn_append_feed {cs line : List Char} {k : ℕ}
    (h : (cs.splitOn '\n')[k]? = some line) (ds : List Char) :
    ((cs ++ '\n' :: ds).splitOn '\n')[k]? = some line := by
  obtain ⟨hk, -⟩ := List.getElem?_eq_some_iff.1 h
  rw [List.splitOn_append_cons_self, List.getElem?_append_left hk, h]

section

variable {β : Type} {f : List Char → Option β}

theorem filterMap_startWith_nil (hnil : f [] = none) (ls : List (List Char)) :
    (startWith [] ls).filterMap f = ls.filterMap f := by
  cases ls with
  | nil => simp [startWith, hnil]
  | cons l ls => rfl

/-- The text `pre` stands in front of what is left of a line. -/
theorem filterMap_startWith_lines (hnil : f [] = none) (hreturn : ∀ l, f (l ++ ['\r']) = f l)
    (pre cs : List Char) :
    (startWith pre (lines cs)).filterMap f = (startWith pre (cs.splitOn '\n')).filterMap f := by
  induction cs using lines.induct generalizing pre with
  | case1 => simp [lines, startWith, List.splitOn_nil]
  | case2 cs ih =>
    have hrest := ih []
    rw [filterMap_startWith_nil hnil, filterMap_startWith_nil hnil] at hrest
    rw [lines, splitOn_feed, startWith, startWith, List.append_nil, List.filterMap_cons,
      List.filterMap_cons, hrest]
  | case3 cs ih =>
    have hrest := ih []
    rw [filterMap_startWith_nil hnil, filterMap_startWith_nil hnil] at hrest
    rw [lines, startWith_splitOn pre (by decide), splitOn_feed, startWith, startWith,
      List.append_nil, List.append_nil, List.filterMap_cons, List.filterMap_cons, hreturn, hrest]
  | case4 c cs hfeed hreturn ih =>
    rw [lines, startWith_consFirst, startWith_splitOn pre hfeed, ih]
    · exact hfeed
    · exact hreturn

/-- **Lines are as good as the pieces between line feeds.** -/
theorem filterMap_lines (hnil : f [] = none) (hreturn : ∀ l, f (l ++ ['\r']) = f l)
    (cs : List Char) : (lines cs).filterMap f = (cs.splitOn '\n').filterMap f := by
  rw [← filterMap_startWith_nil hnil, filterMap_startWith_lines hnil hreturn,
    filterMap_startWith_nil hnil]

end

/-! ## Blanks at the ends -/

variable {c : Char} {cs : List Char}

theorem trimRight_append_blank (hc : isBlank c = true) (cs : List Char) :
    trimRight (cs ++ [c]) = trimRight cs := by
  rw [trimRight, List.reverse_append, List.reverse_singleton, List.singleton_append,
    List.dropWhile_cons_of_pos hc, trimRight]

theorem trim_append_blank (hc : isBlank c = true) (cs : List Char) :
    trim (cs ++ [c]) = trim cs := by
  rw [trim, List.dropWhile_append]
  split
  next h =>
    rw [List.dropWhile_cons_of_pos hc, trim, List.isEmpty_iff.1 h]
    rfl
  next => exact trimRight_append_blank hc _

theorem isBlank_of_head?_trim (h : (trim cs).head? = some c) : isBlank c = false := by
  have hstart : trim cs <+: cs.dropWhile isBlank := List.rdropWhile_prefix isBlank _
  obtain ⟨rest, hrest⟩ := hstart
  obtain ⟨ds, hds⟩ := List.head?_eq_some_iff.1 h
  have hdrop : cs.dropWhile isBlank = c :: (ds ++ rest) := by
    rw [← hrest, hds, List.cons_append]
  have hnot := List.head_dropWhile_not isBlank (l := cs) (by simp [hdrop])
  simpa only [hdrop, List.head_cons] using hnot

variable {before body after : List Char}

theorem trim_append_blanks (h : ∀ c ∈ after, isBlank c = true) (cs : List Char) :
    trim (cs ++ after) = trim cs := by
  induction after using List.reverseRecOn with
  | nil => rw [List.append_nil]
  | append_singleton after c ih =>
    obtain ⟨hafter, hc⟩ := List.forall_mem_append.1 h
    rw [← List.append_assoc, trim_append_blank (hc c (List.mem_singleton_self c)), ih hafter]

theorem trim_of_forall_mem (h : ∀ c ∈ body, isBlank c = false) : trim body = body := by
  cases body with
  | nil => rfl
  | cons c cs => exact trim_cons (h c List.mem_cons_self) (h _ (List.getLast_mem _))

theorem trim_between (hbefore : ∀ c ∈ before, isBlank c = true)
    (hbody : ∀ c ∈ body, isBlank c = false) (hafter : ∀ c ∈ after, isBlank c = true) :
    trim (before ++ body ++ after) = body := by
  rw [trim_append_blanks hafter, trim, List.dropWhile_append_of_pos hbefore, ← trim,
    trim_of_forall_mem hbody]

theorem exists_eq_append_trim (cs : List Char) :
    ∃ before after, cs = before ++ trim cs ++ after ∧ (∀ c ∈ before, isBlank c = true) ∧
      ∀ c ∈ after, isBlank c = true := by
  have hright : trim cs ++ (cs.dropWhile isBlank).rtakeWhile isBlank = cs.dropWhile isBlank :=
    List.rdropWhile_append_rtakeWhile
  refine ⟨cs.takeWhile isBlank, (cs.dropWhile isBlank).rtakeWhile isBlank, ?_,
    fun c => List.mem_takeWhile_imp, fun c => List.mem_rtakeWhile_imp⟩
  rw [List.append_assoc, hright, List.takeWhile_append_dropWhile]

end LiveBuild.Text
