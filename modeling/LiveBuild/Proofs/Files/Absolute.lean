import LiveBuild.Proofs.Files.Changes

/-!
# Absolute forms

The absolute form of a path begins with a slash. It has the names of the path, after those of the
current directory if the path is relative (`names_absolute`), and says no more than they do: no
name is lost or resolved. Only the empty path has no absolute form, and is left as it is.
-/

namespace LiveBuild.Path

variable {p : Path} {names : List (List Char)} {cs : List Char}

/-! ## Names and slashes -/

theorem splitSlashes_eq_splitOn (cs : List Char) : splitSlashes cs = cs.splitOn '/' := by
  induction cs with
  | nil => rfl
  | cons c cs ih =>
    obtain ⟨first, rest, hsplit⟩ := List.exists_cons_of_ne_nil (List.splitOn_ne_nil '/' cs)
    rw [List.splitOn_cons_eq_if_modifyHead]
    by_cases hc : c = '/'
    · rw [hc, splitSlashes, ih, if_pos (by decide)]
    · rw [splitSlashes, ih, if_neg (by simpa using hc), hsplit]
      · rfl
      · exact hc

theorem slash_notMem_of_mem_splitSlashes {l : List Char} (h : l ∈ splitSlashes cs) : '/' ∉ l := by
  induction cs using splitSlashes.induct generalizing l with
  | case1 =>
    rw [splitSlashes, List.mem_singleton] at h
    rw [h]
    exact List.not_mem_nil
  | case2 cs ih =>
    rw [splitSlashes] at h
    rcases List.mem_cons.1 h with rfl | h
    · exact List.not_mem_nil
    · exact ih h
  | case3 c cs hc ih =>
    rw [splitSlashes] at h
    · cases hsplit : splitSlashes cs with
      | nil =>
        rw [hsplit, Text.consFirst, List.mem_singleton] at h
        rw [h, List.mem_singleton]
        exact fun heq => hc heq.symm
      | cons first rest =>
        rw [hsplit, Text.consFirst] at h
        rcases List.mem_cons.1 h with rfl | h
        · have hfirst : '/' ∉ first := ih (by rw [hsplit]; exact List.mem_cons_self)
          rw [List.mem_cons]
          exact not_or.2 ⟨fun heq => hc heq.symm, hfirst⟩
        · exact ih (by rw [hsplit]; exact List.mem_cons_of_mem _ h)
    · exact hc

theorem forall_mem_names (p : Path) : ∀ n ∈ p.names, isName n = true ∧ '/' ∉ n := by
  intro n hn
  obtain ⟨hsegment, hname⟩ := List.mem_filter.1 hn
  exact ⟨hname, slash_notMem_of_mem_splitSlashes hsegment⟩

/-- Names with slashes between them are told apart again. -/
theorem filter_splitSlashes_joinNames (h : ∀ n ∈ names, isName n = true ∧ '/' ∉ n) :
    (splitSlashes (joinNames names)).filter isName = names := by
  induction names with
  | nil => rfl
  | cons n names ih =>
    obtain ⟨⟨hname, hslash⟩, hnames⟩ := List.forall_mem_cons.1 h
    cases names with
    | nil =>
      have hjoin : joinNames [n] = n := List.intercalate_singleton
      rw [hjoin, splitSlashes_of_notMem hslash, List.filter_cons_of_pos hname, List.filter_nil]
    | cons m names =>
      have hjoin : joinNames (n :: m :: names) = n ++ '/' :: joinNames (m :: names) := by
        rw [joinNames, List.intercalate_cons_cons, List.append_assoc]
        rfl
      rw [hjoin, splitSlashes_append, List.filter_append, splitSlashes_of_notMem hslash,
        List.filter_cons_of_pos hname, List.filter_nil, ih hnames, List.singleton_append]

theorem filter_splitSlashes_cons (cs : List Char) :
    (splitSlashes ('/' :: cs)).filter isName = (splitSlashes cs).filter isName := by
  rw [splitSlashes]
  exact List.filter_cons_of_neg (by decide)

theorem filter_splitSlashes_lead (cs ds : List Char) :
    (splitSlashes (lead cs ++ ds)).filter isName = (splitSlashes ds).filter isName := by
  unfold lead
  split
  · exact filter_splitSlashes_cons ds
  · exact (filter_splitSlashes_cons ('/' :: ds)).trans (filter_splitSlashes_cons ds)
  · exact filter_splitSlashes_cons ds

/-! ## The absolute form -/

/-- The absolute form without a slash at its end. -/
def absoluteBody (p cwd : Path) : List Char :=
  if p.isAbsolute then lead p.spelling.toList ++ joinNames p.names
  else '/' :: joinNames (cwd.names ++ p.names)

theorem filter_absoluteBody (p cwd : Path) :
    (splitSlashes (p.absoluteBody cwd)).filter isName =
      if p.isAbsolute then p.names else cwd.names ++ p.names := by
  unfold absoluteBody
  split
  · rw [filter_splitSlashes_lead, filter_splitSlashes_joinNames p.forall_mem_names]
  · rw [filter_splitSlashes_cons, filter_splitSlashes_joinNames]
    exact List.forall_mem_append.2 ⟨cwd.forall_mem_names, p.forall_mem_names⟩

theorem head?_absoluteBody (p cwd : Path) : (p.absoluteBody cwd).head? = some '/' := by
  have hlead (cs : List Char) : (lead cs).head? = some '/' := by
    unfold lead
    split <;> rfl
  unfold absoluteBody
  split
  · rw [List.head?_append, hlead, Option.some_or]
  · rfl

theorem absoluteChars_eq (p cwd : Path) : p.absoluteChars cwd = p.absoluteBody cwd ∨
    p.absoluteChars cwd = p.absoluteBody cwd ++ ['/'] := by
  rw [absoluteChars, ← absoluteBody]
  split
  · exact .inr rfl
  · exact .inl rfl

theorem absolute_of_isEmpty (h : p.isEmpty = true) (cwd : Path) : p.absolute cwd = p :=
  if_pos h

theorem isAbsolute_absolute (h : p.isEmpty = false) (cwd : Path) :
    (p.absolute cwd).isAbsolute = true := by
  have hhead : (p.absoluteChars cwd).head? = some '/' := by
    rcases p.absoluteChars_eq cwd with heq | heq
    · rw [heq, head?_absoluteBody]
    · rw [heq, List.head?_append, head?_absoluteBody, Option.some_or]
  rw [absolute, h, isAbsolute]
  simpa using hhead

/-- The names of the absolute form. -/
theorem names_absolute (h : p.isEmpty = false) (cwd : Path) :
    (p.absolute cwd).names = if p.isAbsolute then p.names else cwd.names ++ p.names := by
  have hnames : (splitSlashes (p.absoluteChars cwd)).filter isName =
      if p.isAbsolute then p.names else cwd.names ++ p.names := by
    rcases p.absoluteChars_eq cwd with heq | heq
    · rw [heq, filter_absoluteBody]
    · rw [heq, splitSlashes_append, List.filter_append, filter_absoluteBody]
      exact List.append_nil _
  rw [absolute, h, Path.names, segments, if_neg Bool.false_ne_true, String.toList_ofList, hnames]

end LiveBuild.Path
