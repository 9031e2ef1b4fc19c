import LiveBuild.Proofs.Files.Absolute
import Mathlib.Data.List.TakeWhile

/-!
# The last name of a path

The last name of a path stands behind its last slash but for slashes and single dots, which say
nothing behind a name (`Trailing`).

* `fileNameChars?_eq_some_iff`: the name of a file, by where it stands in the spelling of its path;
* `getLast?_names`: the last name follows from the last component alone;
* `isStem_iff`, `isFileStem_iff`: the stem of a name, by where its last dot is.
-/

namespace LiveBuild.Path

variable {p q : Path} {name ext cs ds : List Char} {names : List (List Char)}

/-! ## The name of a file -/

/-- Slashes, and single dots behind slashes: what may stand behind a name and does not count. -/
inductive Trailing : List Char → Prop
  | nil : Trailing []
  | slash {cs : List Char} (h : Trailing cs) : Trailing ('/' :: cs)
  | dot {cs : List Char} (h : Trailing cs) : Trailing ('/' :: '.' :: cs)

/-- A name stands at the end of a path, or before what does not count there. -/
def IsFileName (p : Path) (name : List Char) : Prop :=
  ∃ before after : List Char, p.spelling.toList = before ++ name ++ after ∧
    (before = [] ∨ before.getLast? = some '/') ∧ Trailing after ∧
    '/' ∉ name ∧ name ≠ [] ∧ name ≠ ['.'] ∧ name ≠ ['.', '.']

/-- What does not count behind a name adds no name. -/
theorem filter_splitSlashes_append_trailing (h : Trailing ds) (cs : List Char) :
    (splitSlashes (cs ++ ds)).filter isName = (splitSlashes cs).filter isName := by
  induction h generalizing cs with
  | nil => rw [List.append_nil]
  | @slash ds _ ih =>
    have hnil : (splitSlashes ds).filter isName = [] := ih []
    rw [splitSlashes_append, List.filter_append, hnil, List.append_nil]
  | @dot ds _ ih =>
    have hnil : (splitSlashes ('.' :: ds)).filter isName = [] := ih ['.']
    rw [splitSlashes_append, List.filter_append, hnil, List.append_nil]

theorem isName_iff : isName cs = true ↔ cs ≠ [] ∧ cs ≠ ['.'] := by
  rw [isName, Bool.and_eq_true, bne_iff_ne, bne_iff_ne]

/-- The names of a path that ends in a name, but for what does not count. -/
theorem names_of_toList_eq_append {before after : List Char}
    (hp : p.spelling.toList = before ++ name ++ after)
    (hbefore : before = [] ∨ before.getLast? = some '/') (hafter : Trailing after)
    (hslash : '/' ∉ name) (hname : isName name = true) :
    p.names = (splitSlashes before).filter isName ++ [name] := by
  have hlast : (splitSlashes name).filter isName = [name] := by
    rw [splitSlashes_of_notMem hslash, List.filter_cons_of_pos hname, List.filter_nil]
  rw [names, segments, hp, filter_splitSlashes_append_trailing hafter]
  rcases hbefore with rfl | hbefore
  · rw [List.nil_append, hlast]
    rfl
  · obtain ⟨cs, rfl⟩ := List.getLast?_eq_some_iff.1 hbefore
    rw [List.append_assoc, List.singleton_append, splitSlashes_append, List.filter_append, hlast,
      filter_splitSlashes_append_trailing (.slash .nil)]

/-! ### Where the last name stands -/

theorem joinNames_cons (name : List Char) (back : List (List Char)) :
    joinNames (name :: back) = name ++ back.flatMap ('/' :: ·) := by
  induction back generalizing name with
  | nil => rw [joinNames, List.intercalate_singleton, List.flatMap_nil, List.append_nil]
  | cons m back ih =>
    rw [joinNames, List.intercalate_cons_cons, ← joinNames, ih, List.flatMap_cons,
      List.append_assoc]
    rfl

/-- Names with slashes between them, of which one is picked out. -/
theorem joinNames_append_cons (front : List (List Char)) (name : List Char)
    (back : List (List Char)) : joinNames (front ++ name :: back) =
      front.flatMap (· ++ ['/']) ++ name ++ back.flatMap ('/' :: ·) := by
  induction front with
  | nil => exact joinNames_cons name back
  | cons m front ih =>
    obtain ⟨n, rest, hrest⟩ : ∃ n rest, front ++ name :: back = n :: rest :=
      List.exists_cons_of_ne_nil (by simp)
    rw [hrest] at ih
    rw [List.cons_append, hrest, joinNames, List.intercalate_cons_cons, ← joinNames, ih,
      List.flatMap_cons]
    simp only [List.append_assoc]

theorem trailing_flatMap (h : ∀ piece ∈ names, isName piece = false) :
    Trailing (names.flatMap ('/' :: ·)) := by
  induction names with
  | nil => exact .nil
  | cons piece names ih =>
    obtain ⟨hpiece, hnames⟩ := List.forall_mem_cons.1 h
    have htrailing := ih hnames
    rw [List.flatMap_cons]
    have hcases : piece = [] ∨ piece = ['.'] := by
      rw [← Bool.not_eq_true, isName_iff, not_and_or, not_not, not_not] at hpiece
      exact hpiece
    rcases hcases with rfl | rfl
    · exact .slash htrailing
    · exact .dot htrailing

/-- The last piece that counts, among all pieces. -/
theorem exists_append_of_getLast?_filter (h : (names.filter isName).getLast? = some name) :
    ∃ front back, names = front ++ name :: back ∧ isName name = true ∧
      ∀ piece ∈ back, isName piece = false := by
  rw [← List.head?_reverse, ← List.filter_reverse, List.head?_filter,
    List.find?_eq_some_iff_append] at h
  obtain ⟨hname, back, front, hnames, hback⟩ := h
  refine ⟨front.reverse, back.reverse, ?_, hname, fun piece hpiece => ?_⟩
  · rw [← List.reverse_reverse names, hnames]
    simp
  · simpa using hback piece (List.mem_reverse.1 hpiece)

theorem fileNameChars?_eq_some_iff_getLast? :
    p.fileNameChars? = some name ↔ p.names.getLast? = some name ∧ name ≠ ['.', '.'] := by
  rw [fileNameChars?]
  cases p.names.getLast? with
  | none => simp
  | some last =>
    by_cases hparent : last = ['.', '.']
    · simp only [if_pos hparent, Option.some_inj]
      exact iff_of_false (fun h => by cases h) fun h => h.2 (h.1 ▸ hparent)
    · simp only [if_neg hparent, Option.some_inj]
      exact ⟨fun heq => ⟨heq, heq ▸ hparent⟩, And.left⟩

/-- **The name of a file, by where it stands.** -/
theorem fileNameChars?_eq_some_iff : p.fileNameChars? = some name ↔ p.IsFileName name := by
  constructor
  · intro h
    obtain ⟨hlast, hparent⟩ := fileNameChars?_eq_some_iff_getLast?.1 h
    obtain ⟨front, back, hnames, hname, hback⟩ := exists_append_of_getLast?_filter hlast
    have hmem : name ∈ splitSlashes p.spelling.toList := by
      rw [← segments, hnames]
      simp
    have hspelling : p.spelling.toList = joinNames (front ++ name :: back) := by
      rw [← hnames, segments, splitSlashes_eq_splitOn]
      exact (List.intercalate_splitOn _).symm
    refine ⟨_, _, hspelling.trans (joinNames_append_cons front name back), ?_,
      trailing_flatMap hback, slash_notMem_of_mem_splitSlashes hmem, (isName_iff.1 hname).1,
      (isName_iff.1 hname).2, hparent⟩
    rcases List.eq_nil_or_concat front with rfl | ⟨front, last, rfl⟩
    · exact .inl rfl
    · exact .inr (by simp)
  · rintro ⟨before, after, hp, hbefore, hafter, hslash, hne, hdot, hparent⟩
    have hnames := names_of_toList_eq_append hp hbefore hafter hslash (isName_iff.2 ⟨hne, hdot⟩)
    exact fileNameChars?_eq_some_iff_getLast?.2 ⟨by rw [hnames, List.getLast?_concat], hparent⟩

/-! ## The last component -/

/-- The name that a component is. -/
def Component.name? : Component → Option (List Char)
  | .name cs => some cs
  | _ => none

theorem getLast?_names (p : Path) :
    p.names.getLast? = p.components.getLast?.bind Component.name? := by
  rw [components, List.getLast?_append, List.getLast?_map]
  cases p.names.getLast? with
  | some name => rfl
  | none =>
    rw [Option.map_none, Option.none_or]
    split_ifs <;> rfl

/-- **Paths with the same last component have the same last name.** -/
theorem fileNameChars?_congr (h : p.components.getLast? = q.components.getLast?) :
    p.fileNameChars? = q.fileNameChars? := by
  rw [fileNameChars?, fileNameChars?, getLast?_names, getLast?_names, h]

/-! ## Stems -/

/-- The stem of a name stands before its last dot. A name that has no dot but at its beginning is
its own stem. -/
inductive IsStem : List Char → List Char → Prop
  | whole {name : List Char} (h : '.' ∉ name.tail) : IsStem name name
  | beforeDot {stem ext : List Char} (hne : stem ≠ []) (hext : '.' ∉ ext) :
    IsStem (stem ++ '.' :: ext) stem

theorem stem_of_notMem (h : '.' ∉ name) : stem name = name := by
  have hdrop : name.reverse.dropWhile (· != '.') = [] := by
    rw [List.dropWhile_eq_nil_iff]
    intro c hc
    rw [bne_iff_ne]
    rintro rfl
    exact h (List.mem_reverse.1 hc)
  rw [stem, hdrop]
  rfl

/-- The search for a dot from the end finds the one behind which there is none. -/
theorem stem_append_dot (hext : '.' ∉ ext) (cs : List Char) :
    stem (cs ++ '.' :: ext) = if cs = [] then cs ++ '.' :: ext else cs := by
  have hdrop : (cs ++ '.' :: ext).reverse.dropWhile (· != '.') = '.' :: cs.reverse := by
    have hall : ∀ c ∈ ext.reverse, (c != '.') = true := by
      intro c hc
      rw [bne_iff_ne]
      rintro rfl
      exact hext (List.mem_reverse.1 hc)
    rw [List.reverse_append, List.reverse_cons, List.append_assoc,
      List.dropWhile_append_of_pos hall]
    rfl
  rw [stem, hdrop, List.drop_one, List.tail_cons, List.reverse_reverse]

theorem exists_eq_append_dot (h : '.' ∈ name) : ∃ cs ext, name = cs ++ '.' :: ext ∧ '.' ∉ ext := by
  obtain ⟨ext, cs, hreverse, hext⟩ := List.eq_append_cons_of_mem (List.mem_reverse.2 h)
  refine ⟨cs.reverse, ext.reverse, ?_, by simpa using hext⟩
  rw [← List.reverse_reverse name, hreverse]
  simp

/-- **The stem of a name, by where its last dot is.** -/
theorem isStem_iff {cs : List Char} : IsStem name cs ↔ cs = stem name := by
  constructor
  · rintro (h | ⟨hne, hext⟩)
    · by_cases hdot : '.' ∈ name
      · -- the only dot stands first
        obtain ⟨c, ds, rfl⟩ := List.exists_cons_of_ne_nil (List.ne_nil_of_mem hdot)
        obtain rfl : '.' = c := (List.mem_cons.1 hdot).resolve_right h
        exact (stem_append_dot h []).symm
      · exact (stem_of_notMem hdot).symm
    · rw [stem_append_dot hext, if_neg hne]
  · rintro rfl
    by_cases hdot : '.' ∈ name
    · obtain ⟨cs, ext, rfl, hext⟩ := exists_eq_append_dot hdot
      rw [stem_append_dot hext]
      split_ifs with hcs
      · subst hcs
        exact .whole hext
      · exact .beforeDot hcs hext
    · rw [stem_of_notMem hdot]
      exact .whole fun h => hdot (List.mem_of_mem_tail h)

/-- The stem of the name of a file, and nothing if there is no such name. -/
inductive IsFileStem (p : Path) : List Char → Prop
  | ofName {name stem : List Char} (hname : p.IsFileName name) (hstem : IsStem name stem) :
    IsFileStem p stem
  | none (h : ¬ ∃ name, p.IsFileName name) : IsFileStem p []

theorem isFileStem_iff {cs : List Char} : p.IsFileStem cs ↔ cs = p.fileStem?.getD [] := by
  rw [fileStem?]
  cases h : p.fileNameChars? with
  | some name =>
    have hname : p.IsFileName name := fileNameChars?_eq_some_iff.1 h
    rw [Option.map_some, Option.getD_some]
    constructor
    · rintro (⟨hname', hstem⟩ | hno)
      · rw [← fileNameChars?_eq_some_iff, h, Option.some_inj] at hname'
        rw [isStem_iff.1 hstem, hname']
      · exact absurd ⟨name, hname⟩ hno
    · rintro rfl
      exact .ofName hname (isStem_iff.2 rfl)
  | none =>
    have hno : ¬ ∃ name, p.IsFileName name := by
      rintro ⟨name, hname⟩
      rw [← fileNameChars?_eq_some_iff, h] at hname
      cases hname
    rw [Option.map_none, Option.getD_none]
    constructor
    · rintro (⟨hname, -⟩ | -)
      · exact absurd ⟨_, hname⟩ hno
      · rfl
    · rintro rfl
      exact .none hno

end LiveBuild.Path
