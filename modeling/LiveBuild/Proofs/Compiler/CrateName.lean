import LiveBuild.Compiler.CrateName
import LiveBuild.Proofs.Files.FileName

/-!
# Crate names are legal

`isLegal_ofPath`: whatever an output path is, its crate name begins with a letter and goes on with
letters, digits and underscores. It is made of the stem of the last name and of nothing else.

* `DropsLib`, `Replaces`, `Leads`: the three steps from a stem to a name, without the functions that
  take them. Each step has one outcome (`dropsLib_iff`, `forall₂_replaces_iff`, `leads_iff`), and so
  a stem has one name (`isNameOf_iff`);
* `IsNameOf.isLegal`: a name that is made so is legal. Without a lead it begins with a letter, and
  the lead begins with one.
-/

namespace LiveBuild.CrateName

variable {c d : Char} {stem rest body name : List Char}

/-- An ASCII letter. -/
def IsLetter (c : Char) : Prop := ('a' ≤ c ∧ c ≤ 'z') ∨ ('A' ≤ c ∧ c ≤ 'Z')

/-- An ASCII letter or digit. -/
def IsKept (c : Char) : Prop := IsLetter c ∨ ('0' ≤ c ∧ c ≤ '9')

/-- A text that begins with a letter. -/
def BeginsWithLetter (cs : List Char) : Prop := ∃ c ds, cs = c :: ds ∧ IsLetter c

/-- A name that begins with a letter, and goes on with letters, digits and underscores. -/
def IsLegal (name : List Char) : Prop := BeginsWithLetter name ∧ ∀ c ∈ name, IsKept c ∨ c = '_'

theorem isAlpha_iff : c.isAlpha = true ↔ IsLetter c := by
  have halpha : c.isAlpha = true ↔ c.isUpper = true ∨ c.isLower = true := Bool.or_eq_true_iff
  have hupper : c.isUpper = true ↔ 'A' ≤ c ∧ c ≤ 'Z' := decide_eq_true_iff
  have hlower : c.isLower = true ↔ 'a' ≤ c ∧ c ≤ 'z' :=
    Bool.and_eq_true_iff.trans (and_congr decide_eq_true_iff decide_eq_true_iff)
  rw [halpha, hupper, hlower, IsLetter, or_comm]

theorem isAlphanum_iff : c.isAlphanum = true ↔ IsKept c := by
  have halphanum : c.isAlphanum = true ↔ c.isAlpha = true ∨ c.isDigit = true :=
    Bool.or_eq_true_iff
  rw [halphanum, isAlpha_iff, Char.isDigit_iff_toNat, IsKept]
  exact Iff.rfl

/-! ## From a stem to a name -/

/-- One `lib` at the beginning is left out. -/
def DropsLib (stem rest : List Char) : Prop :=
  stem = "lib".toList ++ rest ∨ ¬ "lib".toList <+: stem ∧ rest = stem

/-- Letters and digits are kept, and an underscore stands for any other character. -/
def Replaces (c d : Char) : Prop := IsKept c ∧ d = c ∨ ¬ IsKept c ∧ d = '_'

/-- What does not begin with a letter is given a lead. -/
def Leads (body name : List Char) : Prop :=
  BeginsWithLetter body ∧ name = body ∨ ¬ BeginsWithLetter body ∧ name = "dyncode_".toList ++ body

/-- A name that is made from a stem. -/
def IsNameOf (stem name : List Char) : Prop :=
  ∃ rest body, DropsLib stem rest ∧ List.Forall₂ Replaces rest body ∧ Leads body name

theorem dropsLib_iff : DropsLib stem rest ↔ rest = dropLib stem := by
  rw [DropsLib, dropLib.eq_def]
  split
  next cs =>
    have hlib : "lib".toList <+: 'l' :: 'i' :: 'b' :: cs := ⟨cs, rfl⟩
    constructor
    · rintro (heq | ⟨hno, -⟩)
      · exact (List.append_cancel_left (show "lib".toList ++ cs = _ from heq)).symm
      · exact absurd hlib hno
    · rintro rfl
      exact .inl rfl
  next hno =>
    constructor
    · rintro (rfl | ⟨-, rfl⟩)
      · exact absurd rfl (hno rest)
      · rfl
    · rintro rfl
      refine .inr ⟨?_, rfl⟩
      rintro ⟨cs, hcs⟩
      exact hno cs hcs.symm

theorem replaces_iff : Replaces c d ↔ d = legal c := by
  rw [Replaces, legal, ← isAlphanum_iff]
  cases c.isAlphanum <;> simp

theorem forall₂_replaces_iff : List.Forall₂ Replaces rest body ↔ body = rest.map legal := by
  constructor
  · intro h
    induction h with
    | nil => rfl
    | cons hc _ ih => rw [List.map_cons, replaces_iff.1 hc, ih]
  · rintro rfl
    induction rest with
    | nil => exact .nil
    | cons c rest ih => exact .cons (replaces_iff.2 rfl) ih

theorem Leads.unique {name' : List Char} (h : Leads body name) (h' : Leads body name') :
    name = name' := by
  rcases h with ⟨hbody, rfl⟩ | ⟨hbody, rfl⟩ <;> rcases h' with ⟨hbody', rfl⟩ | ⟨hbody', rfl⟩
  · rfl
  · exact absurd hbody hbody'
  · exact absurd hbody' hbody
  · rfl

theorem leads_ofStem (stem : List Char) : Leads ((dropLib stem).map legal) (ofStem stem) := by
  rw [ofStem]
  split
  next c cs hbody =>
    rw [hbody]
    split
    next hc => exact .inl ⟨⟨c, cs, rfl, isAlpha_iff.1 hc⟩, rfl⟩
    next hc =>
      refine .inr ⟨?_, rfl⟩
      rintro ⟨c', cs', heq, hc'⟩
      obtain ⟨rfl, -⟩ := List.cons.inj heq
      exact hc (isAlpha_iff.2 hc')
  next hbody =>
    rw [hbody]
    refine .inr ⟨?_, rfl⟩
    rintro ⟨c, cs, heq, -⟩
    cases heq

/-- **A stem has one name.** -/
theorem isNameOf_iff : IsNameOf stem name ↔ name = ofStem stem := by
  constructor
  · rintro ⟨rest, body, hrest, hbody, hname⟩
    obtain rfl := dropsLib_iff.1 hrest
    obtain rfl := forall₂_replaces_iff.1 hbody
    exact hname.unique (leads_ofStem stem)
  · rintro rfl
    exact ⟨_, _, dropsLib_iff.2 rfl, forall₂_replaces_iff.2 rfl, leads_ofStem stem⟩

/-! ## Legal names -/

theorem forall_mem_of_replaces (h : List.Forall₂ Replaces rest body) :
    ∀ d ∈ body, IsKept d ∨ d = '_' := by
  induction h with
  | nil => exact fun d hd => absurd hd List.not_mem_nil
  | cons hc _ ih =>
    refine List.forall_mem_cons.2 ⟨?_, ih⟩
    rcases hc with ⟨hc, rfl⟩ | ⟨-, rfl⟩
    · exact .inl hc
    · exact .inr rfl

theorem isLegal_lead_append (h : ∀ c ∈ body, IsKept c ∨ c = '_') :
    IsLegal ("dyncode_".toList ++ body) := by
  have hlead : ∀ c ∈ "dyncode_".toList, IsKept c ∨ c = '_' := by
    have hall : "dyncode_".toList.all (fun c => c.isAlphanum || c == '_') = true := rfl
    intro c hc
    have hc' := List.all_eq_true.1 hall c hc
    rwa [Bool.or_eq_true, isAlphanum_iff, beq_iff_eq] at hc'
  refine ⟨⟨'d', _, rfl, .inl (by decide)⟩, List.forall_mem_append.2 ⟨hlead, h⟩⟩

/-- **A name that is made from a stem is legal.** -/
theorem IsNameOf.isLegal (h : IsNameOf stem name) : IsLegal name := by
  obtain ⟨rest, body, -, hbody, hname⟩ := h
  have hall := forall_mem_of_replaces hbody
  rcases hname with ⟨hletter, rfl⟩ | ⟨-, rfl⟩
  · exact ⟨hletter, hall⟩
  · exact isLegal_lead_append hall

theorem toList_ofPath_eq_iff {p : Path} :
    (ofPath p).toList = name ↔ ∃ stem, p.IsFileStem stem ∧ IsNameOf stem name := by
  rw [ofPath, String.toList_ofList]
  constructor
  · rintro rfl
    exact ⟨_, Path.isFileStem_iff.2 rfl, isNameOf_iff.2 rfl⟩
  · rintro ⟨stem, hstem, hname⟩
    rw [isNameOf_iff.1 hname, Path.isFileStem_iff.1 hstem]

/-- A stem of which nothing is left, a path that ends in no name, and a letter that is not ASCII. -/
example : ofPath ⟨"/tmp/lib.so"⟩ = "dyncode_" ∧ ofPath ⟨"a/.."⟩ = "dyncode_" ∧
    ofPath ⟨"libé1"⟩ = "dyncode__1" := by decide

/-- **Every output path has a legal crate name.** The name begins with an ASCII letter and goes on
with ASCII letters, digits and underscores. It is the stem of the path's last name without one
`lib` at the beginning, with an underscore for each character that is no ASCII letter or digit,
behind a lead exactly if that does not begin with a letter, and nothing else. Paths with the same
last component have the same name. -/
theorem isLegal_ofPath (p : Path) :
    IsLegal (ofPath p).toList ∧
    (∀ name, (ofPath p).toList = name ↔ ∃ stem, p.IsFileStem stem ∧ IsNameOf stem name) ∧
    ∀ q : Path, p.components.getLast? = q.components.getLast? → ofPath p = ofPath q := by
  refine ⟨?_, fun name => toList_ofPath_eq_iff, fun q hq => ?_⟩
  · obtain ⟨stem, -, hname⟩ := toList_ofPath_eq_iff.1 (Eq.refl (ofPath p).toList)
    exact hname.isLegal
  · rw [ofPath, ofPath, Path.fileStem?, Path.fileStem?, Path.fileNameChars?_congr hq]

/-- Two spellings of a path whose last name has two dots, and a letter that is not ASCII. -/
theorem isLegal_ofPath_hiddenLibrary :
    Path.components ⟨"../lib.2-é.so/./"⟩ ≠ Path.components ⟨"//usr/lib.2-é.so"⟩ ∧
    (Path.components ⟨"../lib.2-é.so/./"⟩).getLast? =
      (Path.components ⟨"//usr/lib.2-é.so"⟩).getLast? ∧
    ofPath ⟨"../lib.2-é.so/./"⟩ = ofPath ⟨"//usr/lib.2-é.so"⟩ ∧
    IsLegal "dyncode__2__".toList ∧ ofPath ⟨"//usr/lib.2-é.so"⟩ = "dyncode__2__" := by
  have hlast : (Path.components ⟨"../lib.2-é.so/./"⟩).getLast? =
      (Path.components ⟨"//usr/lib.2-é.so"⟩).getLast? := by decide
  have hname : ofPath ⟨"../lib.2-é.so/./"⟩ = "dyncode__2__" := by decide
  obtain ⟨hlegal, -, hsame⟩ := isLegal_ofPath ⟨"../lib.2-é.so/./"⟩
  rw [hname] at hlegal
  exact ⟨by decide, hlast, hsame _ hlast, hlegal, (hsame _ hlast).symm.trans hname⟩

end LiveBuild.CrateName
