import LiveBuild.Proofs.Json.RoundTrip
import Mathlib.Data.List.Infix

/-!
# Lexemes

The compact form of a tree is a sequence of strings in quotes and of single characters, its signs.
A text that begins and ends with a quote can be found in it only around the end of a string, because
the quotes inside of a string follow a backslash, and because of what stands behind a string.

* `Json.lexemes`: the lexemes of a tree;
* `Lexeme.Behind`: a property of each string and of what stands behind it;
* `Lexeme.exists_string`: the string that a text between quotes ends, wherever it was found.
-/

namespace LiveBuild

/-- A numeral is written with digits and four signs. -/
theorem Numeral.IsStrict.mem_chars {n : Numeral} (hn : n.IsStrict) {c : Char} (hc : c ∈ n.chars) :
    c.isDigit = true ∨ c ∈ ['-', '.', 'e', '+'] := by
  simp only [Numeral.chars, List.mem_append] at hc
  rcases hc with ((hc | hc) | hc) | hc
  · split at hc <;> simp_all
  · exact .inl (hn.whole.isDigit c hc)
  · split at hc
    · cases hc
    · rcases List.mem_cons.1 hc with rfl | hc
      · exact .inr (by decide)
      · exact .inl (hn.fraction c hc)
  · split at hc
    next e he =>
      rw [Exponent.chars, List.mem_cons, List.mem_append] at hc
      rcases hc with rfl | hc | hc
      · exact .inr (by decide)
      · refine .inr ?_
        revert hc
        cases e.sign <;> simp +contextual [ExponentSign.chars]
      · exact .inl ((hn.exponent e he).isDigit c hc)
    next => cases hc

namespace Json

open Writer

/-! ## Strings -/

/-- What stands between the quotes of a string. -/
def content : Option String → List Char
  | some s => s.toList.flatMap escape
  | none => ['\\', 'u', 'd', '8', '0', '0']

theorem string_eq (s : Option String) : Writer.string s = '"' :: content s ++ ['"'] := by
  cases s <;> rfl

/-- A string is known from its content. -/
theorem content_append_inj {s t : Option String} {cs ds : List Char}
    (h : content s ++ '"' :: cs = content t ++ '"' :: ds) : s = t ∧ cs = ds := by
  have htail (s : Option String) (cs : List Char) :
      Reader.string (content s ++ '"' :: cs) = some (s, cs) := by
    rw [← Reader.string_tail s cs, string_eq]
    simp
  have heq := (htail s cs).symm.trans ((congrArg _ h).trans (htail t ds))
  simpa using heq

/-- A character other than itself is escaped by the backslash, letters and digits. -/
theorem eq_of_mem_escape {c d : Char} (h : d ∈ escape c) :
    d = c ∨ d = '\\' ∨ d.isAlphanum = true := by
  have hdigit : ∀ k < 16, (Nat.digitChar k).isAlphanum = true := by decide
  unfold escape at h
  split_ifs at h with h₁ h₂ h₃ h₄ h₅ h₆ h₇ hc
  · rw [h₁]
    simp only [List.mem_cons, List.not_mem_nil, or_false] at h
    exact h.symm.imp_right .inl
  · exact .inr (.inl (by simpa using h))
  iterate 5
    simp only [List.mem_cons, List.not_mem_nil, or_false] at h
    rcases h with rfl | rfl
    · exact .inr (.inl rfl)
    · exact .inr (.inr (by decide))
  · have hk : c.toNat < 32 := hc
    have hhigh := hdigit (c.toNat / 16) (by omega)
    have hlow := hdigit (c.toNat % 16) (by omega)
    simp only [List.mem_cons, List.not_mem_nil, or_false] at h
    rcases h with rfl | rfl | rfl | rfl | rfl | rfl
    · exact .inr (.inl rfl)
    iterate 3 exact .inr (.inr (by decide))
    · exact .inr (.inr hhigh)
    · exact .inr (.inr hlow)
  · exact .inl (List.mem_singleton.1 h)

/-- A quote inside of a string is written behind a backslash. -/
theorem exists_of_flatMap_escape_eq {cs a b : List Char}
    (h : cs.flatMap escape = a ++ '"' :: b) :
    ∃ xs ys, cs = xs ++ '"' :: ys ∧ a = xs.flatMap escape ++ ['\\'] ∧
      b = ys.flatMap escape := by
  induction cs generalizing a with
  | nil => simp at h
  | cons c cs ih =>
    rw [List.flatMap_cons, List.append_eq_append_iff] at h
    rcases h with ⟨a₂, rfl, hrest⟩ | ⟨b₂, hescape, hrest⟩
    · obtain ⟨xs, ys, rfl, rfl, rfl⟩ := ih hrest
      exact ⟨c :: xs, ys, rfl, by simp, rfl⟩
    · cases b₂ with
      | nil =>
        obtain ⟨xs, ys, -, hnil, -⟩ := ih (a := []) hrest.symm
        simp at hnil
      | cons d b₂ =>
        -- the quote is written for the first character
        obtain ⟨rfl, rfl⟩ := List.cons.inj hrest
        have hc : c = '"' := by
          rcases eq_of_mem_escape (c := c) (d := '"') (by simp [hescape]) with h | h | h
          · exact h.symm
          · cases h
          · cases h
        subst hc
        change ['\\'] ++ ['"'] = a ++ '"' :: b₂ at hescape
        have hnil : b₂ = [] ∧ a = ['\\'] := by
          clear hrest ih
          rcases a with _ | ⟨e, _ | ⟨f, a⟩⟩
          · simp at hescape
          · simpa [eq_comm, and_comm] using hescape
          · simp at hescape
        obtain ⟨rfl, rfl⟩ := hnil
        exact ⟨[], cs, rfl, rfl, rfl⟩

theorem exists_backslash {s : Option String} {a b : List Char} (h : content s = a ++ '"' :: b) :
    ∃ a', a = a' ++ ['\\'] := by
  cases s with
  | none =>
    have hmem : '"' ∈ content none := by simp [h]
    exact absurd hmem (by decide)
  | some s =>
    obtain ⟨xs, ys, -, rfl, -⟩ := exists_of_flatMap_escape_eq h
    exact ⟨_, rfl⟩

/-- Characters that are written without a backslash are written as they are. -/
theorem flatMap_escape_of_notMem {cs : List Char} (h : '\\' ∉ cs.flatMap escape) :
    cs.flatMap escape = cs := by
  have hescape {c : Char} (hc : '\\' ∉ escape c) : escape c = [c] := by
    unfold escape at hc ⊢
    split_ifs at hc ⊢
    all_goals first | exact absurd List.mem_cons_self hc | rfl
  induction cs with
  | nil => rfl
  | cons c cs ih =>
    rw [List.flatMap_cons, List.mem_append, not_or] at h
    rw [List.flatMap_cons, hescape h.1, ih h.2]
    rfl

/-- A string that ends, as it is written, in a text without backslashes ends in it. -/
theorem suffix_of_content {s : String} {k : List Char} (hslash : '\\' ∉ k)
    (h : '"' :: k <:+ '"' :: content s) : '"' :: k <:+ '"' :: s.toList := by
  have hplain {cs : List Char} (hcs : k = cs.flatMap escape) : k = cs := by
    rw [hcs] at hslash
    rw [hcs, flatMap_escape_of_notMem hslash]
  rcases List.suffix_cons_iff.1 h with heq | ⟨a, ha⟩
  · rw [hplain (List.cons.inj heq).2]
  · obtain ⟨xs, ys, hs, -, hys⟩ := exists_of_flatMap_escape_eq ha.symm
    obtain rfl := hplain hys
    rw [hs]
    exact (List.suffix_append _ _).trans (List.suffix_cons _ _)

/-- A text without quotes and backslashes up to the quote that ends a string began at a quote. -/
theorem eq_of_append_quote {s : Option String} {a b k rest post : List Char}
    (hcontent : content s = a ++ b) (ha : ∀ a', a ≠ a' ++ ['\\']) (hquote : '"' ∉ k)
    (hslash : '\\' ∉ k) (h : b ++ '"' :: rest = k ++ '"' :: post) : b = k ∧ rest = post := by
  rw [List.append_eq_append_iff] at h
  rcases h with ⟨k₂, rfl, hrest⟩ | ⟨b₂, rfl, hrest⟩
  · cases k₂ with
    | nil => exact ⟨(List.append_nil b).symm, (List.cons.inj hrest).2⟩
    | cons c k₂ =>
      obtain ⟨rfl, -⟩ := List.cons.inj hrest
      exact absurd (by simp) hquote
  · cases b₂ with
    | nil => exact ⟨List.append_nil k, (List.cons.inj hrest).2.symm⟩
    | cons c b₂ =>
      -- the quote would be inside of the string, and there is no backslash in front of it
      obtain ⟨rfl, -⟩ := List.cons.inj hrest
      rw [← List.append_assoc] at hcontent
      obtain ⟨a', ha'⟩ := exists_backslash hcontent
      rcases List.eq_nil_or_concat k with rfl | ⟨k', c, rfl⟩
      · rw [List.append_nil] at ha'
        exact absurd ha' (ha a')
      · rw [List.concat_eq_append, ← List.append_assoc] at ha'
        obtain rfl := List.singleton_inj.1 (List.append_inj' ha' rfl).2
        exact absurd (by simp) hslash

/-! ## Lexemes -/

/-- A string, or a character outside of the strings. -/
inductive Lexeme
  | string (s : Option String)
  | sign (c : Char)
  deriving DecidableEq, Repr

namespace Lexeme

/-- The characters of a lexeme. -/
def chars : Lexeme → List Char
  | string s => Writer.string s
  | sign c => [c]

/-- The text of a sequence of lexemes. -/
def spell (ls : List Lexeme) : List Char := ls.flatMap chars

/-- The characters of a text, as signs. -/
def signs (cs : List Char) : List Lexeme := cs.map sign

/-- The parts with commas between them. -/
def commas : List (List Lexeme) → List Lexeme
  | [] => []
  | [part] => part
  | part :: rest => part ++ sign ',' :: commas rest

@[simp]
theorem spell_nil : spell [] = [] := rfl

@[simp]
theorem spell_sign (c : Char) (ls : List Lexeme) : spell (sign c :: ls) = c :: spell ls := rfl

theorem spell_string (s : Option String) (ls : List Lexeme) :
    spell (string s :: ls) = '"' :: content s ++ '"' :: spell ls := by
  rw [spell, List.flatMap_cons, chars, string_eq]
  simp [spell]

@[simp]
theorem spell_append (ls ms : List Lexeme) : spell (ls ++ ms) = spell ls ++ spell ms :=
  List.flatMap_append

@[simp]
theorem spell_signs (cs : List Char) : spell (signs cs) = cs := by
  induction cs with
  | nil => rfl
  | cons c cs ih => exact congrArg (c :: ·) ih

theorem spell_commas (parts : List (List Lexeme)) :
    spell (commas parts) = Writer.commas (parts.map spell) := by
  induction parts with
  | nil => rfl
  | cons part rest ih =>
    cases rest with
    | nil => rfl
    | cons part' rest =>
      change spell (part ++ sign ',' :: commas (part' :: rest)) = _
      rw [spell_append, spell_sign, ih]
      rfl

/-- The property holds of each string and of what stands behind it. -/
def Behind (P : Option String → List Lexeme → Prop) : List Lexeme → Prop
  | [] => True
  | string s :: ls => P s ls ∧ Behind P ls
  | sign _ :: ls => Behind P ls

variable {P Q : Option String → List Lexeme → Prop} {ls ms : List Lexeme}

theorem behind_iff : Behind P ls ↔ ∀ s rest, string s :: rest <:+ ls → P s rest := by
  induction ls with
  | nil => simp [Behind]
  | cons l ls ih =>
    cases l with
    | string t =>
      rw [Behind, ih]
      constructor
      · rintro ⟨hhead, htail⟩ s rest hsuffix
        rcases List.suffix_cons_iff.1 hsuffix with heq | hsuffix
        · obtain ⟨hs, rfl⟩ := List.cons.inj heq
          obtain rfl := Lexeme.string.inj hs
          exact hhead
        · exact htail s rest hsuffix
      · exact fun h => ⟨h t ls (List.suffix_refl _),
          fun s rest hsuffix => h s rest (hsuffix.trans (List.suffix_cons _ _))⟩
    | sign c =>
      rw [Behind, ih]
      refine forall₂_congr fun s rest => imp_congr_left ?_
      rw [List.suffix_cons_iff]
      exact ⟨.inr, fun h => h.resolve_left fun heq => by cases heq⟩

theorem Behind.append (hP : ∀ s rest more, P s rest → P s (rest ++ more)) (hls : Behind P ls)
    (hms : Behind P ms) : Behind P (ls ++ ms) := by
  induction ls with
  | nil => exact hms
  | cons l ls ih =>
    cases l with
    | string s => exact ⟨hP s ls ms hls.1, ih hls.2⟩
    | sign c => exact ih hls

theorem Behind.mono (hPQ : ∀ s rest, P s rest → Q s rest) (hls : Behind P ls) : Behind Q ls :=
  behind_iff.2 fun s rest hsuffix => hPQ s rest (behind_iff.1 hls s rest hsuffix)

theorem behind_signs (cs : List Char) : Behind P (signs cs) := by
  induction cs with
  | nil => trivial
  | cons c cs ih => exact ih

theorem Behind.commas {parts : List (List Lexeme)}
    (hP : ∀ s rest more, P s rest → P s (rest ++ more))
    (h : ∀ part ∈ parts, Behind P part) : Behind P (Lexeme.commas parts) := by
  induction parts with
  | nil => trivial
  | cons part rest ih =>
    obtain ⟨hpart, hrest⟩ := List.forall_mem_cons.1 h
    cases rest with
    | nil => exact hpart
    | cons part' rest => exact hpart.append hP (ih hrest)

/-- The sign with which a text begins. -/
theorem exists_of_spell_eq_cons {c : Char} {cs : List Char} (hc : c ≠ '"')
    (h : spell ls = c :: cs) : ∃ ms, ls = sign c :: ms ∧ spell ms = cs := by
  cases ls with
  | nil => cases h
  | cons l ms =>
    cases l with
    | sign d =>
      obtain ⟨rfl, hms⟩ := List.cons.inj h
      exact ⟨ms, rfl, hms⟩
    | string s =>
      rw [spell_string] at h
      exact absurd (List.cons.inj h).1.symm hc

/-- The string with which a text begins. -/
theorem exists_of_spell_eq_quote {cs : List Char} (hsigns : sign '"' ∉ ls)
    (h : spell ls = '"' :: cs) :
    ∃ s ms, ls = string s :: ms ∧ content s ++ '"' :: spell ms = cs := by
  cases ls with
  | nil => cases h
  | cons l ms =>
    cases l with
    | sign d =>
      obtain ⟨rfl, -⟩ := List.cons.inj h
      exact absurd List.mem_cons_self hsigns
    | string s =>
      rw [spell_string] at h
      exact ⟨s, ms, rfl, (List.cons.inj h).2⟩

/-- A text between quotes that does not begin at the quote behind a string is inside of the string,
at its end, or behind it. -/
theorem exists_of_content_eq {s : Option String} {c : Char} {k pre post : List Char}
    (hquote : '"' ∉ c :: k) (hslash : '\\' ∉ c :: k) (hno : (spell ls).head? ≠ some c)
    (h : content s ++ '"' :: spell ls = pre ++ '"' :: (c :: k) ++ '"' :: post) :
    (post = spell ls ∧ '"' :: c :: k <:+ content s) ∨
      ∃ pre', spell ls = pre' ++ '"' :: (c :: k) ++ '"' :: post := by
  have hcut : spell ls ≠ (c :: k) ++ '"' :: post := by
    intro heq
    rw [heq] at hno
    exact hno rfl
  rw [List.append_assoc, List.cons_append, List.append_eq_append_iff] at h
  rcases h with ⟨a, rfl, hrest⟩ | ⟨b, hcontent, hrest⟩
  · cases a with
    | nil => exact absurd (List.cons.inj hrest).2 hcut
    | cons d a =>
      -- the text is behind the string
      refine .inr ⟨a, ?_⟩
      rw [List.append_assoc]
      exact (List.cons.inj hrest).2
  · cases b with
    | nil => exact absurd (List.cons.inj hrest).2.symm hcut
    | cons d b =>
      -- the text begins at a quote inside of the string
      obtain ⟨rfl, htail⟩ := List.cons.inj hrest
      have hsplit : content s = (pre ++ ['"']) ++ b := by simpa using hcontent
      have hend : ∀ a', pre ++ ['"'] ≠ a' ++ ['\\'] := fun a' heq => by
        simpa using (List.append_inj' heq rfl).2
      obtain ⟨heq, hpost⟩ := eq_of_append_quote hsplit hend hquote hslash htail.symm
      refine .inl ⟨hpost.symm, ?_⟩
      rw [hcontent, heq]
      exact List.suffix_append _ _

/-- **A text between quotes ends a string.** Let no sign be a quote, and let no string be followed
by the first character of a text without quotes and backslashes. Where the text is found between
quotes, a string ends that is the text, or that has a quote in front of it. -/
theorem exists_string {c : Char} {k pre post : List Char} (hsigns : sign '"' ∉ ls)
    (hquote : '"' ∉ c :: k) (hslash : '\\' ∉ c :: k)
    (hbehind : Behind (fun _ rest => (spell rest).head? ≠ some c) ls)
    (h : spell ls = pre ++ '"' :: (c :: k) ++ '"' :: post) :
    ∃ s rest, string s :: rest <:+ ls ∧ post = spell rest ∧
      '"' :: c :: k <:+ '"' :: content s := by
  induction ls generalizing pre with
  | nil => simp at h
  | cons l ls ih =>
    have hsigns' : sign '"' ∉ ls := fun hmem => hsigns (List.mem_cons_of_mem _ hmem)
    have hlift {ms : List Lexeme} (hms : ms <:+ ls) : ms <:+ l :: ls :=
      hms.trans (List.suffix_cons _ _)
    cases l with
    | sign d =>
      rw [spell_sign, List.append_assoc] at h
      cases pre with
      | nil =>
        obtain ⟨rfl, -⟩ := List.cons.inj h
        exact absurd List.mem_cons_self hsigns
      | cons d' pre =>
        rw [List.cons_append] at h
        obtain ⟨-, htail⟩ := List.cons.inj h
        obtain ⟨s, rest, hrest, hpost, hk⟩ :=
          ih hsigns' hbehind (by rw [htail, List.append_assoc])
        exact ⟨s, rest, hlift hrest, hpost, hk⟩
    | string s =>
      rw [spell_string, List.append_assoc, List.cons_append] at h
      cases pre with
      | nil =>
        -- the text begins at the opening quote
        obtain ⟨-, htail⟩ := List.cons.inj h
        obtain ⟨heq, hpost⟩ :=
          eq_of_append_quote (List.nil_append (content s)).symm (by simp) hquote hslash htail
        exact ⟨s, ls, List.suffix_refl _, hpost.symm, by rw [heq]⟩
      | cons d pre =>
        have htail : content s ++ '"' :: spell ls = pre ++ '"' :: (c :: k) ++ '"' :: post := by
          rw [List.append_assoc]
          exact (List.cons.inj h).2
        rcases exists_of_content_eq hquote hslash hbehind.1 htail with ⟨hpost, hk⟩ | ⟨pre', heq⟩
        · exact ⟨s, ls, List.suffix_refl _, hpost, hk.trans (List.suffix_cons _ _)⟩
        · obtain ⟨t, rest, hsuffix, hpost, hk⟩ := ih hsigns' hbehind.2 heq
          exact ⟨t, rest, hlift hsuffix, hpost, hk⟩

end Lexeme

/-! ## Trees -/

open Lexeme

mutual

/-- The lexemes of a tree. -/
def lexemes : Json → List Lexeme
  | null => signs ['n', 'u', 'l', 'l']
  | bool true => signs ['t', 'r', 'u', 'e']
  | bool false => signs ['f', 'a', 'l', 's', 'e']
  | num n => signs n.chars
  | str s => [.string s]
  | arr items => sign '[' :: commas (itemLexemes items) ++ [sign ']']
  | obj members => sign '{' :: commas (memberLexemes members) ++ [sign '}']

/-- The lexemes of each item of an array. -/
def itemLexemes : List Json → List (List Lexeme)
  | [] => []
  | j :: rest => j.lexemes :: itemLexemes rest

/-- The lexemes of each member of an object. -/
def memberLexemes : List (Option String × Json) → List (List Lexeme)
  | [] => []
  | (name, j) :: rest => (.string name :: sign ':' :: j.lexemes) :: memberLexemes rest

end

mutual

/-- **The compact form of a tree is the text of its lexemes.** -/
theorem spell_lexemes : ∀ j : Json, spell j.lexemes = j.chars
  | null => rfl
  | bool true => rfl
  | bool false => rfl
  | num n => spell_signs n.chars
  | str s => List.append_nil _
  | arr items => by
    rw [lexemes, spell_append, spell_sign, spell_commas, map_spell_itemLexemes items]
    rfl
  | obj members => by
    rw [lexemes, spell_append, spell_sign, spell_commas, map_spell_memberLexemes members]
    rfl

theorem map_spell_itemLexemes : ∀ items : List Json,
    (itemLexemes items).map spell = itemChars items
  | [] => rfl
  | j :: rest => congrArg₂ List.cons (spell_lexemes j) (map_spell_itemLexemes rest)

theorem map_spell_memberLexemes : ∀ members : List (Option String × Json),
    (memberLexemes members).map spell = memberChars members
  | [] => rfl
  | (name, j) :: rest => by
    have hpart : spell (.string name :: sign ':' :: j.lexemes) =
        Writer.string name ++ ':' :: j.chars := by
      rw [spell_string, spell_sign, spell_lexemes j, string_eq]
      simp
    exact congrArg₂ List.cons hpart (map_spell_memberLexemes rest)

end

theorem itemLexemes_eq (items : List Json) : itemLexemes items = items.map lexemes := by
  induction items with
  | nil => rfl
  | cons j rest ih => exact congrArg (j.lexemes :: ·) ih

theorem memberLexemes_eq (members : List (Option String × Json)) : memberLexemes members =
    members.map fun m => .string m.1 :: sign ':' :: m.2.lexemes := by
  induction members with
  | nil => rfl
  | cons m rest ih => exact congrArg ((.string m.1 :: sign ':' :: m.2.lexemes) :: ·) ih

theorem sign_mem_signs {c : Char} {cs : List Char} : sign c ∈ signs cs ↔ c ∈ cs := by
  simp [signs]

theorem quote_notMem_commas {parts : List (List Lexeme)}
    (h : ∀ part ∈ parts, sign '"' ∉ part) : sign '"' ∉ commas parts := by
  induction parts with
  | nil => exact List.not_mem_nil
  | cons part rest ih =>
    obtain ⟨hpart, hrest⟩ := List.forall_mem_cons.1 h
    cases rest with
    | nil => exact hpart
    | cons part' rest =>
      have hcomma : sign '"' ≠ sign ',' := by decide
      exact List.not_mem_append hpart (List.not_mem_cons_of_ne_of_not_mem hcomma (ih hrest))

mutual

/-- No sign of a tree is a quote. -/
theorem quote_notMem_lexemes : ∀ j : Json, j.IsStrict → sign '"' ∉ j.lexemes
  | null, _ => by decide
  | bool true, _ => by decide
  | bool false, _ => by decide
  | num n, hn => fun h => by
    have hquote : ¬ ('"'.isDigit = true ∨ '"' ∈ ['-', '.', 'e', '+']) := by decide
    exact hquote (hn.mem_chars (sign_mem_signs.1 h))
  | str s, _ => by simp [lexemes]
  | arr items, hj => by
    simpa [lexemes] using quote_notMem_commas (quote_notMem_itemLexemes items hj)
  | obj members, hj => by
    simpa [lexemes] using quote_notMem_commas (quote_notMem_memberLexemes members hj)

theorem quote_notMem_itemLexemes : ∀ items : List Json, AreStrict items →
    ∀ part ∈ itemLexemes items, sign '"' ∉ part
  | [], _ => List.forall_mem_nil _
  | j :: rest, hj => List.forall_mem_cons.2
      ⟨quote_notMem_lexemes j hj.1, quote_notMem_itemLexemes rest hj.2⟩

theorem quote_notMem_memberLexemes : ∀ members : List (Option String × Json),
    AreStrictMembers members → ∀ part ∈ memberLexemes members, sign '"' ∉ part
  | [], _ => List.forall_mem_nil _
  | (name, j) :: rest, hj => List.forall_mem_cons.2
      ⟨by simpa using quote_notMem_lexemes j hj.1, quote_notMem_memberLexemes rest hj.2⟩

end

end Json

end LiveBuild
