import LiveBuild.Json.Reader
import LiveBuild.Text.Quoted
import Mathlib.Data.List.Basic
import Mathlib.Tactic.SplitIfs

/-!
# Literals in a source

A source is read from left to right as words, marks and string literals. In a literal a backslash
begins an escape: a letter, two hexadecimal digits after `x`, one to six of them between braces
after `u`, or a line feed, which is skipped with the blanks after it. Not everything is read here: a
comment, a literal of another kind and a literal with a prefix or a suffix are refused.

* `Reading`: what is known of a token that has begun;
* `step`, `scan`: one character and a run of characters, with the tokens that end there;
* `scan_quote`: a quoted text is one literal, which stands for the text and ends with its last
  character (`exists_scan_of_quote_eq`).
-/

namespace LiveBuild.Text

/-! ## Reading tokens -/

/-- A token of a source. -/
inductive Token
  /-- A name, a keyword or a numeral. -/
  | word (s : String)
  | mark (c : Char)
  /-- A string literal, by the text that it stands for. -/
  | literal (s : String)
  deriving DecidableEq, Repr

/-- Where a reader is. In a literal `cs` is the text so far. -/
inductive Reading
  /-- No token has begun. -/
  | between
  /-- A literal has just ended. -/
  | closed
  | word (cs : List Char)
  | literal (cs : List Char)
  /-- After a backslash. -/
  | escape (cs : List Char)
  /-- After a backslash and `x`, and perhaps one digit. -/
  | byte (cs : List Char) (high : Option ℕ)
  /-- After a backslash and `u`. -/
  | opening (cs : List Char)
  /-- After the brace, and some digits of a number. -/
  | number (cs : List Char) (digits value : ℕ)
  /-- After a backslash, a line feed and some blanks. -/
  | gap (cs : List Char)
  deriving DecidableEq, Repr

/-- What a character leads to: the tokens that end, and where the reader is then. -/
abbrev Reads := Option (List Token × Reading)

/-- The characters of a word. -/
def isWordChar (c : Char) : Bool := c.isAlphanum || c == '_'

/-- The marks. A slash, which may begin a comment, and a single quote are none. -/
def marks : List Char := "!#$%&()*+,-.:;<=>?@[]^|~\x7b\x7d".toList

/-- A character between tokens. -/
def begin (c : Char) : Reads :=
  if Json.Reader.isBlank c then some ([], .between)
  else if c = '"' then some ([], .literal [])
  else if isWordChar c then some ([], .word [c])
  else if c ∈ marks then some ([.mark c], .between)
  else none

/-- A character after a word. A word is no prefix of a literal. -/
def afterWord (cs : List Char) (c : Char) : Reads :=
  if isWordChar c then some ([], .word (cs ++ [c]))
  else if c = '"' ∨ c = '#' then none
  else (begin c).map fun r => (.word (String.ofList cs) :: r.1, r.2)

/-- A character in a literal. A carriage return has to be escaped. -/
def inside (cs : List Char) (c : Char) : Reads :=
  if c = '"' then some ([.literal (String.ofList cs)], .closed)
  else if c = '\\' then some ([], .escape cs)
  else if c = '\r' then none
  else some ([], .literal (cs ++ [c]))

/-- The character that a letter after a backslash stands for. -/
def letter? : Char → Option Char
  | 'n' => some '\n'
  | 'r' => some '\r'
  | 't' => some '\t'
  | '0' => some (Char.ofNat 0)
  | '\\' => some '\\'
  | '"' => some '"'
  | '\'' => some '\''
  | _ => none

/-- A character after a backslash. -/
def escaped (cs : List Char) (c : Char) : Reads :=
  if c = 'x' then some ([], .byte cs none)
  else if c = 'u' then some ([], .opening cs)
  else if c = '\n' then some ([], .gap cs)
  else (letter? c).map fun d => ([], .literal (cs ++ [d]))

/-- A character after a backslash and `x`. Two digits stand for a number below 128. -/
def inByte (cs : List Char) (high : Option ℕ) (c : Char) : Reads := do
  let n ← Json.Reader.hexValue? c
  match high with
  | none => some ([], .byte cs (some n))
  | some high =>
    if high * 16 + n < 128 then some ([], .literal (cs ++ [Char.ofNat (high * 16 + n)])) else none

/-- A character in the number between braces, which has one to six digits and is the number of a
character. Underscores may stand behind the first digit. -/
def inNumber (cs : List Char) (digits value : ℕ) (c : Char) : Reads :=
  if c = '}' then
    if 0 < digits ∧ value.isValidChar then some ([], .literal (cs ++ [Char.ofNat value])) else none
  else if c = '_' then
    if 0 < digits then some ([], .number cs digits value) else none
  else if digits < 6 then
    (Json.Reader.hexValue? c).map fun n => ([], .number cs (digits + 1) (value * 16 + n))
  else none

/-- One character. -/
def step : Reading → Char → Reads
  | .between, c => begin c
  | .closed, c => if isWordChar c then none else begin c
  | .word cs, c => afterWord cs c
  | .literal cs, c => inside cs c
  | .escape cs, c => escaped cs c
  | .byte cs high, c => inByte cs high c
  | .opening cs, c => if c = '{' then some ([], .number cs 0 0) else none
  | .number cs digits value, c => inNumber cs digits value c
  | .gap cs, c => if Json.Reader.isBlank c then some ([], .gap cs) else inside cs c

/-- Tokens that ended before. -/
def before (ts : List Token) (x : List Token × Reading) : List Token × Reading := (ts ++ x.1, x.2)

/-- Characters one after the other. -/
def scan : Reading → List Char → Reads
  | r, [] => some ([], r)
  | r, c :: cs => (step r c).bind fun x => (scan x.2 cs).map (before x.1)

/-- The tokens of a text that ends between two of them. -/
def tokens? (cs : List Char) : Option (List Token) :=
  match scan .between cs with
  | some (ts, .between) => some ts
  | some (ts, .closed) => some ts
  | some (ts, .word cs) => some (ts ++ [.word (String.ofList cs)])
  | _ => none

/-! ## Runs -/

variable {r r' : Reading} {ts : List Token} {cs ds : List Char} {c : Char} {n : ℕ}

/-- A text is read part by part. -/
theorem scan_append (r : Reading) (cs ds : List Char) :
    scan r (cs ++ ds) = (scan r cs).bind fun x => (scan x.2 ds).map (before x.1) := by
  induction cs generalizing r with
  | nil =>
    change scan r ds = (scan r ds).map (before [])
    exact Option.map_id'.symm
  | cons c cs ih =>
    rw [List.cons_append, scan, scan]
    cases step r c with
    | none => rfl
    | some x =>
      simp only [Option.bind_some, ih]
      cases scan x.2 cs with
      | none => rfl
      | some y =>
        simp only [Option.bind_some, Option.map_some, Option.map_map, before]
        cases scan y.2 ds <;> simp [before]

/-- What is read of a text before anything that may follow. -/
theorem scan_append_of_eq (h : scan r cs = some (ts, r')) (ds : List Char) :
    scan r (cs ++ ds) = (scan r' ds).map (before ts) := by
  rw [scan_append, h, Option.bind_some]

theorem scan_trans {r'' : Reading} {ts' : List Token} (h : scan r cs = some (ts, r'))
    (h' : scan r' ds = some (ts', r'')) : scan r (cs ++ ds) = some (ts ++ ts', r'') := by
  rw [scan_append_of_eq h, h', Option.map_some, before]

theorem scan_singleton (r : Reading) (c : Char) : scan r [c] = step r c := by
  cases h : step r c <;> simp [scan, h, before]

/-- A blank between tokens is skipped. -/
theorem tokens?_cons_blank (h : Json.Reader.isBlank c = true) (cs : List Char) :
    tokens? (c :: cs) = tokens? cs := by
  have hstep : step .between c = some ([], .between) := by rw [step, begin, if_pos h]
  have hscan : scan .between (c :: cs) = scan .between cs := by
    rw [scan, hstep]
    exact Option.map_id'
  rw [tokens?, hscan, tokens?]

/-- No token ends in a beginning of a text in which none ends. -/
theorem exists_scan_of_append (h : scan r (cs ++ ds) = some ([], r')) :
    ∃ r₁, scan r cs = some ([], r₁) := by
  rw [scan_append, Option.bind_eq_some_iff] at h
  obtain ⟨⟨ts₁, r₁⟩, hcs, hds⟩ := h
  obtain ⟨⟨ts₂, r₂⟩, -, heq⟩ := Option.map_eq_some_iff.1 hds
  have hnil : ts₁ = [] := (List.append_eq_nil_iff.1 (congrArg Prod.fst heq)).1
  exact ⟨r₁, by rw [hcs, hnil]⟩

/-! ## Escapes -/

theorem hexValue?_digitChar (hn : n < 16) : Json.Reader.hexValue? n.digitChar = some n := by
  revert n
  decide

/-- A digit is one more of a number. -/
theorem step_number (hn : n < 16) (cs : List Char) (value : ℕ) {digits : ℕ} (hdigits : digits < 6) :
    step (.number cs digits value) n.digitChar =
      some ([], .number cs (digits + 1) (value * 16 + n)) := by
  have hbrace : n.digitChar ≠ '}' := by
    revert n
    decide
  have hline : n.digitChar ≠ '_' := by
    revert n
    decide
  rw [step, inNumber, if_neg hbrace, if_neg hline, if_pos hdigits, hexValue?_digitChar hn]
  rfl

/-- The digits of a number are read as that number. -/
theorem scan_toDigits (cs : List Char) (hn : (Nat.toDigits 16 n).length ≤ 6) :
    scan (.number cs 0 0) (Nat.toDigits 16 n) =
      some ([], .number cs (Nat.toDigits 16 n).length n) := by
  induction n using Nat.strongRecOn with
  | ind n ih =>
    by_cases hlt : n < 16
    · rw [Nat.toDigits_of_lt_base hlt, scan_singleton, step_number hlt cs 0 (by decide)]
      simp
    · have hdigits : Nat.toDigits 16 n = Nat.toDigits 16 (n / 16) ++ [(n % 16).digitChar] :=
        Nat.toDigits_of_base_le (by decide) (Nat.not_lt.1 hlt)
      rw [hdigits, List.length_append, List.length_singleton] at hn ⊢
      have hrest := ih (n / 16) (by omega) (by omega)
      have hvalue : n / 16 * 16 + n % 16 = n := Nat.div_add_mod' n 16
      have hshort : (Nat.toDigits 16 (n / 16)).length < 6 := by omega
      have hlast := step_number (Nat.mod_lt n (by decide)) cs (n / 16) hshort
      rw [hvalue, ← scan_singleton] at hlast
      exact scan_trans hrest hlast

theorem length_toDigits_le (c : Char) : (Nat.toDigits 16 c.toNat).length ≤ 6 := by
  rw [Nat.length_toDigits_le_iff (by decide) (by decide)]
  have hvalid : c.toNat < 0xd800 ∨ 0xdfff < c.toNat ∧ c.toNat < 0x110000 := c.valid
  omega

/-- A number between braces is the character with that number. -/
theorem scan_escapeByNumber (cs : List Char) (c : Char) :
    scan (.literal cs) (escapeByNumber c) = some ([], .literal (cs ++ [c])) := by
  have hopen : scan (.literal cs) ['\\', 'u', '{'] = some ([], .number cs 0 0) := rfl
  have hclose : step (.number cs (Nat.toDigits 16 c.toNat).length c.toNat) '}' =
      some ([], .literal (cs ++ [c])) := by
    have hpos : 0 < (Nat.toDigits 16 c.toNat).length :=
      List.length_pos_iff.2 Nat.toDigits_ne_nil
    have hvalid : c.toNat.isValidChar := c.valid
    rw [step, inNumber, if_pos rfl, if_pos ⟨hpos, hvalid⟩, Char.ofNat_toNat]
  rw [← scan_singleton] at hclose
  exact scan_trans (scan_trans hopen (scan_toDigits cs (length_toDigits_le c))) hclose

/-- A character that stands for itself. -/
theorem scan_plain (cs : List Char) (hquote : c ≠ '"') (hslash : c ≠ '\\') (hreturn : c ≠ '\r') :
    scan (.literal cs) [c] = some ([], .literal (cs ++ [c])) := by
  rw [scan_singleton, step, inside, if_neg hquote, if_neg hslash, if_neg hreturn]

/-- A letter after a backslash. -/
theorem scan_letter (cs : List Char) {d : Char}
    (h : escaped cs d = some ([], .literal (cs ++ [c]))) :
    scan (.literal cs) ['\\', d] = some ([], .literal (cs ++ [c])) := by
  have hslash : scan (.literal cs) ['\\'] = some ([], .escape cs) := rfl
  exact scan_trans hslash ((scan_singleton _ d).trans h)

/-- **The spelling of a character is read as that character.** -/
theorem scan_escape (cs : List Char) (c : Char) :
    scan (.literal cs) (escape c) = some ([], .literal (cs ++ [c])) := by
  rw [escape]
  split_ifs with hquote hslash hfeed hreturn htab hnul hascii hnumber
  · subst hquote
    exact scan_letter cs rfl
  · subst hslash
    exact scan_letter cs rfl
  · subst hfeed
    exact scan_letter cs rfl
  · subst hreturn
    exact scan_letter cs rfl
  · subst htab
    exact scan_letter cs rfl
  · subst hnul
    exact scan_letter cs rfl
  · exact scan_plain cs hquote hslash hreturn
  · exact scan_escapeByNumber cs c
  · exact scan_plain cs hquote hslash hreturn

/-! ## Quoted texts -/

theorem scan_flatMap_escape (cs ds : List Char) :
    scan (.literal cs) (ds.flatMap escape) = some ([], .literal (cs ++ ds)) := by
  induction ds generalizing cs with
  | nil => simp [scan]
  | cons d ds ih =>
    have hrest := ih (cs ++ [d])
    rw [List.append_assoc, List.singleton_append] at hrest
    exact scan_trans (scan_escape cs d) hrest

/-- A quoted text without its closing quote. -/
theorem scan_unclosed (cs : List Char) :
    scan .between ('"' :: cs.flatMap escape) = some ([], .literal cs) := by
  have hopen : scan .between ['"'] = some ([], .literal []) := rfl
  exact scan_trans hopen (scan_flatMap_escape [] cs)

/-- **A quoted text is one literal.** -/
theorem scan_quote (s : String) :
    scan .between (quote s).toList = some ([.literal s], .closed) := by
  have hclose : scan (.literal s.toList) ['"'] = some ([.literal s], .closed) := by
    rw [scan_singleton, step, inside, if_pos rfl, String.ofList_toList]
  rw [quote, String.toList_ofList, quoteChars]
  exact scan_trans (scan_unclosed s.toList) hclose

/-- The literal does not end before the last character. -/
theorem exists_scan_of_quote_eq {s : String} (h : (quote s).toList = cs ++ ds) (hds : ds ≠ []) :
    ∃ r, scan .between cs = some ([], r) := by
  rw [quote, String.toList_ofList, quoteChars, ← List.dropLast_append_getLast hds,
    ← List.append_assoc] at h
  have hopen : '"' :: s.toList.flatMap escape = cs ++ ds.dropLast := List.append_inj_left' h rfl
  exact exists_scan_of_append (hopen ▸ scan_unclosed s.toList)

end LiveBuild.Text
