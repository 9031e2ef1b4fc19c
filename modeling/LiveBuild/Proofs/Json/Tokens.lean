import LiveBuild.Json.Reader
import LiveBuild.Json.Writer
import LiveBuild.Proofs.Decimal.Numeral
import Mathlib.Data.List.TakeDrop

/-!
# Tokens that are read back

A numeral and a string, followed by the rest of a text, are read as what was written, with that
rest.

* `number_chars`: a strict numeral, if the rest does not go on with it;
* `string_body`: a string, whose quote ends it whatever follows. Of the two spellings of an escape,
  the letter becomes a character and the number a unit, which `join` puts together again.
-/

namespace LiveBuild.Json.Reader

/-! ## Numerals -/

/-- The text does not go on with a numeral. -/
def EndsNumeral (cs : List Char) : Prop :=
  ∀ c, cs.head? = some c → c.isDigit = false ∧ c ≠ '.' ∧ c ≠ 'e' ∧ c ≠ 'E'

theorem digits_append {ds cs : List Char} (hds : IsDigits ds)
    (hcs : ∀ c, cs.head? = some c → c.isDigit = false) : digits (ds ++ cs) = some (ds, cs) := by
  have htake : (ds ++ cs).takeWhile Char.isDigit = ds := by
    rw [List.takeWhile_append_of_pos hds.isDigit, List.takeWhile_eq_nil_iff.2, List.append_nil]
    intro hpos
    cases cs with
    | nil => simp at hpos
    | cons c cs => simpa using hcs c rfl
  have hdrop : (ds ++ cs).dropWhile Char.isDigit = cs := by
    rw [List.dropWhile_append_of_pos hds.isDigit]
    cases cs with
    | nil => rfl
    | cons c cs => simpa using hcs c rfl
  obtain ⟨d, ds', rfl⟩ := List.exists_cons_of_ne_nil hds.ne_nil
  rw [digits, List.span_eq_takeWhile_dropWhile, htake, hdrop]

variable {n : Numeral} {cs : List Char}

theorem whole_append (hn : n.IsStrict) (hcs : ∀ c, cs.head? = some c → c.isDigit = false) :
    whole (n.whole ++ cs) = some (n.whole, cs) := by
  rw [whole, digits_append hn.whole hcs]
  split
  next d ds _ h =>
    obtain ⟨hw, rfl⟩ := Prod.mk.inj (Option.some_inj.1 h)
    have := hn.zero (by rw [hw]; rfl)
    simp [hw] at this
  next => rfl

theorem isDigit_ne {c d : Char} (hc : c.isDigit = true) (hd : d.isDigit = false) : c ≠ d := by
  rintro rfl
  rw [hc] at hd
  cases hd

theorem exponentTail_append {e : Exponent} (he : IsDigits e.digits) (hcs : EndsNumeral cs) :
    exponentTail (e.sign.chars ++ (e.digits ++ cs)) = some (some e, cs) := by
  have hdigits := digits_append he fun c hc => (hcs c hc).1
  obtain ⟨d, ds, hds⟩ := List.exists_cons_of_ne_nil he.ne_nil
  have hd : d.isDigit = true := he.isDigit d (by simp [hds])
  have hsign : exponentSign (e.sign.chars ++ (e.digits ++ cs)) = (e.sign, e.digits ++ cs) := by
    cases h : e.sign with
    | none =>
      rw [ExponentSign.chars, List.nil_append, hds, List.cons_append, exponentSign]
      · intro _ h
        exact isDigit_ne hd rfl (List.cons.inj h).1
      · intro _ h
        exact isDigit_ne hd rfl (List.cons.inj h).1
    | plus | minus => rfl
  rw [exponentTail, hsign]
  dsimp only
  rw [hdigits]
  rfl

theorem exponent_append (hn : n.IsStrict) (hcs : EndsNumeral cs) :
    exponent ((match n.exponent with | some e => e.chars | none => []) ++ cs) =
      some (n.exponent, cs) := by
  cases he : n.exponent with
  | some e =>
    dsimp only [Exponent.chars]
    rw [List.cons_append, List.append_assoc]
    exact exponentTail_append (hn.exponent e he) hcs
  | none =>
    rw [List.nil_append, exponent]
    · rintro _ rfl
      exact (hcs _ rfl).2.2.1 rfl
    · rintro _ rfl
      exact (hcs _ rfl).2.2.2 rfl

/-- What stands after the fraction does not go on with it. -/
theorem head?_exponent (hcs : EndsNumeral cs) {c : Char}
    (hc : ((match n.exponent with | some e => e.chars | none => []) ++ cs).head? = some c) :
    c.isDigit = false ∧ c ≠ '.' := by
  cases he : n.exponent with
  | some e =>
    rw [he] at hc
    obtain rfl := Option.some_inj.1 hc
    exact ⟨rfl, by decide⟩
  | none =>
    rw [he, List.nil_append] at hc
    exact ⟨(hcs c hc).1, (hcs c hc).2.1⟩

theorem fraction_append {ds : List Char} (hds : ∀ c ∈ ds, c.isDigit = true)
    (hcs : ∀ c, cs.head? = some c → c.isDigit = false ∧ c ≠ '.') :
    fraction ((if ds = [] then [] else '.' :: ds) ++ cs) = some (ds, cs) := by
  split
  next h =>
    rw [List.nil_append, h, fraction]
    rintro _ rfl
    exact (hcs _ rfl).2 rfl
  next h => exact digits_append ⟨h, hds⟩ fun c hc => (hcs c hc).1

/-- What stands after the whole digits does not go on with them. -/
theorem head?_fraction {ds : List Char}
    (hcs : ∀ c, cs.head? = some c → c.isDigit = false ∧ c ≠ '.') {c : Char}
    (hc : ((if ds = [] then [] else '.' :: ds) ++ cs).head? = some c) : c.isDigit = false := by
  split at hc
  next => exact (hcs c hc).1
  next =>
    rw [List.cons_append, List.head?_cons, Option.some_inj] at hc
    exact hc ▸ rfl

/-- **A strict numeral is read back.** -/
theorem number_chars (hn : n.IsStrict) (hcs : EndsNumeral cs) :
    number (n.chars ++ cs) = some (n, cs) := by
  have hunsigned : unsigned n.negative (n.whole ++ ((if n.fraction = [] then [] else
      '.' :: n.fraction) ++ ((match n.exponent with | some e => e.chars | none => []) ++ cs))) =
      some (n, cs) := by
    have hexp := fun c => head?_exponent (n := n) (c := c) hcs
    rw [unsigned, whole_append hn fun c => head?_fraction hexp]
    simp only [bind, Option.bind, fraction_append hn.fraction hexp, exponent_append hn hcs]
    rfl
  simp only [Numeral.chars, List.append_assoc]
  cases hneg : n.negative with
  | true =>
    rw [hneg] at hunsigned
    rw [if_pos rfl]
    exact hunsigned
  | false =>
    obtain ⟨d, ds, hds⟩ := List.exists_cons_of_ne_nil hn.whole.ne_nil
    have hd : d.isDigit = true := hn.whole.isDigit d (by simp [hds])
    simp only [hneg, hds, List.cons_append] at hunsigned ⊢
    rw [if_neg (by decide), List.nil_append, number]
    · exact hunsigned
    · intro _ h
      exact isDigit_ne hd rfl (List.cons.inj h).1

/-! ## Strings -/

/-- The piece that a character is read as: the number of an escape, or the character itself. -/
def pieceOf (c : Char) : Piece :=
  if c < ' ' ∧ c ∉ ['\x08', '\x0c', '\n', '\r', '\t'] then .unit c.toNat else .char c

theorem hex4?_control {k : ℕ} (hk : k < 32) :
    hex4? '0' '0' (Nat.digitChar (k / 16)) (Nat.digitChar (k % 16)) = some k := by
  have : ∀ k < 32, hex4? '0' '0' (Nat.digitChar (k / 16)) (Nat.digitChar (k % 16)) = some k := by
    decide
  exact this k hk

theorem pieces_escape (c : Char) (cs : List Char) :
    pieces (Writer.escape c ++ cs) = (pieces cs).map fun r => (pieceOf c :: r.1, r.2) := by
  have hshort : ∀ e d, e ≠ 'u' → shortEscape? e = some d →
      pieces ('\\' :: e :: cs) = (pieces cs).map fun r => (.char d :: r.1, r.2) := by
    intro e d he hd
    rw [pieces]
    · simp only [hd, bind, Option.bind, pure]
      cases pieces cs <;> rfl
    · simp [he]
  unfold Writer.escape
  split
  next h => subst h; exact hshort '"' '"' (by decide) rfl
  split
  next h => subst h; exact hshort '\\' '\\' (by decide) rfl
  split
  next h => subst h; exact hshort 'b' '\x08' (by decide) rfl
  split
  next h => subst h; exact hshort 'f' '\x0c' (by decide) rfl
  split
  next h => subst h; exact hshort 'n' '\n' (by decide) rfl
  split
  next h => subst h; exact hshort 'r' '\r' (by decide) rfl
  split
  next h => subst h; exact hshort 't' '\t' (by decide) rfl
  split
  next h₁ h₂ h₃ h₄ h₅ h₆ h₇ hc =>
    have hk : c.toNat < 32 := hc
    have hp : pieceOf c = .unit c.toNat := by simp [pieceOf, hc, h₃, h₄, h₅, h₆, h₇]
    simp only [List.cons_append, List.nil_append, pieces, hex4?_control hk, bind, Option.bind, pure,
      hp]
    cases pieces cs <;> rfl
  next h₁ h₂ _ _ _ _ _ hc =>
    have hp : pieceOf c = .char c := by simp [pieceOf, hc]
    rw [List.singleton_append, pieces, if_neg hc, hp]
    · simp only [bind, Option.bind, pure]
      cases pieces cs <;> rfl
    · exact h₁
    · simp [h₂]
    · simp [h₂]

theorem pieces_quoted (s rest : List Char) :
    pieces (s.flatMap Writer.escape ++ '"' :: rest) = some (s.map pieceOf, rest) := by
  induction s with
  | nil => simp [pieces]
  | cons c s ih =>
    rw [List.flatMap_cons, List.append_assoc, pieces_escape, ih]
    rfl

/-- A unit that is no half of a surrogate pair is a character by itself. -/
theorem join_unit {k : ℕ} (hk : k < 32) (ps : List Piece) :
    join (.unit k :: ps) = (join ps).map (Char.ofNat k :: ·) := by
  have hhigh : isHigh k = false := by simp [isHigh]; omega
  have hlow : isLow k = false := by simp [isLow]; omega
  rcases ps with _ | ⟨_ | _, ps⟩ <;> simp [join, hhigh, hlow]

theorem join_map_pieceOf (s : List Char) : join (s.map pieceOf) = some s := by
  induction s with
  | nil => rfl
  | cons c s ih =>
    rw [List.map_cons, pieceOf]
    split
    next h =>
      have hk : c.toNat < 32 := h.1
      rw [join_unit hk, ih, Char.ofNat_toNat]
      rfl
    next =>
      rw [join, ih]
      rfl

theorem string_eq_cons (s : Option String) :
    Writer.string s = '"' :: (Writer.string s).tail := by
  cases s <;> rfl

/-- **A string is read back** after its opening quote. -/
theorem string_tail (s : Option String) (rest : List Char) :
    Reader.string ((Writer.string s).tail ++ rest) = some (s, rest) := by
  cases s with
  | none =>
    have hhex : hex4? 'd' '8' '0' '0' = some 0xd800 := rfl
    simp [Writer.string, Reader.string, pieces, hhex, join, isHigh]
  | some s =>
    simp only [Writer.string, Writer.quoted, List.cons_append, List.tail_cons, List.append_assoc,
      List.nil_append, Reader.string, pieces_quoted, Option.map_some, join_map_pieceOf,
      String.ofList_toList]

end LiveBuild.Json.Reader
