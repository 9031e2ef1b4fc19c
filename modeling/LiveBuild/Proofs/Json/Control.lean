import LiveBuild.Proofs.Json.RoundTrip
import LiveBuild.Text.Utf8
import Mathlib.Data.List.Basic

/-!
# Texts without control characters

The writer escapes every control character below the space, in strings and in names, and writes none
of its own. So a text that it writes can be handed over as bytes that end at a NUL.

* `Json.forall_mem_chars`: every character of a compact form is at least a space;
* `Utf8.zero_notMem_encode`: the bytes of such a text are not zero.
-/

namespace LiveBuild

namespace Json

/-! ## Tokens -/

/-- The character is no control character below the space. -/
def IsGraphic (c : Char) : Prop := 32 ≤ c.toNat

instance : DecidablePred IsGraphic := fun c => inferInstanceAs (Decidable (32 ≤ c.toNat))

/-- A given text is looked through. -/
theorem forall_mem_of_all {cs : List Char} (h : (cs.all fun c => decide (IsGraphic c)) = true) :
    ∀ c ∈ cs, IsGraphic c := fun c hc => of_decide_eq_true (List.all_eq_true.1 h c hc)

theorem isGraphic_of_isDigit {c : Char} (hc : c.isDigit = true) : IsGraphic c := by
  simp only [Char.isDigit, Bool.and_eq_true, decide_eq_true_eq] at hc
  have h48 : 48 ≤ c.toNat := UInt32.le_iff_toNat_le.1 hc.1
  exact le_trans (by decide) h48

theorem forall_mem_exponent {e : Exponent} (he : IsDigits e.digits) :
    ∀ c ∈ e.chars, IsGraphic c := by
  have hsign : ∀ c ∈ e.sign.chars, IsGraphic c := by
    cases e.sign <;> exact forall_mem_of_all (by decide)
  rw [Exponent.chars, List.forall_mem_cons, List.forall_mem_append]
  exact ⟨by decide, hsign, fun c hc => isGraphic_of_isDigit (he.isDigit c hc)⟩

theorem forall_mem_numeral {n : Numeral} (hn : n.IsStrict) : ∀ c ∈ n.chars, IsGraphic c := by
  simp only [Numeral.chars, List.forall_mem_append]
  refine ⟨⟨⟨?_, fun c hc => isGraphic_of_isDigit (hn.whole.isDigit c hc)⟩, ?_⟩, ?_⟩
  · split <;> exact forall_mem_of_all (by decide)
  · split
    · exact List.forall_mem_nil _
    · exact List.forall_mem_cons.2
        ⟨by decide, fun c hc => isGraphic_of_isDigit (hn.fraction c hc)⟩
  · split
    next e he => exact forall_mem_exponent (hn.exponent e he)
    next => exact List.forall_mem_nil _

theorem isGraphic_digitChar {k : ℕ} (hk : k < 16) : IsGraphic (Nat.digitChar k) := by
  have : ∀ k < 16, IsGraphic (Nat.digitChar k) := by decide
  exact this k hk

/-- A control character is spelled by the backslash and letters or digits. -/
theorem forall_mem_escape (c : Char) : ∀ d ∈ Writer.escape c, IsGraphic d := by
  unfold Writer.escape
  split_ifs with h₁ h₂ h₃ h₄ h₅ h₆ h₇ hc
  iterate 7 exact forall_mem_of_all (by decide)
  · have hk : c.toNat < 32 := hc
    have hhigh : IsGraphic (Nat.digitChar (c.toNat / 16)) := isGraphic_digitChar (by omega)
    have hlow : IsGraphic (Nat.digitChar (c.toNat % 16)) := isGraphic_digitChar (by omega)
    simp only [List.forall_mem_cons, hhigh, hlow, true_and]
    exact ⟨by decide, by decide, by decide, by decide, List.forall_mem_nil _⟩
  · have hk : ¬ c.toNat < 32 := hc
    exact List.forall_mem_singleton.2 (Nat.le_of_not_lt hk)

theorem forall_mem_string (s : Option String) : ∀ c ∈ Writer.string s, IsGraphic c := by
  cases s with
  | none => exact forall_mem_of_all (by decide)
  | some s =>
    simp only [Writer.string, Writer.quoted, List.cons_append, List.forall_mem_cons,
      List.forall_mem_append]
    refine ⟨by decide, fun c hc => ?_, by decide, List.forall_mem_nil _⟩
    obtain ⟨d, -, hd⟩ := List.mem_flatMap.1 hc
    exact forall_mem_escape d c hd

/-! ## Trees -/

theorem forall_mem_commas {parts : List (List Char)}
    (h : ∀ part ∈ parts, ∀ c ∈ part, IsGraphic c) : ∀ c ∈ Writer.commas parts, IsGraphic c := by
  induction parts with
  | nil => exact List.forall_mem_nil _
  | cons part rest ih =>
    obtain ⟨hpart, hrest⟩ := List.forall_mem_cons.1 h
    cases rest with
    | nil => exact hpart
    | cons part' rest =>
      exact List.forall_mem_append.2 ⟨hpart, List.forall_mem_cons.2 ⟨by decide, ih hrest⟩⟩

mutual

/-- **A compact form has no control character.** -/
theorem forall_mem_chars : ∀ (j : Json), j.IsStrict → ∀ c ∈ j.chars, IsGraphic c
  | null, _ => forall_mem_of_all (by decide)
  | bool b, _ => by cases b <;> exact forall_mem_of_all (by decide)
  | num _, hj => forall_mem_numeral hj
  | str s, _ => forall_mem_string s
  | arr items, hj => List.forall_mem_cons.2 ⟨by decide, List.forall_mem_append.2
      ⟨forall_mem_commas (forall_mem_itemChars items hj), forall_mem_of_all (by decide)⟩⟩
  | obj members, hj => List.forall_mem_cons.2 ⟨by decide, List.forall_mem_append.2
      ⟨forall_mem_commas (forall_mem_memberChars members hj), forall_mem_of_all (by decide)⟩⟩

theorem forall_mem_itemChars : ∀ (items : List Json), AreStrict items →
    ∀ part ∈ itemChars items, ∀ c ∈ part, IsGraphic c
  | [], _ => List.forall_mem_nil _
  | j :: rest, hj => List.forall_mem_cons.2
      ⟨forall_mem_chars j hj.1, forall_mem_itemChars rest hj.2⟩

theorem forall_mem_memberChars : ∀ (members : List (Option String × Json)),
    AreStrictMembers members → ∀ part ∈ memberChars members, ∀ c ∈ part, IsGraphic c
  | [], _ => List.forall_mem_nil _
  | (name, j) :: rest, hj => List.forall_mem_cons.2
      ⟨List.forall_mem_append.2 ⟨forall_mem_string name,
        List.forall_mem_cons.2 ⟨by decide, forall_mem_chars j hj.1⟩⟩,
        forall_mem_memberChars rest hj.2⟩

end

end Json

/-! ## Bytes -/

namespace Utf8

/-- Only the NUL has a byte that is zero. -/
theorem zero_notMem_encodeChar {c : Char} (hc : Json.IsGraphic c) :
    0 ∉ String.utf8EncodeChar c := by
  have hpos : 32 ≤ c.val.toNat := hc
  have hne {n : ℕ} (h : n % 256 ≠ 0) : (0 : UInt8) ≠ UInt8.ofNat n := fun h0 => h <| by
    simpa using (congrArg UInt8.toNat h0).symm
  simp only [String.utf8EncodeChar]
  split_ifs <;> simp only [List.mem_cons, List.not_mem_nil, or_false, not_or]
  · exact hne (by omega)
  · exact ⟨hne (by omega), hne (by omega)⟩
  · exact ⟨hne (by omega), hne (by omega), hne (by omega)⟩
  · exact ⟨hne (by omega), hne (by omega), hne (by omega), hne (by omega)⟩

theorem zero_notMem_encode {s : String} (hs : ∀ c ∈ s.toList, Json.IsGraphic c) :
    0 ∉ encode s := by
  rw [encode, List.mem_flatMap]
  rintro ⟨c, hc, h0⟩
  exact zero_notMem_encodeChar (hs c hc) h0

end Utf8

end LiveBuild
