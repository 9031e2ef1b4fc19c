import LiveBuild.Text.Utf8
import Mathlib.Data.List.Basic
import Mathlib.Tactic.SplitIfs

/-!
# Texts as bytes

The bytes of a text are read as that text, with no gap in it (`decode?_encode`,
`decodeLossy_encode`).

A character has one to four bytes: a lead, which tells how many, and tails of six bits each. What
the bits of a lead exclude is excluded by the character: in a text there are no surrogates and
nothing above U+10FFFF, and each character has its shortest form. `pieces_one` to `pieces_four` read
one character, and `pieces_encode` the whole text.
-/

namespace LiveBuild.Utf8

variable {a k l m n : ℕ} {b : UInt8}

/-! ## Bytes as numbers -/

theorem toNat_ofNat (h : n < 256) : (UInt8.ofNat n).toNat = n := by
  rw [UInt8.toNat_ofNat', Nat.mod_eq_of_lt h]

theorem between_iff {low high : UInt8} :
    (decide (low ≤ b) && decide (b ≤ high)) = true ↔
      low.toNat ≤ b.toNat ∧ b.toNat ≤ high.toNat := by
  simp [UInt8.le_iff_toNat_le]

theorem beq_iff {c : UInt8} : (b == c) = true ↔ b.toNat = c.toNat := by
  rw [beq_iff_eq, UInt8.toNat_inj]

theorem isTail_ofNat (hk : k < 64) : isTail (UInt8.ofNat (k + 128)) = true := by
  rw [isTail, between_iff, toNat_ofNat (by omega)]
  exact ⟨Nat.le_add_left .., by change k + 128 ≤ 191; omega⟩

theorem low6_ofNat (hk : k < 64) : low6 (UInt8.ofNat (k + 128)) = k := by
  rw [low6, toNat_ofNat (by omega)]
  omega

/-- A lead byte is told from the others by its number. -/
theorem not_lt_of_le (h : 128 ≤ b.toNat) : ¬ b < 0x80 := by
  rw [UInt8.lt_iff_toNat_lt]
  exact Nat.not_lt.2 h

theorem not_between {low high : UInt8} (h : high.toNat < b.toNat) :
    ¬ (decide (low ≤ b) && decide (b ≤ high)) = true := by
  rw [between_iff]
  omega

theorem secondOfThree_ofNat (ha : a < 16) (hk : k < 64) (hshort : a = 0 → 32 ≤ k)
    (hsurrogate : a = 13 → k < 32) :
    secondOfThree (UInt8.ofNat (a + 224)) (UInt8.ofNat (k + 128)) = true := by
  have hlead : (UInt8.ofNat (a + 224)).toNat = a + 224 := toNat_ofNat (by omega)
  have hsecond : (UInt8.ofNat (k + 128)).toNat = k + 128 := toNat_ofNat (by omega)
  rw [secondOfThree]
  split_ifs with h₁ h₂
  · rw [beq_iff, hlead] at h₁
    have hk' : 32 ≤ k := hshort (Nat.add_right_cancel (m := 224) h₁)
    rw [between_iff, hsecond]
    exact ⟨by change 160 ≤ k + 128; omega, by change k + 128 ≤ 191; omega⟩
  · rw [beq_iff, hlead] at h₂
    have hk' : k < 32 := hsurrogate (Nat.add_right_cancel (m := 224) h₂)
    rw [between_iff, hsecond]
    exact ⟨by change 128 ≤ k + 128; omega, by change k + 128 ≤ 159; omega⟩
  · exact isTail_ofNat hk

theorem secondOfFour_ofNat (ha : a < 5) (hk : k < 64) (hshort : a = 0 → 16 ≤ k)
    (hlast : a = 4 → k < 16) :
    secondOfFour (UInt8.ofNat (a + 240)) (UInt8.ofNat (k + 128)) = true := by
  have hlead : (UInt8.ofNat (a + 240)).toNat = a + 240 := toNat_ofNat (by omega)
  have hsecond : (UInt8.ofNat (k + 128)).toNat = k + 128 := toNat_ofNat (by omega)
  rw [secondOfFour]
  split_ifs with h₁ h₂
  · rw [beq_iff, hlead] at h₁
    have hk' : 16 ≤ k := hshort (Nat.add_right_cancel (m := 240) h₁)
    rw [between_iff, hsecond]
    exact ⟨by change 144 ≤ k + 128; omega, by change k + 128 ≤ 191; omega⟩
  · rw [beq_iff, hlead] at h₂
    have hk' : k < 16 := hlast (Nat.add_right_cancel (m := 240) h₂)
    rw [between_iff, hsecond]
    exact ⟨by change 128 ≤ k + 128; omega, by change k + 128 ≤ 143; omega⟩
  · exact isTail_ofNat hk

/-! ## One character -/

variable (rest : List UInt8)

theorem pieces_one (hn : n < 128) :
    pieces (UInt8.ofNat n :: rest) = some (Char.ofNat n) :: pieces rest := by
  have hlead : (UInt8.ofNat n).toNat = n := toNat_ofNat (by omega)
  have hlt : UInt8.ofNat n < 0x80 := by
    rw [UInt8.lt_iff_toNat_lt, hlead]
    exact hn
  rw [pieces.eq_def]
  dsimp only
  rw [if_pos hlt, hlead]

theorem pieces_two (ha : 2 ≤ a) (ha' : a < 32) (hk : k < 64) :
    pieces (UInt8.ofNat (a + 192) :: UInt8.ofNat (k + 128) :: rest) =
      some (Char.ofNat (a * 64 + k)) :: pieces rest := by
  have hlead : (UInt8.ofNat (a + 192)).toNat = a + 192 := toNat_ofNat (by omega)
  have hbits : (a + 192) % 32 = a := by omega
  have htwo : (decide (0xc2 ≤ UInt8.ofNat (a + 192)) && decide (UInt8.ofNat (a + 192) ≤ 0xdf)) =
      true := by
    rw [between_iff, hlead]
    exact ⟨by change 194 ≤ a + 192; omega, by change a + 192 ≤ 223; omega⟩
  rw [pieces, if_neg (not_lt_of_le (by omega)), if_pos htwo]
  simp only [isTail_ofNat hk, if_true, low6_ofNat hk, hlead, hbits]

theorem pieces_three (ha : a < 16) (hk : k < 64) (hl : l < 64) (hshort : a = 0 → 32 ≤ k)
    (hsurrogate : a = 13 → k < 32) :
    pieces (UInt8.ofNat (a + 224) :: UInt8.ofNat (k + 128) :: UInt8.ofNat (l + 128) :: rest) =
      some (Char.ofNat (a * 4096 + k * 64 + l)) :: pieces rest := by
  have hlead : (UInt8.ofNat (a + 224)).toNat = a + 224 := toNat_ofNat (by omega)
  have hbits : (a + 224) % 16 = a := by omega
  have hthree : (decide (0xe0 ≤ UInt8.ofNat (a + 224)) && decide (UInt8.ofNat (a + 224) ≤ 0xef)) =
      true := by
    rw [between_iff, hlead]
    exact ⟨by change 224 ≤ a + 224; omega, by change a + 224 ≤ 239; omega⟩
  have htwo : (0xdf : UInt8).toNat < (UInt8.ofNat (a + 224)).toNat := by
    rw [hlead]
    change 223 < a + 224
    omega
  rw [pieces, if_neg (not_lt_of_le (by omega)), if_neg (not_between htwo), if_pos hthree]
  simp only [secondOfThree_ofNat ha hk hshort hsurrogate, isTail_ofNat hl, if_true, low6_ofNat hk,
    low6_ofNat hl, hlead, hbits]

theorem pieces_four (ha : a < 5) (hk : k < 64) (hl : l < 64) (hm : m < 64)
    (hshort : a = 0 → 16 ≤ k) (hlast : a = 4 → k < 16) :
    pieces (UInt8.ofNat (a + 240) :: UInt8.ofNat (k + 128) :: UInt8.ofNat (l + 128) ::
        UInt8.ofNat (m + 128) :: rest) =
      some (Char.ofNat (a * 262144 + k * 4096 + l * 64 + m)) :: pieces rest := by
  have hlead : (UInt8.ofNat (a + 240)).toNat = a + 240 := toNat_ofNat (by omega)
  have hbits : (a + 240) % 8 = a := by omega
  have hfour : (decide (0xf0 ≤ UInt8.ofNat (a + 240)) && decide (UInt8.ofNat (a + 240) ≤ 0xf4)) =
      true := by
    rw [between_iff, hlead]
    exact ⟨by change 240 ≤ a + 240; omega, by change a + 240 ≤ 244; omega⟩
  have hthree : (0xef : UInt8).toNat < (UInt8.ofNat (a + 240)).toNat := by
    rw [hlead]
    change 239 < a + 240
    omega
  have htwo : (0xdf : UInt8).toNat < (UInt8.ofNat (a + 240)).toNat := by
    rw [hlead]
    change 223 < a + 240
    omega
  rw [pieces, if_neg (not_lt_of_le (by omega)), if_neg (not_between htwo),
    if_neg (not_between hthree), if_pos hfour]
  simp only [secondOfFour_ofNat ha hk hshort hlast, isTail_ofNat hl, isTail_ofNat hm, if_true,
    low6_ofNat hk, low6_ofNat hl, low6_ofNat hm, hlead, hbits]

/-- **The bytes of a character are read as that character.** -/
theorem pieces_encodeChar (c : Char) :
    pieces (String.utf8EncodeChar c ++ rest) = some c :: pieces rest := by
  have hvalid : c.val.toNat < 0xd800 ∨ 0xdfff < c.val.toNat ∧ c.val.toNat < 0x110000 := c.valid
  have hchar {i : ℕ} (hi : i = c.val.toNat) : Char.ofNat i = c := by
    rw [hi]
    exact Char.ofNat_toNat c
  simp only [String.utf8EncodeChar]
  split_ifs with h₁ h₂ h₃
  · rw [List.singleton_append, pieces_one rest (by omega), hchar rfl]
  · simp only [List.cons_append, List.nil_append]
    rw [pieces_two rest (by omega) (by omega) (by omega), hchar (by omega)]
  · simp only [List.cons_append, List.nil_append]
    rw [pieces_three rest (by omega) (by omega) (by omega) (by omega) (by omega),
      hchar (by omega)]
  · simp only [List.cons_append, List.nil_append]
    rw [pieces_four rest (by omega) (by omega) (by omega) (by omega) (by omega) (by omega),
      hchar (by omega)]

/-! ## Texts -/

theorem pieces_encode (s : String) : pieces (encode s) = s.toList.map some := by
  rw [encode]
  induction s.toList with
  | nil => rfl
  | cons c cs ih => rw [List.flatMap_cons, pieces_encodeChar, ih, List.map_cons]

/-- The bytes of a text are UTF-8 throughout. -/
theorem decode?_encode (s : String) : decode? (encode s) = some s := by
  have hpieces : (s.toList.map some).mapM id = some s.toList := by
    rw [List.mapM_map]
    exact List.mapM_pure.trans (congrArg some (List.map_id s.toList))
  rw [decode?, pieces_encode, hpieces, Option.map_some, String.ofList_toList]

/-- **The bytes of a text are read as that text.** -/
theorem decodeLossy_encode (s : String) : decodeLossy (encode s) = s := by
  rw [decodeLossy, pieces_encode, List.map_map]
  have hid : ((·.getD replacement) ∘ some : Char → Char) = id := rfl
  rw [hid, List.map_id, String.ofList_toList]

end LiveBuild.Utf8
