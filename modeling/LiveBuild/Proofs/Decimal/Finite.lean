import LiveBuild.Proofs.Decimal.Numeral

/-!
# Numerals denote finite numbers

`isFinite_of_float?`: a numeral that denotes a floating point number denotes a finite one.

The word of a rounded quotient grows with the quotient (`quotientWord_le`, `le_quotientWord`). A
numeral is read through a significand below `2 ^ 64`. A product that is too large is refused, and
division is by powers of ten, none of which is below one, so that no quotient is larger than the
significand.
-/

namespace LiveBuild.Binary64

variable {x y : Binary64} {negative : Bool} {n d m w : ℕ}

/-! ## Words -/

theorem infinityWord_eq : infinityWord = 2047 * 2 ^ 52 := rfl

theorem word_ofWord (hw : w ≤ infinityWord) :
    (ofWord negative w).word = (if negative then 2 ^ 63 else 0) + w := by
  rw [infinityWord_eq] at hw
  rw [word, ofWord, UInt64.toNat_ofNat', signBit_eq]
  exact Nat.mod_eq_of_lt (by split <;> omega)

theorem exponentBits_ofWord (hw : w ≤ infinityWord) :
    (ofWord negative w).exponentBits = w / 2 ^ 52 := by
  rw [exponentBits, word_ofWord hw, hiddenBit_eq]
  rw [infinityWord_eq] at hw
  split <;> omega

theorem fractionBits_ofWord (hw : w ≤ infinityWord) :
    (ofWord negative w).fractionBits = w % 2 ^ 52 := by
  rw [fractionBits, word_ofWord hw, hiddenBit_eq]
  split <;> omega

theorem isFinite_iff : x.isFinite = true ↔ x.exponentBits ≠ 2047 := by
  rw [isFinite, bne_iff_ne]

theorem isFinite_neg (hx : x.isFinite = true) : x.neg.isFinite = true := by
  rw [isFinite_iff] at hx ⊢
  have hlt : x.word % 2 ^ 63 ≤ infinityWord := by
    rw [exponentBits, hiddenBit_eq] at hx
    rw [infinityWord_eq]
    omega
  rw [neg, signBit_eq, exponentBits_ofWord hlt]
  rw [exponentBits, hiddenBit_eq] at hx
  omega

/-! ## Magnitudes -/

theorem steps_lt (h : 53 + x.exponentBits ≤ m) : x.steps < 2 ^ m := by
  have hsig : x.significand < 2 ^ 53 := by
    rw [significand, fractionBits, hiddenBit_eq]
    split <;> omega
  have hm : 2 ^ m = 2 ^ 53 * 2 ^ (m - 53) := by
    rw [← pow_add]
    congr 1
    omega
  rw [steps, shiftLeft_eq, hm]
  refine Nat.mul_lt_mul_of_lt_of_le hsig ?_ (Nat.two_pow_pos _)
  exact Nat.pow_le_pow_right (by decide) (by rw [unit]; omega)

theorem le_steps (h : m ≤ x.exponentBits + 51) (hm : 52 ≤ m) : 2 ^ m ≤ x.steps := by
  have hsig : 2 ^ 52 ≤ x.significand := by
    rw [significand, if_neg (by omega), hiddenBit_eq]
    exact Nat.le_add_right _ _
  have hpow : 2 ^ m = 2 ^ 52 * 2 ^ (m - 52) := by
    rw [← pow_add]
    congr 1
    omega
  rw [steps, shiftLeft_eq, hpow]
  exact Nat.mul_le_mul hsig (Nat.pow_le_pow_right (by decide) (by rw [unit]; omega))

/-! ## Quotients -/

/-- The word of a quotient, which may be beyond that of infinity. -/
def quotientWord (n d : ℕ) : ℕ :=
  (Nat.log2 (n / d) - 52) * hiddenBit + roundDiv n (d <<< (Nat.log2 (n / d) - 52))

theorem ofRatio_eq (negative : Bool) (num den : ℕ) :
    ofRatio negative num den =
      ofWord negative (min infinityWord (quotientWord (num <<< 1074) den)) := rfl

theorem roundDiv_le (n d : ℕ) : roundDiv n d ≤ n / d + 1 := by
  unfold roundDiv
  dsimp only
  split_ifs <;> omega

theorem le_roundDiv (n d : ℕ) : n / d ≤ roundDiv n d := by
  unfold roundDiv
  dsimp only
  split_ifs <;> omega

theorem div_shiftLeft (n d k : ℕ) : n / (d <<< k) = n / d / 2 ^ k := by
  rw [shiftLeft_eq, Nat.div_div_eq_div_mul]

theorem quotientWord_le (h : n / d < 2 ^ m) (hm : 53 ≤ m) :
    quotientWord n d ≤ (m - 51) * 2 ^ 52 := by
  rw [quotientWord, hiddenBit_eq]
  have hround := roundDiv_le n (d <<< (Nat.log2 (n / d) - 52))
  rw [div_shiftLeft] at hround
  generalize n / d = q at *
  have hlog : q.log2 < m := by
    rcases Nat.eq_zero_or_pos q with rfl | hq
    · exact Nat.lt_of_lt_of_le (by decide) hm
    · exact (Nat.log2_lt hq.ne').2 h
  have hsig : q / 2 ^ (q.log2 - 52) < 2 ^ 53 := by
    rw [Nat.div_lt_iff_lt_mul (Nat.two_pow_pos _), ← pow_add]
    exact Nat.lt_of_lt_of_le Nat.lt_log2_self (Nat.pow_le_pow_right (by decide) (by omega))
  omega

theorem le_quotientWord (h : 2 ^ m ≤ n / d) (hm : 52 ≤ m) :
    (m - 51) * 2 ^ 52 ≤ quotientWord n d := by
  rw [quotientWord, hiddenBit_eq]
  have hround := le_roundDiv n (d <<< (Nat.log2 (n / d) - 52))
  rw [div_shiftLeft] at hround
  generalize n / d = q at *
  have hq : q ≠ 0 := (lt_of_lt_of_le (Nat.two_pow_pos _) h).ne'
  have hlog : m ≤ q.log2 := (Nat.le_log2 hq).2 h
  have hsig : 2 ^ 52 ≤ q / 2 ^ (q.log2 - 52) := by
    rw [Nat.le_div_iff_mul_le (Nat.two_pow_pos _), ← pow_add]
    rw [show 52 + (q.log2 - 52) = q.log2 by omega]
    exact Nat.log2_self_le hq
  omega

theorem exponentBits_ofRatio (negative : Bool) (num den : ℕ) :
    (ofRatio negative num den).exponentBits =
      min infinityWord (quotientWord (num <<< 1074) den) / 2 ^ 52 := by
  rw [ofRatio_eq, exponentBits_ofWord (min_le_left _ _)]

/-- A rounded quotient is finite or infinite. -/
theorem isFinite_ofRatio_of_not_infinite {num den : ℕ}
    (h : (ofRatio negative num den).isInfinite = false) :
    (ofRatio negative num den).isFinite = true := by
  rw [isFinite_iff]
  intro he
  rw [isInfinite, he] at h
  rw [ofRatio_eq, exponentBits_ofWord (min_le_left _ _)] at he
  rw [ofRatio_eq, fractionBits_ofWord (min_le_left _ _)] at h
  have hinf : min infinityWord (quotientWord (num <<< 1074) den) = infinityWord := by
    have := min_le_left infinityWord (quotientWord (num <<< 1074) den)
    rw [infinityWord_eq] at *
    omega
  rw [hinf, infinityWord_eq] at h
  simp at h

/-- The exponent of a quotient below a power of two. -/
theorem exponentBits_ofRatio_le {num den : ℕ} (h : num <<< 1074 / den < 2 ^ m) (hm : 53 ≤ m) :
    (ofRatio negative num den).exponentBits ≤ m - 51 := by
  have := quotientWord_le h hm
  rw [exponentBits_ofRatio]
  omega

theorem shiftLeft_lt {a l k : ℕ} (h : a < 2 ^ l) (hm : l + k = m) : a <<< k < 2 ^ m := by
  rw [shiftLeft_eq, ← hm, pow_add]
  exact Nat.mul_lt_mul_of_pos_right h (Nat.two_pow_pos _)

theorem shiftLeft_div_le {a b k : ℕ} (h : 2 ^ k ≤ b) : a <<< k / b ≤ a := by
  rw [shiftLeft_eq]
  refine Nat.div_le_of_le_mul ?_
  rw [Nat.mul_comm b a]
  exact Nat.mul_le_mul_left a h

theorem exponentBits_ofNat_le {a : ℕ} (h : a < 2 ^ 64) :
    (ofRatio negative a 1).exponentBits ≤ 1087 := by
  refine exponentBits_ofRatio_le (m := 1138) ?_ (by omega)
  rw [Nat.div_one]
  exact shiftLeft_lt h rfl

/-- No quotient by a number that is not below one is larger than the dividend. -/
theorem exponentBits_div_le (hx : x.steps < 2 ^ m) (hm : 53 ≤ m) (hy : 2 ^ 1074 ≤ y.steps) :
    (x.div y).exponentBits ≤ m - 51 :=
  exponentBits_ofRatio_le ((shiftLeft_div_le hy).trans_lt hx) hm

theorem isFinite_of_le (h : x.exponentBits ≤ m) (hm : m < 2047) : x.isFinite = true :=
  isFinite_iff.2 (by omega)

end LiveBuild.Binary64

namespace LiveBuild.Numeral

open Binary64

variable {n : Numeral} {x : Binary64}

/-! ## Readings -/

/-- No power of ten is below one. -/
theorem le_steps_powerOfTen (k : ℕ) : 2 ^ 1074 ≤ (powerOfTen k).steps := by
  have hquot : 2 ^ 1074 ≤ 10 ^ k <<< 1074 / 1 := by
    rw [Nat.div_one, shiftLeft_eq]
    exact Nat.le_mul_of_pos_left _ (Nat.pow_pos (by decide))
  refine le_steps ?_ (by omega)
  have hword := le_quotientWord hquot (by omega)
  rw [powerOfTen, exponentBits_ofRatio]
  change _ ≤ min infinityWord (quotientWord (10 ^ k <<< 1074) 1) / 2 ^ 52 + 51
  rw [infinityWord_eq]
  omega

theorem exponentBits_divPowerOfTen_le (hx : x.exponentBits ≤ 1087) (k : ℕ) :
    (divPowerOfTen x k).exponentBits ≤ 1091 := by
  have hsteps : x.steps < 2 ^ 1140 := steps_lt (by omega)
  have hdiv (l : ℕ) : (x.div (powerOfTen l)).exponentBits ≤ 1089 :=
    exponentBits_div_le hsteps (by omega) (le_steps_powerOfTen l)
  rw [divPowerOfTen]
  split_ifs
  · exact (hdiv k).trans (by decide)
  · have hfirst := hdiv 308
    exact exponentBits_div_le (m := 1142) (steps_lt (by omega)) (by omega) (le_steps_powerOfTen _)
  · exact (exponentBits_ofNat_le (by decide)).trans (by decide)

theorem significand_foldl_lt {f : Scaled → Char → Scaled}
    (hf : ∀ s c, s.significand < 2 ^ 64 → (f s c).significand < 2 ^ 64) (ds : List Char)
    {s : Scaled} (hs : s.significand < 2 ^ 64) : (ds.foldl f s).significand < 2 ^ 64 := by
  induction ds generalizing s with
  | nil => exact hs
  | cons c ds ih => exact ih (hf s c hs)

theorem significand_scaled_lt (n : Numeral) : n.scaled.significand < 2 ^ 64 := by
  have hsize : UInt64.size = 2 ^ 64 := rfl
  refine significand_foldl_lt (fun s c hs => ?_) _ (significand_foldl_lt (fun s c hs => ?_) _ ?_)
  · rw [Scaled.fraction]
    split_ifs with h
    · exact hs
    · simp only [Bool.or_eq_true, decide_eq_true_eq, not_or, not_le, hsize] at h
      exact h.2
  · rw [Scaled.whole]
    split_ifs with h
    · exact hs
    · simp only [Bool.or_eq_true, decide_eq_true_eq, not_or, not_le, hsize] at h
      exact h.2
  · decide

theorem isFinite_of_magnitude? {s : Scaled} (hs : s.significand < 2 ^ 64)
    (h : magnitude? s = some x) : x.isFinite = true := by
  have hsig : (ofRatio false s.significand 1).exponentBits ≤ 1087 := exponentBits_ofNat_le hs
  rw [magnitude?] at h
  dsimp only at h
  split at h
  · obtain rfl := Option.some_inj.1 h
    exact isFinite_of_le (exponentBits_divPowerOfTen_le hsig _) (by decide)
  · split_ifs at h with h0 hk hinf
    · obtain rfl := Option.some_inj.1 h
      exact isFinite_of_le hsig (by decide)
    · obtain rfl := Option.some_inj.1 h
      exact isFinite_ofRatio_of_not_infinite (Bool.eq_false_iff.2 hinf)

theorem natAbs_lt_of_integer? {i : ℤ} (h : n.integer? = some i) : i.natAbs < 2 ^ 64 := by
  have hsize : UInt64.size = 2 ^ 64 := rfl
  have hmin : Int64.minValue.toInt = -2 ^ 63 := rfl
  rw [integer?] at h
  split_ifs at h with _ _ hneg hlt
  · obtain rfl := Option.some_inj.1 h
    simp only [hmin, Bool.and_eq_true, decide_eq_true_eq] at hneg
    omega
  · obtain rfl := Option.some_inj.1 h
    omega

/-- **A numeral that denotes a number denotes a finite one.** -/
theorem isFinite_of_float? (h : n.float? = some x) : x.isFinite = true := by
  rw [float?] at h
  split at h
  next i hi =>
    obtain rfl := Option.some_inj.1 h
    exact isFinite_of_le (exponentBits_ofNat_le (natAbs_lt_of_integer? hi)) (by decide)
  next =>
    obtain ⟨y, hy, rfl⟩ := Option.map_eq_some_iff.1 h
    have hfinite := isFinite_of_magnitude? (significand_scaled_lt n) hy
    split
    · exact isFinite_neg hfinite
    · exact hfinite

end LiveBuild.Numeral
