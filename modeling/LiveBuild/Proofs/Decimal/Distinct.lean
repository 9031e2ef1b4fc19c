import LiveBuild.Proofs.Decimal.Magnitude
import Mathlib.Order.Monotone.Basic
import Mathlib.Tactic.Linarith
import Mathlib.Tactic.Positivity

/-!
# Distinct numbers have distinct numerals

`numeral_injective`: a floating point number can be told from its numeral, in every layout.

The decimal that is written for a number lies in the interval of the reals that round to the number
(`contains_shortest`), and the intervals of two numbers of one sign have no real in common
(`Interval.eq_of_contains`): the interval of one word ends where that of the next word begins
(`highOf_eq_lowOf_succ`), and of two neighbours only one is closed.
-/

namespace LiveBuild

namespace Binary64

variable {x y : Binary64}

/-- The bits after the sign. -/
def magnitudeWord (x : Binary64) : ℕ := x.word % 2 ^ 63

theorem isZero_iff : x.isZero = true ↔ x.magnitudeWord = 0 := by
  rw [isZero, beq_iff_eq, signBit_eq, magnitudeWord]

/-- A number is its sign and the bits after it. -/
theorem eq_of_magnitudeWord (hs : x.negative = y.negative)
    (hw : x.magnitudeWord = y.magnitudeWord) : x = y := by
  have hx : x.word < 2 ^ 64 := x.bits.toNat_lt
  have hy : y.word < 2 ^ 64 := y.bits.toNat_lt
  rw [negative, negative, signBit_eq, Bool.eq_iff_iff, beq_iff_eq, beq_iff_eq] at hs
  rw [magnitudeWord, magnitudeWord] at hw
  have hword : x.word = y.word := by omega
  have hbits : x.bits = y.bits := UInt64.toNat_inj.1 hword
  cases x
  cases y
  rw [mk.injEq]
  exact hbits

end Binary64

namespace Decimal

variable {x y : Binary64} {i : Interval} {g : Grid} {c w w' : ℕ}

/-! ## The interval of a word -/

/-- The significand that belongs to exponent bits and fraction bits. -/
def significandOf (e f : ℕ) : ℕ := if e = 0 then f else 2 ^ 52 + f

/-- How far the lower end is from the middle, in units of a quarter of the last place. -/
def below (m u : ℕ) : ℕ := if m = 2 ^ 52 ∧ 0 < u then 1 else 2

/-- The lower end of the interval of a word. -/
def lowOf (w : ℕ) : ℕ :=
  let m := significandOf (w / 2 ^ 52) (w % 2 ^ 52)
  let u := w / 2 ^ 52 - 1
  (4 * m - below m u) * 2 ^ u

/-- The upper end of the interval of a word. -/
def highOf (w : ℕ) : ℕ :=
  (4 * significandOf (w / 2 ^ 52) (w % 2 ^ 52) + 2) * 2 ^ (w / 2 ^ 52 - 1)

theorem significandOf_succ (e f : ℕ) : significandOf e (f + 1) = significandOf e f + 1 := by
  unfold significandOf
  split <;> omega

theorem below_significandOf_succ {e f : ℕ} (hf : f + 1 < 2 ^ 52) :
    below (significandOf e f + 1) (e - 1) = 2 := by
  refine if_neg ?_
  rintro ⟨hm, hu⟩
  rw [significandOf, if_neg (by omega)] at hm
  omega

/-- The interval of a word ends where that of the next word begins. -/
theorem highOf_eq_lowOf_succ (w : ℕ) : highOf w = lowOf (w + 1) := by
  unfold highOf lowOf
  rcases lt_or_ge (w % 2 ^ 52 + 1) (2 ^ 52) with hf | hf
  · -- both words have the same exponent bits
    have hdiv : (w + 1) / 2 ^ 52 = w / 2 ^ 52 := by omega
    have hmod : (w + 1) % 2 ^ 52 = w % 2 ^ 52 + 1 := by omega
    simp only [hdiv, hmod, significandOf_succ, below_significandOf_succ hf]
    congr 1
  · -- the next word is a power of two, below which the numbers lie twice as close
    have hdiv : (w + 1) / 2 ^ 52 = w / 2 ^ 52 + 1 := by omega
    have hmod : (w + 1) % 2 ^ 52 = 0 := by omega
    have hmod' : w % 2 ^ 52 = 2 ^ 52 - 1 := by omega
    rw [hdiv, hmod, hmod']
    rcases w / 2 ^ 52 with _ | k
    · rfl
    · have hsignificand : significandOf (k + 1) (2 ^ 52 - 1) = 2 ^ 53 - 1 := rfl
      have hsignificand' : significandOf (k + 1 + 1) 0 = 2 ^ 52 := rfl
      have hbelow : below (2 ^ 52) (k + 1) = 1 := if_pos ⟨rfl, Nat.succ_pos k⟩
      simp only [hsignificand, hsignificand', Nat.add_sub_cancel, hbelow, pow_succ 2 k]
      omega

theorem lowOf_lt_highOf (w : ℕ) : lowOf w < highOf w := by
  unfold highOf lowOf
  refine Nat.mul_lt_mul_of_pos_right ?_ (Nat.two_pow_pos _)
  omega

theorem strictMono_lowOf : StrictMono lowOf := by
  refine strictMono_nat_of_lt_succ fun w => ?_
  rw [← highOf_eq_lowOf_succ]
  exact lowOf_lt_highOf w

/-! ## The interval of a number -/

theorem exponentBits_eq (x : Binary64) : x.exponentBits = x.magnitudeWord / 2 ^ 52 := by
  rw [Binary64.exponentBits, Binary64.magnitudeWord, Binary64.hiddenBit_eq]
  omega

theorem fractionBits_eq (x : Binary64) : x.fractionBits = x.magnitudeWord % 2 ^ 52 := by
  rw [Binary64.fractionBits, Binary64.magnitudeWord, Binary64.hiddenBit_eq]
  omega

theorem significand_eq (x : Binary64) :
    x.significand = significandOf (x.magnitudeWord / 2 ^ 52) (x.magnitudeWord % 2 ^ 52) := by
  rw [Binary64.significand, exponentBits_eq, fractionBits_eq, Binary64.hiddenBit_eq, significandOf]

theorem unit_eq (x : Binary64) : x.unit = x.magnitudeWord / 2 ^ 52 - 1 := by
  rw [Binary64.unit, exponentBits_eq]

theorem low_ofBinary64 (x : Binary64) :
    (Interval.ofBinary64 x).low = lowOf x.magnitudeWord := by
  have hbelow : (if x.significand = Binary64.hiddenBit && 0 < x.unit then 1 else 2) =
      below x.significand x.unit := by
    simp only [Bool.and_eq_true, decide_eq_true_eq]
    rfl
  rw [Interval.ofBinary64, hbelow, Binary64.shiftLeft_eq, significand_eq, unit_eq]
  rfl

theorem high_ofBinary64 (x : Binary64) :
    (Interval.ofBinary64 x).high = highOf x.magnitudeWord := by
  simp only [Interval.ofBinary64, highOf, Binary64.shiftLeft_eq, significand_eq, unit_eq]

theorem closed_ofBinary64 (x : Binary64) :
    (Interval.ofBinary64 x).closed = true ↔ x.magnitudeWord % 2 = 0 := by
  change (x.significand % 2 == 0) = true ↔ _
  rw [beq_iff_eq, significand_eq, significandOf]
  split <;> omega

/-! ## Numbers in an interval -/

/-- The denominator of the ends of intervals. -/
def Interval.denominator : ℕ := 4 * 2 ^ 1074

/-- The number lies in the interval, whose ends count only if it is closed. -/
structure Interval.Contains (i : Interval) (v : ℚ) : Prop where
  low_le : (i.low : ℚ) ≤ v * denominator
  le_high : v * denominator ≤ i.high
  inner : i.closed = false → (i.low : ℚ) < v * denominator ∧ v * denominator < i.high

/-- **The intervals of different words have no number in common.** -/
theorem Interval.eq_of_contains {v : ℚ} (hx : (ofBinary64 x).Contains v)
    (hy : (ofBinary64 y).Contains v) : x.magnitudeWord = y.magnitudeWord := by
  wlog hlt : x.magnitudeWord < y.magnitudeWord generalizing x y
  · rcases (not_lt.1 hlt).lt_or_eq with hlt | heq
    · exact (this hy hx hlt).symm
    · exact heq.symm
  exfalso
  have hle_high := hx.le_high
  have hlow_le := hy.low_le
  rw [high_ofBinary64, highOf_eq_lowOf_succ] at hle_high
  rw [low_ofBinary64] at hlow_le
  have hle : lowOf y.magnitudeWord ≤ lowOf (x.magnitudeWord + 1) := by
    exact_mod_cast hlow_le.trans hle_high
  have hword : y.magnitudeWord = x.magnitudeWord + 1 :=
    le_antisymm (strictMono_lowOf.le_iff_le.1 hle) hlt
  rw [hword] at hlow_le
  -- the number is the end that both intervals have, and one of the two is open
  have hx_open : (ofBinary64 x).closed ≠ false := fun hopen => by
    have hlt := (hx.inner hopen).2
    rw [high_ofBinary64, highOf_eq_lowOf_succ] at hlt
    exact absurd (hlow_le.trans_lt hlt) (lt_irrefl _)
  have hy_open : (ofBinary64 y).closed ≠ false := fun hopen => by
    have hlt := (hy.inner hopen).1
    rw [low_ofBinary64, hword] at hlt
    exact absurd (hlt.trans_le hle_high) (lt_irrefl _)
  rw [ne_eq, Bool.not_eq_false, closed_ofBinary64] at hx_open hy_open
  omega

/-! ## The decimal lies in the interval -/

namespace Grid

/-- A multiple of the grid as a fraction of the denominator of intervals. -/
theorem mul_up (g : Grid) (c : ℕ) :
    (c * 10 ^ g.exponent * Interval.denominator : ℚ) * g.up = (c * g.den : ℕ) := by
  have hten : (10 : ℚ) ^ g.exponent * g.up = 10 ^ g.exponent.toNat := by
    rw [up_eq]
    push_cast
    rw [← zpow_natCast, ← zpow_natCast, ← zpow_add₀ (by norm_num)]
    congr 1
    omega
  have hden : g.den = 10 ^ g.exponent.toNat * Interval.denominator := g.den_eq
  calc (c * 10 ^ g.exponent * Interval.denominator : ℚ) * g.up
      = c * (10 ^ g.exponent * g.up) * Interval.denominator := by ring
    _ = (c * g.den : ℕ) := by
        rw [hten, hden]
        push_cast
        ring

theorem le_iff (g : Grid) (n c : ℕ) :
    (n : ℚ) ≤ c * 10 ^ g.exponent * Interval.denominator ↔ n * g.up ≤ c * g.den := by
  have hup : (0 : ℚ) < g.up := by exact_mod_cast g.up_pos
  rw [← mul_le_mul_iff_of_pos_right hup, mul_up]
  exact_mod_cast Iff.rfl

theorem ge_iff (g : Grid) (n c : ℕ) :
    (c * 10 ^ g.exponent * Interval.denominator : ℚ) ≤ n ↔ c * g.den ≤ n * g.up := by
  have hup : (0 : ℚ) < g.up := by exact_mod_cast g.up_pos
  rw [← mul_le_mul_iff_of_pos_right hup, mul_up]
  exact_mod_cast Iff.rfl

theorem contains_of_holds (h : g.holds i c = true) : i.Contains (c * 10 ^ g.exponent) := by
  rw [holds] at h
  split at h
  next hclosed =>
    simp only [Bool.and_eq_true, decide_eq_true_eq] at h
    exact ⟨(g.le_iff _ _).2 h.1, (g.ge_iff _ _).2 h.2, fun hopen => by simp [hopen] at hclosed⟩
  next =>
    simp only [Bool.and_eq_true, decide_eq_true_eq] at h
    refine ⟨(g.le_iff _ _).2 h.1.le, (g.ge_iff _ _).2 h.2.le, fun _ => ⟨?_, ?_⟩⟩
    · exact lt_of_not_ge fun hle => h.1.not_ge ((g.ge_iff _ _).1 hle)
    · exact lt_of_not_ge fun hle => h.2.not_ge ((g.le_iff _ _).1 hle)

theorem holds_of_pick (h : g.pick i = some c) : g.holds i c = true := by
  rw [pick] at h
  generalize i.middle * g.up / g.den = n at h
  split at h
  next hc hc' =>
    obtain rfl := Option.some_inj.1 h
    split_ifs
    · exact hc
    · exact hc'
    · -- halfway between the two, the even one is taken
      rcases Nat.mod_two_eq_zero_or_one n with h0 | h1
      · rw [h0]
        exact hc
      · rw [h1]
        exact hc'
  next hc _ => exact Option.some_inj.1 h ▸ hc
  next _ hc' => exact Option.some_inj.1 h ▸ hc'
  next => cases h

/-- The last multiple of a fine grid that is not above the middle lies in the interval. -/
theorem holds_div (hlow : i.low * g.up + g.den ≤ i.middle * g.up) (hhigh : i.middle < i.high) :
    g.holds i (i.middle * g.up / g.den) = true := by
  have hle : i.middle * g.up / g.den * g.den ≤ i.middle * g.up := Nat.div_mul_le_self _ _
  have hlt : i.middle * g.up < i.middle * g.up / g.den * g.den + g.den :=
    Nat.lt_div_mul_add g.den_pos
  have hup : i.middle * g.up < i.high * g.up := Nat.mul_lt_mul_of_pos_right hhigh g.up_pos
  rw [holds]
  split <;> simp only [Bool.and_eq_true, decide_eq_true_eq] <;> omega

end Grid

/-- The search ends in the interval if its last resort does. -/
theorem contains_shortestFrom (first : ℤ) (digits fuel : ℕ)
    (hlast : (Grid.mk (first + 1 - (digits + fuel : ℕ))).holds i
      (i.middle * (Grid.mk (first + 1 - (digits + fuel : ℕ))).up /
        (Grid.mk (first + 1 - (digits + fuel : ℕ))).den) = true) :
    i.Contains (shortestFrom i first digits fuel).magnitude := by
  induction fuel generalizing digits with
  | zero =>
    rw [shortestFrom, magnitude_ofScaled]
    exact Grid.contains_of_holds hlast
  | succ fuel ih =>
    rw [shortestFrom]
    split
    next c hc =>
      rw [magnitude_ofScaled]
      exact Grid.contains_of_holds (Grid.holds_of_pick hc)
    next =>
      refine ih (digits + 1) ?_
      rwa [show digits + 1 + fuel = digits + (fuel + 1) by omega]

theorem significand_lt (x : Binary64) : x.significand < 2 ^ 53 := by
  rw [significand_eq, significandOf]
  split <;> omega

/-- An interval reaches far below its middle, compared with the last grid of the search. -/
theorem middle_le (hx : x.isZero = false) : ∃ d, (Interval.ofBinary64 x).middle =
    (Interval.ofBinary64 x).low + d ∧ (Interval.ofBinary64 x).middle ≤ 10 ^ 17 * d := by
  have hpos := Binary64.significand_pos hx
  have hlt := significand_lt x
  rw [Interval.ofBinary64]
  generalize x.significand = m at *
  generalize hb : (if m = Binary64.hiddenBit && 0 < x.unit then 1 else 2) = b
  have hb_bounds : 1 ≤ b ∧ b ≤ 2 := by
    rw [← hb]
    split <;> omega
  refine ⟨b * 2 ^ x.unit, ?_, ?_⟩
  · dsimp only
    rw [Binary64.shiftLeft_eq, Binary64.shiftLeft_eq, ← Nat.add_mul]
    congr 1
    omega
  · dsimp only
    rw [Binary64.shiftLeft_eq, ← Nat.mul_assoc]
    refine Nat.mul_le_mul_right _ ?_
    omega

theorem middle_lt_high (x : Binary64) :
    (Interval.ofBinary64 x).middle < (Interval.ofBinary64 x).high := by
  rw [Interval.ofBinary64]
  dsimp only
  rw [Binary64.shiftLeft_eq, Binary64.shiftLeft_eq]
  exact Nat.mul_lt_mul_of_pos_right (by omega) (Nat.two_pow_pos _)

/-- The shortest decimal of a number rounds to the number. -/
theorem contains_shortest (hx : x.isZero = false) :
    (Interval.ofBinary64 x).Contains (shortest x).magnitude := by
  have hlast := pow_mul_den_le_last hx
  have hhigh := middle_lt_high x
  obtain ⟨d, hd, hmiddle⟩ := middle_le hx
  refine contains_shortestFrom _ 1 17 ?_
  rw [show leadingExponent x + 1 - ((1 + 17 : ℕ) : ℤ) = leadingExponent x - 17 by omega]
  refine Grid.holds_div ?_ hhigh
  generalize Grid.mk (leadingExponent x - 17) = g at *
  generalize Interval.ofBinary64 x = i at *
  have hfine : 10 ^ 17 * g.den ≤ 10 ^ 17 * (d * g.up) := by
    calc 10 ^ 17 * g.den ≤ i.middle * g.up := hlast
      _ ≤ 10 ^ 17 * d * g.up := Nat.mul_le_mul_right _ hmiddle
      _ = 10 ^ 17 * (d * g.up) := by ring
  have hden : g.den ≤ d * g.up := Nat.le_of_mul_le_mul_left hfine (by decide)
  rw [hd, Nat.add_mul]
  omega

/-! ## Numerals -/

theorem negative_numeral (l : Layout) (x : Binary64) : (l.numeral x).negative = x.negative := by
  rw [Layout.numeral]
  split
  · rfl
  · dsimp only
    split
    · rw [plain]
      split <;> rfl
    · rfl

theorem magnitude_numeral_of_isZero (l : Layout) (hx : x.isZero = true) :
    (l.numeral x).magnitude = 0 := by
  have hdigits : Numeral.digitsValue ['0', '0'] = 0 := rfl
  rw [Layout.numeral, if_pos hx, Numeral.magnitude, pointed, List.singleton_append, hdigits,
    Nat.cast_zero, zero_mul]

theorem magnitude_numeral {l : Layout} (hl : l.plus ≠ .minus) (hx : x.isZero = false) :
    (l.numeral x).magnitude = (shortest x).magnitude := by
  rw [Layout.numeral, if_neg (Bool.eq_false_iff.1 hx)]
  dsimp only
  split
  · exact magnitude_plain _ _
  · exact magnitude_withExponent hl (isNormal_shortest hx).digits.ne_nil _

theorem magnitude_shortest_ne_zero (hx : x.isZero = false) : (shortest x).magnitude ≠ 0 := by
  intro h0
  have hlow := (contains_shortest hx).low_le
  have hpos := low_pos hx
  rw [h0, zero_mul] at hlow
  have : (Interval.ofBinary64 x).low ≤ 0 := by exact_mod_cast hlow
  omega

/-- **Distinct numbers have distinct numerals**, in every layout that writes signs as they are. -/
theorem numeral_injective {l : Layout} (hl : l.plus ≠ .minus) : Function.Injective l.numeral := by
  intro x y h
  have hmagnitude := congrArg Numeral.magnitude h
  have hsign : x.negative = y.negative := by
    rw [← negative_numeral l x, ← negative_numeral l y, h]
  refine Binary64.eq_of_magnitudeWord hsign ?_
  cases hx : x.isZero <;> cases hy : y.isZero
  · rw [magnitude_numeral hl hx, magnitude_numeral hl hy] at hmagnitude
    have hcontains := contains_shortest hy
    rw [← hmagnitude] at hcontains
    exact Interval.eq_of_contains (contains_shortest hx) hcontains
  · rw [magnitude_numeral hl hx, magnitude_numeral_of_isZero l hy] at hmagnitude
    exact absurd hmagnitude (magnitude_shortest_ne_zero hx)
  · rw [magnitude_numeral_of_isZero l hx, magnitude_numeral hl hy] at hmagnitude
    exact absurd hmagnitude.symm (magnitude_shortest_ne_zero hy)
  · rw [Binary64.isZero_iff.1 hx, Binary64.isZero_iff.1 hy]

end Decimal

end LiveBuild
