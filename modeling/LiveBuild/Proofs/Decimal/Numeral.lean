import LiveBuild.Decimal.Layout
import Mathlib.Data.List.DropRight
import Mathlib.Tactic.NormNum
import Mathlib.Tactic.Ring

/-!
# Numerals that are written

Every numeral that is written follows the strict grammar of numerals: it has a whole digit, a zero
stands alone before the point, and an exponent has a digit.

* `isStrict_ofInt`: the numeral of an integer is strict;
* `isNormal_shortest`: the shortest decimal of a number that is not zero has a digit, and its first
  digit is not zero. The search never ends on a multiple of the grid that is zero: zero lies in no
  interval, and the last grid is finer than the first digit of the number;
* `isStrict_numeral`: the numeral of a floating point number is strict in every layout.
-/

namespace LiveBuild

/-- A shift by any number of places, without computing the power. -/
theorem Binary64.shiftLeft_eq (a n : ℕ) : a <<< n = a * 2 ^ n := Nat.shiftLeft_eq a n

theorem Binary64.shiftLeft_add_two (a n : ℕ) : a <<< (n + 2) = a * (4 * 2 ^ n) := by
  rw [shiftLeft_eq, pow_succ, pow_succ]
  ring

theorem Binary64.shiftLeft_pos {a : ℕ} (ha : 0 < a) (n : ℕ) : 0 < a <<< n := by
  rw [shiftLeft_eq]
  exact Nat.mul_pos ha (Nat.two_pow_pos n)

theorem Binary64.shiftRight_eq (a n : ℕ) : a >>> n = a / 2 ^ n := Nat.shiftRight_eq_div_pow a n

/-- Digits, of which there is at least one. -/
structure IsDigits (ds : List Char) : Prop where
  ne_nil : ds ≠ []
  isDigit : ∀ c ∈ ds, c.isDigit = true

/-- A numeral of the strict grammar. -/
structure Numeral.IsStrict (n : Numeral) : Prop where
  whole : IsDigits n.whole
  /-- A zero stands alone. -/
  zero : n.whole.head? = some '0' → n.whole = ['0']
  fraction : ∀ c ∈ n.fraction, c.isDigit = true
  exponent : ∀ e, n.exponent = some e → IsDigits e.digits

/-! ## Digits of natural numbers -/

theorem Numeral.digitsValue_toDigits (n : ℕ) : digitsValue (Nat.toDigits 10 n) = n :=
  Nat.ofDigitChars_ten_toDigits

theorem isDigits_toDigits (n : ℕ) : IsDigits (Nat.toDigits 10 n) :=
  ⟨Nat.toDigits_ne_nil, fun _ => Nat.isDigit_of_mem_toDigits (by decide) (by decide)⟩

theorem isDigits_zero : IsDigits ['0'] := ⟨by decide, List.forall_mem_singleton.2 rfl⟩

theorem head?_toDigits_ne_zero {n : ℕ} (hn : 0 < n) : (Nat.toDigits 10 n).head? ≠ some '0' := by
  induction n using Nat.strong_induction_on with
  | _ n ih =>
    rw [Nat.toDigits_eq_if (by decide)]
    split
    · simp; omega
    · rw [List.head?_append_of_ne_nil _ Nat.toDigits_ne_nil]
      exact ih (n / 10) (by omega) (by omega)

theorem Numeral.isStrict_ofInt (n : ℤ) : (Numeral.ofInt n).IsStrict where
  whole := isDigits_toDigits _
  zero h := by
    rcases Nat.eq_zero_or_pos n.natAbs with h0 | hpos
    · rw [ofInt, h0, Nat.toDigits_zero]
    · exact absurd h (head?_toDigits_ne_zero hpos)
  fraction := by simp [ofInt]
  exponent := by simp [ofInt]

namespace Decimal

/-! ## Decimals with a first digit -/

/-- A decimal whose first digit is not zero. -/
structure Scientific.IsNormal (s : Scientific) : Prop where
  digits : IsDigits s.digits
  head : s.digits.head? ≠ some '0'

theorem Scientific.isNormal_ofScaled {c : ℕ} (hc : 0 < c) (k : ℤ) :
    (Scientific.ofScaled c k).IsNormal := by
  have hinit : dropTrailingZeros (Nat.toDigits 10 c) <+: Nat.toDigits 10 c :=
    List.rdropWhile_prefix _ _
  have hne : dropTrailingZeros (Nat.toDigits 10 c) ≠ [] := by
    intro h
    have hzeros := List.rdropWhile_eq_nil_iff.1 h
    refine head?_toDigits_ne_zero hc ?_
    obtain ⟨d, ds, hds⟩ := List.exists_cons_of_ne_nil (Nat.toDigits_ne_nil (n := c) (b := 10))
    have hd : d = '0' := by simpa using hzeros d (by simp [hds])
    rw [hds, hd, List.head?_cons]
  refine ⟨⟨hne, fun d hd => (isDigits_toDigits c).isDigit d (hinit.subset hd)⟩, ?_⟩
  change (dropTrailingZeros (Nat.toDigits 10 c)).head? ≠ some '0'
  obtain ⟨t, ht⟩ := hinit
  have hhead : (dropTrailingZeros (Nat.toDigits 10 c) ++ t).head? =
      (dropTrailingZeros (Nat.toDigits 10 c)).head? := List.head?_append_of_ne_nil _ hne
  rw [← hhead, ht]
  exact head?_toDigits_ne_zero hc

theorem isStrict_plain {s : Scientific} (hs : s.IsNormal) (negative : Bool) :
    (plain negative s).IsStrict := by
  have hzero : ∀ (k : ℕ), ∀ c ∈ List.replicate k '0', c.isDigit = true := fun k c hc => by
    rw [List.eq_of_mem_replicate hc]; rfl
  rw [plain]
  split
  next e _ =>
    have hall : ∀ c ∈ s.digits ++ List.replicate (e + 1 - s.digits.length) '0',
        c.isDigit = true := fun c hc =>
      (List.mem_append.1 hc).elim (hs.digits.isDigit c) (hzero _ c)
    obtain ⟨d, ds, hds⟩ := List.exists_cons_of_ne_nil hs.digits.ne_nil
    have hd : d ≠ '0' := by simpa [hds] using hs.head
    refine ⟨⟨?_, fun c hc => hall c (List.mem_of_mem_take hc)⟩, ?_, fun c hc => ?_, by simp⟩
    · simp [hds]
    · simp [hds, hd]
    · dsimp only at hc
      split at hc
      · exact isDigits_zero.isDigit c hc
      · exact hall c (List.mem_of_mem_drop hc)
  next e _ =>
    exact ⟨isDigits_zero, fun _ => rfl,
      fun c hc => (List.mem_append.1 hc).elim (hzero _ c) (hs.digits.isDigit c), by simp⟩

theorem isStrict_withExponent {s : Scientific} (hs : s.IsNormal) (l : Layout) (negative : Bool) :
    (l.withExponent negative s).IsStrict := by
  obtain ⟨d, ds, hds⟩ := List.exists_cons_of_ne_nil hs.digits.ne_nil
  have hd : d ≠ '0' := by simpa [hds] using hs.head
  refine ⟨⟨?_, fun c hc => hs.digits.isDigit c (List.mem_of_mem_take hc)⟩, ?_,
    fun c hc => hs.digits.isDigit c (List.mem_of_mem_drop hc), ?_⟩
  · simp [Layout.withExponent, hds]
  · simp [Layout.withExponent, hds, hd]
  · rintro e he
    obtain rfl := Option.some_inj.1 he
    exact isDigits_toDigits _

/-! ## The search for the shortest decimal -/

variable {i : Interval} {g : Grid} {c : ℕ}

theorem Grid.up_eq (g : Grid) : g.up = 10 ^ (-g.exponent).toNat := rfl

theorem Grid.den_eq (g : Grid) : g.den = 10 ^ g.exponent.toNat * (4 * 2 ^ 1074) :=
  Binary64.shiftLeft_add_two (10 ^ g.exponent.toNat) 1074

theorem Grid.up_pos (g : Grid) : 0 < g.up := Nat.pow_pos (by decide)

theorem Grid.den_pos (g : Grid) : 0 < g.den :=
  Binary64.shiftLeft_pos (Nat.pow_pos (show 0 < 10 by decide)) 1076

theorem Grid.pos_of_holds (hi : 0 < i.low) (h : g.holds i c = true) : 0 < c := by
  refine Nat.pos_of_ne_zero ?_
  rintro rfl
  have hlow : 0 < i.low * g.up := Nat.mul_pos hi g.up_pos
  rw [holds] at h
  split at h <;> simp only [Nat.zero_mul, Bool.and_eq_true, decide_eq_true_eq] at h <;> omega

theorem Grid.pos_of_pick (hi : 0 < i.low) (h : g.pick i = some c) : 0 < c := by
  rw [pick] at h
  split at h
  next hc _ =>
    have hpos := Grid.pos_of_holds hi hc
    obtain rfl := Option.some_inj.1 h
    split_ifs
    · exact hpos
    · exact Nat.succ_pos _
    · exact Nat.add_pos_left hpos _
  next hc _ => exact Option.some_inj.1 h ▸ Grid.pos_of_holds hi hc
  next =>
    obtain rfl := Option.some_inj.1 h
    exact Nat.succ_pos _
  next => cases h

/-- The search ends on a decimal with a first digit if its last resort does. -/
theorem isNormal_shortestFrom (hi : 0 < i.low) (first : ℤ) (digits fuel : ℕ)
    (hlast : (Grid.mk (first + 1 - (digits + fuel : ℕ))).den ≤
      i.middle * (Grid.mk (first + 1 - (digits + fuel : ℕ))).up) :
    (shortestFrom i first digits fuel).IsNormal := by
  induction fuel generalizing digits with
  | zero =>
    rw [shortestFrom]
    exact Scientific.isNormal_ofScaled (Nat.div_pos hlast (Grid.den_pos _)) _
  | succ fuel ih =>
    rw [shortestFrom]
    split
    next c hc => exact Scientific.isNormal_ofScaled (Grid.pos_of_pick hi hc) _
    next =>
      refine ih (digits + 1) ?_
      rwa [show digits + 1 + fuel = digits + (fuel + 1) by omega]

end Decimal

namespace Binary64

variable {x : Binary64}

theorem signBit_eq : signBit = 2 ^ 63 := rfl

theorem hiddenBit_eq : hiddenBit = 2 ^ 52 := rfl

theorem significand_pos (hx : x.isZero = false) : 0 < x.significand := by
  have hword : x.word % signBit ≠ 0 := by simpa [isZero] using hx
  rw [significand]
  split
  next he =>
    simp only [exponentBits, fractionBits, hiddenBit_eq, signBit_eq] at he hword ⊢
    omega
  next => exact Nat.add_pos_left (by decide) _

theorem steps_pos (hx : x.isZero = false) : 0 < x.steps := shiftLeft_pos (significand_pos hx) _

end Binary64

namespace Decimal

variable {x : Binary64}

theorem low_pos (hx : x.isZero = false) : 0 < (Interval.ofBinary64 x).low := by
  have hpos := Binary64.significand_pos hx
  refine Binary64.shiftLeft_pos ?_ _
  split <;> omega

theorem middle_eq (x : Binary64) : (Interval.ofBinary64 x).middle = 4 * x.steps := by
  simp only [Interval.ofBinary64, Binary64.steps, Binary64.shiftLeft_eq, Nat.mul_assoc]

theorem scaled_eq (s k n : ℕ) : (s * Nat.pow 10 k) >>> n = s * 10 ^ k / 2 ^ n :=
  Binary64.shiftRight_eq _ _

theorem leadingExponent_eq (x : Binary64) :
    leadingExponent x = (Nat.toDigits 10 (x.steps * 10 ^ 324 / 2 ^ 1074)).length - 325 := by
  simp only [leadingExponent, scaled_eq]

/-- The first digit of a number stands at its leading exponent. -/
theorem pow_leadingExponent_le (hx : x.isZero = false) :
    0 ≤ leadingExponent x + 324 ∧
      10 ^ (leadingExponent x + 324).toNat * 2 ^ 1074 ≤ x.steps * 10 ^ 324 := by
  have hv : 0 < (x.steps * 10 ^ 324) / 2 ^ 1074 := by
    refine Nat.div_pos ?_ (pow_pos (by decide) _)
    calc 2 ^ 1074 ≤ 10 ^ 324 := by decide +kernel
      _ ≤ x.steps * 10 ^ 324 := Nat.le_mul_of_pos_left _ (Binary64.steps_pos hx)
  have hlead : leadingExponent x + 324 =
      ((Nat.toDigits 10 ((x.steps * 10 ^ 324) / 2 ^ 1074)).length - 1 : ℕ) := by
    have := Nat.length_toDigits_pos (b := 10) (n := (x.steps * 10 ^ 324) / 2 ^ 1074)
    rw [leadingExponent_eq]
    omega
  refine ⟨by omega, ?_⟩
  rw [hlead, Int.toNat_natCast]
  refine (Nat.mul_le_mul_right _ ?_).trans (Nat.div_mul_le_self _ (2 ^ 1074))
  generalize (x.steps * 10 ^ 324) / 2 ^ 1074 = v at hv
  rcases Nat.eq_zero_or_pos ((Nat.toDigits 10 v).length - 1) with h0 | hpos
  · rw [h0]
    exact hv
  · have hlen := Nat.length_toDigits_le_iff (b := 10) (n := v) (by decide) hpos
    omega

/-- The last grid of the search is finer than the first digit of the number by seventeen digits. -/
theorem pow_mul_den_le_last (hx : x.isZero = false) :
    10 ^ 17 * (Grid.mk (leadingExponent x - 17)).den ≤
      (Interval.ofBinary64 x).middle * (Grid.mk (leadingExponent x - 17)).up := by
  have h0 := (pow_leadingExponent_le hx).1
  have hexponent : 17 + (leadingExponent x - 17).toNat + 324 ≤
      (leadingExponent x + 324).toNat + (-(leadingExponent x - 17)).toNat := by omega
  have hpow : 10 ^ 17 * 10 ^ (leadingExponent x - 17).toNat * 10 ^ 324 ≤
      10 ^ (leadingExponent x + 324).toNat * 10 ^ (-(leadingExponent x - 17)).toNat := by
    simp only [← Nat.pow_add]
    exact Nat.pow_le_pow_right (by decide) hexponent
  have hle := (pow_leadingExponent_le hx).2
  have hden := Grid.den_eq ⟨leadingExponent x - 17⟩
  have hten : 0 < 10 ^ 324 := pow_pos (by decide) _
  rw [hden, middle_eq, Grid.up_eq]
  -- the large powers are factors like any others from here on
  generalize 10 ^ 324 = t at *
  generalize 2 ^ 1074 = u at *
  generalize 10 ^ 17 = d at *
  generalize leadingExponent x = e at *
  refine Nat.le_of_mul_le_mul_right ?_ hten
  calc d * (10 ^ (e - 17).toNat * (4 * u)) * t
      = 4 * (d * 10 ^ (e - 17).toNat * t) * u := by ring
    _ ≤ 4 * (10 ^ (e + 324).toNat * 10 ^ (-(e - 17)).toNat) * u := by gcongr
    _ = 4 * (10 ^ (e + 324).toNat * u) * 10 ^ (-(e - 17)).toNat := by ring
    _ ≤ 4 * (x.steps * t) * 10 ^ (-(e - 17)).toNat := by gcongr
    _ = 4 * x.steps * 10 ^ (-(e - 17)).toNat * t := by ring

theorem den_le_last (hx : x.isZero = false) :
    (Grid.mk (leadingExponent x - 17)).den ≤
      (Interval.ofBinary64 x).middle * (Grid.mk (leadingExponent x - 17)).up :=
  (Nat.le_mul_of_pos_left _ (by decide)).trans (pow_mul_den_le_last hx)

theorem isNormal_shortest (hx : x.isZero = false) : (shortest x).IsNormal := by
  refine isNormal_shortestFrom (low_pos hx) _ _ _ ?_
  rw [show leadingExponent x + 1 - ((1 + 17 : ℕ) : ℤ) = leadingExponent x - 17 by omega]
  exact den_le_last hx

/-- **The numeral of a floating point number is strict**, in every layout. -/
theorem isStrict_numeral (l : Layout) (x : Binary64) : (l.numeral x).IsStrict := by
  rw [Layout.numeral]
  split
  next => exact ⟨isDigits_zero, fun _ => rfl, isDigits_zero.isDigit, by simp⟩
  next hx =>
    have hnormal := isNormal_shortest (Bool.eq_false_iff.2 hx)
    dsimp only
    split
    · exact isStrict_plain hnormal _
    · exact isStrict_withExponent hnormal _ _

end Decimal

end LiveBuild
