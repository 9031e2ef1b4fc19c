import LiveBuild.Proofs.Decimal.Numeral
import Mathlib.Algebra.Order.Field.Basic
import Mathlib.Algebra.Order.Field.Rat
import Mathlib.Tactic.FieldSimp

/-!
# The magnitude that a numeral spells

A numeral spells a rational number, without any rounding. Whether a decimal is written out or with
an exponent, its numeral spells the decimal.

* `pointed`: digits with a point after the first few of them, before them or behind them. Zeros at
  the end say nothing, and zeros at the beginning move the point;
* `magnitude_ofScaled`: the decimal of a scaled natural number;
* `magnitude_plain`, `magnitude_withExponent`: the two ways in which a decimal is written.
-/

namespace LiveBuild

/-- The number whose digits are `ds`, with the point behind the first `point` of them. -/
def pointed (ds : List Char) (point : ℤ) : ℚ :=
  Numeral.digitsValue ds * 10 ^ (point - ds.length)

/-- The number that a numeral spells, without its sign. -/
def Numeral.magnitude (n : Numeral) : ℚ :=
  pointed (n.whole ++ n.fraction) (n.whole.length + exponentValue n.exponent)

/-- The number that a decimal is. -/
def Decimal.Scientific.magnitude (s : Scientific) : ℚ := pointed s.digits (s.exponent + 1)

theorem pointed_append_zeros (ds : List Char) (n : ℕ) (point : ℤ) :
    pointed (ds ++ List.replicate n '0') point = pointed ds point := by
  have hvalue : Numeral.digitsValue (ds ++ List.replicate n '0') =
      10 ^ n * Numeral.digitsValue ds := by
    change Nat.ofDigitChars 10 (ds ++ List.replicate n '0') 0 = 10 ^ n * Nat.ofDigitChars 10 ds 0
    rw [Nat.ofDigitChars_append, Nat.ofDigitChars_replicate_zero]
  have hpoint : point - ((ds ++ List.replicate n '0').length : ℤ) = point - ds.length - n := by
    simp only [List.length_append, List.length_replicate, Nat.cast_add]
    ring
  have hten : (10 : ℚ) ≠ 0 := by norm_num
  rw [pointed, hvalue, hpoint, zpow_sub₀ hten _ (n : ℤ), zpow_natCast, pointed]
  push_cast
  field_simp

theorem pointed_zeros_append (ds : List Char) (n : ℕ) (point : ℤ) :
    pointed (List.replicate n '0' ++ ds) point = pointed ds (point - n) := by
  have hvalue : Numeral.digitsValue (List.replicate n '0' ++ ds) = Numeral.digitsValue ds := by
    change Nat.ofDigitChars 10 (List.replicate n '0' ++ ds) 0 = Nat.ofDigitChars 10 ds 0
    rw [Nat.ofDigitChars_append, Nat.ofDigitChars_replicate_zero, Nat.mul_zero]
  have hpoint : point - ((List.replicate n '0' ++ ds).length : ℤ) = point - n - ds.length := by
    simp only [List.length_append, List.length_replicate, Nat.cast_add]
    ring
  rw [pointed, hvalue, hpoint, pointed]

namespace Decimal

/-- The digits that are dropped are zeros. -/
theorem exists_dropTrailingZeros (ds : List Char) :
    ∃ n, ds = dropTrailingZeros ds ++ List.replicate n '0' := by
  refine ⟨(ds.rtakeWhile (· == '0')).length, ?_⟩
  have hzeros : ds.rtakeWhile (· == '0') =
      List.replicate (ds.rtakeWhile (· == '0')).length '0' :=
    List.eq_replicate_of_mem fun c hc => by simpa using List.mem_rtakeWhile_imp hc
  rw [← hzeros]
  exact List.rdropWhile_append_rtakeWhile.symm

theorem magnitude_ofScaled (c : ℕ) (k : ℤ) :
    (Scientific.ofScaled c k).magnitude = c * 10 ^ k := by
  obtain ⟨n, hn⟩ := exists_dropTrailingZeros (Nat.toDigits 10 c)
  have hpoint : k + (Nat.toDigits 10 c).length - 1 + 1 - (Nat.toDigits 10 c).length = k := by ring
  calc (Scientific.ofScaled c k).magnitude
      = pointed (dropTrailingZeros (Nat.toDigits 10 c)) (k + (Nat.toDigits 10 c).length - 1 + 1) :=
        rfl
    _ = pointed (Nat.toDigits 10 c) (k + (Nat.toDigits 10 c).length - 1 + 1) := by
        rw [← pointed_append_zeros _ n, ← hn]
    _ = c * 10 ^ k := by rw [pointed, Numeral.digitsValue_toDigits, hpoint]

/-- A decimal that is written out is filled up with zeros, on one side or the other. -/
theorem magnitude_plain (negative : Bool) (s : Scientific) :
    (plain negative s).magnitude = s.magnitude := by
  rw [plain]
  split
  next e he =>
    let ds := s.digits ++ List.replicate (e + 1 - s.digits.length) '0'
    have hlength : (ds.take (e + 1)).length = e + 1 := by
      simp only [ds, List.length_take, List.length_append, List.length_replicate]
      omega
    have hdigits : ∃ n, ds.take (e + 1) ++ (if ds.drop (e + 1) = [] then ['0']
        else ds.drop (e + 1)) = ds ++ List.replicate n '0' := by
      split
      next hnil =>
        have htake : ds.take (e + 1) = ds := List.take_of_length_le (List.drop_eq_nil_iff.1 hnil)
        exact ⟨1, by rw [htake]; rfl⟩
      next => exact ⟨0, by rw [List.take_append_drop, List.replicate_zero, List.append_nil]⟩
    obtain ⟨n, hn⟩ := hdigits
    calc pointed (ds.take (e + 1) ++ (if ds.drop (e + 1) = [] then ['0'] else ds.drop (e + 1)))
          ((ds.take (e + 1)).length + 0)
        = pointed ds (e + 1 : ℕ) := by
          rw [hn, hlength, pointed_append_zeros, add_zero]
      _ = pointed s.digits (e + 1 : ℕ) := pointed_append_zeros _ _ _
      _ = s.magnitude := by
          rw [Scientific.magnitude, he]
          rfl
  next e he =>
    have hpoint : s.exponent + 1 = 1 - (e + 1 : ℕ) := by
      rw [he]
      omega
    rw [Scientific.magnitude, hpoint, ← pointed_zeros_append]
    rfl

/-- The exponent that is written is the exponent of the decimal. -/
theorem exponentValue_withExponent {l : Layout} (hl : l.plus ≠ .minus) (negative : Bool)
    (s : Scientific) : Numeral.exponentValue (l.withExponent negative s).exponent = s.exponent := by
  have hvalue := Numeral.digitsValue_toDigits s.exponent.natAbs
  rw [Layout.withExponent]
  by_cases hneg : s.exponent < 0
  · simp only [hneg, if_true, Numeral.exponentValue, hvalue]
    omega
  · simp only [hneg, if_false]
    cases hplus : l.plus with
    | minus => exact absurd hplus hl
    | none | plus =>
      simp only [Numeral.exponentValue, hvalue]
      omega

theorem magnitude_withExponent {l : Layout} (hl : l.plus ≠ .minus) {s : Scientific}
    (hs : s.digits ≠ []) (negative : Bool) :
    (l.withExponent negative s).magnitude = s.magnitude := by
  have hlength : (s.digits.take 1).length = 1 := by
    rw [List.length_take]
    have := List.length_pos_iff.2 hs
    omega
  have hpoint : ((s.digits.take 1).length : ℤ) + s.exponent = s.exponent + 1 := by
    rw [hlength, Nat.cast_one, add_comm]
  rw [Numeral.magnitude, exponentValue_withExponent hl]
  change pointed (s.digits.take 1 ++ s.digits.drop 1) ((s.digits.take 1).length + s.exponent) = _
  rw [List.take_append_drop, hpoint, Scientific.magnitude]

end Decimal

end LiveBuild
