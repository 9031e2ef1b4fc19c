import LiveBuild.Decimal.Word
import LiveBuild.Proofs.Decimal.Numeral
import Mathlib.Data.Nat.Digits.Defs

/-!
# Numbers that sixty-four bits hold

A sequence of digits is read into sixty-four bits exactly if the number that it denotes fits them,
and then the number is that one (`ofDigits?_eq_some_iff`). A product or a sum on the way is never
larger than the number of the whole sequence, so that the reading ends early only where the number
is too large; and zeros at the beginning do not count.

* `placeValue`: the number that digits denote by their places;
* `push?_eq_some_iff`: one more digit;
* `foldlM_push?_eq_some_iff`: any number of them, behind a number that has been read already.
-/

namespace LiveBuild.Word

/-- The number that digits denote by their places, of which the last is that of the ones. -/
def placeValue (ds : List Char) : ℕ :=
  Nat.ofDigits 10 (ds.reverse.map fun c => c.toNat - '0'.toNat)

variable {a b n w : UInt64} {c : Char} {cs : List Char}

@[simp] theorem placeValue_nil : placeValue [] = 0 := rfl

theorem placeValue_cons (c : Char) (cs : List Char) :
    placeValue (c :: cs) = (c.toNat - '0'.toNat) * 10 ^ cs.length + placeValue cs := by
  rw [placeValue, List.reverse_cons, List.map_append, Nat.ofDigits_append, List.length_map,
    List.length_reverse, List.map_singleton, Nat.ofDigits_singleton, placeValue]
  ring

/-! ## One more digit -/

/-- A number that is given only if it fits. -/
theorem ite_eq_some_iff {m : ℕ} (ha : a.toNat = m % UInt64.size) :
    (if m < UInt64.size then some a else none) = some w ↔ w.toNat = m := by
  split
  next hfits =>
    rw [Option.some_inj, ← UInt64.toNat_inj, ha, Nat.mod_eq_of_lt hfits, eq_comm]
  next hlarge =>
    exact iff_of_false (fun h => by cases h) fun h => hlarge (h ▸ w.toNat_lt)

theorem mul?_eq_some_iff : mul? a b = some w ↔ w.toNat = a.toNat * b.toNat :=
  ite_eq_some_iff (UInt64.toNat_mul a b)

theorem add?_eq_some_iff : add? a b = some w ↔ w.toNat = a.toNat + b.toNat :=
  ite_eq_some_iff (UInt64.toNat_add a b)

theorem exists_toNat_eq {m : ℕ} (h : m < UInt64.size) : ∃ w : UInt64, w.toNat = m :=
  ⟨.ofNat m, UInt64.toNat_ofNat_of_lt' h⟩

theorem toNat_sub_lt (h : c.isDigit = true) : c.toNat - '0'.toNat < UInt64.size := by
  have hc : c.toNat ≤ '9'.toNat := (Char.isDigit_iff_toNat.1 h).2
  exact ((Nat.sub_le _ _).trans hc).trans_lt (by decide)

theorem digit?_eq_some_iff :
    digit? c = some w ↔ c.isDigit = true ∧ w.toNat = c.toNat - '0'.toNat := by
  rw [digit?]
  split
  next hc =>
    have hdigit : (UInt64.ofNat (c.toNat - 48)).toNat = c.toNat - '0'.toNat :=
      UInt64.toNat_ofNat_of_lt' (toNat_sub_lt hc)
    rw [Option.some_inj, ← UInt64.toNat_inj, hdigit, eq_comm]
    exact (and_iff_right hc).symm
  next hc => simp [hc]

/-- **A digit is taken up exactly if the number with it fits.** -/
theorem push?_eq_some_iff :
    push? n c = some w ↔ c.isDigit = true ∧ w.toNat = n.toNat * 10 + (c.toNat - '0'.toNat) := by
  rw [push?, Option.bind_eq_bind, Option.bind_eq_some_iff]
  constructor
  · rintro ⟨d, hd, h⟩
    obtain ⟨tens, htens, h⟩ := Option.bind_eq_some_iff.1 h
    obtain ⟨hc, hd⟩ := digit?_eq_some_iff.1 hd
    refine ⟨hc, ?_⟩
    rw [add?_eq_some_iff.1 h, mul?_eq_some_iff.1 htens, hd]
    rfl
  · rintro ⟨hc, h⟩
    have hfits : n.toNat * 10 < UInt64.size := by
      have hle : n.toNat * 10 ≤ w.toNat := h ▸ Nat.le_add_right _ _
      exact hle.trans_lt w.toNat_lt
    obtain ⟨d, hd⟩ := exists_toNat_eq (toNat_sub_lt hc)
    obtain ⟨tens, htens⟩ := exists_toNat_eq hfits
    refine ⟨d, digit?_eq_some_iff.2 ⟨hc, hd⟩, Option.bind_eq_some_iff.2 ⟨tens, ?_, ?_⟩⟩
    · exact mul?_eq_some_iff.2 htens
    · exact add?_eq_some_iff.2 (by rw [h, htens, hd])

/-! ## All digits -/

/-- Digits behind a number that has been read. What has been read at any point is at most the
number in the end, so a number that fits was never too large on the way. -/
theorem foldlM_push?_eq_some_iff (cs : List Char) (n : UInt64) :
    cs.foldlM push? n = some w ↔
      (∀ c ∈ cs, c.isDigit = true) ∧ w.toNat = n.toNat * 10 ^ cs.length + placeValue cs := by
  induction cs generalizing n with
  | nil =>
    rw [List.foldlM_nil, List.length_nil, placeValue_nil, pow_zero, mul_one, add_zero]
    change some n = some w ↔ _
    rw [Option.some_inj, ← UInt64.toNat_inj, eq_comm]
    exact (and_iff_right (by simp)).symm
  | cons c cs ih =>
    have hvalue (m : ℕ) (hm : m = n.toNat * 10 + (c.toNat - '0'.toNat)) :
        m * 10 ^ cs.length + placeValue cs =
          n.toNat * 10 ^ (c :: cs).length + placeValue (c :: cs) := by
      rw [placeValue_cons, List.length_cons, hm, pow_succ]
      ring
    rw [List.foldlM_cons, Option.bind_eq_bind, Option.bind_eq_some_iff, List.forall_mem_cons]
    constructor
    · rintro ⟨m, hm, h⟩
      obtain ⟨hc, hm⟩ := push?_eq_some_iff.1 hm
      obtain ⟨hcs, hw⟩ := (ih m).1 h
      exact ⟨⟨hc, hcs⟩, hw.trans (hvalue _ hm)⟩
    · rintro ⟨⟨hc, hcs⟩, hw⟩
      rw [← hvalue _ rfl] at hw
      have hle : n.toNat * 10 + (c.toNat - '0'.toNat) ≤ w.toNat := by
        rw [hw]
        exact le_add_right (Nat.le_mul_of_pos_right _ (by positivity))
      obtain ⟨m, hm⟩ := exists_toNat_eq (hle.trans_lt w.toNat_lt)
      refine ⟨m, push?_eq_some_iff.2 ⟨hc, hm⟩, (ih m).2 ⟨hcs, ?_⟩⟩
      rw [hw, hm]

/-- **A number is read exactly if there are digits and it fits.** -/
theorem ofDigits?_eq_some_iff :
    ofDigits? cs = some w ↔ IsDigits cs ∧ w.toNat = placeValue cs := by
  cases cs with
  | nil => exact iff_of_false (fun h => by cases h) fun h => h.1.ne_nil rfl
  | cons c cs =>
    rw [ofDigits?, foldlM_push?_eq_some_iff, UInt64.toNat_zero, zero_mul, zero_add]
    exact and_congr_left' ⟨fun h => ⟨List.cons_ne_nil c cs, h⟩, IsDigits.isDigit⟩

/-- Zeros at the beginning, and the first number that does not fit. -/
example : ofDigits? "00018446744073709551615".toList = some 18446744073709551615 ∧
    ofDigits? "18446744073709551616".toList = none := by decide

end LiveBuild.Word
