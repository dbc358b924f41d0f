import Mathlib.Data.Rat.Floor
import ScriptMachine.Proofs.Integer.Arithmetic
import ScriptMachine.Proofs.Integer.Division

/-! # Truncated division

The quotient of two integers is their exact quotient rounded toward zero, and the remainder is what is missing then,
so that it has the sign of the dividend. Two small operands are divided in 64 bits; all others are divided by their
magnitudes, whose signs are put on again.

* `towardZero`: rounding of fractions, with `towardZero_div`: what truncated division of numbers rounds.
* `Integer.toInt_div`, `Integer.toInt_rem`: truncated division of integers.
* `Integer.division_truncates`: the whole of it.
-/

namespace ScriptMachine

/-! ## Rounding -/

/-- A fraction rounded toward zero. -/
def towardZero (x : ℚ) : Int := if 0 ≤ x then ⌊x⌋ else ⌈x⌉

/-- Rounding toward zero does not mind the sign. -/
theorem towardZero_neg (x : ℚ) : towardZero (-x) = -towardZero x := by
  unfold towardZero
  obtain hneg | rfl | hpos := lt_trichotomy x 0
  · rw [if_pos (by linarith), if_neg (not_le.2 hneg), Int.floor_neg]
  · simp
  · rw [if_neg (by linarith), if_pos hpos.le, Int.ceil_neg]

/-- A fraction of natural numbers is rounded down. -/
theorem towardZero_natCast_div (m n : Nat) : towardZero (m / n) = (m / n : Nat) := by
  have hnonneg : (0 : ℚ) ≤ m / n := div_nonneg (Nat.cast_nonneg m) (Nat.cast_nonneg n)
  rw [towardZero, if_pos hnonneg, Rat.floor_natCast_div_natCast, Int.natCast_ediv]

/-- **Truncated division rounds the exact quotient toward zero.** -/
theorem towardZero_div (a d : Int) : towardZero (a / d) = a.tdiv d := by
  obtain ⟨m, rfl | rfl⟩ := a.eq_nat_or_neg <;> obtain ⟨n, rfl | rfl⟩ := d.eq_nat_or_neg
  · simp [towardZero_natCast_div]
  · simp [div_neg, towardZero_neg, towardZero_natCast_div]
  · simp [neg_div, towardZero_neg, towardZero_natCast_div]
  · simp [towardZero_natCast_div]

namespace Integer

/-! ## Quotients and remainders -/

/-- Quotients of small integers fit 64 bits. -/
theorem toInt_div_small (x y : Int32) : (x.toInt64 / y.toInt64).toInt = x.toInt.tdiv y.toInt := by
  have hx := toInt_range32 x
  have hle := Int.natAbs_tdiv_le_natAbs x.toInt y.toInt
  rw [Int64.toInt_div, Int32.toInt_toInt64, Int32.toInt_toInt64, Int.bmod_eq_of_le (by omega) (by omega)]

/-- Remainders of small integers. -/
theorem toInt_rem_small (x y : Int32) : (x.toInt64 % y.toInt64).toInt = x.toInt.tmod y.toInt := by
  rw [Int64.toInt_mod, Int32.toInt_toInt64, Int32.toInt_toInt64]

/-- Numbers are divided by their signs and their magnitudes, rounding toward zero. -/
theorem signed_tdiv (negative negative' : Bool) (m n : Nat) :
    signed (negative != negative') (m / n) = (signed negative m).tdiv (signed negative' n) := by
  unfold signed
  cases negative <;> cases negative' <;> simp

/-- The remainder has the sign of the dividend. -/
theorem signed_tmod (negative negative' : Bool) (m n : Nat) :
    signed negative (m % n) = (signed negative m).tmod (signed negative' n) := by
  unfold signed
  cases negative <;> cases negative' <;> simp [Int.tmod_eq_emod_of_nonneg]

/-- **Quotients round toward zero.** -/
theorem toInt_div {a d q : Integer} (ha : a.Canonical) (hd : d.Canonical) (h : a.div? d = some q) :
    q.toInt = a.toInt.tdiv d.toInt := by
  by_cases hzero : d.isZero = true
  · simp [div?, hzero] at h
  have hexact := Register.toNat_divRem (trimmed_magnitude ha) (trimmed_magnitude hd)
    (magnitude_ne_nil hd (Bool.eq_false_of_not_eq_true hzero))
  unfold div? at h
  rw [if_neg hzero] at h
  split at h
  · obtain rfl := Option.some.inj h
    rw [toInt_ofInt64]
    exact toInt_div_small _ _
  · obtain rfl := Option.some.inj h
    rw [toInt_ofMagnitude, hexact.1, signed_tdiv, ← toInt_eq_signed, ← toInt_eq_signed]

/-- **Remainders have the sign of the dividend.** -/
theorem toInt_rem {a d r : Integer} (ha : a.Canonical) (hd : d.Canonical) (h : a.rem? d = some r) :
    r.toInt = a.toInt.tmod d.toInt := by
  by_cases hzero : d.isZero = true
  · simp [rem?, hzero] at h
  have hexact := Register.toNat_divRem (trimmed_magnitude ha) (trimmed_magnitude hd)
    (magnitude_ne_nil hd (Bool.eq_false_of_not_eq_true hzero))
  unfold rem? at h
  rw [if_neg hzero] at h
  split at h
  · obtain rfl := Option.some.inj h
    rw [toInt_ofInt64]
    exact toInt_rem_small _ _
  · obtain rfl := Option.some.inj h
    rw [toInt_ofMagnitude, hexact.2, signed_tmod _ d.isNegative, ← toInt_eq_signed, ← toInt_eq_signed]

/-- Only a zero divisor has no quotient. -/
theorem div?_eq_none_iff (a : Integer) {d : Integer} (hd : d.Canonical) : a.div? d = none ↔ d.toInt = 0 := by
  rw [← isZero_iff hd]
  by_cases hzero : d.isZero = true
  · simp [div?, hzero]
  · obtain ⟨q, hq, -⟩ := canonical_div a (Bool.eq_false_of_not_eq_true hzero)
    simp [hq, hzero]

/-- Only a zero divisor has no remainder. -/
theorem rem?_eq_none_iff (a : Integer) {d : Integer} (hd : d.Canonical) : a.rem? d = none ↔ d.toInt = 0 := by
  rw [← isZero_iff hd]
  by_cases hzero : d.isZero = true
  · simp [rem?, hzero]
  · obtain ⟨r, hr, -⟩ := canonical_rem a (Bool.eq_false_of_not_eq_true hzero)
    simp [hr, hzero]

/-- The remainder of a truncated division is smaller than the divisor. -/
theorem abs_tmod_lt (n : Int) {k : Int} (hk : k ≠ 0) : |n.tmod k| < |k| := by
  rw [Int.abs_eq_natAbs, Int.abs_eq_natAbs, Int.natAbs_tmod, Int.ofNat_lt]
  exact Nat.mod_lt _ (Int.natAbs_pos.2 hk)

/-- The remainder of a truncated division is zero or of the sign of the dividend. -/
theorem tmod_eq_zero_or_sign (n k : Int) : n.tmod k = 0 ∨ (n.tmod k).sign = n.sign := by
  by_cases hdvd : k ∣ n
  · exact Or.inl (Int.tmod_eq_zero_of_dvd hdvd)
  · right
    rw [Int.sign_tmod, if_neg hdvd]

/-! ## Division as a whole -/

/-- **Division is truncated for integers of all sizes.** Quotient and remainder are missing for a zero divisor only.
Otherwise they are canonical, the divisor times the quotient and the remainder make up the dividend, the remainder is
smaller than the divisor and zero or of the sign of the dividend, and the quotient is rounded toward zero. -/
theorem division_truncates {a d : Integer} (ha : a.Canonical) (hd : d.Canonical) :
    (a.div? d = none ↔ d.toInt = 0) ∧ (a.rem? d = none ↔ d.toInt = 0) ∧
    (d.toInt ≠ 0 → ∃ q r, a.div? d = some q ∧ a.rem? d = some r ∧ q.Canonical ∧ r.Canonical ∧
      a.toInt = q.toInt * d.toInt + r.toInt ∧ |r.toInt| < |d.toInt| ∧
      (r.toInt = 0 ∨ r.toInt.sign = a.toInt.sign) ∧ q.toInt = towardZero (a.toInt / d.toInt)) := by
  refine ⟨div?_eq_none_iff a hd, rem?_eq_none_iff a hd, fun hne => ?_⟩
  have hzero : d.isZero = false := Bool.eq_false_iff.2 fun h => hne ((isZero_iff hd).1 h)
  obtain ⟨q, hq, hqc⟩ := canonical_div a hzero
  obtain ⟨r, hr, hrc⟩ := canonical_rem a hzero
  have hquotient := toInt_div ha hd hq
  have hremainder := toInt_rem ha hd hr
  refine ⟨q, r, hq, hr, hqc, hrc, ?_, ?_, ?_, ?_⟩
  · rw [hquotient, hremainder, Int.tdiv_mul_add_tmod]
  · rw [hremainder]
    exact abs_tmod_lt _ hne
  · rw [hremainder]
    exact tmod_eq_zero_or_sign _ _
  · rw [hquotient, towardZero_div]

/-- A negative dividend of four words and a divisor of three, for which a digit is estimated too large and the divisor
is added back. -/
theorem division_truncates_addBack :
    let a := large true [0, 0, 0x80000000, 0x7FFFFFFF]
    let d := large false [1, 0, 0x80000000]
    a.Canonical ∧ d.Canonical ∧ d.toInt ≠ 0 ∧ ∃ r, a.div? d = some (large true [0xFFFFFFFE]) ∧ a.rem? d = some r ∧
      a.toInt = -0xFFFFFFFE * d.toInt + r.toInt ∧ |r.toInt| < |d.toInt| ∧ (r.toInt = 0 ∨ r.toInt.sign = -1) := by
  intro a d
  have ha : a.Canonical := ⟨by simp [Words.Trimmed], by decide⟩
  have hd : d.Canonical := ⟨by simp [Words.Trimmed], by decide⟩
  have hne : d.toInt ≠ 0 := by decide
  have hdigits : a.div? d = some (large true [0xFFFFFFFE]) := by decide +kernel
  obtain ⟨q, r, hq, hr, -, -, hsum, hless, hsign, -⟩ := (division_truncates ha hd).2.2 hne
  obtain rfl : q = large true [0xFFFFFFFE] := Option.some.inj (hq.symm.trans hdigits)
  exact ⟨ha, hd, hne, r, hdigits, hr, hsum, hless, hsign⟩

end Integer

end ScriptMachine
