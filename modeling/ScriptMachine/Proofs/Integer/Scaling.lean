import Mathlib.Data.Rat.Floor
import ScriptMachine.Proofs.Integer.TwosComplement

/-! # Scaling by powers of two

A shift to the left multiplies by a power of two, and one to the right divides by it and rounds down, also below zero.
The amount of a shift has a sign: a negative amount shifts the other way. What was shifted to the left is brought back
by the same shift to the right.

* `floor_div_two_pow`: rounding down is division of integers.
* `Integer.shiftLeft_of_nonneg`, `Integer.shiftLeft_of_neg` and the same for `Integer.shiftRight`: the direction of a
  shift.
* `Integer.shifts_scale`: the whole of it.
-/

namespace ScriptMachine

/-- A fraction by a power of two rounded down is a quotient of integers. -/
theorem floor_div_two_pow (m : Int) (n : Nat) : ⌊(m : ℚ) / 2 ^ n⌋ = m / 2 ^ n := by
  have hcast : (m : ℚ) / 2 ^ n = (m : ℚ) / ((2 ^ n : Nat) : ℚ) := by push_cast; rfl
  rw [hcast, Rat.floor_intCast_div_natCast]
  push_cast
  rfl

namespace Integer

variable {a : Integer} {s : Int}

/-! ## Directions -/

/-- A shift to the left by a positive amount. -/
theorem shiftLeft_of_nonneg (a : Integer) (hs : 0 ≤ s) : a.shiftLeft s = a.scaleUp s.natAbs := if_pos hs

/-- A shift to the left by a negative amount is one to the right. -/
theorem shiftLeft_of_neg (a : Integer) (hs : s < 0) : a.shiftLeft s = a.scaleDown s.natAbs :=
  if_neg (Int.not_le.2 hs)

/-- A shift to the right by a positive amount. -/
theorem shiftRight_of_nonneg (a : Integer) (hs : 0 ≤ s) : a.shiftRight s = a.scaleDown s.natAbs := if_pos hs

/-- A shift to the right by a negative amount is one to the left. -/
theorem shiftRight_of_neg (a : Integer) (hs : s < 0) : a.shiftRight s = a.scaleUp s.natAbs :=
  if_neg (Int.not_le.2 hs)

/-! ## Scaling -/

/-- Scaling down rounds the fraction down. -/
theorem toInt_scaleDown_floor (ha : a.Canonical) (n : Nat) : (a.scaleDown n).toInt = ⌊(a.toInt : ℚ) / 2 ^ n⌋ := by
  rw [toInt_scaleDown ha, floor_div_two_pow]

/-- **Scaling down takes back scaling up**: nothing is lost at the low end. -/
theorem scaleDown_scaleUp (ha : a.Canonical) (n : Nat) : (a.scaleUp n).scaleDown n = a := by
  have hup := canonical_scaleUp ha n
  have hpow : (2 : Int) ^ n ≠ 0 := pow_ne_zero n (by decide)
  rw [eq_iff_toInt_eq (canonical_scaleDown hup n) ha, toInt_scaleDown hup, toInt_scaleUp ha,
    Int.mul_ediv_cancel _ hpow]

/-- **Shifts scale by powers of two and round down.** A shift by `s` multiplies by `2 ^ s` in its direction, exactly,
and divides by `2 ^ s` against it, rounded down; below zero `s` turns the direction around. The results are canonical,
and a shift to the left is taken back by the same shift to the right. -/
theorem shifts_scale (ha : a.Canonical) (s : Int) :
    (0 ≤ s → (a.shiftLeft s).toInt = a.toInt * 2 ^ s.natAbs ∧
      (a.shiftRight s).toInt = ⌊(a.toInt : ℚ) / 2 ^ s.natAbs⌋) ∧
    (s < 0 → (a.shiftLeft s).toInt = ⌊(a.toInt : ℚ) / 2 ^ s.natAbs⌋ ∧
      (a.shiftRight s).toInt = a.toInt * 2 ^ s.natAbs) ∧
    (a.shiftLeft s).Canonical ∧ (a.shiftRight s).Canonical ∧
    (0 ≤ s → (a.shiftLeft s).shiftRight s = a) := by
  refine ⟨fun hs => ?_, fun hs => ?_, (canonical_shift ha s).1, (canonical_shift ha s).2, fun hs => ?_⟩
  · rw [shiftLeft_of_nonneg a hs, shiftRight_of_nonneg a hs]
    exact ⟨toInt_scaleUp ha _, toInt_scaleDown_floor ha _⟩
  · rw [shiftLeft_of_neg a hs, shiftRight_of_neg a hs]
    exact ⟨toInt_scaleDown_floor ha _, toInt_scaleUp ha _⟩
  · rw [shiftLeft_of_nonneg a hs, shiftRight_of_nonneg _ hs]
    exact scaleDown_scaleUp ha _

/-- The number `-(2 ^ 64 + 1)` has a magnitude of three words. A shift by 33 places to the right goes through a whole
word and one bit, and rounds to the next number below; the same shift to the left by `-33`. -/
theorem shifts_scale_below_zero :
    let a := large true [1, 0, 1]
    a.Canonical ∧ (a.shiftRight 33).toInt = -2147483649 ∧ (a.shiftLeft (-33)).toInt = -2147483649 ∧
      (a.shiftLeft 33).shiftRight 33 = a := by
  intro a
  have ha : a.Canonical := ⟨by simp [Words.Trimmed], by decide⟩
  have hfloor : ⌊(a.toInt : ℚ) / 2 ^ 33⌋ = -2147483649 := by
    rw [floor_div_two_pow]
    decide
  obtain ⟨hright, -, -, -, hback⟩ := shifts_scale ha 33
  obtain ⟨-, hleft, -⟩ := shifts_scale ha (-33)
  exact ⟨ha, (hright (by decide)).2.trans hfloor, (hleft (by decide)).1.trans hfloor, hback (by decide)⟩

end Integer

end ScriptMachine
