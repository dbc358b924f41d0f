import Mathlib.Algebra.Order.Ring.Int
import ScriptMachine.Proofs.Integer.TwosComplement

/-! # Bits

The bits of a number are those of its two's-complement expansion, which goes on with the sign without end. The words
of an integer, followed by words of its sign, are that expansion cut into pieces of 32 bits, and the bitwise operations
combine the expansions of their operands bit by bit.

* `bitAt`: the bits of a number, with `testBit_eq_bitAt`.
* `Words.bitAt_extend`: the bits of words with a sign.
* `Integer.bits_exact`: bitwise operations and the complement.
-/

namespace ScriptMachine

/-! ## The bits of a number -/

/-- The bit of a number at a place, the least significant one at place 0. Since division rounds down, numbers below zero
have the bits of their two's-complement expansion, which end in ones. -/
def bitAt (n : Int) (i : Nat) : Bool := decide (n / 2 ^ i % 2 = 1)

/-- The bits of the library are these bits. -/
theorem testBit_eq_bitAt (n : Int) (i : Nat) : n.testBit i = bitAt n i := by
  have hpow : (0 : Int) < 2 ^ i := pow_pos (by decide) i
  unfold bitAt
  cases n with
  | ofNat m =>
    show m.testBit i = _
    rw [Nat.testBit_eq_decide_div_mod_eq, decide_eq_decide, Int.ofNat_eq_natCast]
    norm_cast
  | negSucc m =>
    show (!m.testBit i) = _
    have hdiv : Int.negSucc m / 2 ^ i = -((m / 2 ^ i : Nat) : Int) - 1 := by
      rw [Int.negSucc_ediv m hpow, Int.neg_add]
      push_cast
      rfl
    rw [hdiv, Nat.testBit_eq_decide_div_mod_eq, ← decide_not, decide_eq_decide]
    omega

/-- A place below the high part belongs to the low part. -/
theorem bitAt_low (w : Nat) (m : Int) {k i : Nat} (hi : i < k) : bitAt (w + 2 ^ k * m) i = w.testBit i := by
  obtain ⟨j, rfl⟩ := Nat.exists_eq_add_of_lt hi
  have hsplit : (w + 2 ^ (i + j + 1) * m : Int) = w + 2 * (2 ^ j * m) * 2 ^ i := by ring
  have hpow : (2 : Int) ^ i ≠ 0 := pow_ne_zero i (by decide)
  rw [bitAt, hsplit, Int.add_mul_ediv_right _ _ hpow, Nat.testBit_eq_decide_div_mod_eq, decide_eq_decide,
    Int.add_mul_emod_self_left]
  norm_cast

/-- A place of the high part. -/
theorem bitAt_high {w k : Nat} (hw : w < 2 ^ k) (m : Int) (i : Nat) : bitAt (w + 2 ^ k * m) (k + i) = bitAt m i := by
  have hpow : (0 : Int) ≤ 2 ^ k := pow_nonneg (by decide) k
  have hlow : (w : Int) / 2 ^ k = 0 := Int.ediv_eq_zero_of_lt (Int.natCast_nonneg w) (by exact_mod_cast hw)
  rw [bitAt, bitAt, pow_add, ← Int.ediv_ediv_of_nonneg hpow, Int.add_mul_ediv_left _ _ (pow_ne_zero k (by decide)),
    hlow, Int.zero_add]

namespace Words

/-- All bits of the word of a sign are the sign. -/
theorem testBit_fill_lt (negative : Bool) : ∀ i < 32, (fill negative).toNat.testBit i = negative := by
  cases negative <;> decide

/-- **The bits of words with a sign** are those of the words and, past their end, those of the word of the sign. -/
theorem bitAt_extend (negative : Bool) (ws : Words) (i : Nat) :
    bitAt (extend negative ws) i = (ws.getD (i / 32) (fill negative)).toNat.testBit (i % 32) := by
  induction ws generalizing i with
  | nil =>
    rw [List.getD_nil, testBit_fill_lt negative _ (Nat.mod_lt i (by decide)), extend_nil, ← testBit_eq_bitAt]
    cases negative
    · exact Nat.zero_testBit i
    · show (!Nat.testBit 0 i) = true
      rw [Nat.zero_testBit]
      rfl
  | cons w ws ih =>
    rw [extend_cons]
    by_cases hi : i < 32
    · rw [bitAt_low _ _ hi, Nat.div_eq_of_lt hi, Nat.mod_eq_of_lt hi]
      rfl
    · obtain ⟨j, rfl⟩ := Nat.exists_eq_add_of_le (Nat.le_of_not_lt hi)
      have hword : (32 + j) / 32 = j / 32 + 1 := by omega
      rw [bitAt_high w.toNat_lt, ih, hword, Nat.add_mod_left]
      rfl

end Words

namespace Integer

/-! ## Bitwise operations -/

/-- **Bitwise operations act on the expansions without end.** The words of an integer and its sign are the bits of its
number. Conjunction, disjunction and exclusive disjunction of integers of any sizes and signs combine these bits place
by place, the complement is one less than the negated number, and all of them are canonical. -/
theorem bits_exact {a b : Integer} (ha : a.Canonical) (hb : b.Canonical) :
    (∀ i, bitAt a.toInt i =
      (a.toTwosComplement.getD (i / 32) (Words.fill a.isNegative)).toNat.testBit (i % 32)) ∧
    (∀ i, bitAt (a.and b).toInt i = (bitAt a.toInt i && bitAt b.toInt i)) ∧
    (∀ i, bitAt (a.or b).toInt i = (bitAt a.toInt i || bitAt b.toInt i)) ∧
    (∀ i, bitAt (a.xor b).toInt i = (bitAt a.toInt i ^^ bitAt b.toInt i)) ∧
    a.not.toInt = -a.toInt - 1 ∧
    (a.and b).Canonical ∧ (a.or b).Canonical ∧ (a.xor b).Canonical ∧ a.not.Canonical := by
  refine ⟨fun i => ?_, fun i => ?_, fun i => ?_, fun i => ?_, ?_, canonical_bitwise _ a b, canonical_bitwise _ a b,
    canonical_bitwise _ a b, canonical_not ha⟩
  · rw [← Words.bitAt_extend, (toTwosComplement_exact ha).2.2]
  · rw [toInt_and ha hb]
    simp only [← testBit_eq_bitAt, Int.testBit_land]
  · rw [toInt_or ha hb]
    simp only [← testBit_eq_bitAt, Int.testBit_lor]
  · rw [toInt_xor ha hb]
    simp only [← testBit_eq_bitAt, Int.testBit_lxor]
  · rw [toInt_not ha, lnot_eq]
    omega

/-- A small integer below zero and a large one above it: past its only word the first one goes on with ones, which keep
the bits of the second one. -/
theorem bits_exact_signs :
    let a := small (-2)
    let b := large false [0xFFFFFFFF, 1]
    a.Canonical ∧ b.Canonical ∧ bitAt (a.and b).toInt 32 = true ∧ bitAt (a.and b).toInt 0 = false ∧
      a.not.toInt = 1 := by
  intro a b
  have ha : a.Canonical := fun h => by cases h
  have hb : b.Canonical := ⟨by simp [Words.Trimmed], by decide⟩
  obtain ⟨-, hand, -, -, hnot, -⟩ := bits_exact ha hb
  exact ⟨ha, hb, (hand 32).trans (by decide), (hand 0).trans (by decide), hnot⟩

end Integer

end ScriptMachine
