import ScriptMachine.Proofs.Integer.Canonical

/-! # Exact arithmetic

Sums, differences, products, negation and absolute values of canonical integers are canonical and denote
what they should. Two small operands are combined in 64 bits, which never overflow; all others go through
sign and magnitude, where the larger magnitude gives the sign of a difference.

* `Integer.toInt_add`, `Integer.toInt_sub`, `Integer.toInt_mul`, `Integer.toInt_neg`, `Integer.toInt_abs`.
* `Integer.canonical_add` and so on, also for quotients, bits and shifts.
* `Integer.representation_exact`: the whole of it.
-/

namespace ScriptMachine

namespace Integer

/-! ## Two small operands -/

/-- The sum of two small operands fits 64 bits. -/
theorem toInt_add_small (x y : Int32) : (x.toInt64 + y.toInt64).toInt = x.toInt + y.toInt := by
  have hx := toInt_range32 x
  have hy := toInt_range32 y
  rw [Int64.toInt_add, Int32.toInt_toInt64, Int32.toInt_toInt64,
    Int.bmod_eq_of_le (by omega) (by omega)]

/-- The difference of two small operands fits 64 bits. -/
theorem toInt_sub_small (x y : Int32) : (x.toInt64 - y.toInt64).toInt = x.toInt - y.toInt := by
  have hx := toInt_range32 x
  have hy := toInt_range32 y
  rw [Int64.toInt_sub, Int32.toInt_toInt64, Int32.toInt_toInt64,
    Int.bmod_eq_of_le (by omega) (by omega)]

/-- The product of two small operands fits 64 bits. -/
theorem toInt_mul_small (x y : Int32) : (x.toInt64 * y.toInt64).toInt = x.toInt * y.toInt := by
  have hx := toInt_range32 x
  have hy := toInt_range32 y
  have hbound : (x.toInt * y.toInt).natAbs ≤ 2 ^ 31 * 2 ^ 31 := by
    rw [Int.natAbs_mul]
    exact Nat.mul_le_mul (by omega) (by omega)
  rw [Int64.toInt_mul, Int32.toInt_toInt64, Int32.toInt_toInt64,
    Int.bmod_eq_of_le (by omega) (by omega)]

/-! ## Signs and magnitudes -/

/-- Two numbers of one sign are added by their magnitudes. -/
theorem signed_add (negative : Bool) (m n : Nat) :
    signed negative (m + n) = signed negative m + signed negative n := by
  unfold signed
  cases negative <;> simp only [if_true, if_false, Bool.false_eq_true] <;> omega

/-- The other sign negates. -/
theorem signed_not (negative : Bool) (n : Nat) : signed (!negative) n = -signed negative n := by
  unfold signed
  cases negative <;> simp

/-- Numbers are multiplied by their signs and their magnitudes. -/
theorem signed_mul (negative negative' : Bool) (m n : Nat) :
    signed (negative != negative') (m * n) = signed negative m * signed negative' n := by
  unfold signed
  cases negative <;> cases negative' <;> simp

/-- **The difference of two magnitudes takes the sign of the larger one.** -/
theorem toInt_signedDifference (negative : Bool) {a b : Words} (ha : a.Trimmed) (hb : b.Trimmed) :
    (signedDifference negative a b).toInt = signed negative a.toNat - signed negative b.toNat := by
  have hexact := Register.toNat_sub ha hb
  unfold signedDifference
  rw [toInt_ofMagnitude]
  -- The flag tells that the second magnitude is the larger one, which turns the sign.
  cases hflip : (Register.sub a b).1 with
  | true =>
    rw [hflip, if_pos rfl] at hexact
    rw [Bool.bne_true, signed_not, ← hexact, signed_add]
    omega
  | false =>
    rw [hflip, if_neg Bool.false_ne_true] at hexact
    rw [Bool.bne_false, ← hexact, signed_add]
    omega

/-- The difference of two magnitudes is canonical. -/
theorem canonical_signedDifference (negative : Bool) (a b : Words) :
    (signedDifference negative a b).Canonical := canonical_ofMagnitude _ _

/-! ## The operations -/

/-- Negation keeps canonical integers. -/
theorem canonical_neg {a : Integer} (ha : a.Canonical) : a.neg.Canonical := by
  cases a with
  | small v =>
    have hv := (canonical_iff (small v)).1 ha
    refine (canonical_iff (small (-v))).2 ?_
    dsimp only at hv ⊢
    rw [toInt_neg_word32 ha]
    omega
  | large negative ws => exact ha

/-- **Negation is exact**: a canonical integer never holds the least signed word. -/
theorem toInt_neg {a : Integer} (ha : a.Canonical) : a.neg.toInt = -a.toInt := by
  cases a with
  | small v => exact toInt_neg_word32 ha
  | large negative ws => exact signed_not negative ws.toNat

/-- The sign of a canonical integer is the sign of its number: there is no large zero. -/
theorem isNegative_iff {a : Integer} (ha : a.Canonical) : a.isNegative = true ↔ a.toInt < 0 := by
  cases a with
  | small v =>
    rw [isNegative_small, decide_eq_true_eq]
    rfl
  | large negative ws =>
    have hbig : 2 ^ 31 ≤ ws.toNat := ha.2
    show negative = true ↔ signed negative ws.toNat < 0
    unfold signed
    cases negative with
    | false =>
      rw [if_neg Bool.false_ne_true]
      exact iff_of_false Bool.false_ne_true (by omega)
    | true =>
      rw [if_pos rfl]
      exact iff_of_true rfl (by omega)

/-- Absolute values are canonical. -/
theorem canonical_abs {a : Integer} (ha : a.Canonical) : a.abs.Canonical := by
  unfold abs
  split
  · exact canonical_neg ha
  · exact ha

/-- **Absolute values are exact.** -/
theorem toInt_abs {a : Integer} (ha : a.Canonical) : a.abs.toInt = |a.toInt| := by
  unfold abs
  split
  · rename_i h
    rw [toInt_neg ha, abs_of_neg ((isNegative_iff ha).1 h)]
  · rename_i h
    rw [isNegative_iff ha, not_lt] at h
    rw [abs_of_nonneg h]

/-- Sums are canonical. -/
theorem canonical_add {a b : Integer} (ha : a.Canonical) (hb : b.Canonical) :
    (a.add b).Canonical := by
  unfold add
  split
  · exact canonical_ofInt64 _
  · split
    · exact hb
    · split
      · exact ha
      · split
        · exact canonical_ofMagnitude _ _
        · exact canonical_signedDifference _ _ _

/-- **Sums are exact.** -/
theorem toInt_add {a b : Integer} (ha : a.Canonical) (hb : b.Canonical) :
    (a.add b).toInt = a.toInt + b.toInt := by
  unfold add
  split
  · rw [toInt_ofInt64]
    exact toInt_add_small _ _
  · split
    · rename_i h
      rw [(isZero_iff ha).1 h, zero_add]
    · split
      · rename_i h
        rw [(isZero_iff hb).1 h, add_zero]
      · rw [toInt_eq_signed a, toInt_eq_signed b]
        split
        · rename_i hsign
          rw [toInt_ofMagnitude, Register.toNat_add, signed_add, ← eq_of_beq hsign]
        · rename_i hsign
          have hother : b.isNegative = !a.isNegative :=
            Bool.eq_not.2 fun h => hsign (beq_iff_eq.2 h.symm)
          rw [toInt_signedDifference _ (trimmed_magnitude ha) (trimmed_magnitude hb), hother,
            signed_not, sub_eq_add_neg]

/-- Differences are canonical. -/
theorem canonical_sub {a b : Integer} (ha : a.Canonical) (hb : b.Canonical) :
    (a.sub b).Canonical := by
  unfold sub
  split
  · exact canonical_ofInt64 _
  · split
    · exact canonical_neg hb
    · split
      · exact ha
      · split
        · exact canonical_signedDifference _ _ _
        · exact canonical_ofMagnitude _ _

/-- **Differences are exact.** -/
theorem toInt_sub {a b : Integer} (ha : a.Canonical) (hb : b.Canonical) :
    (a.sub b).toInt = a.toInt - b.toInt := by
  unfold sub
  split
  · rw [toInt_ofInt64]
    exact toInt_sub_small _ _
  · split
    · rename_i h
      rw [(isZero_iff ha).1 h, zero_sub, toInt_neg hb]
    · split
      · rename_i h
        rw [(isZero_iff hb).1 h, sub_zero]
      · rw [toInt_eq_signed a, toInt_eq_signed b]
        split
        · rename_i hsign
          rw [toInt_signedDifference _ (trimmed_magnitude ha) (trimmed_magnitude hb),
            ← eq_of_beq hsign]
        · rename_i hsign
          have hother : b.isNegative = !a.isNegative :=
            Bool.eq_not.2 fun h => hsign (beq_iff_eq.2 h.symm)
          rw [toInt_ofMagnitude, Register.toNat_add, signed_add, hother, signed_not, sub_neg_eq_add]

/-- Products are canonical. -/
theorem canonical_mul (a b : Integer) : (a.mul b).Canonical := by
  unfold mul
  split
  · exact canonical_ofInt64 _
  · exact canonical_ofMagnitude _ _

/-- **Products are exact.** -/
theorem toInt_mul (a b : Integer) : (a.mul b).toInt = a.toInt * b.toInt := by
  unfold mul
  split
  · rw [toInt_ofInt64]
    exact toInt_mul_small _ _
  · rw [toInt_ofMagnitude, Register.toNat_mul, signed_mul, ← toInt_eq_signed, ← toInt_eq_signed]

/-- A quotient by anything but zero exists and is canonical. -/
theorem canonical_div (a : Integer) {d : Integer} (hd : d.isZero = false) :
    ∃ q, a.div? d = some q ∧ q.Canonical := by
  unfold div?
  rw [hd, if_neg Bool.false_ne_true]
  split
  · exact ⟨_, rfl, canonical_ofInt64 _⟩
  · exact ⟨_, rfl, canonical_ofMagnitude _ _⟩

/-- A remainder by anything but zero exists and is canonical. -/
theorem canonical_rem (a : Integer) {d : Integer} (hd : d.isZero = false) :
    ∃ r, a.rem? d = some r ∧ r.Canonical := by
  unfold rem?
  rw [hd, if_neg Bool.false_ne_true]
  split
  · exact ⟨_, rfl, canonical_ofInt64 _⟩
  · exact ⟨_, rfl, canonical_ofMagnitude _ _⟩

/-- Bitwise operations on words give canonical integers. -/
theorem canonical_bitwise (op : UInt32 → UInt32 → UInt32) (a b : Integer) :
    (bitwise op a b).Canonical := by
  unfold bitwise
  split
  · exact canonical_ofInt64 _
  · exact canonical_ofTwosComplement _

/-- One is canonical. -/
theorem canonical_one : one.Canonical := fun h => by cases h

/-- Complements are canonical. -/
theorem canonical_not {a : Integer} (ha : a.Canonical) : a.not.Canonical :=
  canonical_neg (canonical_add ha canonical_one)

/-- Scaling up keeps canonical integers. -/
theorem canonical_scaleUp {a : Integer} (ha : a.Canonical) (amount : Nat) :
    (a.scaleUp amount).Canonical := by
  unfold scaleUp
  split
  · exact ha
  · exact canonical_ofMagnitude _ _

/-- Scaling down keeps canonical integers. -/
theorem canonical_scaleDown {a : Integer} (ha : a.Canonical) (amount : Nat) :
    (a.scaleDown amount).Canonical := by
  unfold scaleDown
  split
  · exact ha
  · split
    · exact canonical_ofMagnitude _ _
    · exact canonical_ofMagnitude _ _

/-- Shifts keep canonical integers. -/
theorem canonical_shift {a : Integer} (ha : a.Canonical) (amount : Int) :
    (a.shiftLeft amount).Canonical ∧ (a.shiftRight amount).Canonical := by
  unfold shiftLeft shiftRight
  split
  · exact ⟨canonical_scaleUp ha _, canonical_scaleDown ha _⟩
  · exact ⟨canonical_scaleDown ha _, canonical_scaleUp ha _⟩

/-! ## The representation as a whole -/

/-- **Canonical integers represent the integers, one each, and their arithmetic is exact.** The canonical
ones are the inline numbers but the least signed word, and the trimmed magnitudes that are no inline
number. All that is read from machine words and bytes is canonical; sums, differences, products, negation
and absolute values are canonical and denote what they should; quotients and remainders by anything but
zero exist and, like bits and shifts, are canonical; an inline number is never negated to a word that
denotes something else; and equality of representations is equality of numbers. -/
theorem representation_exact :
    (∀ a : Integer, a.Canonical ↔
      match a with
      | small v => -2 ^ 31 < v.toInt ∧ v.toInt < 2 ^ 31
      | large _ ws => ws ≠ [] ∧ ws.getLast? ≠ some 0 ∧ ∀ w, ws = [w] → 2 ^ 31 - 1 < w.toNat) ∧
    (∀ v : Int64, (ofInt64 v).Canonical ∧ (ofInt64 v).toInt = v.toInt) ∧
    (∀ v : UInt64, (ofUInt64 v).Canonical ∧ (ofUInt64 v).toInt = v.toNat) ∧
    (∀ d : Bytes, (ofBytes d).Canonical) ∧
    ∀ a b : Integer, a.Canonical → b.Canonical →
      ((a.add b).Canonical ∧ (a.add b).toInt = a.toInt + b.toInt) ∧
      ((a.sub b).Canonical ∧ (a.sub b).toInt = a.toInt - b.toInt) ∧
      ((a.mul b).Canonical ∧ (a.mul b).toInt = a.toInt * b.toInt) ∧
      (a.neg.Canonical ∧ a.neg.toInt = -a.toInt) ∧
      (a.abs.Canonical ∧ a.abs.toInt = |a.toInt|) ∧
      (b.toInt = 0 → a.div? b = none ∧ a.rem? b = none) ∧
      (b.toInt ≠ 0 → (∃ q, a.div? b = some q ∧ q.Canonical) ∧
        ∃ r, a.rem? b = some r ∧ r.Canonical) ∧
      ((a.and b).Canonical ∧ (a.or b).Canonical ∧ (a.xor b).Canonical ∧ a.not.Canonical) ∧
      (∀ amount : Int, (a.shiftLeft amount).Canonical ∧ (a.shiftRight amount).Canonical) ∧
      (∀ v, a = small v → (-v).toInt = -v.toInt) ∧
      (a = b ↔ a.toInt = b.toInt) := by
  refine ⟨canonical_iff, fun v => ⟨canonical_ofInt64 v, toInt_ofInt64 v⟩, canonical_ofUInt64,
    canonical_ofBytes, fun a b ha hb => ?_⟩
  refine ⟨⟨canonical_add ha hb, toInt_add ha hb⟩, ⟨canonical_sub ha hb, toInt_sub ha hb⟩,
    ⟨canonical_mul a b, toInt_mul a b⟩, ⟨canonical_neg ha, toInt_neg ha⟩,
    ⟨canonical_abs ha, toInt_abs ha⟩, fun hzero => ?_, fun hzero => ?_,
    ⟨canonical_bitwise _ a b, canonical_bitwise _ a b, canonical_bitwise _ a b, canonical_not ha⟩,
    canonical_shift ha, fun v hv => ?_, eq_iff_toInt_eq ha hb⟩
  · have hb' : b.isZero = true := (isZero_iff hb).2 hzero
    unfold div? rem?
    exact ⟨if_pos hb', if_pos hb'⟩
  · have hb' : b.isZero = false := Bool.eq_false_iff.2 fun h => hzero ((isZero_iff hb).1 h)
    exact ⟨canonical_div a hb', canonical_rem a hb'⟩
  · subst hv
    exact toInt_neg ha

/-- The least signed word of 32 bits is stored as a sign and a magnitude, and negating it is exact. -/
theorem representation_exact_at_boundary :
    let a := large true [0x80000000]
    a.Canonical ∧ one.Canonical ∧ (a.add one).toInt = -2147483647 ∧ a.neg.toInt = 2147483648 := by
  have ha : (large true [0x80000000]).Canonical := ⟨by simp [Words.Trimmed], by decide⟩
  obtain ⟨hadd, -, -, hneg, -⟩ := representation_exact.2.2.2.2 _ _ ha canonical_one
  exact ⟨ha, canonical_one, hadd.2, hneg.2⟩

end Integer

end ScriptMachine
