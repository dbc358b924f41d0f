import Mathlib.Algebra.Order.Ring.Int
import ScriptMachine.Proofs.Integer.Arithmetic
import ScriptMachine.Proofs.Integer.Shifts

/-! # Order, sign and narrowing

* `Integer.toInt_signum`: the sign.
* `Integer.order_eq`, `Integer.less_eq`, `Integer.atMost_eq`: comparisons are those of the numbers.
* `Integer.toInt_min`, `Integer.toInt_max`.
* `Integer.toInt32?_eq`, `Integer.toInt64?_eq`: narrowing to 32 and to 64 bits.
-/

namespace ScriptMachine

namespace Integer

/-! ## Signs -/

/-- A large integer is far from zero. -/
theorem le_natAbs_large {negative : Bool} {ws : Words} (h : (large negative ws).Canonical) :
    2 ^ 31 ≤ (large negative ws).toInt.natAbs := by
  have hws : 2 ^ 31 ≤ ws.toNat := h.2
  cases negative
  · show 2 ^ 31 ≤ Int.natAbs (ws.toNat : Int)
    omega
  · show 2 ^ 31 ≤ Int.natAbs (-(ws.toNat : Int))
    omega

/-- **The sign of an integer is the sign of its number.** -/
theorem toInt_signum {a : Integer} (ha : a.Canonical) : a.signum.toInt = a.toInt.sign := by
  cases a with
  | small v =>
    by_cases hneg : v < 0
    · have hneg' : v.toInt < 0 := Int32.lt_iff_toInt_lt.1 hneg
      simp [signum, toInt, hneg, Int.sign_eq_neg_one_of_neg hneg']
    by_cases hzero : v = 0
    · subst hzero
      rfl
    · have hpos : 0 < v.toInt := by
        have h1 : ¬ v.toInt < 0 := fun h => hneg (Int32.lt_iff_toInt_lt.2 h)
        have h2 : v.toInt ≠ 0 := fun h => hzero (Int32.toInt_inj.1 h)
        omega
      simp [signum, toInt, hneg, hzero, Int.sign_eq_one_of_pos hpos]
  | large negative ws =>
    have hlarge : 2 ^ 31 ≤ ws.toNat := ha.2
    cases negative
    · show (1 : Int) = Int.sign (ws.toNat : Int)
      rw [Int.sign_eq_one_of_pos (by omega)]
    · show (-1 : Int) = Int.sign (-(ws.toNat : Int))
      rw [Int.sign_eq_neg_one_of_neg (by omega)]

/-! ## Order -/

/-- Machine words are compared as numbers. -/
theorem compare_int32 (x y : Int32) : compare x y = compare x.toInt y.toInt := by
  show compareOfLessAndEq x y = compareOfLessAndEq x.toInt y.toInt
  simp only [compareOfLessAndEq, Int32.lt_iff_toInt_lt, ← Int32.toInt_inj]

/-- Magnitudes of one sign are compared as numbers, in reverse below zero. -/
theorem compare_signed (negative : Bool) (m n : Nat) :
    (if negative then (compare m n).swap else compare m n) = compare (signed negative m) (signed negative n) := by
  cases negative
  · show compareOfLessAndEq m n = compareOfLessAndEq (m : Int) (n : Int)
    simp [compareOfLessAndEq]
  · rw [if_pos rfl, Nat.compare_swap]
    show compareOfLessAndEq n m = compareOfLessAndEq (-(m : Int)) (-(n : Int))
    simp [compareOfLessAndEq, eq_comm]

theorem lt_of_sign_lt {x y : Int} (h : x.sign < y.sign) : x < y := by
  obtain hy | rfl | hy := lt_trichotomy y 0
  · rw [Int.sign_eq_neg_one_of_neg hy] at h
    have := Int.sign_trichotomy x
    omega
  · rw [Int.sign_zero] at h
    exact Int.sign_neg_iff.1 h
  · have hx : ¬ 0 < x := fun hx => by
      rw [Int.sign_eq_one_of_pos hx, Int.sign_eq_one_of_pos hy] at h
      omega
    omega

/-- Numbers of different sign are compared by their signs. -/
theorem compare_sign {x y : Int} (h : x.sign ≠ y.sign) : compare x.sign y.sign = compare x y := by
  obtain hlt | hgt := lt_or_gt_of_ne h
  · rw [Int.compare_eq_lt.2 hlt, Int.compare_eq_lt.2 (lt_of_sign_lt hlt)]
  · rw [Int.compare_eq_gt.2 hgt, Int.compare_eq_gt.2 (lt_of_sign_lt hgt)]

/-- **Integers are compared as numbers.** -/
theorem order_eq {a b : Integer} (ha : a.Canonical) (hb : b.Canonical) :
    a.order b = compare a.toInt b.toInt := by
  have hsign : compare a.signum b.signum = compare a.toInt.sign b.toInt.sign := by
    rw [compare_int32, toInt_signum ha, toInt_signum hb]
  by_cases heq : a.toInt.sign = b.toInt.sign
  · have hneg : a.isNegative = b.isNegative := by
      rw [Bool.eq_iff_iff, isNegative_iff ha, isNegative_iff hb, ← Int.sign_eq_neg_one_iff_neg,
        ← Int.sign_eq_neg_one_iff_neg, heq]
    rw [Int.compare_eq_eq.2 heq] at hsign
    unfold order
    rw [hsign]
    dsimp only
    split
    · exact compare_int32 _ _
    · rw [Words.order_eq (trimmed_magnitude ha) (trimmed_magnitude hb), compare_signed, ← toInt_eq_signed, hneg,
        ← toInt_eq_signed]
  · rw [compare_sign heq] at hsign
    have hne : compare a.signum b.signum ≠ .eq := by
      rw [hsign, ne_eq, Int.compare_eq_eq]
      exact fun h => heq (congrArg Int.sign h)
    rw [← hsign]
    unfold order
    split
    · rename_i h
      exact absurd h hne
    · rfl

/-- The strict order. -/
theorem less_eq {a b : Integer} (ha : a.Canonical) (hb : b.Canonical) : a.less b = decide (a.toInt < b.toInt) := by
  rw [less, order_eq ha hb, Bool.eq_iff_iff, beq_iff_eq, decide_eq_true_eq, Int.compare_eq_lt]

/-- The order. -/
theorem atMost_eq {a b : Integer} (ha : a.Canonical) (hb : b.Canonical) :
    a.atMost b = decide (a.toInt ≤ b.toInt) := by
  rw [atMost, order_eq ha hb, Bool.eq_iff_iff, bne_iff_ne, decide_eq_true_eq, ne_eq, Int.compare_eq_gt,
    Int.not_lt]

/-- **The smaller integer.** -/
theorem toInt_min {a b : Integer} (ha : a.Canonical) (hb : b.Canonical) :
    (a.min b).toInt = Min.min a.toInt b.toInt := by
  rw [min, atMost_eq ha hb]
  by_cases h : a.toInt ≤ b.toInt
  · simp [h]
  · simp [h, min_eq_right (Int.le_of_not_le h)]

/-- **The larger integer.** -/
theorem toInt_max {a b : Integer} (ha : a.Canonical) (hb : b.Canonical) :
    (a.max b).toInt = Max.max a.toInt b.toInt := by
  rw [max, atMost_eq ha hb]
  by_cases h : a.toInt ≤ b.toInt
  · simp [h]
  · simp [h, max_eq_left (Int.le_of_not_le h)]

/-- Of two canonical integers, the smaller and the larger one are canonical. -/
theorem canonical_choice {a b : Integer} (ha : a.Canonical) (hb : b.Canonical) :
    (a.min b).Canonical ∧ (a.max b).Canonical := by
  unfold min max
  split
  · exact ⟨ha, hb⟩
  · exact ⟨hb, ha⟩

/-! ## Narrowing -/

/-- Only one large integer has at most 32 bits. -/
theorem toInt32?_large {negative : Bool} {ws : Words} (h : large negative ws ≠ large true [0x80000000]) :
    (large negative ws).toInt32? = none := by
  match negative, ws with
  | false, _ => rfl
  | true, [] => rfl
  | true, _ :: _ :: _ => rfl
  | true, [w] =>
    have hw : w ≠ 0x80000000 := fun hw => h (hw ▸ rfl)
    simp [toInt32?, hw]

/-- **Narrowing to 32 bits** gives the number if it has at most 32 bits. -/
theorem toInt32?_eq {a : Integer} (ha : a.Canonical) :
    a.toInt32?.map Int32.toInt = if -2 ^ 31 ≤ a.toInt ∧ a.toInt < 2 ^ 31 then some a.toInt else none := by
  cases a with
  | small v => exact (if_pos (toInt_range32 v)).symm
  | large negative ws =>
    by_cases hmin : large negative ws = large true [0x80000000]
    · rw [hmin]
      decide
    · rw [toInt32?_large hmin, if_neg]
      · rfl
      · rintro ⟨hlow, hhigh⟩
        have hlarge := le_natAbs_large ha
        have hint : (large negative ws).toInt = (large true [0x80000000]).toInt := by
          show _ = (-2147483648 : Int)
          omega
        have hcanonical : (large true [0x80000000]).Canonical := ⟨by simp [Words.Trimmed], by decide⟩
        exact hmin ((eq_iff_toInt_eq ha hcanonical).2 hint)

/-- The number of at most two words fits 64 bits. -/
theorem toNat_twoWords {ws : Words} (hlen : ws.length ≤ 2) :
    ((ws.headD 0).toUInt64 ||| ((ws.getD 1 0).toUInt64 <<< 32)).toNat = ws.toNat := by
  rw [UInt64.or_comm, Words.toNat_joined (Words.toNat_toUInt64_lt _) (Words.toNat_toUInt64_lt _),
    UInt32.toNat_toUInt64, UInt32.toNat_toUInt64]
  match ws, hlen with
  | [], _ => rfl
  | [w], _ => simp [Words.toNat_cons]
  | [w, v], _ => simp [Words.toNat_cons, Nat.mul_comm, Nat.add_comm]

/-- A magnitude below `2 ^ 63` keeps its value as a signed word, under both signs. -/
theorem toInt_signed_word64 (negative : Bool) {m : UInt64} (hm : m.toNat < 2 ^ 63) :
    (if negative then -m.toInt64 else m.toInt64).toInt = signed negative m.toNat := by
  cases negative with
  | false =>
    rw [if_neg Bool.false_ne_true, toInt_word64, UInt64.toUInt64_toInt64, if_pos hm]
    rfl
  | true =>
    rw [if_pos rfl, toInt_word64, Int64.toUInt64_neg, UInt64.toUInt64_toInt64, toNat_neg_word64]
    unfold signed
    rw [if_pos rfl]
    split <;> split <;> omega

/-- The range of signed words of 64 bits, by sign and magnitude. -/
theorem signed_range64 (negative : Bool) (n : Nat) :
    (-2 ^ 63 ≤ signed negative n ∧ signed negative n < 2 ^ 63) ↔ n < 2 ^ 63 ∨ (negative = true ∧ n = 2 ^ 63) := by
  unfold signed
  cases negative with
  | false =>
    rw [if_neg Bool.false_ne_true]
    simp only [Bool.false_eq_true, false_and, or_false]
    omega
  | true =>
    rw [if_pos rfl]
    simp only [true_and]
    omega

/-- **Narrowing to 64 bits** gives the number if it has at most 64 bits. -/
theorem toInt64?_eq {a : Integer} (ha : a.Canonical) :
    a.toInt64?.map Int64.toInt = if -2 ^ 63 ≤ a.toInt ∧ a.toInt < 2 ^ 63 then some a.toInt else none := by
  cases a with
  | small v =>
    have hrange := toInt_range32 v
    have hint : (small v).toInt = v.toInt := rfl
    rw [hint, if_pos (by omega)]
    exact congrArg some (Int32.toInt_toInt64 v)
  | large negative ws =>
    have hint : (large negative ws).toInt = signed negative ws.toNat := rfl
    have hmin : Int64.minValue.toInt = signed true (2 ^ 63) := rfl
    simp only [hint, signed_range64]
    unfold toInt64?
    dsimp only
    by_cases hlen : ws.length ≤ 2
    · have hm := toNat_twoWords hlen
      rw [if_pos hlen]
      generalize (ws.headD 0).toUInt64 ||| ((ws.getD 1 0).toUInt64 <<< 32) = m at hm
      have hle : m ≤ 0x7FFFFFFFFFFFFFFF ↔ ws.toNat < 2 ^ 63 := by
        rw [UInt64.le_iff_toNat_le, hm]
        exact Nat.lt_succ_iff.symm
      have heq : m = 0x8000000000000000 ↔ ws.toNat = 2 ^ 63 := by
        rw [← UInt64.toNat_inj, hm]
        rfl
      by_cases hsmall : ws.toNat < 2 ^ 63
      · rw [if_pos (hle.2 hsmall), if_pos (Or.inl hsmall), Option.map_some,
          toInt_signed_word64 negative (hm ▸ hsmall), hm]
      rw [if_neg (mt hle.1 hsmall)]
      -- Of the numbers that are left only the least one has 64 bits.
      by_cases hleast : negative = true ∧ ws.toNat = 2 ^ 63
      · rw [if_pos (Or.inr hleast), if_pos (by simp [hleast.1, heq.2 hleast.2]), Option.map_some, hmin, hleast.1,
          hleast.2]
      · rw [if_neg (not_or.2 ⟨hsmall, hleast⟩), if_neg (by simpa [heq] using hleast)]
        rfl
    · have hlarge := Words.le_toNat_of_trimmed ha.1 (by rintro rfl; exact hlen (by decide))
      have hpow : 2 ^ (32 * 2) ≤ 2 ^ (32 * (ws.length - 1)) := Nat.pow_le_pow_right (by decide) (by omega)
      rw [if_neg hlen, if_neg (by omega)]
      rfl

/-- What is narrowed to 64 bits keeps its number. -/
theorem toInt_of_toInt64? {a : Integer} (ha : a.Canonical) {w : Int64} (hw : a.toInt64? = some w) :
    w.toInt = a.toInt := by
  have hnarrow := toInt64?_eq ha
  rw [hw] at hnarrow
  split at hnarrow
  · exact Option.some.inj hnarrow
  · cases hnarrow

end Integer

end ScriptMachine
