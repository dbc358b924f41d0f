import Mathlib.Data.Nat.Bitwise
import ScriptMachine.Integer.Codec
import ScriptMachine.Proofs.Integer.Words

/-! # One representation per number

Signed machine words denote their two's-complement values, and every way of making an integer makes a
canonical one. On canonical integers equality of representations is equality of numbers.

* `toInt_word32`, `toInt_word64`: signed words as unsigned ones.
* `Integer.toInt_eq_signed`: an integer is its sign and its magnitude.
* `Integer.canonical_ofMagnitude`, `Integer.toInt_ofMagnitude`, `Integer.toInt_ofInt64`: makers.
* `Integer.eq_iff_toInt_eq`: equality.
-/

namespace ScriptMachine

/-! ## Signed words -/

/-- A signed 32-bit word as an unsigned one. -/
theorem toInt_word32 (v : Int32) :
    v.toInt = if v.toUInt32.toNat < 2 ^ 31 then (v.toUInt32.toNat : Int)
      else (v.toUInt32.toNat : Int) - 2 ^ 32 := by
  have hlt := v.toBitVec.isLt
  show v.toBitVec.toInt = if v.toBitVec.toNat < 2 ^ 31 then (v.toBitVec.toNat : Int)
    else (v.toBitVec.toNat : Int) - 2 ^ 32
  rw [BitVec.toInt_eq_toNat_cond]
  split <;> split <;> omega

/-- A signed 64-bit word as an unsigned one. -/
theorem toInt_word64 (v : Int64) :
    v.toInt = if v.toUInt64.toNat < 2 ^ 63 then (v.toUInt64.toNat : Int)
      else (v.toUInt64.toNat : Int) - 2 ^ 64 := by
  have hlt := v.toBitVec.isLt
  show v.toBitVec.toInt = if v.toBitVec.toNat < 2 ^ 63 then (v.toBitVec.toNat : Int)
    else (v.toBitVec.toNat : Int) - 2 ^ 64
  rw [BitVec.toInt_eq_toNat_cond]
  split <;> split <;> omega

/-- The range of signed 32-bit words. -/
theorem toInt_range32 (v : Int32) : -2 ^ 31 ≤ v.toInt ∧ v.toInt < 2 ^ 31 := by
  have hlt := v.toUInt32.toNat_lt
  rw [toInt_word32]
  split <;> omega

/-- Negation of unsigned 32-bit words. -/
theorem toNat_neg_word32 (w : UInt32) : (-w).toNat = if w.toNat = 0 then 0 else 2 ^ 32 - w.toNat := by
  have hlt := w.toNat_lt
  rw [UInt32.toNat_neg]
  show (2 ^ 32 - w.toNat) % 2 ^ 32 = _
  split <;> omega

/-- Negation of unsigned 64-bit words. -/
theorem toNat_neg_word64 (w : UInt64) : (-w).toNat = if w.toNat = 0 then 0 else 2 ^ 64 - w.toNat := by
  have hlt := w.toNat_lt
  rw [UInt64.toNat_neg]
  show (2 ^ 64 - w.toNat) % 2 ^ 64 = _
  split <;> omega

/-- A signed word that is not the least one can be negated. -/
theorem toInt_neg_word32 {v : Int32} (h : v ≠ Int32.minValue) : (-v).toInt = -v.toInt := by
  have hlt := v.toUInt32.toNat_lt
  have hmin : v.toInt ≠ -2 ^ 31 := fun heq => h (Int32.toInt_inj.1 heq)
  rw [toInt_word32] at hmin
  rw [toInt_word32, toInt_word32, Int32.toUInt32_neg, toNat_neg_word32]
  split at hmin <;> split <;> split <;> omega

namespace Integer

/-! ## Sign and magnitude -/

/-- The number with a sign and a magnitude. -/
def signed (negative : Bool) (n : Nat) : Int := if negative then -(n : Int) else (n : Int)

/-- A small integer is below zero when its word is. -/
theorem isNegative_small (v : Int32) : (small v).isNegative = decide (v.toInt < 0) :=
  decide_eq_decide.2 Int32.lt_iff_toInt_lt

/-- A small integer is zero when its word is. -/
theorem isZero_small (v : Int32) : (small v).isZero = decide (v.toInt = 0) := by
  show (v == 0) = _
  rw [Bool.eq_iff_iff, beq_iff_eq, decide_eq_true_eq, ← Int32.toInt_inj]
  rfl

/-- The magnitude of a small integer. -/
theorem toNat_magnitude_small (v : Int32) : (small v).magnitude.toNat = v.toInt.natAbs := by
  have hlt := v.toUInt32.toNat_lt
  unfold magnitude
  dsimp only
  split
  · rename_i h
    rw [eq_of_beq h]
    rfl
  · rw [Words.toNat_singleton]
    split
    · rename_i h
      rw [Int32.lt_iff_toInt_lt] at h
      have h' : v.toInt < 0 := h
      rw [toInt_word32] at h' ⊢
      rw [Int32.toUInt32_neg, toNat_neg_word32]
      split at h'
      · omega
      · rename_i hneg
        rw [if_neg hneg]
        split <;> omega
    · rename_i h
      rw [Int32.lt_iff_toInt_lt] at h
      have h' : ¬ v.toInt < 0 := h
      rw [toInt_word32] at h' ⊢
      split at h'
      · rename_i hpos
        rw [if_pos hpos, Int.natAbs_natCast]
      · omega

/-- **An integer is its sign and its magnitude.** -/
theorem toInt_eq_signed (a : Integer) : a.toInt = signed a.isNegative a.magnitude.toNat := by
  cases a with
  | small v =>
    rw [isNegative_small, toNat_magnitude_small]
    show v.toInt = if decide (v.toInt < 0) = true then -(v.toInt.natAbs : Int) else v.toInt.natAbs
    split
    · rename_i h
      rw [decide_eq_true_eq] at h
      omega
    · rename_i h
      rw [decide_eq_true_eq] at h
      omega
  | large negative ws => rfl

/-- The magnitude of a canonical integer is trimmed. -/
theorem trimmed_magnitude {a : Integer} (ha : a.Canonical) : a.magnitude.Trimmed := by
  cases a with
  | small v =>
    unfold magnitude
    dsimp only
    split
    · exact Words.trimmed_nil
    · rename_i h
      refine (Words.trimmed_concat []).2 fun hzero => ?_
      have hnat := toNat_magnitude_small v
      unfold magnitude at hnat
      dsimp only at hnat
      rw [if_neg h, Words.toNat_singleton, hzero] at hnat
      have hv : v.toInt = 0 := Int.natAbs_eq_zero.1 hnat.symm
      exact h (beq_iff_eq.2 (Int32.toInt_inj.1 hv))
  | large negative ws => exact ha.1

/-- A canonical integer is zero when it denotes zero. -/
theorem isZero_iff {a : Integer} (ha : a.Canonical) : a.isZero = true ↔ a.toInt = 0 := by
  cases a with
  | small v =>
    rw [isZero_small, decide_eq_true_eq]
    rfl
  | large negative ws =>
    have hbig : 2 ^ 31 ≤ ws.toNat := ha.2
    refine ⟨fun h => absurd h Bool.false_ne_true, fun h => ?_⟩
    have h' : (if negative then -(ws.toNat : Int) else (ws.toNat : Int)) = 0 := h
    split at h' <;> omega

/-- The magnitude of an integer other than zero has a word. -/
theorem magnitude_ne_nil {a : Integer} (ha : a.Canonical) (hne : a.isZero = false) : a.magnitude ≠ [] := by
  intro h
  have hzero : a.toInt = 0 := by
    rw [toInt_eq_signed, h]
    cases a.isNegative <;> rfl
  rw [(isZero_iff ha).2 hzero] at hne
  cases hne

/-- The representation that the definition picks: a small word, or at least `2^31` in trimmed words. -/
theorem canonical_iff (a : Integer) : a.Canonical ↔
    match a with
    | small v => -2 ^ 31 < v.toInt ∧ v.toInt < 2 ^ 31
    | large _ ws => ws ≠ [] ∧ ws.getLast? ≠ some 0 ∧ ∀ w, ws = [w] → 2 ^ 31 - 1 < w.toNat := by
  cases a with
  | small v =>
    have hrange := toInt_range32 v
    have hmin : Int32.minValue.toInt = -2 ^ 31 := rfl
    show v ≠ Int32.minValue ↔ -2 ^ 31 < v.toInt ∧ v.toInt < 2 ^ 31
    rw [ne_eq, ← Int32.toInt_inj, hmin]
    omega
  | large negative ws =>
    show ws.Trimmed ∧ 0x80000000 ≤ ws.toNat ↔ _
    constructor
    · rintro ⟨htrim, hbig⟩
      refine ⟨?_, htrim, ?_⟩
      · rintro rfl
        exact absurd hbig (by decide)
      · rintro w rfl
        rw [Words.toNat_singleton] at hbig
        omega
    · rintro ⟨hne, htrim, hsingle⟩
      refine ⟨htrim, ?_⟩
      -- A single word is large by itself, and more words are large because the top one is not zero.
      match ws, hne, htrim, hsingle with
      | [w], _, _, hsingle =>
        have := hsingle w rfl
        rw [Words.toNat_singleton]
        omega
      | v :: w :: rest, hne, htrim, _ =>
        have hle := Words.le_toNat_of_trimmed htrim hne
        have hpow : 2 ^ (32 * 1) ≤ 2 ^ (32 * ((v :: w :: rest).length - 1)) :=
          Nat.pow_le_pow_right (by decide) (Nat.mul_le_mul_left 32 (by simp))
        omega

/-! ## Makers -/

/-- **Every sign and magnitude makes a canonical integer.** -/
theorem canonical_ofMagnitude (negative : Bool) (ws : Words) :
    (ofMagnitude negative ws).Canonical := by
  have htrim := Words.trimmed_trim ws
  unfold ofMagnitude
  split
  · exact fun h => by cases h
  · rename_i w hw
    split
    · rename_i hle
      rw [UInt32.le_iff_toNat_le] at hle
      have hle' : w.toNat ≤ 2 ^ 31 - 1 := hle
      -- Neither such a word nor its negation is the least signed word.
      intro hmin
      have hword : (if negative = true then -w.toInt32 else w.toInt32).toUInt32.toNat = 2 ^ 31 := by
        rw [hmin]
        rfl
      split at hword
      · rw [Int32.toUInt32_neg, UInt32.toUInt32_toInt32, toNat_neg_word32] at hword
        split at hword <;> omega
      · rw [UInt32.toUInt32_toInt32] at hword
        omega
    · rename_i hgt
      rw [UInt32.le_iff_toNat_le] at hgt
      have hgt' : ¬ w.toNat ≤ 2 ^ 31 - 1 := hgt
      rw [hw] at htrim
      refine ⟨htrim, ?_⟩
      rw [Words.toNat_singleton]
      omega
  · rename_i hnil hsingle
    refine (canonical_iff (large negative ws.trim)).2 ⟨hnil, htrim, fun w hw => ?_⟩
    exact absurd hw (hsingle w)

/-- **The integer of a sign and a magnitude denotes them.** -/
theorem toInt_ofMagnitude (negative : Bool) (ws : Words) :
    (ofMagnitude negative ws).toInt = signed negative ws.toNat := by
  rw [← Words.toNat_trim ws]
  unfold ofMagnitude
  split
  · rename_i h
    rw [h]
    cases negative <;> rfl
  · rename_i w hw
    rw [hw]
    split
    · rename_i hle
      rw [UInt32.le_iff_toNat_le] at hle
      have hle' : w.toNat ≤ 2 ^ 31 - 1 := hle
      show (if negative = true then -w.toInt32 else w.toInt32).toInt = _
      rw [Words.toNat_singleton, toInt_word32]
      unfold signed
      cases negative with
      | true =>
        rw [if_pos rfl, if_pos rfl, Int32.toUInt32_neg, UInt32.toUInt32_toInt32, toNat_neg_word32]
        split <;> split <;> omega
      | false =>
        rw [if_neg Bool.false_ne_true, if_neg Bool.false_ne_true, UInt32.toUInt32_toInt32,
          if_pos (by omega)]
    · rfl
  · rfl

/-- The two words of a 64-bit number. -/
theorem toNat_wordsOfUInt64 (value : UInt64) : (wordsOfUInt64 value).toNat = value.toNat :=
  Words.toNat_lowHigh value

/-- Unsigned 64-bit numbers make canonical integers that denote them. -/
theorem canonical_ofUInt64 (value : UInt64) :
    (ofUInt64 value).Canonical ∧ (ofUInt64 value).toInt = value.toNat := by
  refine ⟨canonical_ofMagnitude _ _, ?_⟩
  unfold ofUInt64
  rw [toInt_ofMagnitude, toNat_wordsOfUInt64]
  rfl

/-- A signed 64-bit number in the inline range keeps its value in 32 bits. -/
theorem toInt_inline {value : Int64}
    (h : (-0x80000000 < value && value ≤ 0x7FFFFFFF) = true) :
    -2 ^ 31 < value.toInt ∧ value.toInt32.toInt = value.toInt := by
  rw [Bool.and_eq_true, decide_eq_true_eq, decide_eq_true_eq, Int64.lt_iff_toInt_lt,
    Int64.le_iff_toInt_le] at h
  have hlow : -2 ^ 31 < value.toInt := h.1
  have hhigh : value.toInt ≤ 2 ^ 31 - 1 := h.2
  refine ⟨hlow, ?_⟩
  rw [Int64.toInt_toInt32, Int.bmod_eq_of_le (by omega) (by omega)]

/-- Signed 64-bit numbers make canonical integers. -/
theorem canonical_ofInt64 (value : Int64) : (ofInt64 value).Canonical := by
  unfold ofInt64
  split
  · rename_i h
    obtain ⟨hlow, hsame⟩ := toInt_inline h
    intro hmin
    have hleast : Int32.minValue.toInt = -2 ^ 31 := rfl
    rw [hmin, hleast] at hsame
    omega
  · exact canonical_ofMagnitude _ _

/-- **Signed 64-bit numbers make integers that denote them.** -/
theorem toInt_ofInt64 (value : Int64) : (ofInt64 value).toInt = value.toInt := by
  unfold ofInt64
  split
  · rename_i h
    exact (toInt_inline h).2
  · have hlt := value.toUInt64.toNat_lt
    rw [toInt_ofMagnitude, toNat_wordsOfUInt64]
    unfold signed
    by_cases hneg : value < 0
    · have hneg' : value.toInt < 0 := Int64.lt_iff_toInt_lt.1 hneg
      rw [if_pos (decide_eq_true hneg), if_pos hneg, Int64.toUInt64_neg, toNat_neg_word64]
      rw [toInt_word64] at hneg' ⊢
      split at hneg'
      · omega
      · split <;> omega
    · have hneg' : ¬ value.toInt < 0 := fun h => hneg (Int64.lt_iff_toInt_lt.2 h)
      rw [if_neg (by simpa using hneg), if_neg hneg]
      rw [toInt_word64] at hneg' ⊢
      split at hneg'
      · rename_i hpos
        rw [if_pos hpos]
      · omega

/-- Two's-complement words make canonical integers. -/
theorem canonical_ofTwosComplement (ws : Words) : (ofTwosComplement ws).Canonical := by
  unfold ofTwosComplement
  split
  · exact canonical_ofMagnitude _ _
  · exact canonical_ofMagnitude _ _

/-- Byte strings make canonical integers. -/
theorem canonical_ofBytes (b : Bytes) : (ofBytes b).Canonical := by
  unfold ofBytes
  split
  · exact fun h => by cases h
  · exact canonical_ofTwosComplement _

/-! ## Equality -/

/-- **On canonical integers equality is equality of numbers.** -/
theorem eq_iff_toInt_eq {a b : Integer} (ha : a.Canonical) (hb : b.Canonical) :
    a = b ↔ a.toInt = b.toInt := by
  refine ⟨congrArg toInt, fun h => ?_⟩
  -- A small and a large integer differ in size; two large ones are told apart by sign and magnitude.
  have apart : ∀ (v : Int32) (negative : Bool) (ws : Words), (small v).Canonical →
      (large negative ws).Canonical → (small v).toInt ≠ (large negative ws).toInt := by
    intro v negative ws hv hws heq
    have hv' := (canonical_iff (small v)).1 hv
    have hbig : 2 ^ 31 ≤ ws.toNat := hws.2
    have heq' : v.toInt = if negative then -(ws.toNat : Int) else (ws.toNat : Int) := heq
    dsimp only at hv'
    split at heq' <;> omega
  cases a with
  | small v =>
    cases b with
    | small w => exact congrArg small (Int32.toInt_inj.1 h)
    | large negative ws => exact absurd h (apart v negative ws ha hb)
  | large negative ws =>
    cases b with
    | small w => exact absurd h.symm (apart w negative ws hb ha)
    | large negative' ws' =>
      have hbig : 2 ^ 31 ≤ ws.toNat := ha.2
      have hbig' : 2 ^ 31 ≤ ws'.toNat := hb.2
      have h' : signed negative ws.toNat = signed negative' ws'.toNat := h
      unfold signed at h'
      cases negative <;> cases negative' <;> simp only [if_true, if_false, Bool.false_eq_true] at h'
      · rw [Words.eq_of_toNat_eq ha.1 hb.1 (by omega)]
      · omega
      · omega
      · rw [Words.eq_of_toNat_eq ha.1 hb.1 (by omega)]

end Integer

end ScriptMachine
