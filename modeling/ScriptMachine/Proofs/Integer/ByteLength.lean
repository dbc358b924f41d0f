import ScriptMachine.Proofs.Integer.Canonical
import ScriptMachine.Item.Basic

/-! # The length of the byte form

The length of the byte form is found by range for small integers; here it is shown to be the length of
the bytes that are written, and bounded for counts.

* `Integer.size_toBytes`: `byteLength` is the length of `toBytes`.
* `Integer.byteLength_ofNat_le`: a count takes at most nine bytes.
* `Item.byteViewSize_eq`: the length of a byte view, found without making the view.
-/

namespace ScriptMachine

namespace Integer

/-! ## Bytes and words as numbers -/

/-- The top bit of a byte. -/
theorem and_0x80_eq_zero_iff (b : UInt8) : (b &&& 0x80 == 0) = decide (b.toNat < 128) := by
  -- There are 256 bytes to look at.
  have hall : ∀ n : Fin 256,
      (UInt8.ofNat n &&& 0x80 == 0) = decide ((UInt8.ofNat n).toNat < 128) := by
    decide +kernel
  have h := hall ⟨b.toNat, b.toNat_lt⟩
  rwa [UInt8.ofNat_toNat] at h

/-- The top bit of a word. -/
theorem signBit_singleton (w : UInt32) : signBit [w] = decide (2 ^ 31 ≤ w.toNat) := by
  have hlt := w.toNat_lt
  have hmask : (0x80000000 : UInt32).toNat = 2 ^ 31 := rfl
  have hand : (w &&& 0x80000000).toNat = (w.toNat.testBit 31).toNat * 2 ^ 31 := by
    rw [UInt32.toNat_and, hmask, Nat.and_two_pow]
  have hbit : w.toNat.testBit 31 = decide (2 ^ 31 ≤ w.toNat) := by
    rw [Nat.testBit_eq_decide_div_mod_eq, decide_eq_decide]
    omega
  show (w &&& 0x80000000 != 0) = _
  rw [← hbit, Bool.eq_iff_iff, bne_iff_ne, ne_eq, ← UInt32.toNat_inj, hand]
  cases w.toNat.testBit 31 <;> decide

/-- Negating one word. -/
theorem negate_singleton (w : UInt32) : Words.negate [w] = [-w] := by
  have hlt := w.toNat_lt
  have hone : (1 : UInt64).toNat = 1 := rfl
  simp only [Words.negate, List.foldl_cons, List.foldl_nil, List.reverse_cons, List.reverse_nil,
    List.nil_append]
  congr 1
  rw [← UInt32.toNat_inj, UInt64.toNat_toUInt32, UInt64.toNat_add, UInt32.toNat_toUInt64,
    UInt32.toNat_not, toNat_neg_word32, hone, UInt32.size]
  split <;> omega

/-- A small integer is its own two's-complement word. -/
theorem toTwosComplement_small (v : Int32) : toTwosComplement (small v) = [v.toUInt32] := by
  have hlt := v.toUInt32.toNat_lt
  have hv := toInt_word32 v
  unfold toTwosComplement
  rw [isZero_small, isNegative_small]
  by_cases hzero : v.toInt = 0
  · rw [decide_eq_true hzero, if_pos rfl]
    rw [← Int32.toInt_zero, Int32.toInt_inj] at hzero
    rw [hzero]
    rfl
  · -- The magnitude is one word, which for a negative number is negated back.
    have hmag : (small v).magnitude = [(if v < 0 then -v else v).toUInt32] := by
      unfold magnitude
      refine if_neg fun h => hzero ?_
      rw [eq_of_beq h]
      rfl
    rw [decide_eq_false hzero, if_neg Bool.false_ne_true, hmag]
    by_cases hneg : v.toInt < 0
    · have hneg' : v < 0 := Int32.lt_iff_toInt_lt.2 hneg
      rw [decide_eq_true hneg, if_pos rfl, if_pos hneg', negate_singleton, Int32.toUInt32_neg,
        UInt32.neg_neg]
      refine if_pos ?_
      rw [signBit_singleton, decide_eq_true_eq]
      split at hv <;> omega
    · have hneg' : ¬ v < 0 := fun h => hneg (Int32.lt_iff_toInt_lt.1 h)
      rw [decide_eq_false hneg, if_neg Bool.false_ne_true, if_neg hneg']
      refine if_neg ?_
      rw [signBit_singleton, decide_eq_true_eq]
      split at hv <;> omega

/-! ## The bytes that are written -/

/-- When the top byte only repeats the sign of the byte below. -/
theorem repeatsSign_iff (last prev : UInt8) :
    ((last == 0x00 && prev &&& 0x80 == 0) || (last == 0xFF && prev &&& 0x80 != 0)) = true ↔
      (last.toNat = 0 ∧ prev.toNat < 128) ∨ (last.toNat = 255 ∧ 128 ≤ prev.toNat) := by
  rw [bne, and_0x80_eq_zero_iff, Bool.or_eq_true, Bool.and_eq_true, Bool.and_eq_true, beq_iff_eq,
    beq_iff_eq, ← UInt8.toNat_inj, ← UInt8.toNat_inj, decide_eq_true_eq, Bool.not_eq_true',
    decide_eq_false_iff_not, Nat.not_lt]
  rfl

/-- The byte form is never longer than the bytes it comes from. -/
theorem length_dropSignBytes_le (bytes : List UInt8) :
    (dropSignBytes bytes).length ≤ bytes.length := by
  fun_induction dropSignBytes bytes with
  | case1 last prev rest h ih => exact Nat.le_trans ih (Nat.le_succ _)
  | case2 => exact Nat.le_refl _
  | case3 => exact Nat.le_refl _

/-- The byte of a word at a shift. -/
theorem toNat_shiftRight_toUInt8 (w : UInt32) {k : UInt32} (hk : k.toNat < 32) :
    (w >>> k).toUInt8.toNat = w.toNat / 2 ^ k.toNat % 256 := by
  rw [UInt32.toNat_toUInt8, UInt32.toNat_shiftRight, Nat.shiftRight_eq_div_pow, Nat.mod_eq_of_lt hk]

/-- How many of four bytes are left, by the number and the sign that they denote: as many as the range
of the number asks for. -/
theorem length_dropSignBytes_four {a b c d : UInt8} {n : Int}
    (hn : n = d.toNat + 256 * c.toNat + 65536 * b.toNat + 16777216 * a.toNat -
      if a.toNat < 128 then 0 else 4294967296) :
    (dropSignBytes [a, b, c, d]).length =
      if -128 ≤ n ∧ n < 128 then 1
      else if -32768 ≤ n ∧ n < 32768 then 2
      else if -8388608 ≤ n ∧ n < 8388608 then 3
      else 4 := by
  have ha := a.toNat_lt
  have hb := b.toNat_lt
  have hc := c.toNat_lt
  have hd := d.toNat_lt
  -- Each byte that is dropped narrows the range by one byte.
  unfold dropSignBytes
  rw [apply_ite List.length]
  simp only [repeatsSign_iff]
  split
  · unfold dropSignBytes
    rw [apply_ite List.length]
    simp only [repeatsSign_iff]
    split
    · unfold dropSignBytes
      rw [apply_ite List.length]
      simp only [repeatsSign_iff]
      split
      · rw [if_pos (by split at hn <;> omega)]
        rfl
      · rw [if_neg (by split at hn <;> omega), if_pos (by split at hn <;> omega)]
        rfl
    · rw [if_neg (by split at hn <;> omega), if_neg (by split at hn <;> omega),
        if_pos (by split at hn <;> omega)]
      rfl
  · rw [if_neg (by split at hn <;> omega), if_neg (by split at hn <;> omega),
      if_neg (by split at hn <;> omega)]
    rfl

/-- **The length that is found by range is the length of the bytes**, for a small integer. -/
theorem size_toBytes_small (v : Int32) : (small v).toBytes.size = (small v).byteLength := by
  have hlt := v.toUInt32.toNat_lt
  have h0 : v.toUInt32.toUInt8.toNat = v.toUInt32.toNat % 256 := UInt32.toNat_toUInt8 _
  have h8 : (v.toUInt32 >>> 8).toUInt8.toNat = v.toUInt32.toNat / 2 ^ 8 % 256 :=
    toNat_shiftRight_toUInt8 _ (by decide)
  have h16 : (v.toUInt32 >>> 16).toUInt8.toNat = v.toUInt32.toNat / 2 ^ 16 % 256 :=
    toNat_shiftRight_toUInt8 _ (by decide)
  have h24 : (v.toUInt32 >>> 24).toUInt8.toNat = v.toUInt32.toNat / 2 ^ 24 % 256 :=
    toNat_shiftRight_toUInt8 _ (by decide)
  have hbytes : ((toTwosComplement (small v)).flatMap wordBytes).reverse =
      [(v.toUInt32 >>> 24).toUInt8, (v.toUInt32 >>> 16).toUInt8, (v.toUInt32 >>> 8).toUInt8,
        v.toUInt32.toUInt8] := by
    rw [toTwosComplement_small]
    rfl
  unfold toBytes byteLength
  rw [hbytes, List.size_toArray, List.length_reverse, length_dropSignBytes_four (n := v.toInt)]
  · simp only [Bool.and_eq_true, decide_eq_true_eq, Int32.le_iff_toInt_le, Int32.lt_iff_toInt_lt]
    rfl
  · rw [toInt_word32, h0, h8, h16, h24]
    split <;> split <;> omega

/-- **The length that is found by range is the length of the bytes.** -/
theorem size_toBytes (a : Integer) : a.toBytes.size = a.byteLength := by
  cases a with
  | small v => exact size_toBytes_small v
  | large negative ws => rfl

/-! ## Counts -/

/-- A small integer takes at most four bytes. -/
theorem byteLength_small_le (v : Int32) : (small v).byteLength ≤ 4 := by
  unfold byteLength
  dsimp only
  split
  · decide
  · split
    · decide
    · split <;> decide

/-- The bytes of words. -/
theorem length_flatMap_wordBytes (ws : Words) : (ws.flatMap wordBytes).length = 4 * ws.length := by
  induction ws with
  | nil => rfl
  | cons w ws ih =>
    rw [List.flatMap_cons, List.length_append, ih, List.length_cons]
    show 4 + 4 * ws.length = _
    omega

/-- A large positive integer takes at most one byte more than its words: of the word that is appended for
the sign one byte is left. -/
theorem byteLength_large_le (ws : Words) : (large false ws).byteLength ≤ 4 * ws.length + 1 := by
  have hwords := length_flatMap_wordBytes ws
  show (dropSignBytes ((large false ws).toTwosComplement.flatMap wordBytes).reverse).reverse.toArray.size ≤ _
  rw [List.size_toArray, List.length_reverse]
  by_cases hsign : signBit ws = true
  · -- A zero word is appended for the sign; three of its bytes repeat the fourth.
    have hform : (large false ws).toTwosComplement = ws ++ [0] := if_pos hsign
    have hzeros : ∀ rest : List UInt8,
        dropSignBytes (0 :: 0 :: 0 :: 0 :: rest) = dropSignBytes (0 :: rest) := by
      intro rest
      have hstep : ∀ tail : List UInt8, dropSignBytes (0 :: 0 :: tail) = dropSignBytes (0 :: tail) := by
        intro tail
        rw [dropSignBytes.eq_def]
        rfl
      rw [hstep, hstep, hstep]
    have hrev : ((ws ++ [0]).flatMap wordBytes).reverse =
        0 :: 0 :: 0 :: 0 :: (ws.flatMap wordBytes).reverse := by
      rw [List.flatMap_append, List.reverse_append]
      rfl
    rw [hform, hrev, hzeros]
    refine Nat.le_trans (length_dropSignBytes_le _) ?_
    rw [List.length_cons, List.length_reverse, hwords]
  · have hform : (large false ws).toTwosComplement = ws := if_neg hsign
    rw [hform]
    refine Nat.le_trans (length_dropSignBytes_le _) ?_
    rw [List.length_reverse, hwords]
    exact Nat.le_succ _

/-- **A count takes at most nine bytes.** -/
theorem byteLength_ofNat_le (n : Nat) : (ofNat n).byteLength ≤ 9 := by
  have hlen : (Words.trim (wordsOfUInt64 (UInt64.ofNat n))).length ≤ 2 := by
    unfold Words.trim
    rw [List.length_reverse]
    exact (List.dropWhile_suffix _).length_le
  unfold ofNat ofUInt64 ofMagnitude
  split
  · exact Nat.le_trans (byteLength_small_le 0) (by decide)
  · split
    · exact Nat.le_trans (byteLength_small_le _) (by decide)
    · exact Nat.le_trans (byteLength_large_le _) (by simp)
  · exact Nat.le_trans (byteLength_large_le _) (by omega)

end Integer

/-- **The length of a byte view is found without making the view.** -/
theorem Item.byteViewSize_eq {x : Item} {b : Bytes} (hb : x.byteView = .ok b) :
    x.byteViewSize = .ok b.size := by
  unfold Item.byteView at hb
  split at hb
  · cases hb
    unfold Item.byteViewSize
    dsimp only
    split <;> rfl
  · rename_i value
    cases hb
    unfold Item.byteViewSize
    dsimp only
    split
    · rfl
    · rw [Integer.size_toBytes]
  · cases hb
    rfl
  · cases hb

end ScriptMachine
