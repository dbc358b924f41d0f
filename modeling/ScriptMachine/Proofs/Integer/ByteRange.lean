import Mathlib.Algebra.Order.Ring.Int
import Mathlib.Tactic.Ring
import ScriptMachine.Proofs.Integer.TwosComplement

/-! # The numbers of byte strings

A byte string is a two's-complement number of as many bits as it has. Written bytes are the shortest string of
their number, so that their length says in which range the number lies: an integer takes at most `k` bytes
exactly when it is at least `-2 ^ (8 * k - 1)` and below `2 ^ (8 * k - 1)`. Bytes are looked at from the most
significant one here, since that is where bytes of sign are dropped and added.

* `Bytes.toIntLE`: the number of a byte string.
* `ByteOrder.high`, `ByteOrder.signedHigh`: the numbers of bytes, most significant byte first.
* `Integer.byteLength_le_iff`: the range of an integer by its length.
* `Integer.toInt_ofBytes`: integers read from bytes.
-/

namespace ScriptMachine

/-- The number of a little-endian two's-complement byte string; the empty one is zero. -/
def Bytes.toIntLE (b : Bytes) : Int := Int.bmod b.toNatLE (2 ^ (8 * b.size))

namespace ByteOrder

/-! ## Bytes from the top -/

/-- The natural number of bytes, most significant first. -/
def high : List UInt8 → Nat
  | [] => 0
  | b :: rest => b.toNat * 256 ^ rest.length + high rest

/-- A byte with a sign. -/
def signedByte (b : UInt8) : Int := b.toNat - if b.toNat < 128 then 0 else 256

/-- The two's-complement number of bytes, most significant first. -/
def signedHigh : List UInt8 → Int
  | [] => 0
  | b :: rest => signedByte b * 256 ^ rest.length + high rest

theorem high_lt (bytes : List UInt8) : high bytes < 256 ^ bytes.length := by
  induction bytes with
  | nil => simp [high]
  | cons b rest ih =>
    have hb : (b.toNat + 1) * 256 ^ rest.length ≤ 256 * 256 ^ rest.length :=
      Nat.mul_le_mul_right _ b.toNat_lt
    rw [Nat.succ_mul] at hb
    rw [high, List.length_cons, Nat.pow_succ]
    omega

/-- Bytes above others are worth more. -/
theorem high_append (x y : List UInt8) : high (x ++ y) = high x * 256 ^ y.length + high y := by
  induction x with
  | nil => simp [high]
  | cons b x ih =>
    rw [List.cons_append, high, high, ih, List.length_append, Nat.pow_add]
    ring

/-- The signed number is the natural one, less its whole range if the top bit is set. -/
theorem signedHigh_cons (b : UInt8) (rest : List UInt8) :
    signedHigh (b :: rest) =
      high (b :: rest) - if b.toNat < 128 then 0 else (256 : Int) ^ (b :: rest).length := by
  rw [signedHigh, signedByte, high, List.length_cons]
  push_cast
  split <;> ring

theorem signedByte_range (b : UInt8) : -128 ≤ signedByte b ∧ signedByte b < 128 := by
  have hb := b.toNat_lt
  unfold signedByte
  split <;> omega

/-- The range of bytes by their number. -/
theorem two_pow_bits (n : Nat) : (2 : Int) ^ (8 * (n + 1) - 1) = 128 * 256 ^ n := by
  have hexp : 8 * (n + 1) - 1 = 8 * n + 7 := by omega
  rw [hexp, pow_add, pow_mul]
  norm_num
  ring

/-- **Signed bytes stay in their range.** -/
theorem signedHigh_range {bytes : List UInt8} (hne : bytes ≠ []) :
    -2 ^ (8 * bytes.length - 1) ≤ signedHigh bytes ∧ signedHigh bytes < 2 ^ (8 * bytes.length - 1) := by
  cases bytes with
  | nil => exact absurd rfl hne
  | cons b rest =>
    obtain ⟨hlow, hhigh⟩ := signedByte_range b
    have hrest : (high rest : Int) < 256 ^ rest.length := by exact_mod_cast high_lt rest
    have hpos : (0 : Int) ≤ 256 ^ rest.length := pow_nonneg (by decide) _
    have hlow' := mul_le_mul_of_nonneg_right hlow hpos
    have hhigh' := mul_le_mul_of_nonneg_right (Int.le_of_lt_add_one hhigh : signedByte b ≤ 127) hpos
    rw [List.length_cons, two_pow_bits, signedHigh]
    omega

/-! ## Bytes of sign -/

/-- Whether a top byte only repeats the sign of the byte below. -/
def Repeats (last prev : UInt8) : Prop :=
  (last.toNat = 0 ∧ prev.toNat < 128) ∨ (last.toNat = 255 ∧ 128 ≤ prev.toNat)

/-- **A byte of sign adds nothing to the number.** -/
theorem signedHigh_repeats {last prev : UInt8} (rest : List UInt8) (h : Repeats last prev) :
    signedHigh (last :: prev :: rest) = signedHigh (prev :: rest) := by
  rw [signedHigh, signedHigh, high, signedByte, signedByte, List.length_cons]
  obtain ⟨hlast, hprev⟩ | ⟨hlast, hprev⟩ := h
  · simp [hlast, hprev]
  · simp [hlast, Nat.not_lt.2 hprev]
    ring

/-- **Any other top byte is needed**: the number is out of the range of the bytes below. -/
theorem signedHigh_out_of_range {last prev : UInt8} (rest : List UInt8) (h : ¬ Repeats last prev) :
    signedHigh (last :: prev :: rest) < -2 ^ (8 * (prev :: rest).length - 1) ∨
      2 ^ (8 * (prev :: rest).length - 1) ≤ signedHigh (last :: prev :: rest) := by
  have hlast := last.toNat_lt
  have hprev := prev.toNat_lt
  have hrest : (high rest : Int) < 256 ^ rest.length := by exact_mod_cast high_lt rest
  have hpos : (0 : Int) ≤ 256 ^ rest.length := pow_nonneg (by decide) _
  -- The two top bytes together are out of the range of one byte.
  have htop : signedByte last * 256 + prev.toNat ≤ -129 ∨ 128 ≤ signedByte last * 256 + prev.toNat := by
    unfold Repeats at h
    unfold signedByte
    split <;> omega
  have hvalue : signedHigh (last :: prev :: rest) =
      (signedByte last * 256 + prev.toNat) * 256 ^ rest.length + high rest := by
    rw [signedHigh, high, List.length_cons]
    push_cast
    ring
  rw [hvalue, List.length_cons, two_pow_bits]
  obtain hlow | hhigh := htop
  · have := mul_le_mul_of_nonneg_right hlow hpos
    omega
  · have := mul_le_mul_of_nonneg_right hhigh hpos
    omega

/-- Bytes of sign can be added above any bytes. -/
theorem signedHigh_replicate {fill b : UInt8} (rest : List UInt8) (h : Repeats fill b) (n : Nat) :
    signedHigh (List.replicate n fill ++ b :: rest) = signedHigh (b :: rest) := by
  have hself : Repeats fill fill := by
    obtain ⟨hfill, -⟩ | ⟨hfill, -⟩ := h
    · exact .inl ⟨hfill, by omega⟩
    · exact .inr ⟨hfill, by omega⟩
  induction n with
  | zero => rfl
  | succ n ih =>
    rw [← ih]
    cases n with
    | zero => exact signedHigh_repeats _ h
    | succ n => exact signedHigh_repeats _ hself

/-- Dropping bytes of sign keeps the number. -/
theorem signedHigh_dropSignBytes (bytes : List UInt8) :
    signedHigh (Integer.dropSignBytes bytes) = signedHigh bytes := by
  fun_induction Integer.dropSignBytes bytes with
  | case1 last prev rest h ih =>
    rw [ih, signedHigh_repeats rest ((Integer.repeatsSign_iff last prev).1 h)]
  | case2 => rfl
  | case3 => rfl

/-- Dropping bytes of sign leaves one byte at least. -/
theorem dropSignBytes_ne_nil {bytes : List UInt8} (hne : bytes ≠ []) : Integer.dropSignBytes bytes ≠ [] := by
  fun_induction Integer.dropSignBytes bytes with
  | case1 last prev rest h ih => exact ih (by simp)
  | case2 => simp
  | case3 => exact hne

/-- The bytes that are left are all needed. -/
theorem dropSignBytes_needed {bytes : List UInt8} (hlen : 2 ≤ (Integer.dropSignBytes bytes).length) :
    signedHigh bytes < -2 ^ (8 * ((Integer.dropSignBytes bytes).length - 1) - 1) ∨
      2 ^ (8 * ((Integer.dropSignBytes bytes).length - 1) - 1) ≤ signedHigh bytes := by
  fun_induction Integer.dropSignBytes bytes with
  | case1 last prev rest h ih =>
    rw [signedHigh_repeats rest ((Integer.repeatsSign_iff last prev).1 h)]
    exact ih hlen
  | case2 last prev rest h => exact signedHigh_out_of_range rest fun h' => h ((Integer.repeatsSign_iff _ _).2 h')
  | case3 bytes h =>
    cases bytes with
    | nil => simp at hlen
    | cons last rest =>
      cases rest with
      | nil => simp at hlen
      | cons prev rest => exact (h last prev rest rfl).elim

/-- Ranges grow with the number of bytes. -/
theorem range_mono {k n : Nat} (h : k ≤ n) : (2 : Int) ^ (8 * k - 1) ≤ 2 ^ (8 * n - 1) :=
  pow_le_pow_right₀ (by decide) (by omega)

/-- **The shortest bytes of a number tell its range.** -/
theorem length_dropSignBytes_le_iff {bytes : List UInt8} (hne : bytes ≠ []) {k : Nat} (hk : 1 ≤ k) :
    (Integer.dropSignBytes bytes).length ≤ k ↔
      -2 ^ (8 * k - 1) ≤ signedHigh bytes ∧ signedHigh bytes < 2 ^ (8 * k - 1) := by
  constructor
  · intro hle
    have hrange := signedHigh_range (dropSignBytes_ne_nil hne)
    have hmono := range_mono hle
    rw [signedHigh_dropSignBytes] at hrange
    omega
  · intro hrange
    by_contra hgt
    have hlong : 2 ≤ (Integer.dropSignBytes bytes).length := by omega
    have hneeded := dropSignBytes_needed hlong
    have hmono := range_mono (Nat.le_sub_one_of_lt (Nat.lt_of_not_le hgt))
    omega

/-! ## Byte strings -/

/-- The first byte of a byte string is the least significant one. -/
theorem high_reverse (b : Bytes) : high b.toList.reverse = b.toNatLE := by
  rw [Bytes.toNatLE, ← Array.foldr_toList]
  induction b.toList with
  | nil => rfl
  | cons byte rest ih =>
    rw [List.reverse_cons, high_append, ih, List.foldr_cons]
    simp [high]
    omega

/-- **The number of a byte string, from its most significant byte.** -/
theorem signedHigh_reverse (b : Bytes) : signedHigh b.toList.reverse = b.toIntLE := by
  have hhigh := high_reverse b
  have hlen : b.toList.reverse.length = b.size := by simp
  cases h : b.toList.reverse with
  | nil =>
    rw [h] at hhigh hlen
    simp [Bytes.toIntLE, ← hhigh, ← hlen, signedHigh, high]
  | cons last rest =>
    rw [h] at hhigh hlen
    obtain ⟨hlow, hhigh'⟩ := signedHigh_range (List.cons_ne_nil last rest)
    have hpow : (256 : Int) ^ b.size = (2 ^ (8 * b.size) : Nat) := by
      rw [Nat.pow_mul]
      push_cast
      rfl
    -- The signed number is the only one of its range that is congruent to the unsigned one.
    have hcongr : Int.bmod (signedHigh (last :: rest)) (2 ^ (8 * b.size)) = b.toIntLE := by
      rw [signedHigh_cons, hhigh, hlen, hpow, Bytes.toIntLE]
      split
      · rw [Int.sub_zero]
      · exact Int.sub_bmod_right _ _
    have hhalf : ((2 ^ (8 * b.size) : Nat) : Int) = 2 * 2 ^ (8 * b.size - 1) := by
      have hpos : 8 * b.size = 8 * b.size - 1 + 1 := by
        rw [List.length_cons] at hlen
        omega
      rw [hpos, Nat.pow_succ]
      push_cast
      ring
    rw [hlen] at hlow hhigh'
    rw [← hcongr, Int.bmod_eq_of_le (by omega) (by omega)]

/-! ## Bytes of words -/

theorem high_wordBytes (w : UInt32) : high (Integer.wordBytes w).reverse = w.toNat := by
  have hw := w.toNat_lt
  have h0 : w.toUInt8.toNat = w.toNat % 256 := UInt32.toNat_toUInt8 _
  have h8 : (w >>> 8).toUInt8.toNat = w.toNat / 2 ^ 8 % 256 :=
    Integer.toNat_shiftRight_toUInt8 _ (by decide)
  have h16 : (w >>> 16).toUInt8.toNat = w.toNat / 2 ^ 16 % 256 :=
    Integer.toNat_shiftRight_toUInt8 _ (by decide)
  have h24 : (w >>> 24).toUInt8.toNat = w.toNat / 2 ^ 24 % 256 :=
    Integer.toNat_shiftRight_toUInt8 _ (by decide)
  simp only [Integer.wordBytes, List.reverse_cons, List.reverse_nil, List.nil_append, List.cons_append, high,
    List.length_cons, List.length_nil, h0, h8, h16, h24]
  omega

/-- The bytes of words denote what the words denote. -/
theorem high_flatMap_wordBytes (ws : Words) : high (ws.flatMap Integer.wordBytes).reverse = ws.toNat := by
  induction ws with
  | nil => rfl
  | cons w ws ih =>
    have hlen : (Integer.wordBytes w).reverse.length = 4 := rfl
    rw [List.flatMap_cons, List.reverse_append, high_append, ih, high_wordBytes, hlen, Words.toNat_cons]
    omega

/-- **The bytes of words denote the same signed number.** -/
theorem signedHigh_flatMap_wordBytes {ws : Words} (hne : ws ≠ []) :
    signedHigh (ws.flatMap Integer.wordBytes).reverse = Words.extend (Integer.signBit ws) ws := by
  have hhigh := high_flatMap_wordBytes ws
  have hlen := Integer.length_flatMap_wordBytes ws
  obtain rfl | ⟨low, w, rfl⟩ := List.eq_nil_or_concat ws
  · exact absurd rfl hne
  rw [List.concat_eq_append] at hhigh hlen ⊢
  have hw := w.toNat_lt
  have htop : (w >>> 24).toUInt8.toNat = w.toNat / 2 ^ 24 % 256 :=
    Integer.toNat_shiftRight_toUInt8 _ (by decide)
  obtain ⟨rest, hbytes⟩ : ∃ rest, ((low ++ [w]).flatMap Integer.wordBytes).reverse =
      (w >>> 24).toUInt8 :: rest := by
    simp [Integer.wordBytes]
  rw [← List.length_reverse, hbytes] at hlen
  rw [hbytes] at hhigh ⊢
  have hpow : (256 : Int) ^ (4 * (low ++ [w]).length) = 2 ^ (32 * (low ++ [w]).length) := by
    rw [pow_mul, pow_mul]
    rfl
  have hbit : w.toNat.testBit 31 = !decide (w.toNat / 2 ^ 24 % 256 < 128) := by
    rw [Nat.testBit_eq_decide_div_mod_eq, ← decide_not, decide_eq_decide]
    omega
  rw [signedHigh_cons, hhigh, hlen, htop, hpow, Integer.signBit_concat, hbit, Words.extend]
  by_cases h : w.toNat / 2 ^ 24 % 256 < 128
  · rw [if_pos h, decide_eq_true h]
    simp
  · rw [if_neg h, decide_eq_false h]
    simp

end ByteOrder

namespace Integer

/-- An integer has bytes, from the most significant one. -/
theorem wordBytes_ne_nil {a : Integer} (ha : a.Canonical) : (a.toTwosComplement.flatMap wordBytes).reverse ≠ [] := by
  have hpos := List.length_pos_iff.2 (toTwosComplement_exact ha).1
  rw [← List.length_pos_iff, List.length_reverse, length_flatMap_wordBytes]
  omega

/-- **The length of an integer tells its range.** -/
theorem byteLength_le_iff {a : Integer} (ha : a.Canonical) {k : Nat} (hk : 1 ≤ k) :
    a.byteLength ≤ k ↔ -2 ^ (8 * k - 1) ≤ a.toInt ∧ a.toInt < 2 ^ (8 * k - 1) := by
  obtain ⟨hne, hsign, hvalue⟩ := toTwosComplement_exact ha
  have hlen := ByteOrder.length_dropSignBytes_le_iff (wordBytes_ne_nil ha) hk
  rw [ByteOrder.signedHigh_flatMap_wordBytes hne, hsign, hvalue] at hlen
  rw [← size_toBytes, ← hlen]
  simp [toBytes]

/-! ## Integers read from bytes -/

/-- The four parts of a word do not overlap. -/
theorem toNat_or_shiftLeft (w : UInt32) (b : UInt8) {k : UInt32} (hk : k.toNat ≤ 24) (hw : w.toNat < 2 ^ k.toNat) :
    (w ||| (b.toUInt32 <<< k)).toNat = w.toNat + b.toNat * 2 ^ k.toNat := by
  have hb := b.toNat_lt
  have hpow : 2 ^ k.toNat ≤ 2 ^ 24 := Nat.pow_le_pow_right (by decide) hk
  have hprod : b.toNat * 2 ^ k.toNat ≤ 255 * 2 ^ 24 := Nat.mul_le_mul (by omega) hpow
  have hmod : k.toNat % 32 = k.toNat := by omega
  rw [UInt32.toNat_or, UInt32.toNat_shiftLeft, UInt8.toNat_toUInt32, hmod, Nat.shiftLeft_eq,
    Nat.mod_eq_of_lt (by omega), Nat.or_comm, Nat.mul_comm, ← Nat.two_pow_add_eq_or_of_lt hw, Nat.add_comm]

/-- The word of four bytes. -/
theorem toNat_fourBytes (x0 x1 x2 x3 : UInt8) :
    (x0.toUInt32 ||| (x1.toUInt32 <<< 8) ||| (x2.toUInt32 <<< 16) ||| (x3.toUInt32 <<< 24)).toNat =
      x0.toNat + x1.toNat * 2 ^ 8 + x2.toNat * 2 ^ 16 + x3.toNat * 2 ^ 24 := by
  have h0 := x0.toNat_lt
  have h1 := x1.toNat_lt
  have h2 := x2.toNat_lt
  have k8 : (8 : UInt32).toNat = 8 := rfl
  have k16 : (16 : UInt32).toNat = 16 := rfl
  have k24 : (24 : UInt32).toNat = 24 := rfl
  have hw1 : (x0.toUInt32 ||| (x1.toUInt32 <<< 8)).toNat = x0.toNat + x1.toNat * 2 ^ 8 := by
    rw [toNat_or_shiftLeft _ _ (by decide) (by rw [UInt8.toNat_toUInt32, k8]; omega), UInt8.toNat_toUInt32, k8]
  have hw2 : (x0.toUInt32 ||| (x1.toUInt32 <<< 8) ||| (x2.toUInt32 <<< 16)).toNat =
      x0.toNat + x1.toNat * 2 ^ 8 + x2.toNat * 2 ^ 16 := by
    rw [toNat_or_shiftLeft _ _ (by decide) (by rw [hw1, k16]; omega), hw1, k16]
  rw [toNat_or_shiftLeft _ _ (by decide) (by rw [hw2, k24]; omega), hw2, k24]

/-- The bytes of the word at an offset. -/
theorem wordBytes_wordAt (b : Bytes) (fill : UInt8) (offset : Nat) :
    wordBytes (wordAt b fill offset) =
      [b.getD offset fill, b.getD (offset + 1) fill, b.getD (offset + 2) fill, b.getD (offset + 3) fill] := by
  have hword : (wordAt b fill offset).toNat = (b.getD offset fill).toNat + (b.getD (offset + 1) fill).toNat * 2 ^ 8 +
      (b.getD (offset + 2) fill).toNat * 2 ^ 16 + (b.getD (offset + 3) fill).toNat * 2 ^ 24 :=
    toNat_fourBytes _ _ _ _
  have h0 := (b.getD offset fill).toNat_lt
  have h1 := (b.getD (offset + 1) fill).toNat_lt
  have h2 := (b.getD (offset + 2) fill).toNat_lt
  have h3 := (b.getD (offset + 3) fill).toNat_lt
  have k8 : (8 : UInt32).toNat = 8 := rfl
  have k16 : (16 : UInt32).toNat = 16 := rfl
  have k24 : (24 : UInt32).toNat = 24 := rfl
  unfold wordBytes
  rw [List.cons.injEq, List.cons.injEq, List.cons.injEq, List.cons.injEq, ← UInt8.toNat_inj, ← UInt8.toNat_inj,
    ← UInt8.toNat_inj, ← UInt8.toNat_inj, UInt32.toNat_toUInt8, toNat_shiftRight_toUInt8 _ (by decide),
    toNat_shiftRight_toUInt8 _ (by decide), toNat_shiftRight_toUInt8 _ (by decide), hword, k8, k16, k24]
  exact ⟨by omega, by omega, by omega, by omega, rfl⟩

/-- The bytes of the words that are read: the given ones, and then bytes of the sign. -/
theorem flatMap_wordAt (b : Bytes) (fill : UInt8) (n : Nat) :
    ((List.range n).map fun i => wordAt b fill (4 * i)).flatMap wordBytes =
      (List.range (4 * n)).map (b.getD · fill) := by
  induction n with
  | zero => rfl
  | succ n ih =>
    rw [List.range_succ, List.map_append, List.flatMap_append, ih, Nat.mul_succ]
    simp [List.range_succ, wordBytes_wordAt]

/-- Reading past the end gives the filler. -/
theorem map_getD_range {b : Bytes} (fill : UInt8) {n : Nat} (h : b.size ≤ n) :
    (List.range n).map (b.getD · fill) = b.toList ++ List.replicate (n - b.size) fill := by
  apply List.ext_getElem
  · simp
    omega
  · intro i _ _
    by_cases hi : i < b.size
    · simp [hi]
    · simp [hi, List.getElem_append]

/-- The filler of a byte string repeats the sign of its last byte. -/
theorem repeats_fill (last : UInt8) : ByteOrder.Repeats (if last &&& 0x80 != 0 then 0xFF else 0) last := by
  have hsign := and_0x80_eq_zero_iff last
  by_cases h : last.toNat < 128
  · rw [bne, hsign, decide_eq_true h]
    exact .inl ⟨rfl, h⟩
  · rw [bne, hsign, decide_eq_false h]
    exact .inr ⟨rfl, Nat.le_of_not_lt h⟩

/-- **Integers are read as the numbers of their bytes.** -/
theorem toInt_ofBytes (b : Bytes) : (ofBytes b).toInt = b.toIntLE := by
  rw [← ByteOrder.signedHigh_reverse]
  cases hback : b.back? with
  | none =>
    have hempty : b = #[] := Array.back?_eq_none_iff.1 hback
    rw [hempty]
    rfl
  | some last =>
    obtain ⟨init, hinit⟩ := List.getLast?_eq_some_iff.1 ((Array.getLast?_toList b).trans hback)
    have hsize : 0 < b.size := by
      rw [← Array.length_toList, hinit]
      simp
    have hwords : (List.range ((b.size + 3) / 4)).map (fun i =>
        wordAt b (if last &&& 0x80 != 0 then 0xFF else 0) (4 * i)) ≠ [] := by
      simp
      omega
    simp only [ofBytes, hback]
    rw [toInt_ofTwosComplement, ← ByteOrder.signedHigh_flatMap_wordBytes hwords, flatMap_wordAt,
      map_getD_range _ (by omega), List.reverse_append, List.reverse_replicate, hinit, List.reverse_append,
      List.reverse_singleton, List.singleton_append]
    exact ByteOrder.signedHigh_replicate _ (repeats_fill last) _

end Integer

end ScriptMachine
