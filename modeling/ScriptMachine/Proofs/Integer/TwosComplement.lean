import Mathlib.Data.Int.Bitwise
import ScriptMachine.Proofs.Integer.Arithmetic
import ScriptMachine.Proofs.Integer.ByteLength
import ScriptMachine.Proofs.Integer.Shifts

/-! # Two's-complement words and bitwise operations

Words with a sign denote a number whose bits go on with the sign without end. A bitwise operation works place by
place on such words, and past the end of the shorter operand it works on the words of its sign. It is therefore
the operation on the bits of the two numbers.

* `Words.extend`: the number of words with a sign.
* `Words.toNat_negate`: negation over the width of a list.
* `Integer.toInt_ofTwosComplement`, `Integer.toTwosComplement_exact`: both directions.
* `Integer.toInt_bitwise`, `Integer.toInt_and`, `Integer.toInt_or`, `Integer.toInt_xor`, `Integer.toInt_not`.
* `Integer.toInt_scaleUp`, `Integer.toInt_scaleDown`: shifts.
-/

namespace ScriptMachine

/-! ## Bits by places -/

/-- A bit at the low end of a natural number is one at the low end of the integer above it. -/
theorem bit_places (b : Bool) (k x : Nat) (m : Int) :
    ((Nat.bit b x : Nat) : Int) + 2 ^ (k + 1) * m = Int.bit b (x + 2 ^ k * m) := by
  rw [Nat.bit_val, Int.bit_val, pow_succ]
  cases b <;> simp <;> ring

/-- **Bitwise operations go place by place**: the low `k` bits of the operands are combined on their own. -/
theorem bitwise_places {f : Bool → Bool → Bool} (hf : f false false = false) (k : Nat) {x y : Nat}
    (hx : x < 2 ^ k) (hy : y < 2 ^ k) (m n : Int) :
    Int.bitwise f (x + 2 ^ k * m) (y + 2 ^ k * n) = (Nat.bitwise f x y : Nat) + 2 ^ k * Int.bitwise f m n := by
  induction k generalizing x y with
  | zero =>
    have hx0 : x = 0 := by simpa using hx
    have hy0 : y = 0 := by simpa using hy
    simp [hx0, hy0]
  | succ k ih =>
    obtain ⟨a, x, rfl⟩ : ∃ a x', x = Nat.bit a x' := ⟨x.bodd, x.div2, (Nat.bit_bodd_div2 x).symm⟩
    obtain ⟨b, y, rfl⟩ : ∃ b y', y = Nat.bit b y' := ⟨y.bodd, y.div2, (Nat.bit_bodd_div2 y).symm⟩
    have hx' : x < 2 ^ k := by
      rw [Nat.bit_val, Nat.pow_succ] at hx
      omega
    have hy' : y < 2 ^ k := by
      rw [Nat.bit_val, Nat.pow_succ] at hy
      omega
    rw [Nat.bitwise_bit hf, bit_places, bit_places, bit_places, Int.bitwise_bit, ih hx' hy']

namespace Words

/-! ## Words with a sign -/

/-- The number of words that go on with the sign without end. -/
def extend (negative : Bool) (ws : Words) : Int := ws.toNat - if negative then 2 ^ (32 * ws.length) else 0

/-- The word of a sign. -/
def fill (negative : Bool) : UInt32 := if negative then 0xFFFFFFFF else 0

@[simp] theorem extend_nil (negative : Bool) : extend negative [] = if negative then -1 else 0 := by
  cases negative <;> simp [extend]

theorem extend_cons (negative : Bool) (w : UInt32) (ws : Words) :
    extend negative (w :: ws) = w.toNat + 2 ^ 32 * extend negative ws := by
  cases negative
  · simp [extend, toNat_cons]
  · simp [extend, toNat_cons, Nat.mul_succ, pow_add]
    ring

/-- Past its end a list goes on with words of its sign. -/
theorem extend_headD_tail (negative : Bool) (ws : Words) :
    extend negative ws = (ws.headD (fill negative)).toNat + 2 ^ 32 * extend negative ws.tail := by
  cases ws with
  | nil => cases negative <;> simp [fill]
  | cons w ws => exact extend_cons negative w ws

/-- The words of one sign more do not change the number. -/
theorem extend_concat_fill (negative : Bool) (ws : Words) :
    extend negative (ws ++ [fill negative]) = extend negative ws := by
  induction ws with
  | nil => exact (extend_cons negative _ []).trans (extend_headD_tail negative []).symm
  | cons w ws ih => rw [List.cons_append, extend_cons, extend_cons, ih]

/-! ## Negation -/

/-- One step of a negation: the next word is inverted, and the carry added. -/
def negateStep (state : Words × UInt64) (w : UInt32) : Words × UInt64 :=
  let t : UInt64 := (~~~w).toUInt64 + state.2
  (t.toUInt32 :: state.1, t >>> 32)

/-- Negation repeats its step. -/
theorem negate_eq (ws : Words) : negate ws = (ws.foldl negateStep ([], 1)).1.reverse := rfl

/-- The lowest place of a negation over the width `2 ^ 32 * m`. -/
theorem negate_place {w rest m : Nat} (carry : Nat) (hw : w < 2 ^ 32) (hrest : rest < m) :
    (2 ^ 32 * m - 1 - (w + 2 ^ 32 * rest) + carry) % (2 ^ 32 * m) =
      (2 ^ 32 - 1 - w + carry) % 2 ^ 32 +
        2 ^ 32 * ((m - 1 - rest + (2 ^ 32 - 1 - w + carry) / 2 ^ 32) % m) := by
  have hsplit : 2 ^ 32 * m - 1 - (w + 2 ^ 32 * rest) + carry =
      2 ^ 32 * (m - 1 - rest) + (2 ^ 32 - 1 - w + carry) := by omega
  rw [hsplit, Nat.mod_mul, Nat.mul_add_mod, Nat.mul_add_div (by decide)]

/-- The steps of a negation add the inverted words above those that are done. -/
theorem foldl_negateStep (ws out : Words) {carry : UInt64} (hcarry : carry.toNat ≤ 1) :
    (ws.foldl negateStep (out, carry)).1.length = out.length + ws.length ∧
      toNat (ws.foldl negateStep (out, carry)).1.reverse = toNat out.reverse +
        2 ^ (32 * out.length) *
          ((2 ^ (32 * ws.length) - 1 - toNat ws + carry.toNat) % 2 ^ (32 * ws.length)) := by
  induction ws generalizing out carry with
  | nil => simp [Nat.mod_one]
  | cons w ws ih =>
    have hw := w.toNat_lt
    have hrest := toNat_lt ws
    have hnot : (~~~w).toNat = 2 ^ 32 - 1 - w.toNat := UInt32.toNat_not w
    have hsum : ((~~~w).toUInt64 + carry).toNat = 2 ^ 32 - 1 - w.toNat + carry.toNat := by
      rw [UInt64.toNat_add, UInt32.toNat_toUInt64, hnot]
      omega
    have hnext : (((~~~w).toUInt64 + carry) >>> 32).toNat = (2 ^ 32 - 1 - w.toNat + carry.toNat) / 2 ^ 32 := by
      rw [toNat_highWord, hsum]
    obtain ⟨hlen, hvalue⟩ := ih (((~~~w).toUInt64 + carry).toUInt32 :: out) (hnext.trans_le (by omega))
    have hstep : negateStep (out, carry) w =
        (((~~~w).toUInt64 + carry).toUInt32 :: out, ((~~~w).toUInt64 + carry) >>> 32) := rfl
    rw [List.foldl_cons, hstep]
    constructor
    · rw [hlen, List.length_cons, List.length_cons]
      omega
    · have hplace := negate_place carry.toNat hw hrest
      rw [hvalue, toNat_reverse_cons, List.length_cons, List.length_cons, UInt64.toNat_toUInt32, hsum, hnext,
        toNat_cons, Nat.mul_succ, Nat.mul_succ, Nat.add_comm (32 * ws.length), Nat.pow_add 2 32, hplace,
        Nat.pow_add]
      ring

/-- **Negation over the width of a list.** -/
theorem toNat_negate {ws : Words} (hne : ws.toNat ≠ 0) :
    (negate ws).toNat = 2 ^ (32 * ws.length) - ws.toNat := by
  have hlt := toNat_lt ws
  rw [negate_eq, (foldl_negateStep ws [] (by decide : (1 : UInt64).toNat ≤ 1)).2]
  have hone : (1 : UInt64).toNat = 1 := rfl
  simp only [List.reverse_nil, toNat_nil, List.length_nil, Nat.mul_zero, Nat.pow_zero, Nat.one_mul,
    Nat.zero_add, hone]
  rw [Nat.mod_eq_of_lt (by omega)]
  omega

/-- Negation keeps the width. -/
theorem length_negate (ws : Words) : (negate ws).length = ws.length := by
  rw [negate_eq, List.length_reverse, (foldl_negateStep ws [] (by decide : (1 : UInt64).toNat ≤ 1)).1,
    List.length_nil, Nat.zero_add]

/-! ## Operations place by place -/

/-- An operation on words that combines the bits of each place by `f`. -/
structure Bitwise (f : Bool → Bool → Bool) (op : UInt32 → UInt32 → UInt32) : Prop where
  /-- Two bits that are not set give one that is not. -/
  zero : f false false = false
  /-- The operation on words. -/
  word : ∀ w v : UInt32, (op w v).toNat = Nat.bitwise f w.toNat v.toNat

theorem Bitwise.and : Bitwise Bool.and (· &&& ·) := ⟨rfl, UInt32.toNat_and⟩

theorem Bitwise.or : Bitwise Bool.or (· ||| ·) := ⟨rfl, UInt32.toNat_or⟩

theorem Bitwise.xor : Bitwise Bool.xor (· ^^^ ·) := ⟨rfl, UInt32.toNat_xor⟩

end Words

namespace Integer

open Words (extend fill)

variable {f : Bool → Bool → Bool} {op : UInt32 → UInt32 → UInt32}

/-- Combining lists of which one has a word goes on with their tails. -/
theorem zipFilled_step (fillA fillB : UInt32) {a b : Words} (h : a ≠ [] ∨ b ≠ []) :
    zipFilled op fillA fillB a b =
      op (a.headD fillA) (b.headD fillB) :: zipFilled op fillA fillB a.tail b.tail := by
  cases a with
  | nil =>
    cases b with
    | nil => simp at h
    | cons v b => simp [zipFilled, List.range_succ_eq_map]
  | cons w a =>
    cases b with
    | nil => simp [zipFilled, List.range_succ_eq_map]
    | cons v b => simp [zipFilled, List.range_succ_eq_map, Nat.succ_max_succ]

/-- Without words only the signs are combined. -/
theorem bitwise_signs (f : Bool → Bool → Bool) (na nb : Bool) :
    Int.bitwise f (if na then -1 else 0) (if nb then -1 else 0) = if f na nb then -1 else 0 := by
  have hone : (-1 : Int) = Int.negSucc 0 := rfl
  have hzero : (0 : Int) = Int.ofNat 0 := rfl
  cases na <;> cases nb <;> simp only [hone, hzero, if_true, if_false, Bool.false_eq_true] <;>
    simp only [Int.bitwise, Int.natBitwise] <;> split <;> simp_all

/-- **Combining words combines the numbers.** The sign of the result is that of the combined signs. -/
theorem extend_zipFilled (hop : Words.Bitwise f op) (na nb : Bool) {n : Nat} {a b : Words}
    (ha : a.length ≤ n) (hb : b.length ≤ n) :
    extend (f na nb) (zipFilled op (fill na) (fill nb) a b) = Int.bitwise f (extend na a) (extend nb b) := by
  induction n generalizing a b with
  | zero =>
    obtain rfl := List.eq_nil_of_length_eq_zero (Nat.le_zero.1 ha)
    obtain rfl := List.eq_nil_of_length_eq_zero (Nat.le_zero.1 hb)
    simpa [zipFilled] using (bitwise_signs f na nb).symm
  | succ n ih =>
    by_cases hnil : a = [] ∧ b = []
    · obtain ⟨rfl, rfl⟩ := hnil
      exact ih (Nat.zero_le n) (Nat.zero_le n)
    · rw [zipFilled_step _ _ (not_and_or.1 hnil), Words.extend_cons, hop.word,
        ih (by rw [List.length_tail]; omega) (by rw [List.length_tail]; omega),
        Words.extend_headD_tail na a, Words.extend_headD_tail nb b]
      exact (bitwise_places hop.zero 32 (UInt32.toNat_lt _) (UInt32.toNat_lt _) _ _).symm

/-! ## Signs -/

/-- The sign bit is the top bit of the last word. -/
theorem signBit_concat (ws : Words) (w : UInt32) : signBit (ws ++ [w]) = w.toNat.testBit 31 := by
  have hw := w.toNat_lt
  have hlast : signBit (ws ++ [w]) = signBit [w] := by simp [signBit]
  rw [hlast, signBit_singleton, Nat.testBit_eq_decide_div_mod_eq, decide_eq_decide]
  omega

/-- The word of a sign has that sign. -/
theorem testBit_fill (negative : Bool) : (fill negative).toNat.testBit 31 = negative := by
  cases negative <;> decide

/-- From the last word of a list on, all words have its sign. -/
theorem testBit_getD_fill {ws : Words} {m : Nat} (hne : ws ≠ []) (hm : ws.length ≤ m + 1) :
    (ws.getD m (fill (signBit ws))).toNat.testBit 31 = signBit ws := by
  obtain rfl | ⟨low, w, rfl⟩ := List.eq_nil_or_concat ws
  · exact absurd rfl hne
  rw [List.concat_eq_append] at hm ⊢
  rw [List.length_append, List.length_singleton] at hm
  obtain rfl | hlt : m = low.length ∨ low.length < m := by omega
  · rw [signBit_concat]
    simp [List.getD_eq_getElem?_getD]
  · rw [List.getD_eq_default _ _ (by simp; omega), testBit_fill]

/-- **The sign of combined words** is that of the combined signs. -/
theorem signBit_zipFilled (hop : Words.Bitwise f op) {a b : Words} (ha : a ≠ []) (hb : b ≠ []) :
    signBit (zipFilled op (fill (signBit a)) (fill (signBit b)) a b) = f (signBit a) (signBit b) := by
  have hpos : 0 < Nat.max a.length b.length :=
    Nat.lt_of_lt_of_le (List.length_pos_iff.2 ha) (Nat.le_max_left _ _)
  obtain ⟨m, hm⟩ := Nat.exists_eq_succ_of_ne_zero hpos.ne'
  have hma : a.length ≤ m + 1 := (Nat.le_max_left _ _).trans hm.le
  have hmb : b.length ≤ m + 1 := (Nat.le_max_right _ _).trans hm.le
  unfold zipFilled
  rw [hm, List.range_succ, List.map_append, List.map_singleton, signBit_concat, hop.word,
    Nat.testBit_bitwise hop.zero, testBit_getD_fill ha hma, testBit_getD_fill hb hmb]

/-- Words whose sign bit is set do not denote zero. -/
theorem toNat_ne_zero_of_signBit {ws : Words} (h : signBit ws = true) : ws.toNat ≠ 0 := by
  obtain rfl | ⟨low, w, rfl⟩ := List.eq_nil_or_concat ws
  · simp [signBit] at h
  rw [List.concat_eq_append] at h ⊢
  rw [signBit_concat] at h
  intro hzero
  have hw : w.toNat = 0 := by
    rw [Words.toNat_append, Words.toNat_singleton] at hzero
    exact (by simpa using hzero : _ ∧ _).2
  simp [hw] at h

/-- **Two's-complement words are read with their sign.** -/
theorem toInt_ofTwosComplement (ws : Words) : (ofTwosComplement ws).toInt = extend (signBit ws) ws := by
  have hlt := Words.toNat_lt ws
  by_cases h : signBit ws = true
  · simp [ofTwosComplement, h, toInt_ofMagnitude, Words.toNat_negate (toNat_ne_zero_of_signBit h), signed,
      extend, Nat.cast_sub hlt.le]
  · simp [ofTwosComplement, h, toInt_ofMagnitude, signed, extend]

/-- Words with a word of the sign above them if their top bit misstates it. -/
def signedWords (negative : Bool) (ws : Words) : Words :=
  if signBit ws = negative then ws else ws ++ [fill negative]

theorem signedWords_exact (negative : Bool) {ws : Words} (hne : ws ≠ []) :
    signedWords negative ws ≠ [] ∧ signBit (signedWords negative ws) = negative ∧
      extend negative (signedWords negative ws) = extend negative ws := by
  by_cases h : signBit ws = negative
  · simp [signedWords, h, hne]
  · simp [signedWords, h, signBit_concat, testBit_fill, Words.extend_concat_fill]

/-- The words of an integer other than zero: those of its magnitude, negated below zero. -/
theorem toTwosComplement_eq {a : Integer} (hzero : a.isZero = false) :
    a.toTwosComplement =
      signedWords a.isNegative (if a.isNegative then Words.negate a.magnitude else a.magnitude) := by
  unfold toTwosComplement signedWords
  cases a.isNegative
  · cases h : signBit a.magnitude <;> simp [hzero, h, fill]
  · cases h : signBit (Words.negate a.magnitude) <;> simp [hzero, h, fill]

/-- A magnitude, negated below zero, denotes the integer once its sign is added. -/
theorem extend_magnitude {a : Integer} (ha : a.Canonical) (hzero : a.isZero = false) :
    extend a.isNegative (if a.isNegative then Words.negate a.magnitude else a.magnitude) = a.toInt := by
  have hint := toInt_eq_signed a
  have hlt := Words.toNat_lt a.magnitude
  by_cases hneg : a.isNegative = true
  · have hnat : a.magnitude.toNat ≠ 0 := by
      intro h
      rw [h, hneg] at hint
      rw [(isZero_iff ha).2 hint] at hzero
      cases hzero
    simp [extend, Words.toNat_negate hnat, Words.length_negate, hint, signed, hneg, Nat.cast_sub hlt.le]
  · simp [extend, hint, signed, hneg]

/-- **Two's-complement words denote their integer.** They are not empty, and their sign bit is the sign. -/
theorem toTwosComplement_exact {a : Integer} (ha : a.Canonical) :
    a.toTwosComplement ≠ [] ∧ signBit a.toTwosComplement = a.isNegative ∧
      extend a.isNegative a.toTwosComplement = a.toInt := by
  by_cases hzero : a.isZero = true
  · have hint := (isZero_iff ha).1 hzero
    have hneg : a.isNegative = false := by
      rw [← Bool.not_eq_true, isNegative_iff ha, hint]
      exact Int.lt_irrefl 0
    simp [toTwosComplement, hzero, hneg, hint, signBit, extend, Words.toNat_singleton]
  · rw [Bool.not_eq_true] at hzero
    rw [toTwosComplement_eq hzero, ← extend_magnitude ha hzero]
    refine signedWords_exact a.isNegative ?_
    rw [← List.length_pos_iff]
    have hpos := List.length_pos_iff.2 (magnitude_ne_nil ha hzero)
    split
    · rwa [Words.length_negate]
    · exact hpos

/-! ## Bitwise operations -/

/-- A word denotes a small integer. -/
theorem toInt_toInt32 (w : UInt32) : w.toInt32.toInt = extend (signBit [w]) [w] := by
  have hw := w.toNat_lt
  have hsame : w.toInt32.toUInt32 = w := rfl
  rw [toInt_word32, hsame, signBit_singleton]
  simp only [extend, Words.toNat_singleton, List.length_singleton, decide_eq_true_eq]
  split <;> split <;> omega

/-- Combined words denote the combined numbers, each read with its own sign bit. -/
theorem extend_signBit_zipFilled (hop : Words.Bitwise f op) {a b : Words} (ha : a ≠ []) (hb : b ≠ []) :
    let all := zipFilled op (fill (signBit a)) (fill (signBit b)) a b
    extend (signBit all) all = Int.bitwise f (extend (signBit a) a) (extend (signBit b) b) := by
  intro all
  rw [signBit_zipFilled hop ha hb]
  exact extend_zipFilled hop _ _ (Nat.le_max_left _ _) (Nat.le_max_right _ _)

/-- **Bitwise operations combine the bits of the numbers.** -/
theorem toInt_bitwise (hop : Words.Bitwise f op) {a b : Integer} (ha : a.Canonical) (hb : b.Canonical) :
    (bitwise op a b).toInt = Int.bitwise f a.toInt b.toInt := by
  obtain ⟨hna, hsa, hva⟩ := toTwosComplement_exact ha
  obtain ⟨hnb, hsb, hvb⟩ := toTwosComplement_exact hb
  have hwords := extend_signBit_zipFilled hop hna hnb
  rw [hsa, hsb, hva, hvb] at hwords
  unfold bitwise
  split
  · -- Two small integers are combined as lists of one word.
    rename_i x y
    rw [← hwords, toInt_ofInt64, Int32.toInt_toInt64, toInt_toInt32]
    simp [toTwosComplement_small, zipFilled]
  · rw [toInt_ofTwosComplement]
    exact hwords

/-- **Conjunction of bits.** -/
theorem toInt_and {a b : Integer} (ha : a.Canonical) (hb : b.Canonical) :
    (a.and b).toInt = Int.land a.toInt b.toInt := by
  rw [← Int.bitwise_and]
  exact toInt_bitwise Words.Bitwise.and ha hb

/-- **Disjunction of bits.** -/
theorem toInt_or {a b : Integer} (ha : a.Canonical) (hb : b.Canonical) :
    (a.or b).toInt = Int.lor a.toInt b.toInt := by
  rw [← Int.bitwise_or]
  exact toInt_bitwise Words.Bitwise.or ha hb

/-- **Exclusive disjunction of bits.** -/
theorem toInt_xor {a b : Integer} (ha : a.Canonical) (hb : b.Canonical) :
    (a.xor b).toInt = Int.xor a.toInt b.toInt := by
  rw [← Int.bitwise_xor]
  exact toInt_bitwise Words.Bitwise.xor ha hb

/-- The complement of a number. -/
theorem lnot_eq (n : Int) : Int.lnot n = -(n + 1) := by
  cases n with
  | ofNat m => exact Int.negSucc_eq m
  | negSucc m => simp [Int.lnot, Int.negSucc_eq]

/-- **Complement of bits.** -/
theorem toInt_not {a : Integer} (ha : a.Canonical) : a.not.toInt = Int.lnot a.toInt := by
  have hone : one.toInt = 1 := rfl
  unfold not
  rw [toInt_neg (canonical_add ha canonical_one), toInt_add ha canonical_one, hone, lnot_eq]

/-! ## Shifts -/

/-- **Scaling up multiplies.** -/
theorem toInt_scaleUp {a : Integer} (ha : a.Canonical) (amount : Nat) :
    (a.scaleUp amount).toInt = a.toInt * 2 ^ amount := by
  by_cases hzero : a.isZero = true
  · simp [scaleUp, hzero, (isZero_iff ha).1 hzero]
  by_cases hamount : amount = 0
  · simp [scaleUp, hamount]
  · have hpow : (2 : Int) ^ amount = signed false (2 ^ amount) := by simp [signed]
    have hscale : a.scaleUp amount = ofMagnitude a.isNegative (Words.shiftLeft a.magnitude amount) := by
      simp [scaleUp, hzero, hamount]
    rw [hscale, toInt_ofMagnitude, Words.toNat_shiftLeft, toInt_eq_signed, hpow, ← signed_mul]
    simp

/-- Below zero a magnitude is rounded up. -/
theorem neg_ediv_eq (m p : Nat) (hm : 0 < m) (hp : 0 < p) :
    -((((m - 1) / p + 1 : Nat)) : Int) = -(m : Int) / p := by
  obtain ⟨k, rfl⟩ : ∃ k, m = k + 1 := ⟨m - 1, by omega⟩
  have hneg : -((k + 1 : Nat) : Int) = Int.negSucc k := rfl
  rw [hneg, Int.negSucc_ediv k (by omega), Nat.add_sub_cancel]
  push_cast
  rfl

/-- **Scaling down divides and rounds down.** -/
theorem toInt_scaleDown {a : Integer} (ha : a.Canonical) (amount : Nat) :
    (a.scaleDown amount).toInt = a.toInt / 2 ^ amount := by
  by_cases hzero : a.isZero = true
  · simp [scaleDown, hzero, (isZero_iff ha).1 hzero]
  by_cases hamount : amount = 0
  · simp [scaleDown, hamount]
  have hint := toInt_eq_signed a
  by_cases hneg : a.isNegative = true
  · have hpos : 0 < a.magnitude.toNat := by
      rw [Nat.pos_iff_ne_zero]
      intro h
      rw [h, hneg] at hint
      exact hzero ((isZero_iff ha).2 hint)
    have hone : Words.toNat [1] = 1 := rfl
    have hscale : a.scaleDown amount =
        ofMagnitude true (Words.add (Words.shiftRight (Words.sub a.magnitude [1]) amount) [1]) := by
      simp [scaleDown, hzero, hamount, hneg]
    rw [hscale, toInt_ofMagnitude, Words.toNat_add, Words.toNat_shiftRight, Words.toNat_sub (hone.trans_le hpos),
      hone, hint, hneg]
    simpa [signed] using neg_ediv_eq a.magnitude.toNat (2 ^ amount) hpos (Nat.two_pow_pos amount)
  · have hscale : a.scaleDown amount = ofMagnitude false (Words.shiftRight a.magnitude amount) := by
      simp [scaleDown, hzero, hamount, hneg]
    rw [hscale, toInt_ofMagnitude, Words.toNat_shiftRight, hint]
    simp [signed, hneg]

end Integer

end ScriptMachine
