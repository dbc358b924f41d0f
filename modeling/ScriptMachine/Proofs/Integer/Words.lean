import Mathlib.Data.List.Induction
import Mathlib.Tactic.Ring
import ScriptMachine.Integer.Register

/-! # The numbers that magnitudes denote

Every operation on word lists is an operation on the numbers that they denote. Carries and borrows are
64-bit words; the lemmas show that no intermediate sum, difference or product leaves 64 bits.

* `Words.toNat_append`, `Words.toNat_lt`: places and range.
* `Words.toNat_trim`, `Words.eq_of_toNat_eq`: every number has exactly one trimmed magnitude.
* `Words.order_eq`: comparison of trimmed magnitudes is comparison of numbers.
* `Words.toNat_add`, `Words.toNat_sub`, `Words.toNat_mul`: the loops over words are exact.
* `Register.toNat_add`, `Register.toNat_sub`, `Register.toNat_mul`: so are registers, which take the
  short way for single words.
-/

namespace ScriptMachine

namespace Words

/-! ## Places and range -/

/-- The empty magnitude is zero. -/
@[simp] theorem toNat_nil : toNat [] = 0 := rfl

/-- The first word is the least significant one. -/
theorem toNat_cons (w : UInt32) (ws : Words) : toNat (w :: ws) = w.toNat + 2 ^ 32 * toNat ws := rfl

/-- One word denotes itself. -/
theorem toNat_singleton (w : UInt32) : toNat [w] = w.toNat := by
  rw [toNat_cons, toNat_nil, Nat.mul_zero, Nat.add_zero]

/-- Words that follow others are worth more. -/
theorem toNat_append (a b : Words) : toNat (a ++ b) = toNat a + 2 ^ (32 * a.length) * toNat b := by
  induction a with
  | nil => simp
  | cons w a ih =>
    rw [List.cons_append, toNat_cons, toNat_cons, ih, List.length_cons, Nat.mul_succ, Nat.pow_add]
    ring

/-- A magnitude is bounded by its length. -/
theorem toNat_lt (ws : Words) : toNat ws < 2 ^ (32 * ws.length) := by
  induction ws with
  | nil => simp
  | cons w ws ih =>
    have hw := w.toNat_lt
    rw [toNat_cons, List.length_cons, Nat.mul_succ, Nat.pow_add]
    omega

/-- Zero words denote zero. -/
theorem toNat_replicate (n : Nat) : toNat (List.replicate n 0) = 0 := by
  induction n with
  | zero => rfl
  | succ n ih =>
    rw [List.replicate_succ, toNat_cons, ih]
    rfl

/-- A magnitude by its first word and the others, also when it is empty. -/
theorem toNat_headD_tail (ws : Words) :
    toNat ws = (ws.headD 0).toNat + 2 ^ 32 * toNat ws.tail := by
  cases ws <;> rfl

/-- The high word of a 64-bit number. -/
theorem toNat_highWord (value : UInt64) : (value >>> 32).toNat = value.toNat / 2 ^ 32 := by
  rw [UInt64.toNat_shiftRight, Nat.shiftRight_eq_div_pow]
  rfl

/-- The two words of a 64-bit number denote it. -/
theorem toNat_lowHigh (value : UInt64) :
    toNat [value.toUInt32, (value >>> 32).toUInt32] = value.toNat := by
  have hlt := value.toNat_lt
  rw [toNat_cons, toNat_singleton, UInt64.toNat_toUInt32, UInt64.toNat_toUInt32, toNat_highWord]
  omega

/-! ## Trimmed magnitudes -/

/-- A zero word at the top is dropped. -/
theorem trim_concat_zero (ws : Words) : trim (ws ++ [0]) = trim ws := by
  unfold trim
  rw [List.reverse_append, List.reverse_singleton, List.singleton_append, List.dropWhile_cons_of_pos]
  rfl

/-- A word at the top that is not zero stays. -/
theorem trim_concat {w : UInt32} (ws : Words) (hw : w ≠ 0) : trim (ws ++ [w]) = ws ++ [w] := by
  unfold trim
  rw [List.reverse_append, List.reverse_singleton, List.singleton_append,
    List.dropWhile_cons_of_neg (by simpa using hw), List.reverse_cons, List.reverse_reverse]

/-- A magnitude is trimmed when it is empty or its last word is not zero. -/
theorem trimmed_concat {w : UInt32} (ws : Words) : Trimmed (ws ++ [w]) ↔ w ≠ 0 := by
  unfold Trimmed
  rw [List.getLast?_concat, ne_eq, Option.some.injEq]

/-- The empty magnitude is trimmed. -/
theorem trimmed_nil : Trimmed [] := by
  unfold Trimmed
  rw [List.getLast?_nil]
  exact fun h => by cases h

/-- Trimming gives a trimmed magnitude. -/
theorem trimmed_trim (ws : Words) : Trimmed (trim ws) := by
  -- Words are trimmed at their end, so that the induction takes words off there.
  induction ws using List.reverseRecOn with
  | nil => exact trimmed_nil
  | append_singleton ws w ih =>
    by_cases hw : w = 0
    · rw [hw, trim_concat_zero]
      exact ih
    · rw [trim_concat ws hw]
      exact (trimmed_concat ws).2 hw

/-- Trimming changes no number. -/
theorem toNat_trim (ws : Words) : toNat (trim ws) = toNat ws := by
  induction ws using List.reverseRecOn with
  | nil => rfl
  | append_singleton ws w ih =>
    by_cases hw : w = 0
    · rw [hw, trim_concat_zero, ih, toNat_append, toNat_singleton]
      simp
    · rw [trim_concat ws hw]

/-- A trimmed magnitude is at least as large as its length says. -/
theorem le_toNat_of_trimmed {ws : Words} (ht : Trimmed ws) (hne : ws ≠ []) :
    2 ^ (32 * (ws.length - 1)) ≤ toNat ws := by
  obtain rfl | ⟨init, w, rfl⟩ := List.eq_nil_or_concat ws
  · exact absurd rfl hne
  rw [List.concat_eq_append] at ht ⊢
  have hw : 0 < w.toNat := Nat.pos_of_ne_zero fun h =>
    (trimmed_concat init).1 ht (UInt32.toNat_inj.1 h)
  rw [toNat_append, toNat_singleton, List.length_append, List.length_singleton,
    Nat.add_sub_cancel]
  exact Nat.le_trans (Nat.le_mul_of_pos_right _ hw) (Nat.le_add_left _ _)

/-- A longer trimmed magnitude is larger. -/
theorem toNat_lt_of_length_lt {a b : Words} (hb : Trimmed b) (h : a.length < b.length) :
    toNat a < toNat b := by
  have hne : b ≠ [] := by
    rintro rfl
    exact absurd h (Nat.not_lt_zero _)
  calc toNat a < 2 ^ (32 * a.length) := toNat_lt a
    _ ≤ 2 ^ (32 * (b.length - 1)) := Nat.pow_le_pow_right (by decide) (by omega)
    _ ≤ toNat b := le_toNat_of_trimmed hb hne

/-! ## Order -/

/-- Comparing words is comparing numbers. -/
theorem compare_word (x y : UInt32) : compare x y = compare x.toNat y.toNat := by
  show compareOfLessAndEq x y = compareOfLessAndEq x.toNat y.toNat
  simp only [compareOfLessAndEq, UInt32.lt_iff_toNat_lt, ← UInt32.toNat_inj]

/-- The more significant part decides a comparison unless it is equal. -/
theorem compare_places {a b x y m : Nat} (ha : a < m) (hb : b < m) :
    compare (a + m * x) (b + m * y) = (compare x y).then (compare a b) := by
  rcases Nat.lt_trichotomy x y with h | rfl | h
  · have hm : m * (x + 1) ≤ m * y := Nat.mul_le_mul_left m h
    rw [Nat.mul_succ] at hm
    rw [Nat.compare_eq_lt.2 h, Nat.compare_eq_lt.2 (by omega)]
    rfl
  · rw [Nat.compare_eq_eq.2 rfl, Ordering.eq_then]
    rcases Nat.lt_trichotomy a b with h | rfl | h
    · rw [Nat.compare_eq_lt.2 h, Nat.compare_eq_lt.2 (by omega)]
    · rw [Nat.compare_eq_eq.2 rfl, Nat.compare_eq_eq.2 rfl]
    · rw [Nat.compare_eq_gt.2 h, Nat.compare_eq_gt.2 (by omega)]
  · have hm : m * (y + 1) ≤ m * x := Nat.mul_le_mul_left m h
    rw [Nat.mul_succ] at hm
    rw [Nat.compare_eq_gt.2 h, Nat.compare_eq_gt.2 (by omega)]
    rfl

/-- Comparing words from the top is comparing numbers, at equal lengths. -/
theorem orderHigh_eq {a b : Words} (h : a.length = b.length) :
    orderHigh a b = compare (toNat a.reverse) (toNat b.reverse) := by
  induction a generalizing b with
  | nil =>
    cases b with
    | nil => rfl
    | cons y b => cases h
  | cons x a ih =>
    cases b with
    | nil => cases h
    | cons y b =>
      have hlen : a.length = b.length := Nat.succ.inj h
      have ha := toNat_lt a.reverse
      have hb := toNat_lt b.reverse
      rw [List.length_reverse] at ha hb
      rw [orderHigh, ih hlen, compare_word, List.reverse_cons, List.reverse_cons, toNat_append,
        toNat_append, toNat_singleton, toNat_singleton, List.length_reverse, List.length_reverse,
        ← hlen]
      exact (compare_places ha (hlen ▸ hb)).symm

/-- Comparing trimmed magnitudes is comparing numbers. -/
theorem order_eq {a b : Words} (ha : Trimmed a) (hb : Trimmed b) :
    order a b = compare (toNat a) (toNat b) := by
  unfold order
  rcases Nat.lt_trichotomy a.length b.length with h | h | h
  · rw [Nat.compare_eq_lt.2 h, Nat.compare_eq_lt.2 (toNat_lt_of_length_lt hb h)]
    rfl
  · rw [Nat.compare_eq_eq.2 h, Ordering.eq_then,
      orderHigh_eq (by rw [List.length_reverse, List.length_reverse, h]), List.reverse_reverse,
      List.reverse_reverse]
  · rw [Nat.compare_eq_gt.2 h, Nat.compare_eq_gt.2 (toNat_lt_of_length_lt ha h)]
    rfl

/-- At equal lengths, different words denote different numbers. -/
theorem eq_of_toNat_eq_of_length_eq {a b : Words} (hl : a.length = b.length)
    (h : toNat a = toNat b) : a = b := by
  induction a generalizing b with
  | nil =>
    cases b with
    | nil => rfl
    | cons y b => cases hl
  | cons x a ih =>
    cases b with
    | nil => cases hl
    | cons y b =>
      rw [toNat_cons, toNat_cons] at h
      have hx := x.toNat_lt
      have hy := y.toNat_lt
      -- The lowest words are the remainders of the numbers by `2 ^ 32`.
      have hword : x.toNat = y.toNat := by omega
      have hrest : toNat a = toNat b := by omega
      rw [UInt32.toNat_inj.1 hword, ih (Nat.succ.inj hl) hrest]

/-- **Every number has one trimmed magnitude.** -/
theorem eq_of_toNat_eq {a b : Words} (ha : Trimmed a) (hb : Trimmed b) (h : toNat a = toNat b) :
    a = b := by
  refine eq_of_toNat_eq_of_length_eq ?_ h
  rcases Nat.lt_trichotomy a.length b.length with hl | hl | hl
  · exact absurd h (Nat.ne_of_lt (toNat_lt_of_length_lt hb hl))
  · exact hl
  · exact absurd h (Nat.ne_of_gt (toNat_lt_of_length_lt ha hl))

/-! ## Sums and differences -/

/-- **Addition with carries is exact.** The carry is at most one, so that no sum leaves 64 bits. -/
theorem toNat_addCarry (long short : Words) (carry : UInt64) (hlen : short.length ≤ long.length)
    (hc : carry.toNat ≤ 1) :
    toNat (addCarry long short carry) = toNat long + toNat short + carry.toNat := by
  induction long generalizing short carry with
  | nil =>
    have hshort : short = [] := List.eq_nil_of_length_eq_zero (Nat.le_zero.1 hlen)
    subst hshort
    unfold addCarry
    split
    · rename_i h0
      rw [eq_of_beq h0]
      rfl
    · rw [toNat_singleton, UInt64.toNat_toUInt32, toNat_nil]
      omega
  | cons w long ih =>
    -- The sum of two words and the carry stays below `2 ^ 33`: its high word is the next carry.
    have hsum : (w.toUInt64 + (short.headD 0).toUInt64 + carry).toNat =
        w.toNat + (short.headD 0).toNat + carry.toNat := by
      have hw := w.toNat_lt
      have hs := (short.headD 0).toNat_lt
      rw [UInt64.toNat_add, UInt64.toNat_add, UInt32.toNat_toUInt64, UInt32.toNat_toUInt64]
      omega
    have hhigh : ((w.toUInt64 + (short.headD 0).toUInt64 + carry) >>> 32).toNat =
        (w.toNat + (short.headD 0).toNat + carry.toNat) / 2 ^ 32 := by
      rw [toNat_highWord, hsum]
    have hcarry : (w.toNat + (short.headD 0).toNat + carry.toNat) / 2 ^ 32 ≤ 1 := by
      have hw := w.toNat_lt
      have hs := (short.headD 0).toNat_lt
      omega
    have htail : short.tail.length ≤ long.length := by
      rw [List.length_tail]
      rw [List.length_cons] at hlen
      omega
    unfold addCarry
    dsimp only
    rw [toNat_cons, ih _ _ htail (by rw [hhigh]; exact hcarry), UInt64.toNat_toUInt32, hsum, hhigh,
      toNat_cons, toNat_headD_tail short]
    omega

/-- **The sum of magnitudes is exact.** -/
theorem toNat_add (a b : Words) : toNat (add a b) = toNat a + toNat b := by
  unfold add
  split
  · rename_i h
    exact toNat_addCarry a b 0 h (by decide)
  · rename_i h
    rw [toNat_addCarry b a 0 (by omega) (by decide), Nat.add_comm (toNat b)]
    rfl

/-- **Subtraction with borrows is exact** as long as the difference is not negative: what is lent to a
place is given back or borrowed from the next one. -/
theorem toNat_subBorrow (long short : Words) (borrow : UInt64) (hb : borrow.toNat ≤ 1)
    (hle : toNat short + borrow.toNat ≤ toNat long) :
    toNat (subBorrow long short borrow) + (toNat short + borrow.toNat) = toNat long := by
  induction long generalizing short borrow with
  | nil =>
    rw [toNat_nil] at hle
    unfold subBorrow
    rw [toNat_nil]
    omega
  | cons w long ih =>
    have hw := w.toNat_lt
    have hs := (short.headD 0).toNat_lt
    -- A place is lent `2 ^ 32` at first; if its high word is still there, nothing was borrowed.
    have hbase : (0x100000000 : UInt64).toNat = 2 ^ 32 := rfl
    have hdiff : (w.toUInt64 + 0x100000000 - (short.headD 0).toUInt64 - borrow).toNat =
        w.toNat + 2 ^ 32 - (short.headD 0).toNat - borrow.toNat := by
      rw [UInt64.toNat_sub, UInt64.toNat_sub, UInt64.toNat_add, UInt32.toNat_toUInt64,
        UInt32.toNat_toUInt64, hbase]
      omega
    have hnext : ((1 : UInt64) - ((w.toUInt64 + 0x100000000 - (short.headD 0).toUInt64 - borrow)
        >>> 32)).toNat = 1 - (w.toNat + 2 ^ 32 - (short.headD 0).toNat - borrow.toNat) / 2 ^ 32 := by
      rw [UInt64.toNat_sub, toNat_highWord, hdiff]
      show (2 ^ 64 - (w.toNat + 2 ^ 32 - (short.headD 0).toNat - borrow.toNat) / 2 ^ 32 + 1)
        % 2 ^ 64 = _
      omega
    rw [toNat_headD_tail short, toNat_cons] at hle
    have hstep := ih short.tail _ (by rw [hnext]; omega) (by rw [hnext]; omega)
    rw [hnext] at hstep
    unfold subBorrow
    dsimp only
    rw [toNat_cons, UInt64.toNat_toUInt32, hdiff, toNat_headD_tail short, toNat_cons]
    omega

/-- **The difference of magnitudes is exact**, and trimmed. -/
theorem toNat_sub {a b : Words} (h : toNat b ≤ toNat a) :
    toNat (sub a b) = toNat a - toNat b := by
  have hexact := toNat_subBorrow a b 0 (by decide) h
  have hzero : (0 : UInt64).toNat = 0 := rfl
  unfold sub
  rw [toNat_trim]
  omega

/-! ## Products -/

/-- A word times a word, plus two words, fits 64 bits. -/
theorem toNat_mulAdd (x y a : UInt32) {carry : UInt64} (hc : carry.toNat < 2 ^ 32) :
    (x.toUInt64 * y.toUInt64 + a.toUInt64 + carry).toNat =
      x.toNat * y.toNat + a.toNat + carry.toNat := by
  have hx := x.toNat_lt
  have hy := y.toNat_lt
  have ha := a.toNat_lt
  have hxy : x.toNat * y.toNat ≤ (2 ^ 32 - 1) * (2 ^ 32 - 1) :=
    Nat.mul_le_mul (by omega) (by omega)
  rw [UInt64.toNat_add, UInt64.toNat_add, UInt64.toNat_mul, UInt32.toNat_toUInt64,
    UInt32.toNat_toUInt64, UInt32.toNat_toUInt64]
  omega

/-- A row of a product has one word more than the factor. -/
theorem length_mulAddRow (x : UInt32) (ys acc : Words) (carry : UInt64) :
    (mulAddRow x ys acc carry).length = ys.length + 1 := by
  induction ys generalizing acc carry with
  | nil => rfl
  | cons y ys ih =>
    unfold mulAddRow
    dsimp only
    rw [List.length_cons, ih, List.length_cons]

/-- **A row of a product is exact.** -/
theorem toNat_mulAddRow (x : UInt32) (ys acc : Words) (carry : UInt64)
    (hlen : acc.length ≤ ys.length) (hc : carry.toNat < 2 ^ 32) :
    toNat (mulAddRow x ys acc carry) = x.toNat * toNat ys + toNat acc + carry.toNat := by
  induction ys generalizing acc carry with
  | nil =>
    have hacc : acc = [] := List.eq_nil_of_length_eq_zero (Nat.le_zero.1 hlen)
    subst hacc
    unfold mulAddRow
    rw [toNat_singleton, UInt64.toNat_toUInt32, toNat_nil]
    omega
  | cons y ys ih =>
    have hsum := toNat_mulAdd x y (acc.headD 0) hc
    -- The sum fits 64 bits, so that its high word is a carry of one word again.
    have hlt := (x.toUInt64 * y.toUInt64 + (acc.headD 0).toUInt64 + carry).toNat_lt
    rw [hsum] at hlt
    have hhigh : ((x.toUInt64 * y.toUInt64 + (acc.headD 0).toUInt64 + carry) >>> 32).toNat =
        (x.toNat * y.toNat + (acc.headD 0).toNat + carry.toNat) / 2 ^ 32 := by
      rw [toNat_highWord, hsum]
    have htail : acc.tail.length ≤ ys.length := by
      rw [List.length_tail]
      rw [List.length_cons] at hlen
      omega
    unfold mulAddRow
    dsimp only
    rw [toNat_cons, ih _ _ htail (by rw [hhigh]; omega), UInt64.toNat_toUInt32, hsum, hhigh,
      toNat_cons, toNat_headD_tail acc, Nat.mul_add x.toNat, Nat.mul_left_comm x.toNat]
    omega

/-- **The schoolbook product is exact**: one row for each word of the first factor. -/
theorem toNat_mulRows (a b acc : Words) (hlen : acc.length = b.length) :
    toNat (mulRows a b acc) = toNat a * toNat b + toNat acc := by
  induction a generalizing acc with
  | nil =>
    unfold mulRows
    rw [toNat_nil, Nat.zero_mul, Nat.zero_add]
  | cons x a ih =>
    -- The lowest word of a row is final; the others are what the next row is added to.
    have hrow := toNat_mulAddRow x b acc 0 (Nat.le_of_eq hlen) (by decide)
    have hrowlen := length_mulAddRow x b acc 0
    unfold mulRows
    cases hsplit : mulAddRow x b acc 0 with
    | nil =>
      rw [hsplit] at hrowlen
      cases hrowlen
    | cons low high =>
      rw [hsplit] at hrow hrowlen
      have hzero : (0 : UInt64).toNat = 0 := rfl
      rw [toNat_cons] at hrow
      rw [toNat_cons, ih high (Nat.succ.inj hrowlen), toNat_cons, Nat.add_mul, Nat.mul_add,
        Nat.mul_assoc]
      omega

/-- **The product of magnitudes is exact.** -/
theorem toNat_mul (a b : Words) : toNat (mul a b) = toNat a * toNat b := by
  unfold mul
  split
  · rename_i h
    rw [Bool.or_eq_true, List.isEmpty_iff, List.isEmpty_iff] at h
    rcases h with rfl | rfl
    · rw [toNat_nil, Nat.zero_mul]
    · rw [toNat_nil, Nat.mul_zero]
  · rw [toNat_trim, toNat_mulRows a b _ List.length_replicate, toNat_replicate, Nat.add_zero]

end Words

/-! ## Registers -/

namespace Register

/-- A register of at most one word denotes that word. -/
theorem toNat_of_isWord {ws : Words} (h : isWord ws = true) : ws.toNat = (word ws).toNat := by
  unfold isWord at h
  rw [decide_eq_true_eq] at h
  match ws, h with
  | [], _ => rfl
  | [w], _ => exact Words.toNat_singleton w

/-- The register of a 64-bit number denotes it. -/
theorem toNat_ofUInt64 (value : UInt64) : (ofUInt64 value).toNat = value.toNat := by
  have hlt := value.toNat_lt
  unfold ofUInt64
  split
  · rename_i h
    have hzero : value.toNat / 2 ^ 32 = 0 := by
      rw [← Words.toNat_highWord, eq_of_beq h]
      rfl
    split
    · rename_i h0
      rw [eq_of_beq h0]
      rfl
    · rw [Words.toNat_singleton, UInt64.toNat_toUInt32]
      omega
  · rw [Words.toNat_trim, Words.toNat_lowHigh]

/-- **The sum of registers is exact.** -/
theorem toNat_add (a b : Words) : (add a b).toNat = a.toNat + b.toNat := by
  unfold add
  split
  · rename_i h
    rw [Bool.and_eq_true] at h
    have ha := (word a).toNat_lt
    have hb := (word b).toNat_lt
    rw [toNat_ofUInt64, toNat_of_isWord h.1, toNat_of_isWord h.2, UInt64.toNat_add,
      UInt32.toNat_toUInt64, UInt32.toNat_toUInt64]
    omega
  · rw [Words.toNat_trim, Words.toNat_add]

/-- **The distance of registers is exact**, and its flag tells which one is larger. -/
theorem toNat_sub {a b : Words} (ha : a.Trimmed) (hb : b.Trimmed) :
    if (sub a b).1 then (sub a b).2.toNat + a.toNat = b.toNat
    else (sub a b).2.toNat + b.toNat = a.toNat := by
  unfold sub
  split
  · rename_i h
    rw [Bool.and_eq_true] at h
    have hwa := (word a).toNat_lt
    have hwb := (word b).toNat_lt
    split
    · rename_i hle
      have hle' := UInt32.le_iff_toNat_le.1 hle
      rw [if_neg Bool.false_ne_true, toNat_ofUInt64, UInt32.toNat_toUInt64, UInt32.toNat_sub_of_le _ _ hle,
        toNat_of_isWord h.1, toNat_of_isWord h.2]
      omega
    · rename_i hle
      have hle' : word a ≤ word b := by
        rw [UInt32.le_iff_toNat_le] at hle ⊢
        omega
      have := UInt32.le_iff_toNat_le.1 hle'
      rw [if_pos rfl, toNat_ofUInt64, UInt32.toNat_toUInt64, UInt32.toNat_sub_of_le _ _ hle',
        toNat_of_isWord h.1, toNat_of_isWord h.2]
      omega
  · rw [Words.order_eq ha hb]
    cases hcmp : compare a.toNat b.toNat with
    | eq =>
      have := Nat.compare_eq_eq.1 hcmp
      rw [if_neg Bool.false_ne_true, Words.toNat_nil]
      omega
    | gt =>
      have := Nat.compare_eq_gt.1 hcmp
      rw [if_neg Bool.false_ne_true, Words.toNat_sub (by omega)]
      omega
    | lt =>
      have := Nat.compare_eq_lt.1 hcmp
      rw [if_pos rfl, Words.toNat_sub (by omega)]
      omega

/-- **The product of registers is exact.** -/
theorem toNat_mul (a b : Words) : (mul a b).toNat = a.toNat * b.toNat := by
  unfold mul
  split
  · rename_i h
    rw [Bool.and_eq_true] at h
    have ha := (word a).toNat_lt
    have hb := (word b).toNat_lt
    have hab : (word a).toNat * (word b).toNat ≤ (2 ^ 32 - 1) * (2 ^ 32 - 1) :=
      Nat.mul_le_mul (by omega) (by omega)
    rw [toNat_ofUInt64, toNat_of_isWord h.1, toNat_of_isWord h.2, UInt64.toNat_mul,
      UInt32.toNat_toUInt64, UInt32.toNat_toUInt64]
    omega
  · exact Words.toNat_mul a b

end Register

end ScriptMachine
