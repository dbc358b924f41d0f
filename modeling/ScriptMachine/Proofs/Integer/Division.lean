import Mathlib.Tactic.LinearCombination
import ScriptMachine.Proofs.Integer.Canonical
import ScriptMachine.Proofs.Integer.Shifts

/-! # Division of magnitudes

Division goes through the words of the numerator from the top. Each step brings one word down to the remainder,
divides by the divisor and leaves a remainder below the divisor. For a divisor of one word the step is one
machine division. For longer divisors, scaled so that their top bit is set, the digit is estimated from the top
words of the window and of the divisor; the estimate is the true digit or one more, and which one it was is seen
when its multiple of the divisor is subtracted.

* `Words.toNat_divRemWord`: division by one word.
* `LongDivision.toNat_trialDigit`, `LongDivision.estimate_near`: the estimate and its error.
* `LongDivision.mulSub_exact`, `LongDivision.mulSub_outcome`: what is subtracted, and what is left.
* `LongDivision.toNat_sweep_addPlace`, `LongDivision.addBack_outcome`: what is added back, and what is left then.
* `LongDivision.digitStep_exact`, `LongDivision.digits_exact`: one digit, and all.
* `LongDivision.Scaled`, `LongDivision.Scaled.digits`: a division that is scaled.
* `Words.toNat_divRem`, `Register.toNat_divRem`: quotients and remainders of magnitudes.
-/

namespace ScriptMachine

/-! ## Places of a quotient -/

/-- A number is divided place by place: the part above `m` is divided first, and its remainder goes on. -/
theorem div_places (x m low : Nat) {d : Nat} (hd : 0 < d) :
    (x * m + low) / d = x / d * m + (x % d * m + low) / d ∧
      (x * m + low) % d = (x % d * m + low) % d := by
  have hsplit : x * m + low = d * (x / d * m) + (x % d * m + low) := by
    calc x * m + low = (d * (x / d) + x % d) * m + low := by rw [Nat.div_add_mod]
      _ = d * (x / d * m) + (x % d * m + low) := by ring
  rw [hsplit, Nat.mul_add_div hd, Nat.mul_add_mod]
  exact ⟨rfl, rfl⟩

namespace Words

/-- Words are divided from the top: the next one is brought down below the remainder `r`. -/
theorem div_bringDown (r : Nat) (w : UInt32) (ws : Words) {d : Nat} (hd : 0 < d) :
    (r * 2 ^ (32 * (w :: ws).length) + toNat (w :: ws).reverse) / d =
        (r * 2 ^ 32 + w.toNat) / d * 2 ^ (32 * ws.length) +
          ((r * 2 ^ 32 + w.toNat) % d * 2 ^ (32 * ws.length) + toNat ws.reverse) / d ∧
      (r * 2 ^ (32 * (w :: ws).length) + toNat (w :: ws).reverse) % d =
        ((r * 2 ^ 32 + w.toNat) % d * 2 ^ (32 * ws.length) + toNat ws.reverse) % d := by
  have hnumber : r * 2 ^ (32 * (w :: ws).length) + toNat (w :: ws).reverse =
      (r * 2 ^ 32 + w.toNat) * 2 ^ (32 * ws.length) + toNat ws.reverse := by
    rw [toNat_reverse_cons, List.length_cons, Nat.mul_succ, Nat.pow_add]
    ring
  rw [hnumber]
  exact div_places _ _ _ hd

/-- One step of a division by one word: the next word is brought down. -/
def wordStep (den : UInt32) (state : Words × UInt64) (w : UInt32) : Words × UInt64 :=
  let cur : UInt64 := (state.2 <<< 32) ||| w.toUInt64
  ((cur / den.toUInt64).toUInt32 :: state.1, cur % den.toUInt64)

/-- Division by one word repeats its step. -/
theorem divRemWord_eq (num : Words) (den : UInt32) :
    divRemWord num den =
      (trim (num.reverse.foldl (wordStep den) ([], 0)).1,
        (num.reverse.foldl (wordStep den) ([], 0)).2.toUInt32) := rfl

/-- **The steps of a division by one word**, from a remainder below the divisor on. -/
theorem foldl_wordStep {den : UInt32} (ws : Words) (quotient : Words) {rem : UInt64}
    (hrem : rem.toNat < den.toNat) :
    toNat (ws.foldl (wordStep den) (quotient, rem)).1 =
        (rem.toNat * 2 ^ (32 * ws.length) + toNat ws.reverse) / den.toNat +
          2 ^ (32 * ws.length) * toNat quotient ∧
      (ws.foldl (wordStep den) (quotient, rem)).2.toNat =
        (rem.toNat * 2 ^ (32 * ws.length) + toNat ws.reverse) % den.toNat := by
  induction ws generalizing quotient rem with
  | nil => simp [Nat.div_eq_of_lt hrem, Nat.mod_eq_of_lt hrem]
  | cons w ws ih =>
    have hden := den.toNat_lt
    have hw := w.toNat_lt
    have hpos : 0 < den.toNat := by omega
    -- The remainder fits a word, so that the next word can be brought down below it.
    have hcur : ((rem <<< 32) ||| w.toUInt64).toNat = rem.toNat * 2 ^ 32 + w.toNat :=
      toNat_joined (Nat.lt_trans hrem hden) hw
    have hnext : (((rem <<< 32) ||| w.toUInt64) % den.toUInt64).toNat =
        (rem.toNat * 2 ^ 32 + w.toNat) % den.toNat := by
      rw [UInt64.toNat_mod, hcur, UInt32.toNat_toUInt64]
    have hdigit : (((rem <<< 32) ||| w.toUInt64) / den.toUInt64).toUInt32.toNat =
        (rem.toNat * 2 ^ 32 + w.toNat) / den.toNat := by
      have hlt : (rem.toNat * 2 ^ 32 + w.toNat) / den.toNat < 2 ^ 32 := by
        rw [Nat.div_lt_iff_lt_mul hpos]
        have : (rem.toNat + 1) * 2 ^ 32 ≤ den.toNat * 2 ^ 32 := Nat.mul_le_mul_right _ hrem
        omega
      rw [UInt64.toNat_toUInt32, UInt64.toNat_div, hcur, UInt32.toNat_toUInt64, Nat.mod_eq_of_lt hlt]
    obtain ⟨hquotient, hremainder⟩ :=
      ih ((((rem <<< 32) ||| w.toUInt64) / den.toUInt64).toUInt32 :: quotient)
        (hnext ▸ Nat.mod_lt _ hpos)
    obtain ⟨hdiv, hmod⟩ := div_bringDown rem.toNat w ws hpos
    have hstep : wordStep den (quotient, rem) w =
        ((((rem <<< 32) ||| w.toUInt64) / den.toUInt64).toUInt32 :: quotient,
          ((rem <<< 32) ||| w.toUInt64) % den.toUInt64) := rfl
    rw [List.foldl_cons, hstep, hquotient, hremainder, hdiv, hmod, hnext, toNat_cons, hdigit,
      List.length_cons, Nat.mul_succ, Nat.pow_add]
    exact ⟨by ring, rfl⟩

/-- **Division by one word is exact.** -/
theorem toNat_divRemWord (num : Words) {den : UInt32} (hden : den ≠ 0) :
    toNat (divRemWord num den).1 = toNat num / den.toNat ∧
      (divRemWord num den).2.toNat = toNat num % den.toNat := by
  have hpos : 0 < den.toNat := Nat.pos_of_ne_zero fun h => hden (UInt32.toNat_inj.1 h)
  have hzero : (0 : UInt64).toNat = 0 := rfl
  obtain ⟨hquotient, hremainder⟩ := foldl_wordStep num.reverse [] (hzero.trans_lt hpos)
  rw [List.reverse_reverse, hzero, Nat.zero_mul, Nat.zero_add] at hquotient hremainder
  have hlt : toNat num % den.toNat < 2 ^ 32 := Nat.lt_trans (Nat.mod_lt _ hpos) den.toNat_lt
  rw [divRemWord_eq]
  dsimp only
  rw [toNat_trim, hquotient, UInt64.toNat_toUInt32, hremainder, Nat.mod_eq_of_lt hlt]
  exact ⟨by simp, rfl⟩

end Words

namespace LongDivision

/-! ## The trial digit -/

/-- **Correcting an estimate gives the quotient of the top words**, or the greatest digit if that is less. The
estimate `qhat` with its remainder `rhat` by `top` is at least the quotient, and there are enough
corrections to bring the remainder to a full word. -/
theorem toNat_correct {top next low : UInt64} {fuel : Nat} {qhat rhat : UInt64} {t : Nat}
    (htop : 2 ^ 31 ≤ top.toNat) (htop' : top.toNat < 2 ^ 32) (hnext : next.toNat < 2 ^ 32)
    (hlow : low.toNat < 2 ^ 32) (hrhat : rhat.toNat < 2 ^ 32)
    (hfuel : 2 ^ 32 ≤ rhat.toNat + fuel * top.toNat)
    (ht : t = (qhat.toNat * top.toNat + rhat.toNat) * 2 ^ 32 + low.toNat)
    (hfits : qhat.toNat * top.toNat + rhat.toNat < (top.toNat + 1) * 2 ^ 32)
    (hle : min (2 ^ 32 - 1) (t / (top.toNat * 2 ^ 32 + next.toNat)) ≤ qhat.toNat) :
    (correct top next low fuel qhat rhat).toNat =
      min (2 ^ 32 - 1) (t / (top.toNat * 2 ^ 32 + next.toNat)) := by
  induction fuel generalizing qhat rhat with
  | zero => omega
  | succ fuel ih =>
    have hbase : base.toNat = 2 ^ 32 := rfl
    have hone : (1 : UInt64).toNat = 1 := rfl
    have hbound : qhat.toNat ≤ 2 ^ 32 + 1 := by
      by_contra hgt
      have : (2 ^ 32 + 2) * top.toNat ≤ qhat.toNat * top.toNat := Nat.mul_le_mul_right _ (by omega)
      omega
    have hproduct : (qhat * next).toNat = qhat.toNat * next.toNat := by
      have : qhat.toNat * next.toNat ≤ (2 ^ 32 + 1) * (2 ^ 32 - 1) := Nat.mul_le_mul hbound (by omega)
      rw [UInt64.toNat_mul, Nat.mod_eq_of_lt (by omega)]
    have hpos : 0 < top.toNat * 2 ^ 32 + next.toNat := by omega
    unfold correct
    simp only [Bool.or_eq_true, decide_eq_true_eq, UInt64.le_iff_toNat_le, UInt64.lt_iff_toNat_lt, hbase,
      Words.toNat_joined hrhat hlow, hproduct]
    by_cases htest : 2 ^ 32 ≤ qhat.toNat ∨ rhat.toNat * 2 ^ 32 + low.toNat < qhat.toNat * next.toNat
    · rw [if_pos htest]
      have hpositive : 0 < qhat.toNat := by
        rcases htest with hbig | hless
        · omega
        · exact Nat.pos_of_ne_zero fun h => by simp [h] at hless
      have hqhat : (qhat - 1).toNat = qhat.toNat - 1 :=
        UInt64.toNat_sub_of_le _ _ (UInt64.le_iff_toNat_le.2 (hone.trans_le hpositive))
      have hrhat' : (rhat + top).toNat = rhat.toNat + top.toNat := by
        rw [UInt64.toNat_add, Nat.mod_eq_of_lt (by omega)]
      have hone' : (qhat.toNat - 1) * top.toNat + top.toNat = qhat.toNat * top.toNat := by
        rw [← Nat.succ_mul, Nat.succ_eq_add_one, Nat.sub_add_cancel hpositive]
      -- The test shows that the estimate is too large.
      have hle' : min (2 ^ 32 - 1) (t / (top.toNat * 2 ^ 32 + next.toNat)) ≤ qhat.toNat - 1 := by
        rcases htest with hbig | hless
        · exact Nat.le_trans (Nat.min_le_left _ _) (by omega)
        · have hlt : t / (top.toNat * 2 ^ 32 + next.toNat) < qhat.toNat := by
            rw [Nat.div_lt_iff_lt_mul hpos, Nat.mul_add, ← Nat.mul_assoc]
            omega
          exact Nat.le_trans (Nat.min_le_right _ _) (by omega)
      rw [hrhat']
      by_cases hfull : 2 ^ 32 ≤ rhat.toNat + top.toNat
      · rw [if_pos hfull, hqhat]
        have hdigit : qhat.toNat - 1 ≤ 2 ^ 32 - 1 := by
          by_contra hgt
          have : 2 ^ 32 * top.toNat ≤ (qhat.toNat - 1) * top.toNat := Nat.mul_le_mul_right _ (by omega)
          omega
        refine Nat.le_antisymm (Nat.le_min.2 ⟨hdigit, ?_⟩) hle'
        -- A full word in the remainder outweighs the second word of the divisor.
        have hsecond : (qhat.toNat - 1) * next.toNat ≤ (2 ^ 32 - 1) * (2 ^ 32 - 1) :=
          Nat.mul_le_mul hdigit (by omega)
        rw [Nat.le_div_iff_mul_le hpos, Nat.mul_add, ← Nat.mul_assoc]
        omega
      · rw [if_neg hfull]
        refine ih (by omega) ?_ ?_ ?_ (hqhat ▸ hle')
        · rw [hrhat']
          rw [Nat.succ_mul] at hfuel
          omega
        · rw [hqhat, hrhat', ht]
          congr 2
          omega
        · rw [hqhat, hrhat']
          omega
    · rw [if_neg htest]
      rw [not_or, Nat.not_le, Nat.not_lt] at htest
      refine Nat.le_antisymm (Nat.le_min.2 ⟨by omega, ?_⟩) hle
      rw [Nat.le_div_iff_mul_le hpos, Nat.mul_add, ← Nat.mul_assoc]
      omega

/-- Without the second word of the divisor a quotient only becomes larger. -/
theorem top_quotient_le (dividend : Nat) {low top : Nat} (hlow : low < 2 ^ 32) (next : Nat) (htop : 0 < top) :
    (dividend * 2 ^ 32 + low) / (top * 2 ^ 32 + next) ≤ dividend / top := by
  have hhigh : (dividend * 2 ^ 32 + low) / 2 ^ 32 = dividend := by omega
  calc (dividend * 2 ^ 32 + low) / (top * 2 ^ 32 + next)
      ≤ (dividend * 2 ^ 32 + low) / (2 ^ 32 * top) := Nat.div_le_div_left (by omega) (by omega)
    _ = dividend / top := by rw [← Nat.div_div_eq_div_mul, hhigh]

/-- **The trial digit is the quotient of the top words**, or the greatest digit if that is less. -/
theorem toNat_trialDigit {u2 u1 u0 top next : UInt32} (htop : 2 ^ 31 ≤ top.toNat)
    (hle : u2.toNat ≤ top.toNat) :
    (trialDigit u2 u1 u0 top next).toNat =
      min (2 ^ 32 - 1) (((u2.toNat * 2 ^ 32 + u1.toNat) * 2 ^ 32 + u0.toNat) /
        (top.toNat * 2 ^ 32 + next.toNat)) := by
  have hu1 := u1.toNat_lt
  have hu0 := u0.toNat_lt
  have htop' := top.toNat_lt
  have hdividend : ((u2.toUInt64 <<< 32) ||| u1.toUInt64).toNat = u2.toNat * 2 ^ 32 + u1.toNat :=
    Words.toNat_joined (Words.toNat_toUInt64_lt u2) (Words.toNat_toUInt64_lt u1)
  have hsplit := Nat.div_add_mod' (u2.toNat * 2 ^ 32 + u1.toNat) top.toNat
  have hmod : (u2.toNat * 2 ^ 32 + u1.toNat) % top.toNat < top.toNat := Nat.mod_lt _ (by omega)
  have hquotient : (((u2.toUInt64 <<< 32) ||| u1.toUInt64) / top.toUInt64).toNat =
      (u2.toNat * 2 ^ 32 + u1.toNat) / top.toNat := by
    rw [UInt64.toNat_div, hdividend, UInt32.toNat_toUInt64]
  have hremainder : (((u2.toUInt64 <<< 32) ||| u1.toUInt64) % top.toUInt64).toNat =
      (u2.toNat * 2 ^ 32 + u1.toNat) % top.toNat := by
    rw [UInt64.toNat_mod, hdividend, UInt32.toNat_toUInt64]
  unfold trialDigit
  refine toNat_correct htop htop' (Words.toNat_toUInt64_lt next) (Words.toNat_toUInt64_lt u0) ?_ ?_ ?_ ?_ ?_
  · omega
  · rw [UInt32.toNat_toUInt64]
    omega
  · rw [hquotient, hremainder, UInt32.toNat_toUInt64, UInt32.toNat_toUInt64, hsplit]
  · rw [hquotient, hremainder, UInt32.toNat_toUInt64, hsplit]
    have : u2.toNat * 2 ^ 32 ≤ top.toNat * 2 ^ 32 := Nat.mul_le_mul_right _ hle
    omega
  · refine Nat.le_trans (Nat.min_le_right _ _) ?_
    rw [hquotient, UInt32.toNat_toUInt64, UInt32.toNat_toUInt64]
    exact top_quotient_le _ hu0 _ (by omega)

/-- **The trial digit is the true digit or one more**: `t` and `v` are the top words of the window and of the
divisor, `v` is at least a word, and the digit is less than one. -/
theorem trial_bounds {low t dlow v m : Nat} (hlow : low < m) (hdlow : dlow < m) (hv : 2 ^ 32 ≤ v)
    (hlt : low + m * t < 2 ^ 32 * (dlow + m * v)) :
    (low + m * t) / (dlow + m * v) ≤ min (2 ^ 32 - 1) (t / v) ∧
      min (2 ^ 32 - 1) (t / v) ≤ (low + m * t) / (dlow + m * v) + 1 := by
  have hm : 0 < m := by omega
  have hmv : 0 < m * v := Nat.mul_pos hm (by omega)
  have hd : 0 < dlow + m * v := by omega
  constructor
  · refine Nat.le_min.2 ⟨?_, ?_⟩
    · have := (Nat.div_lt_iff_lt_mul hd).2 hlt
      omega
    · -- A multiple of the divisor within the window is one of the top words alone.
      rw [Nat.le_div_iff_mul_le (by omega)]
      have hmul := Nat.div_mul_le_self (low + m * t) (dlow + m * v)
      generalize (low + m * t) / (dlow + m * v) = q at hmul ⊢
      have hq : m * (q * v) ≤ q * (dlow + m * v) := by
        calc m * (q * v) = q * (m * v) := by ring
          _ ≤ q * (dlow + m * v) := Nat.mul_le_mul_left q (Nat.le_add_left _ _)
      have hless : m * (q * v) < m * (t + 1) := by
        rw [Nat.mul_add]
        omega
      have := Nat.lt_of_mul_lt_mul_left hless
      omega
  · by_contra hgt
    have hwindow := Nat.lt_mul_div_succ (low + m * t) hd
    have htop : min (2 ^ 32 - 1) (t / v) * v ≤ t :=
      Nat.le_trans (Nat.mul_le_mul_right v (Nat.min_le_right _ _)) (Nat.div_mul_le_self t v)
    have hdigit : min (2 ^ 32 - 1) (t / v) ≤ 2 ^ 32 - 1 := Nat.min_le_left _ _
    generalize (low + m * t) / (dlow + m * v) = q at hwindow hgt
    generalize min (2 ^ 32 - 1) (t / v) = qhat at htop hdigit hgt
    -- The window is less than `qhat - 1` divisors, but it holds `qhat` times the top words.
    have hupper : (dlow + m * v) * (q + 1) ≤ m * (v + 1) * (qhat - 1) := by
      refine Nat.mul_le_mul ?_ (by omega)
      rw [Nat.mul_add]
      omega
    have hlower : m * (qhat * v) ≤ m * t := Nat.mul_le_mul_left m htop
    have hless : m * (qhat * v) < m * ((v + 1) * (qhat - 1)) := by
      rw [← Nat.mul_assoc m (v + 1)]
      omega
    have hfinal := Nat.lt_of_mul_lt_mul_left hless
    obtain ⟨p, rfl⟩ : ∃ p, qhat = p + 1 := ⟨qhat - 1, by omega⟩
    rw [Nat.add_sub_cancel, Nat.add_mul, Nat.add_mul, Nat.mul_comm v p] at hfinal
    omega

/-! ## Multiply and subtract -/

/-- An unsigned number below `2 ^ 63` as a signed one. -/
theorem toInt_toInt64 {x : UInt64} (hx : x.toNat < 2 ^ 63) : x.toInt64.toInt = x.toNat := by
  have hsame : x.toInt64.toUInt64 = x := rfl
  rw [toInt_word64, hsame, if_pos hx]

/-- The high word of a signed number, rounded down. -/
theorem toInt_highWord (t : Int64) : (t >>> 32).toInt = t.toInt / 2 ^ 32 := by
  have hamount : ((32 : Int64).toBitVec.smod 64).toNat = 32 := by decide
  show (t >>> 32).toBitVec.toInt = t.toBitVec.toInt / 2 ^ 32
  rw [Int64.toBitVec_shiftRight, BitVec.sshiftRight', BitVec.toInt_sshiftRight, hamount,
    Int.shiftRight_eq_div_pow]
  rfl

/-- The low word of a signed number. -/
theorem toNat_lowWord (t : Int64) : (t.toUInt64.toUInt32.toNat : Int) = t.toInt % 2 ^ 32 := by
  have hlt := t.toUInt64.toNat_lt
  rw [UInt64.toNat_toUInt32, toInt_word64]
  split <;> omega

/-- The numbers that one place of the subtraction goes through: none of them leaves 64 bits. -/
theorem mulSub_terms {qhat : UInt64} (hqhat : qhat.toNat < 2 ^ 32) (u v : UInt32) {borrow : Int64}
    (hborrow : 0 ≤ borrow.toInt) (hborrow' : borrow.toInt ≤ 2 ^ 32) :
    let product := qhat * v.toUInt64
    let less := u.toUInt64.toInt64 - borrow
    let t := less - (product &&& 0xFFFFFFFF).toInt64
    (product.toNat = qhat.toNat * v.toNat ∧ product.toNat ≤ (2 ^ 32 - 1) * (2 ^ 32 - 1)) ∧
      (product &&& 0xFFFFFFFF).toNat = product.toNat % 2 ^ 32 ∧
      (product &&& 0xFFFFFFFF).toInt64.toInt = (product.toNat % 2 ^ 32 : Nat) ∧
      (product >>> 32).toInt64.toInt = (product.toNat / 2 ^ 32 : Nat) ∧
      u.toUInt64.toInt64.toInt = u.toNat ∧ less.toInt = u.toNat - borrow.toInt ∧
      t.toInt = u.toNat - borrow.toInt - (product.toNat % 2 ^ 32 : Nat) := by
  intro product less t
  have hu := u.toNat_lt
  have hv := v.toNat_lt
  have hmax : qhat.toNat * v.toNat ≤ (2 ^ 32 - 1) * (2 ^ 32 - 1) := Nat.mul_le_mul (by omega) (by omega)
  have hproduct : product.toNat = qhat.toNat * v.toNat := by
    show (qhat * v.toUInt64).toNat = _
    rw [UInt64.toNat_mul, UInt32.toNat_toUInt64, Nat.mod_eq_of_lt (by omega)]
  have hand : (product &&& 0xFFFFFFFF).toNat = product.toNat % 2 ^ 32 := by
    rw [UInt64.toNat_and]
    exact Nat.and_two_pow_sub_one_eq_mod _ 32
  have hlow : (product &&& 0xFFFFFFFF).toInt64.toInt = (product.toNat % 2 ^ 32 : Nat) := by
    rw [toInt_toInt64 (by omega), hand]
  have hhigh : (product >>> 32).toInt64.toInt = (product.toNat / 2 ^ 32 : Nat) := by
    rw [toInt_toInt64 (by rw [Words.toNat_highWord]; omega), Words.toNat_highWord]
  have hword : u.toUInt64.toInt64.toInt = u.toNat := toInt_toInt64 (by rw [UInt32.toNat_toUInt64]; omega)
  have hless : less.toInt = u.toNat - borrow.toInt := by
    show (u.toUInt64.toInt64 - borrow).toInt = _
    rw [Int64.toInt_sub, hword, Int.bmod_eq_of_le (by omega) (by omega)]
  refine ⟨⟨hproduct, hproduct ▸ hmax⟩, hand, hlow, hhigh, hword, hless, ?_⟩
  show (less - (product &&& 0xFFFFFFFF).toInt64).toInt = _
  rw [Int64.toInt_sub, hless, hlow, Int.bmod_eq_of_le (by omega) (by omega)]

/-- One place of the subtraction: `u` less the borrow and the low word of a product, whose high word and what is
missing here are borrowed from the next place. -/
theorem mulSub_place {qhat : UInt64} (hqhat : qhat.toNat < 2 ^ 32) (u v : UInt32) {borrow : Int64}
    (hborrow : 0 ≤ borrow.toInt) (hborrow' : borrow.toInt ≤ 2 ^ 32) :
    let product := qhat * v.toUInt64
    let t := u.toUInt64.toInt64 - borrow - (product &&& 0xFFFFFFFF).toInt64
    let next := (product >>> 32).toInt64 - (t >>> 32)
    (0 ≤ next.toInt ∧ next.toInt ≤ 2 ^ 32) ∧
      (t.toUInt64.toUInt32.toNat : Int) - 2 ^ 32 * next.toInt =
        u.toNat - (qhat.toNat * v.toNat : Nat) - borrow.toInt := by
  intro product t next
  have hu := u.toNat_lt
  obtain ⟨⟨hproduct, hmax⟩, -, -, hhigh, -, -, hplace⟩ := mulSub_terms hqhat u v hborrow hborrow'
  change product.toNat = _ at hproduct
  change product.toNat ≤ _ at hmax
  change (product >>> 32).toInt64.toInt = (product.toNat / 2 ^ 32 : Nat) at hhigh
  change t.toInt = u.toNat - borrow.toInt - (product.toNat % 2 ^ 32 : Nat) at hplace
  have hnext : next.toInt = (product.toNat / 2 ^ 32 : Nat) - t.toInt / 2 ^ 32 := by
    show ((product >>> 32).toInt64 - (t >>> 32)).toInt = _
    rw [Int64.toInt_sub, hhigh, toInt_highWord, Int.bmod_eq_of_le (by omega) (by omega)]
  rw [toNat_lowWord, ← hproduct]
  omega

/-- **Multiply and subtract is exact**: below the signed top stand as many words as the divisor has. -/
theorem mulSub_exact {qhat : UInt64} (hqhat : qhat.toNat < 2 ^ 32) {vs us : Words} {borrow : Int64}
    (hlen : us.length = vs.length + 1) (hborrow : 0 ≤ borrow.toInt) (hborrow' : borrow.toInt ≤ 2 ^ 32) :
    ∃ low, (mulSub qhat vs us borrow).1 = low ++ [(mulSub qhat vs us borrow).2.toUInt64.toUInt32] ∧
      low.length = vs.length ∧
      (low.toNat : Int) + 2 ^ (32 * vs.length) * (mulSub qhat vs us borrow).2.toInt =
        us.toNat - (qhat.toNat * vs.toNat : Nat) - borrow.toInt := by
  induction vs generalizing us borrow with
  | nil =>
    obtain ⟨u, rfl⟩ := List.length_eq_one_iff.1 hlen
    have hu := u.toNat_lt
    have hword : u.toUInt64.toInt64.toInt = u.toNat := toInt_toInt64 (by rw [UInt32.toNat_toUInt64]; omega)
    refine ⟨[], rfl, rfl, ?_⟩
    have htop : (u.toUInt64.toInt64 - borrow).toInt = u.toNat - borrow.toInt := by
      rw [Int64.toInt_sub, hword, Int.bmod_eq_of_le (by omega) (by omega)]
    simp [mulSub, htop, Words.toNat_singleton]
  | cons v vs ih =>
    cases us with
    | nil => cases hlen
    | cons u us =>
      obtain ⟨⟨hnext, hnext'⟩, hplace⟩ := mulSub_place hqhat u v hborrow hborrow'
      obtain ⟨low, hwords, hlow, hexact⟩ := ih (Nat.succ.inj hlen) hnext hnext'
      refine ⟨_ :: low, congrArg (List.cons _) hwords, congrArg Nat.succ hlow, ?_⟩
      unfold mulSub
      dsimp only [List.headD_cons, List.tail_cons] at hexact ⊢
      rw [Words.toNat_cons, Words.toNat_cons, Words.toNat_cons, List.length_cons, Nat.mul_succ, pow_add]
      push_cast at hexact hplace ⊢
      linear_combination hplace + 2 ^ 32 * hexact

/-! ## Adding the divisor back -/

/-- A pass over the words of the divisor and of a window, without checks: the words that are left, and the last
carry. -/
def sweep {β : Type} (place : UInt32 → UInt32 → β → UInt32 × β) : Words → Words → β → Words × β
  | v :: vs, u :: us, carry =>
    let (w, next) := place v u carry
    let (ws, last) := sweep place vs us next
    (w :: ws, last)
  | _, _, carry => ([], carry)

/-- A pass leaves as many words. -/
theorem length_sweep {β : Type} (place : UInt32 → UInt32 → β → UInt32 × β) {vs us : Words}
    (hlen : us.length = vs.length) (carry : β) : (sweep place vs us carry).1.length = vs.length := by
  induction vs generalizing us carry with
  | nil => rfl
  | cons v vs ih =>
    cases us with
    | nil => cases hlen
    | cons u us => exact congrArg Nat.succ (ih (Nat.succ.inj hlen) _)

/-- One place of the addition of the divisor. -/
def addPlace (v u : UInt32) (carry : UInt64) : UInt32 × UInt64 :=
  let sum := u.toUInt64 + v.toUInt64 + carry
  (sum.toUInt32, sum >>> 32)

/-- The carry of an addition. -/
def Carried (carry : UInt64) : Prop := carry.toNat ≤ 1

/-- Nothing is carried into the first place. -/
theorem carried_zero : Carried 0 := Nat.zero_le 1

/-- The sum at one place is exact. -/
theorem toNat_placeSum (v u : UInt32) {carry : UInt64} (hcarry : Carried carry) :
    (u.toUInt64 + v.toUInt64).toNat = u.toNat + v.toNat ∧
      (u.toUInt64 + v.toUInt64 + carry).toNat = u.toNat + v.toNat + carry.toNat := by
  have hu := u.toNat_lt
  have hv := v.toNat_lt
  unfold Carried at hcarry
  have hboth : (u.toUInt64 + v.toUInt64).toNat = u.toNat + v.toNat := by
    rw [UInt64.toNat_add, UInt32.toNat_toUInt64, UInt32.toNat_toUInt64, Nat.mod_eq_of_lt (by omega)]
  refine ⟨hboth, ?_⟩
  rw [UInt64.toNat_add, hboth, Nat.mod_eq_of_lt (by omega)]

/-- At most one is carried to the next place. -/
theorem carried_addPlace (v u : UInt32) {carry : UInt64} (hcarry : Carried carry) : Carried (addPlace v u carry).2 := by
  have hu := u.toNat_lt
  have hv := v.toNat_lt
  have hsum := (toNat_placeSum v u hcarry).2
  unfold Carried addPlace at *
  rw [Words.toNat_highWord, hsum]
  omega

/-- The addition of the divisor passes over its words, and then adds the last carry to the top. -/
theorem addBack_eq_sweep {vs us : Words} (hlen : us.length = vs.length) (u : UInt32) (carry : UInt64) :
    addBack vs (us ++ [u]) carry =
      (sweep addPlace vs us carry).1 ++ [u + (sweep addPlace vs us carry).2.toUInt32] := by
  induction vs generalizing us carry with
  | nil =>
    obtain rfl := List.eq_nil_of_length_eq_zero hlen
    rfl
  | cons v vs ih =>
    cases us with
    | nil => cases hlen
    | cons w us =>
      simp only [List.cons_append, addBack, sweep, addPlace, List.headD_cons, List.tail_cons,
        ih (Nat.succ.inj hlen)]

/-- The addition of the divisor is exact, with the last carry above its words. -/
theorem toNat_sweep_addPlace {vs us : Words} (hlen : us.length = vs.length) {carry : UInt64} (hcarry : Carried carry) :
    Words.toNat (sweep addPlace vs us carry).1 + 2 ^ (32 * vs.length) * (sweep addPlace vs us carry).2.toNat =
      us.toNat + vs.toNat + carry.toNat := by
  induction vs generalizing us carry with
  | nil =>
    obtain rfl := List.eq_nil_of_length_eq_zero hlen
    simp [sweep]
  | cons v vs ih =>
    cases us with
    | nil => cases hlen
    | cons u us =>
      obtain ⟨-, hsum⟩ := toNat_placeSum v u hcarry
      have hrest := ih (Nat.succ.inj hlen) (carried_addPlace v u hcarry)
      have hplace : (addPlace v u carry).1.toNat + 2 ^ 32 * (addPlace v u carry).2.toNat =
          u.toNat + v.toNat + carry.toNat := by
        rw [addPlace, UInt64.toNat_toUInt32, Words.toNat_highWord, hsum]
        exact Nat.mod_add_div _ _
      have hsweep : sweep addPlace (v :: vs) (u :: us) carry =
          ((addPlace v u carry).1 :: (sweep addPlace vs us (addPlace v u carry).2).1,
            (sweep addPlace vs us (addPlace v u carry).2).2) := rfl
      rw [hsweep, Words.toNat_cons, Words.toNat_cons, Words.toNat_cons, List.length_cons, Nat.mul_succ, Nat.pow_add]
      linear_combination hplace + 2 ^ 32 * hrest

/-- The carry that leaves a remainder below a borrow is one. -/
theorem carry_one {sum carry r m : Nat} (h : sum + m * carry = r + m) (hsum : sum < m) (hr : r < m) : carry = 1 := by
  have hm : 0 < m := by omega
  calc carry = (sum + m * carry) / m := by rw [Nat.add_mul_div_left _ _ hm, Nat.div_eq_of_lt hsum, Nat.zero_add]
    _ = (r + m) / m := by rw [h]
    _ = 1 := by rw [Nat.add_div_right _ hm, Nat.div_eq_of_lt hr]

/-- **Adding the divisor back** to what is left below a borrow of one gives the remainder `r`, with a carry of one. -/
theorem addBack_outcome {vs us : Words} {r : Nat} (hlen : us.length = vs.length)
    (hleft : us.toNat + vs.toNat = r + 2 ^ (32 * vs.length)) (hr : r < 2 ^ (32 * vs.length)) :
    (sweep addPlace vs us 0).2 = 1 ∧ (sweep addPlace vs us 0).1.toNat = r := by
  have hsum := Words.toNat_lt (sweep addPlace vs us 0).1
  have hexact := toNat_sweep_addPlace hlen carried_zero
  rw [length_sweep addPlace hlen] at hsum
  have hone := carry_one (hexact.trans hleft) hsum hr
  refine ⟨UInt64.toNat_inj.1 hone, ?_⟩
  have hzero : (0 : UInt64).toNat = 0 := rfl
  rw [hone] at hexact
  omega

/-! ## One digit -/

/-- A magnitude by its top word and the others. -/
theorem exists_top {ws : Words} {n : Nat} (hlen : ws.length = n + 1) :
    ∃ (low : Words) (a : UInt32), ws = low ++ [a] ∧ low.length = n := by
  obtain rfl | ⟨low, a, rfl⟩ := List.eq_nil_or_concat ws
  · cases hlen
  · exact ⟨low, a, List.concat_eq_append, by simpa using hlen⟩

/-- The top words of a window are not above those of the divisor, if the remainder is below the divisor. -/
theorem top_le {low t u dlow v top next m : Nat} (hdlow : dlow < m) (hnext : next < 2 ^ 32)
    (hv : v = top * 2 ^ 32 + next) (ht : u * 2 ^ 64 ≤ t) (hlt : low + m * t < 2 ^ 32 * (dlow + m * v)) :
    u ≤ top := by
  by_contra hgt
  have hm : 0 < m := by omega
  have hupper : 2 ^ 32 * (dlow + m * v) ≤ 2 ^ 32 * (m * (v + 1)) := by
    refine Nat.mul_le_mul_left _ ?_
    rw [Nat.mul_add]
    omega
  have hlower : m * (2 ^ 32 * (v + 1)) ≤ m * t := Nat.mul_le_mul_left m (by omega)
  have hswap : 2 ^ 32 * (m * (v + 1)) = m * (2 ^ 32 * (v + 1)) := by ring
  omega

/-- The number that a window of three top words and others denotes. -/
theorem toNat_window (low : Words) (u0 u1 u2 : UInt32) :
    Words.toNat (low ++ [u0] ++ [u1] ++ [u2]) =
      low.toNat + 2 ^ (32 * low.length) * ((u2.toNat * 2 ^ 32 + u1.toNat) * 2 ^ 32 + u0.toNat) := by
  simp only [Words.toNat_append, Words.toNat_singleton, List.length_append, List.length_singleton,
    Nat.mul_add, Nat.pow_add]
  ring

/-- The number that a divisor of two top words and others denotes. -/
theorem toNat_divisor (low : Words) (next top : UInt32) :
    Words.toNat (low ++ [next] ++ [top]) =
      low.toNat + 2 ^ (32 * low.length) * (top.toNat * 2 ^ 32 + next.toNat) := by
  simp only [Words.toNat_append, Words.toNat_singleton, List.length_append, List.length_singleton,
    Nat.mul_add, Nat.pow_add]
  ring

/-- What a subtraction leaves: the remainder if the digit `qhat` was the true one, and otherwise, below zero by one at
the signed top, the remainder less one divisor. -/
theorem digit_outcome {q qhat window d low m : Nat} {top : Int} (hd : 0 < d) (hdm : d < m) (hlow : low < m)
    (hq : window / d = q) (hle : q ≤ qhat) (hle' : qhat ≤ q + 1)
    (hexact : (low : Int) + m * top = window - (qhat * d : Nat)) :
    qhat = q ∧ top = 0 ∧ low = window % d ∨ qhat = q + 1 ∧ top = -1 ∧ low + d = window % d + m := by
  have hsplit := Nat.div_add_mod window d
  have hmod := Nat.mod_lt window hd
  rw [hq, Nat.mul_comm] at hsplit
  generalize window % d = r at hsplit hmod ⊢
  -- The top is within one of zero, because all else is less than its place.
  have htop : top = -1 ∨ top = 0 := by
    obtain rfl | rfl : qhat = q ∨ qhat = q + 1 := by omega
    · have hlower : ¬ top ≤ -1 := fun h => by
        have : (m : Int) * top ≤ m * (-1) := Int.mul_le_mul_of_nonneg_left h (by omega)
        omega
      have hupper : ¬ 1 ≤ top := fun h => by
        have : (m : Int) * 1 ≤ m * top := Int.mul_le_mul_of_nonneg_left h (by omega)
        omega
      omega
    · rw [Nat.succ_mul] at hexact
      have hlower : ¬ top ≤ -2 := fun h => by
        have : (m : Int) * top ≤ m * (-2) := Int.mul_le_mul_of_nonneg_left h (by omega)
        omega
      have hupper : ¬ 1 ≤ top := fun h => by
        have : (m : Int) * 1 ≤ m * top := Int.mul_le_mul_of_nonneg_left h (by omega)
        omega
      omega
  obtain rfl | rfl : qhat = q ∨ qhat = q + 1 := by omega
  · obtain rfl | rfl := htop <;> omega
  · rw [Nat.succ_mul] at hexact
    obtain rfl | rfl := htop <;> omega

/-- The trial digit of a window, by the top words of the window and of the divisor. -/
def estimate (divisor window : Words) : UInt64 :=
  let n := divisor.length
  trialDigit (window.getD n 0) (window.getD (n - 1) 0) (window.getD (n - 2) 0) (divisor.getD (n - 1) 0)
    (divisor.getD (n - 2) 0)

/-- **The trial digit of a window is the true digit or one more.** -/
theorem estimate_near {divisor window : Words} (hn : 2 ≤ divisor.length)
    (hscaled : 2 ^ 31 ≤ (divisor.getLastD 0).toNat) (hlen : window.length = divisor.length + 1)
    (hless : window.toNat < 2 ^ 32 * divisor.toNat) :
    window.toNat / divisor.toNat ≤ (estimate divisor window).toNat ∧
      (estimate divisor window).toNat ≤ window.toNat / divisor.toNat + 1 ∧
      (estimate divisor window).toNat < 2 ^ 32 := by
  obtain ⟨k, hk⟩ : ∃ k, divisor.length = k + 2 := ⟨divisor.length - 2, by omega⟩
  obtain ⟨others, top, rfl, hlen₁⟩ := exists_top hk
  obtain ⟨dlow, next, rfl, hdlow⟩ := exists_top hlen₁
  obtain ⟨window₁, u2, rfl, hlen₂⟩ := exists_top (hlen.trans (congrArg Nat.succ hk))
  obtain ⟨window₂, u1, rfl, hlen₃⟩ := exists_top hlen₂
  obtain ⟨wlow, u0, rfl, hwlow⟩ := exists_top hlen₃
  have hqhat : estimate (dlow ++ [next] ++ [top]) (wlow ++ [u0] ++ [u1] ++ [u2]) = trialDigit u2 u1 u0 top next := by
    simp only [estimate, hk, Nat.add_sub_cancel, Nat.add_succ_sub_one]
    simp [hdlow, hwlow, List.getD_eq_getElem?_getD]
  rw [List.getLastD_concat] at hscaled
  rw [toNat_window, toNat_divisor, hdlow, hwlow] at hless
  rw [toNat_window, toNat_divisor, hdlow, hwlow, hqhat]
  have hdlow' := Words.toNat_lt dlow
  have hwlow' := Words.toNat_lt wlow
  rw [hdlow] at hdlow'
  rw [hwlow] at hwlow'
  have hu2 : u2.toNat ≤ top.toNat :=
    top_le hdlow' next.toNat_lt rfl (by omega) hless
  obtain ⟨hlower, hupper⟩ := trial_bounds hwlow' hdlow' (by omega) hless
  rw [toNat_trialDigit hscaled hu2]
  exact ⟨hlower, hupper, Nat.lt_of_le_of_lt (Nat.min_le_left _ _) (by decide)⟩

/-- **What is left of a window** when the multiple of the divisor by the trial digit is subtracted: below the signed
top there is the remainder if the top is zero; it is minus one if the digit was one too large. -/
theorem mulSub_outcome {divisor window : Words} (hn : 2 ≤ divisor.length)
    (hscaled : 2 ^ 31 ≤ (divisor.getLastD 0).toNat) (hlen : window.length = divisor.length + 1)
    (hless : window.toNat < 2 ^ 32 * divisor.toNat) :
    let qhat := estimate divisor window
    let diff := mulSub qhat divisor window 0
    ∃ low, diff.1 = low ++ [diff.2.toUInt64.toUInt32] ∧ low.length = divisor.length ∧
      (qhat.toNat = window.toNat / divisor.toNat ∧ diff.2 = 0 ∧ low.toNat = window.toNat % divisor.toNat ∨
        qhat.toNat = window.toNat / divisor.toNat + 1 ∧ diff.2 = -1 ∧
          low.toNat + divisor.toNat = window.toNat % divisor.toNat + 2 ^ (32 * divisor.length)) := by
  intro qhat diff
  obtain ⟨hlower, hupper, hdigit⟩ := estimate_near hn hscaled hlen hless
  obtain ⟨low, hwords, hlow, hexact⟩ := mulSub_exact hdigit hlen (by decide : 0 ≤ (0 : Int64).toInt) (by decide)
  have hlow' := Words.toNat_lt low
  rw [hlow] at hlow'
  refine ⟨low, hwords, hlow, ?_⟩
  obtain ⟨hqhat, htop, hrest⟩ | ⟨hqhat, htop, hrest⟩ := digit_outcome (by omega) (Words.toNat_lt divisor) hlow' rfl
    hlower hupper (by push_cast; simpa using hexact)
  · exact .inl ⟨hqhat, Int64.toInt_inj.1 htop, hrest⟩
  · exact .inr ⟨hqhat, Int64.toInt_inj.1 htop, hrest⟩

/-- **What a digit leaves of the numerator**: as many words as the divisor has, which are less than it. -/
structure Rest (divisor rem : Words) : Prop where
  /-- As many words. -/
  length : rem.length = divisor.length
  /-- They are less than the divisor. -/
  lt : rem.toNat < divisor.toNat

/-- The window of a rest and of the word that is brought down below it. -/
theorem Rest.window {divisor rem : Words} (h : Rest divisor rem) (w : UInt32) :
    (w :: rem).length = divisor.length + 1 ∧ Words.toNat (w :: rem) = rem.toNat * 2 ^ 32 + w.toNat ∧
      Words.toNat (w :: rem) < 2 ^ 32 * divisor.toNat := by
  have hw := w.toNat_lt
  have hless := h.lt
  have hnumber : Words.toNat (w :: rem) = rem.toNat * 2 ^ 32 + w.toNat := by
    rw [Words.toNat_cons]
    omega
  exact ⟨congrArg Nat.succ h.length, hnumber, by omega⟩

/-- A digit is the estimate of its window, or one less if the subtraction went below zero. -/
theorem digitStep_eq (divisor rem : Words) (w : UInt32) :
    let qhat := estimate divisor (w :: rem)
    let diff := mulSub qhat divisor (w :: rem) 0
    digitStep divisor rem w =
      if diff.2 < 0 then (qhat.toUInt32 - 1, (addBack divisor diff.1 0).take divisor.length)
      else (qhat.toUInt32, diff.1.take divisor.length) := rfl

/-- **One digit is exact.** The remainder stays below the divisor and keeps as many words. -/
theorem digitStep_exact {divisor rem : Words} (w : UInt32) (hn : 2 ≤ divisor.length)
    (hscaled : 2 ^ 31 ≤ (divisor.getLastD 0).toNat) (hrem : Rest divisor rem) :
    (digitStep divisor rem w).1.toNat = (rem.toNat * 2 ^ 32 + w.toNat) / divisor.toNat ∧
      (digitStep divisor rem w).2.toNat = (rem.toNat * 2 ^ 32 + w.toNat) % divisor.toNat ∧
      Rest divisor (digitStep divisor rem w).2 := by
  obtain ⟨hlen', hnumber, hless⟩ := hrem.window w
  have hmod : Words.toNat (w :: rem) % divisor.toNat < divisor.toNat := Nat.mod_lt _ (by omega)
  obtain ⟨-, -, hdigit⟩ := estimate_near hn hscaled hlen' hless
  obtain ⟨low, hwords, hlow, houtcome⟩ := mulSub_outcome hn hscaled hlen' hless
  rw [digitStep_eq, ← hnumber, hwords]
  have hword : (estimate divisor (w :: rem)).toUInt32.toNat = (estimate divisor (w :: rem)).toNat := by
    rw [UInt64.toNat_toUInt32, Nat.mod_eq_of_lt hdigit]
  obtain ⟨hqhat, htop, hrest⟩ | ⟨hqhat, htop, hrest⟩ := houtcome
  · rw [htop, if_neg (by decide), List.take_left' hlow, hword]
    exact ⟨hqhat, hrest, hlow, hrest.trans_lt hmod⟩
  · -- The digit was too large: the divisor is added back, and the carry out of its words is dropped.
    obtain ⟨-, hback⟩ := addBack_outcome hlow hrest (Nat.lt_trans hmod (Words.toNat_lt divisor))
    have hlength := length_sweep addPlace hlow 0
    have hone : (1 : UInt32).toNat ≤ (estimate divisor (w :: rem)).toUInt32.toNat := by
      rw [hword, hqhat]
      exact Nat.le_add_left _ _
    rw [htop, if_pos (by decide), addBack_eq_sweep hlow, List.take_left' hlength]
    refine ⟨?_, hback, hlength, hback.trans_lt hmod⟩
    rw [UInt32.toNat_sub_of_le _ _ hone, hword, hqhat]
    rfl

/-- **The digits of a quotient**, from a remainder below the scaled divisor on. -/
theorem digits_exact {divisor : Words} (hn : 2 ≤ divisor.length)
    (hscaled : 2 ^ 31 ≤ (divisor.getLastD 0).toNat) (ws quotient : Words) {rem : Words} (hrem : Rest divisor rem) :
    (digits divisor ws quotient rem).1.toNat =
        (rem.toNat * 2 ^ (32 * ws.length) + Words.toNat ws.reverse) / divisor.toNat +
          2 ^ (32 * ws.length) * quotient.toNat ∧
      (digits divisor ws quotient rem).2.toNat =
        (rem.toNat * 2 ^ (32 * ws.length) + Words.toNat ws.reverse) % divisor.toNat ∧
      Rest divisor (digits divisor ws quotient rem).2 := by
  induction ws generalizing quotient rem with
  | nil =>
    refine ⟨?_, ?_, hrem⟩
    · simp [digits, Nat.div_eq_of_lt hrem.lt]
    · simp [digits, Nat.mod_eq_of_lt hrem.lt]
  | cons w ws ih =>
    have hpos : 0 < divisor.toNat := Nat.zero_lt_of_lt hrem.lt
    obtain ⟨hdigit, hnext, hrem'⟩ := digitStep_exact w hn hscaled hrem
    obtain ⟨hquotient, hremainder, hleft⟩ := ih ((digitStep divisor rem w).1 :: quotient) hrem'
    obtain ⟨hdiv, hmod⟩ := Words.div_bringDown rem.toNat w ws hpos
    have hstep : digits divisor (w :: ws) quotient rem =
        digits divisor ws ((digitStep divisor rem w).1 :: quotient) (digitStep divisor rem w).2 := rfl
    rw [hstep, hquotient, hremainder, hdiv, hmod, hnext, Words.toNat_cons, hdigit, List.length_cons,
      Nat.mul_succ, Nat.pow_add]
    exact ⟨by ring, rfl, hleft⟩

/-! ## Scaling -/

/-- Scaling by the leading zeros of a word sets its top bit, and no bit is lost. -/
theorem leadingZeros_scales {w : UInt32} (hw : w ≠ 0) :
    (leadingZeros w).toNat < 32 ∧ 2 ^ 31 ≤ w.toNat * 2 ^ (leadingZeros w).toNat ∧
      (w.toNat + 1) * 2 ^ (leadingZeros w).toNat ≤ 2 ^ 32 := by
  have hne : w.toNat ≠ 0 := fun h => hw (UInt32.toNat_inj.1 h)
  have hlog : w.log2.toNat = w.toNat.log2 := rfl
  have hlow := Nat.log2_self_le hne
  have hhigh : w.toNat < 2 ^ (w.toNat.log2 + 1) := Nat.lt_log2_self
  have hlt : w.toNat.log2 < 32 := (Nat.log2_lt hne).2 w.toNat_lt
  have hzeros : (leadingZeros w).toNat = 31 - w.toNat.log2 := by
    have hle : w.log2.toUInt64 ≤ 31 := by
      rw [UInt64.le_iff_toNat_le, UInt32.toNat_toUInt64, hlog]
      exact Nat.le_of_lt_succ hlt
    unfold leadingZeros
    rw [UInt64.toNat_sub_of_le _ _ hle, UInt32.toNat_toUInt64, hlog]
    rfl
  rw [hzeros]
  have hsplit : 2 ^ w.toNat.log2 * 2 ^ (31 - w.toNat.log2) = 2 ^ 31 := by
    rw [← Nat.pow_add]
    congr 1
    omega
  refine ⟨by omega, ?_, ?_⟩
  · calc 2 ^ 31 = 2 ^ w.toNat.log2 * 2 ^ (31 - w.toNat.log2) := hsplit.symm
      _ ≤ w.toNat * 2 ^ (31 - w.toNat.log2) := Nat.mul_le_mul_right _ hlow
  · calc (w.toNat + 1) * 2 ^ (31 - w.toNat.log2)
        ≤ 2 ^ (w.toNat.log2 + 1) * 2 ^ (31 - w.toNat.log2) := Nat.mul_le_mul_right _ hhigh
      _ = 2 * (2 ^ w.toNat.log2 * 2 ^ (31 - w.toNat.log2)) := by ring
      _ = 2 ^ 32 := by omega

/-- The top word of a magnitude that is long enough. -/
theorem le_top {low : Words} {top : UInt32} {b : Nat}
    (h : 2 ^ (32 * low.length) * b ≤ Words.toNat (low ++ [top])) : b ≤ top.toNat := by
  have hlow := Words.toNat_lt low
  rw [Words.toNat_append, Words.toNat_singleton] at h
  have hlt : 2 ^ (32 * low.length) * b < 2 ^ (32 * low.length) * (top.toNat + 1) := by
    rw [Nat.mul_succ]
    omega
  exact Nat.le_of_lt_succ (Nat.lt_of_mul_lt_mul_left hlt)

/-- **Scaling a divisor** sets its top bit, and no word is added. -/
theorem scaled_divisor {den : Words} {n : Nat} (hden : den.Trimmed) (hn : den.length = n + 1) :
    let shift := leadingZeros (den.getLastD 0)
    let divisor := (Words.shiftLeftBits shift den 0).1
    shift.toNat < 32 ∧ divisor.length = den.length ∧ divisor.toNat = den.toNat * 2 ^ shift.toNat ∧
      2 ^ (32 * n) * 2 ^ 31 ≤ divisor.toNat ∧ 2 ^ 31 ≤ (divisor.getLastD 0).toNat := by
  obtain ⟨low, top, rfl, rfl⟩ := exists_top hn
  intro shift divisor
  have hshift : shift = leadingZeros top := by simp [shift]
  obtain ⟨hsmall, hbit, hfits⟩ := leadingZeros_scales ((Words.trimmed_concat low).1 hden)
  rw [← hshift] at hsmall hbit hfits
  have hlen : divisor.length = low.length + 1 := by simp [divisor, Words.length_shiftLeftBits]
  have hvalue : Words.toNat (low ++ [top]) * 2 ^ shift.toNat =
      low.toNat * 2 ^ shift.toNat + 2 ^ (32 * low.length) * (top.toNat * 2 ^ shift.toNat) := by
    rw [Words.toNat_append, Words.toNat_singleton, Nat.add_mul, Nat.mul_assoc]
  -- The scaled number has no more words, so that nothing is carried out of them.
  have hless : Words.toNat (low ++ [top]) * 2 ^ shift.toNat < 2 ^ (32 * (low.length + 1)) := by
    have hlow : low.toNat * 2 ^ shift.toNat < 2 ^ (32 * low.length) * 2 ^ shift.toNat :=
      Nat.mul_lt_mul_of_pos_right (Words.toNat_lt low) (Nat.two_pow_pos _)
    have hall := Nat.mul_le_mul_left (2 ^ (32 * low.length)) hfits
    rw [Nat.add_mul top.toNat, Nat.one_mul, Nat.mul_add] at hall
    rw [hvalue, Nat.mul_succ, Nat.pow_add]
    omega
  have hcarry : (0 : UInt64).toNat < 2 ^ shift.toNat := Nat.two_pow_pos _
  have hexact := Words.toNat_shiftLeftBits (low ++ [top]) hsmall hcarry
  have hout : (Words.shiftLeftBits shift (low ++ [top]) 0).2.toNat = 0 := by
    by_contra hpos
    have : 2 ^ (32 * (low ++ [top]).length) * 1 ≤
        2 ^ (32 * (low ++ [top]).length) * (Words.shiftLeftBits shift (low ++ [top]) 0).2.toNat :=
      Nat.mul_le_mul_left _ (Nat.pos_of_ne_zero hpos)
    rw [hn] at this hexact
    have hzero : (0 : UInt64).toNat = 0 := rfl
    omega
  have hdivisor : divisor.toNat = Words.toNat (low ++ [top]) * 2 ^ shift.toNat := by
    rw [hout] at hexact
    exact hexact
  have hlarge : 2 ^ (32 * low.length) * 2 ^ 31 ≤ divisor.toNat := by
    rw [hdivisor, hvalue]
    exact Nat.le_trans (Nat.mul_le_mul_left _ hbit) (Nat.le_add_left _ _)
  refine ⟨hsmall, hlen.trans hn.symm, hdivisor, hlarge, ?_⟩
  obtain ⟨dlow, dtop, hwords, hdlow⟩ := exists_top hlen
  rw [hwords, ← hdlow] at hlarge
  rw [hwords, List.getLastD_concat]
  exact le_top hlarge

/-- **A division is scaled**: numerator and divisor are multiplied by the same power of two, which sets the top bit of
the divisor. The top words of the numerator, as many as the divisor has, are less than the divisor. -/
structure Scaled (num den : Words) (shift : UInt64) (divisor scaled : Words) : Prop where
  /-- Less than a word is shifted. -/
  shift_lt : shift.toNat < 32
  /-- The divisor keeps its length. -/
  length_divisor : divisor.length = den.length
  /-- The numerator gets one word more. -/
  length_scaled : scaled.length = num.length + 1
  /-- The scaled divisor. -/
  toNat_divisor : divisor.toNat = den.toNat * 2 ^ shift.toNat
  /-- The scaled numerator. -/
  toNat_scaled : scaled.toNat = num.toNat * 2 ^ shift.toNat
  /-- The top bit of the divisor is set. -/
  top_bit : 2 ^ 31 ≤ (divisor.getLastD 0).toNat
  /-- The words from which the division starts. -/
  rest_lt : Words.toNat (scaled.drop (num.length + 1 - den.length)) < divisor.toNat

/-- The shift of a division, the scaled divisor and the scaled numerator. -/
theorem scaled_of_trimmed {num den : Words} (hden : den.Trimmed) (hn : 2 ≤ den.length)
    (hlen : den.length ≤ num.length) :
    let shift := leadingZeros (den.getLastD 0)
    Scaled num den shift (Words.shiftLeftBits shift den 0).1
      ((Words.shiftLeftBits shift num 0).1 ++ [(Words.shiftLeftBits shift num 0).2.toUInt32]) := by
  intro shift
  obtain ⟨n, hn'⟩ : ∃ n, den.length = n + 1 := ⟨den.length - 1, by omega⟩
  obtain ⟨hsmall, hlen', hdivisor, hlarge, htop⟩ := scaled_divisor hden hn'
  have hscaled := Words.toNat_shiftLeftBits_concat num hsmall
  refine ⟨hsmall, hlen', by simp [Words.length_shiftLeftBits], hdivisor, hscaled, htop, ?_⟩
  obtain ⟨count, hcount⟩ : ∃ count, num.length = count + n := ⟨num.length - n, by omega⟩
  -- The top of the numerator holds only the bits that scaling has carried out of its words.
  have hbits : 2 ^ shift.toNat ≤ 2 ^ 31 := Nat.pow_le_pow_right (by decide) (Nat.le_of_lt_succ hsmall)
  rw [Words.toNat_drop, hscaled, hn', hcount, Nat.add_assoc, Nat.add_sub_cancel]
  apply Nat.div_lt_of_lt_mul
  calc num.toNat * 2 ^ shift.toNat
      ≤ num.toNat * 2 ^ 31 := Nat.mul_le_mul_left _ hbits
    _ < 2 ^ (32 * (count + n)) * 2 ^ 31 :=
      Nat.mul_lt_mul_of_pos_right (hcount ▸ Words.toNat_lt num) (by decide)
    _ = 2 ^ (32 * count) * (2 ^ (32 * n) * 2 ^ 31) := by ring
    _ ≤ 2 ^ (32 * count) * Words.toNat (Words.shiftLeftBits shift den 0).1 := Nat.mul_le_mul_left _ hlarge

/-- The words of a scaled numerator that are brought down, and those from which the division starts. -/
theorem Scaled.words {num den divisor scaled : Words} {shift : UInt64}
    (h : Scaled num den shift divisor scaled) (hlen : den.length ≤ num.length) :
    let count := num.length + 1 - den.length
    (scaled.take count).reverse.length = count ∧ Rest divisor (scaled.drop count) := by
  intro count
  have hcount : count ≤ scaled.length := by
    rw [h.length_scaled]
    exact Nat.sub_le _ _
  refine ⟨by rw [List.length_reverse, List.length_take_of_le hcount], ?_, h.rest_lt⟩
  rw [List.length_drop, h.length_scaled, h.length_divisor]
  omega

/-- **The digits of a scaled division** are those of the quotient, and what they leave is the scaled remainder. -/
theorem Scaled.digits {num den divisor scaled : Words} {shift : UInt64} (h : Scaled num den shift divisor scaled)
    (hn : 2 ≤ den.length) (hlen : den.length ≤ num.length) :
    let count := num.length + 1 - den.length
    (digits divisor (scaled.take count).reverse [] (scaled.drop count)).1.toNat = num.toNat / den.toNat ∧
      (digits divisor (scaled.take count).reverse [] (scaled.drop count)).2.toNat =
        num.toNat % den.toNat * 2 ^ shift.toNat := by
  intro count
  obtain ⟨htake, hrest⟩ := h.words hlen
  have hsplit : Words.toNat (scaled.drop count) * 2 ^ (32 * count) + Words.toNat (scaled.take count) =
      num.toNat * 2 ^ shift.toNat := by
    have happend := Words.toNat_append (scaled.take count) (scaled.drop count)
    rw [List.take_append_drop, ← List.length_reverse, htake, h.toNat_scaled] at happend
    rw [happend]
    ring
  obtain ⟨hquotient, hremainder, -⟩ :=
    digits_exact (h.length_divisor.symm ▸ hn) h.top_bit (scaled.take count).reverse [] hrest
  rw [List.reverse_reverse, htake, hsplit, h.toNat_divisor] at hquotient hremainder
  have hpos := Nat.two_pow_pos shift.toNat
  constructor
  · rw [hquotient, Nat.mul_div_mul_right _ _ hpos, Words.toNat_nil, Nat.mul_zero, Nat.add_zero]
  · rw [hremainder, Nat.mul_mod_mul_right]

/-- Long division finds the digits of the scaled division, and scales what they leave back. -/
theorem divRem_eq_digits {num den : Words} (hden : den.Trimmed) (hn : 2 ≤ den.length)
    (hlen : den.length ≤ num.length) :
    let shift := leadingZeros (den.getLastD 0)
    let scaled := (Words.shiftLeftBits shift num 0).1 ++ [(Words.shiftLeftBits shift num 0).2.toUInt32]
    let count := num.length + 1 - den.length
    let left := digits (Words.shiftLeftBits shift den 0).1 (scaled.take count).reverse [] (scaled.drop count)
    divRem num den = (Words.trim left.1, Words.trim (Words.shiftRightBits shift left.2)) := by
  have hscaled := scaled_of_trimmed hden hn hlen
  unfold divRem
  dsimp only
  rw [hscaled.length_scaled, hscaled.length_divisor]

/-- **Long division is exact.** -/
theorem toNat_divRem {num den : Words} (hden : den.Trimmed) (hn : 2 ≤ den.length)
    (hlen : den.length ≤ num.length) :
    (divRem num den).1.toNat = num.toNat / den.toNat ∧ (divRem num den).2.toNat = num.toNat % den.toNat := by
  have hscaled := scaled_of_trimmed hden hn hlen
  obtain ⟨hquotient, hremainder⟩ := hscaled.digits hn hlen
  rw [divRem_eq_digits hden hn hlen]
  constructor
  · rw [Words.toNat_trim, hquotient]
  · rw [Words.toNat_trim, Words.toNat_shiftRightBits _ hscaled.shift_lt, hremainder,
      Nat.mul_div_cancel _ (Nat.two_pow_pos _)]

end LongDivision

/-! ## Quotients and remainders -/

/-- A divisor of more than one word that is not above the numerator is left to long division. -/
theorem Words.divRem_of_not_lt {num den : Words} (h : order num den ≠ .lt) (hone : ∀ d, den ≠ [d]) :
    divRem num den = LongDivision.divRem num den := by
  unfold divRem
  split
  · rename_i hlt
    exact absurd hlt h
  · exact absurd rfl (hone _)
  · rfl

/-- **Division of magnitudes is exact.** -/
theorem Words.toNat_divRem {num den : Words} (hnum : num.Trimmed) (hden : den.Trimmed) (hne : den ≠ []) :
    (divRem num den).1.toNat = num.toNat / den.toNat ∧ (divRem num den).2.toNat = num.toNat % den.toNat := by
  have horder := order_eq hnum hden
  by_cases hlt : num.toNat < den.toNat
  · rw [Nat.compare_eq_lt.2 hlt] at horder
    simp [divRem, horder, Nat.div_eq_of_lt hlt, Nat.mod_eq_of_lt hlt]
  have hge : order num den ≠ .lt := by
    rw [horder]
    exact fun h => hlt (Nat.compare_eq_lt.1 h)
  by_cases hone : ∃ d, den = [d]
  · obtain ⟨d, rfl⟩ := hone
    have hd : d ≠ 0 := by simpa [Trimmed] using hden
    obtain ⟨hquotient, hremainder⟩ := toNat_divRemWord num hd
    simp [divRem, toNat_trim, toNat_singleton, hquotient, hremainder]
  · rw [divRem_of_not_lt hge fun d h => hone ⟨d, h⟩]
    have hlen : 2 ≤ den.length := by
      match den, hne, hone with
      | [d], _, hone => exact absurd ⟨d, rfl⟩ hone
      | _ :: _ :: _, _, _ => simp
    refine LongDivision.toNat_divRem hden hlen (Nat.le_of_not_lt fun hshort => hlt ?_)
    exact toNat_lt_of_length_lt hden hshort

/-- **Division of registers is exact.** -/
theorem Register.toNat_divRem {num den : Words} (hnum : num.Trimmed) (hden : den.Trimmed) (hne : den ≠ []) :
    (divRem num den).1.toNat = num.toNat / den.toNat ∧ (divRem num den).2.toNat = num.toNat % den.toNat := by
  by_cases hword : (isWord num && den.length == 1) = true
  · rw [Bool.and_eq_true, beq_iff_eq] at hword
    have hden' : isWord den = true := by simp [isWord, hword.2]
    simp [divRem, hword, Words.toNat_trim, Words.toNat_singleton, toNat_of_isWord, toNat_ofUInt64, hden']
  · simpa [divRem, hword] using Words.toNat_divRem hnum hden hne

end ScriptMachine
