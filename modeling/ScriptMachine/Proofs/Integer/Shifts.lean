import ScriptMachine.Proofs.Integer.Words

/-! # Shifts of magnitudes

Shifts by fewer than 32 bits go through the words one by one: each word takes in the bits that its neighbour
has shifted out. Whole words are added or dropped at the low end.

* `Words.toNat_shiftLeftBits`, `Words.toNat_shiftRightBits`: fewer than 32 bits.
* `Words.toNat_shiftLeft`, `Words.toNat_shiftRight`: any number of bits.
-/

namespace ScriptMachine

namespace Words

/-- A word at the top. -/
theorem toNat_reverse_cons (w : UInt32) (ws : Words) :
    toNat (w :: ws).reverse = w.toNat * 2 ^ (32 * ws.length) + toNat ws.reverse := by
  rw [List.reverse_cons, toNat_append, toNat_singleton, List.length_reverse, Nat.mul_comm, Nat.add_comm]

/-- Shifted bits and bits below them do not overlap. -/
theorem toNat_shiftLeft_or (w : UInt32) {bits low : UInt64} (hbits : bits.toNat ≤ 32)
    (hlow : low.toNat < 2 ^ bits.toNat) :
    ((w.toUInt64 <<< bits) ||| low).toNat = w.toNat * 2 ^ bits.toNat + low.toNat := by
  have hw := w.toNat_lt
  have hpow : 2 ^ bits.toNat ≤ 2 ^ 32 := Nat.pow_le_pow_right (by decide) hbits
  have hprod : w.toNat * 2 ^ bits.toNat ≤ (2 ^ 32 - 1) * 2 ^ 32 := Nat.mul_le_mul (by omega) hpow
  have hmod : bits.toNat % 64 = bits.toNat := by omega
  rw [UInt64.toNat_or, UInt64.toNat_shiftLeft, UInt32.toNat_toUInt64, hmod, Nat.shiftLeft_eq,
    Nat.mod_eq_of_lt (by omega), Nat.mul_comm, Nat.two_pow_add_eq_or_of_lt hlow]

/-- A word as a number of 64 bits. -/
theorem toNat_toUInt64_lt (w : UInt32) : w.toUInt64.toNat < 2 ^ 32 := w.toNat_lt

/-- Two words as one number of 64 bits. -/
theorem toNat_joined {high low : UInt64} (hhigh : high.toNat < 2 ^ 32) (hlow : low.toNat < 2 ^ 32) :
    ((high <<< 32) ||| low).toNat = high.toNat * 2 ^ 32 + low.toNat := by
  have hsame : high.toUInt32.toNat = high.toNat := by
    rw [UInt64.toNat_toUInt32, Nat.mod_eq_of_lt hhigh]
  have hword : high.toUInt32.toUInt64 = high := by
    rw [← UInt64.toNat_inj, UInt32.toNat_toUInt64, hsame]
  have hexact := toNat_shiftLeft_or high.toUInt32 (by decide : (32 : UInt64).toNat ≤ 32) hlow
  rw [hword, hsame] at hexact
  exact hexact

/-- **Shifting left by fewer than 32 bits is exact**: the bits that leave the top are handed out. -/
theorem toNat_shiftLeftBits (ws : Words) {bits carry : UInt64} (hbits : bits.toNat < 32)
    (hcarry : carry.toNat < 2 ^ bits.toNat) :
    toNat (shiftLeftBits bits ws carry).1 + 2 ^ (32 * ws.length) * (shiftLeftBits bits ws carry).2.toNat =
      toNat ws * 2 ^ bits.toNat + carry.toNat := by
  induction ws generalizing carry with
  | nil => simp [shiftLeftBits]
  | cons w ws ih =>
    have hsum := toNat_shiftLeft_or w (Nat.le_of_lt hbits) hcarry
    -- What leaves a word is less than what was shifted in.
    have hnext : (((w.toUInt64 <<< bits) ||| carry) >>> 32).toNat < 2 ^ bits.toNat := by
      have hw := w.toNat_lt
      rw [toNat_highWord, hsum, Nat.div_lt_iff_lt_mul (by decide)]
      calc w.toNat * 2 ^ bits.toNat + carry.toNat < w.toNat * 2 ^ bits.toNat + 2 ^ bits.toNat := by omega
        _ = (w.toNat + 1) * 2 ^ bits.toNat := by ring
        _ ≤ 2 ^ 32 * 2 ^ bits.toNat := Nat.mul_le_mul_right _ hw
        _ = 2 ^ bits.toNat * 2 ^ 32 := Nat.mul_comm _ _
    have hrest := ih hnext
    rw [toNat_highWord, hsum] at hrest
    unfold shiftLeftBits
    dsimp only
    rw [toNat_cons, toNat_cons, UInt64.toNat_toUInt32, hsum, List.length_cons, Nat.mul_succ, Nat.pow_add,
      Nat.add_mul, Nat.mul_assoc, Nat.mul_assoc, Nat.mul_left_comm _ (2 ^ 32)]
    omega

/-- Shifting left by fewer than 32 bits keeps the number of words. -/
theorem length_shiftLeftBits (bits : UInt64) (ws : Words) (carry : UInt64) :
    (shiftLeftBits bits ws carry).1.length = ws.length := by
  induction ws generalizing carry with
  | nil => rfl
  | cons w ws ih => simp [shiftLeftBits, ih]

/-- The bits that leave the top are fewer than those that are shifted. -/
theorem shiftLeftBits_out_lt (ws : Words) {bits carry : UInt64} (hbits : bits.toNat < 32)
    (hcarry : carry.toNat < 2 ^ bits.toNat) :
    (shiftLeftBits bits ws carry).2.toNat < 2 ^ bits.toNat := by
  have hexact := toNat_shiftLeftBits ws hbits hcarry
  have hlt := toNat_lt ws
  have hpos : 0 < 2 ^ (32 * ws.length) := Nat.two_pow_pos _
  by_contra hge
  have hout : 2 ^ (32 * ws.length) * 2 ^ bits.toNat ≤
      2 ^ (32 * ws.length) * (shiftLeftBits bits ws carry).2.toNat := Nat.mul_le_mul_left _ (by omega)
  have hle : (toNat ws + 1) * 2 ^ bits.toNat ≤ 2 ^ (32 * ws.length) * 2 ^ bits.toNat :=
    Nat.mul_le_mul_right _ hlt
  rw [Nat.add_mul] at hle
  omega

/-- One word of a shift to the right: `s` places of the next word come in above the `r` that are left. -/
theorem shiftRight_place {w next rest s r : Nat} (hw : w < s * r) (hnext : next % s = rest % s) :
    (next * (s * r) + w) / s % (s * r) + s * r * (rest / s) = (w + s * r * rest) / s := by
  have hs : 0 < s := Nat.pos_of_ne_zero fun h => by simp [h] at hw
  have hlow : w / s < r := Nat.div_lt_of_lt_mul hw
  have hshifted : (next * (s * r) + w) / s = r * (next % s) + w / s + s * r * (next / s) := by
    have hsplit := Nat.div_add_mod next s
    calc (next * (s * r) + w) / s = (w + s * (next * r)) / s := by ring_nf
      _ = w / s + next * r := Nat.add_mul_div_left _ _ hs
      _ = w / s + (s * (next / s) + next % s) * r := by rw [hsplit]
      _ = r * (next % s) + w / s + s * r * (next / s) := by ring
  have hkept : r * (next % s) + w / s < s * r := by
    have hmod : next % s + 1 ≤ s := Nat.mod_lt next hs
    calc r * (next % s) + w / s < r * (next % s) + r := by omega
      _ = r * (next % s + 1) := by ring
      _ ≤ r * s := Nat.mul_le_mul_left r hmod
      _ = s * r := Nat.mul_comm r s
  have hrest := Nat.div_add_mod rest s
  rw [hshifted, Nat.add_mul_mod_self_left, Nat.mod_eq_of_lt hkept, hnext]
  calc r * (rest % s) + w / s + s * r * (rest / s)
      = w / s + r * (s * (rest / s) + rest % s) := by ring
    _ = w / s + r * rest := by rw [hrest]
    _ = (w + s * (r * rest)) / s := (Nat.add_mul_div_left _ _ hs).symm
    _ = (w + s * r * rest) / s := by rw [Nat.mul_assoc]

/-- **Shifting right by fewer than 32 bits is exact** and rounds down. -/
theorem toNat_shiftRightBits (ws : Words) {bits : UInt64} (hbits : bits.toNat < 32) :
    toNat (shiftRightBits bits ws) = toNat ws / 2 ^ bits.toNat := by
  induction ws with
  | nil => simp [shiftRightBits]
  | cons w ws ih =>
    have hsplit : 2 ^ bits.toNat * 2 ^ (32 - bits.toNat) = 2 ^ 32 := by
      rw [← Nat.pow_add]
      congr 1
      omega
    -- The lowest word of the rest is the rest but for multiples of `2 ^ 32`.
    have hnext : (ws.headD 0).toNat % 2 ^ bits.toNat = toNat ws % 2 ^ bits.toNat := by
      rw [toNat_headD_tail ws, ← hsplit, Nat.mul_assoc, Nat.add_mul_mod_self_left]
    have hplace := shiftRight_place (hsplit ▸ w.toNat_lt) hnext
    have hjoined : ((((ws.headD 0).toUInt64 <<< 32) ||| w.toUInt64) >>> bits).toNat =
        ((ws.headD 0).toNat * 2 ^ 32 + w.toNat) / 2 ^ bits.toNat := by
      rw [UInt64.toNat_shiftRight, toNat_joined (toNat_toUInt64_lt _) (toNat_toUInt64_lt w),
        Nat.shiftRight_eq_div_pow, Nat.mod_eq_of_lt (by omega), UInt32.toNat_toUInt64, UInt32.toNat_toUInt64]
    rw [hsplit] at hplace
    unfold shiftRightBits
    dsimp only
    rw [toNat_cons, toNat_cons, UInt64.toNat_toUInt32, hjoined, ih, hplace]

/-- A magnitude shifted left by less than a word, with the bits that leave it as a further word. -/
theorem toNat_shiftLeftBits_concat (ws : Words) {bits : UInt64} (hbits : bits.toNat < 32) :
    toNat ((shiftLeftBits bits ws 0).1 ++ [(shiftLeftBits bits ws 0).2.toUInt32]) =
      toNat ws * 2 ^ bits.toNat := by
  have hzero : (0 : UInt64).toNat < 2 ^ bits.toNat := Nat.two_pow_pos _
  have hout := shiftLeftBits_out_lt ws hbits hzero
  have hword : (shiftLeftBits bits ws 0).2.toUInt32.toNat = (shiftLeftBits bits ws 0).2.toNat := by
    have hpow : 2 ^ bits.toNat ≤ 2 ^ 31 := Nat.pow_le_pow_right (by decide) (by omega)
    rw [UInt64.toNat_toUInt32]
    omega
  rw [toNat_append, toNat_singleton, hword, length_shiftLeftBits]
  exact toNat_shiftLeftBits ws hbits hzero

/-- The part of a shift that is less than a word. -/
theorem toNat_bitsOf (amount : Nat) : (UInt64.ofNat (amount % 32)).toNat = amount % 32 := by
  rw [UInt64.toNat_ofNat']
  omega

/-- **Shifting left is exact.** -/
theorem toNat_shiftLeft (ws : Words) (amount : Nat) :
    toNat (shiftLeft ws amount) = toNat ws * 2 ^ amount := by
  have hbits := toNat_bitsOf amount
  have hamount : 32 * (amount / 32) + amount % 32 = amount := Nat.div_add_mod amount 32
  unfold shiftLeft
  dsimp only
  rw [toNat_trim, List.append_assoc, toNat_append, toNat_replicate, List.length_replicate,
    toNat_shiftLeftBits_concat ws (by omega), hbits, Nat.zero_add, Nat.mul_left_comm, ← Nat.pow_add,
    hamount]

/-- Dropping words at the low end divides. -/
theorem toNat_drop (ws : Words) (n : Nat) : toNat (ws.drop n) = toNat ws / 2 ^ (32 * n) := by
  induction n generalizing ws with
  | zero => simp
  | succ n ih =>
    cases ws with
    | nil => simp
    | cons w ws =>
      have hw := w.toNat_lt
      have hhead : (w.toNat + 2 ^ 32 * toNat ws) / 2 ^ 32 = toNat ws := by omega
      rw [List.drop_succ_cons, ih, toNat_cons, Nat.mul_succ, Nat.add_comm (32 * n), Nat.pow_add,
        ← Nat.div_div_eq_div_mul, hhead]

/-- **Shifting right is exact** and rounds down. -/
theorem toNat_shiftRight (ws : Words) (amount : Nat) :
    toNat (shiftRight ws amount) = toNat ws / 2 ^ amount := by
  have hbits := toNat_bitsOf amount
  have hamount : 32 * (amount / 32) + amount % 32 = amount := Nat.div_add_mod amount 32
  unfold shiftRight
  rw [toNat_trim, toNat_shiftRightBits _ (by omega), toNat_drop, hbits, Nat.div_div_eq_div_mul,
    ← Nat.pow_add, hamount]

end Words

end ScriptMachine
