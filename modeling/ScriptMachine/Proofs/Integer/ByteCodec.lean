import ScriptMachine.Proofs.Integer.ByteRange

/-! # The byte form of integers

Among the byte strings of a number, the empty one left aside, one is the shortest: of two byte strings of the same
length only one denotes a given number, and a length is enough exactly for the numbers of its range. Integers are
written as the shortest byte string of their number and read from any.

* `Bytes.eq_of_toIntLE_eq`: byte strings of one length are told apart by their numbers.
* `Bytes.Minimal`: the shortest byte strings of a number.
* `Integer.toIntLE_toBytes`, `Integer.ofBytes_toBytes`: integers are read back from their bytes.
* `Integer.minimal_iff`: what is written is the shortest byte string.
* `Integer.codec_minimal`: reader and writer together.
-/

namespace ScriptMachine

/-! ## Byte strings of one length -/

namespace ByteOrder

/-- The top byte is the quotient by the value of its place, and the bytes below are the remainder. -/
theorem high_div_mod (b : UInt8) (rest : List UInt8) :
    high (b :: rest) / 256 ^ rest.length = b.toNat ∧ high (b :: rest) % 256 ^ rest.length = high rest := by
  have hlt := high_lt rest
  rw [high, Nat.mul_comm, Nat.mul_add_div (Nat.pow_pos (by decide)), Nat.mul_add_mod, Nat.div_eq_of_lt hlt,
    Nat.mod_eq_of_lt hlt]
  exact ⟨rfl, rfl⟩

/-- Bytes are the digits of their number. -/
theorem high_inj {x y : List UInt8} (hlen : x.length = y.length) (h : high x = high y) : x = y := by
  induction x generalizing y with
  | nil => exact (List.eq_nil_of_length_eq_zero hlen.symm).symm
  | cons b x ih =>
    cases y with
    | nil => cases hlen
    | cons c y =>
      rw [List.length_cons, List.length_cons, Nat.add_right_cancel_iff] at hlen
      obtain ⟨hb, hx⟩ := high_div_mod b x
      obtain ⟨hc, hy⟩ := high_div_mod c y
      rw [h, hlen] at hb hx
      rw [UInt8.toNat_inj.1 (hb.symm.trans hc), ih hlen (hx.symm.trans hy)]

/-- **Bytes with a sign are told apart by their numbers.** -/
theorem signedHigh_inj {x y : List UInt8} (hlen : x.length = y.length) (h : signedHigh x = signedHigh y) : x = y := by
  refine high_inj hlen ?_
  cases x with
  | nil => rw [(List.eq_nil_of_length_eq_zero hlen.symm : y = [])]
  | cons b x =>
    cases y with
    | nil => cases hlen
    | cons c y =>
      have hx : (high (b :: x) : Int) < 256 ^ (b :: x).length := by exact_mod_cast high_lt (b :: x)
      have hy : (high (c :: y) : Int) < 256 ^ (c :: y).length := by exact_mod_cast high_lt (c :: y)
      rw [signedHigh_cons, signedHigh_cons, hlen] at h
      rw [hlen] at hx
      split at h <;> split at h <;> omega

end ByteOrder

namespace Bytes

/-- Byte strings of one length are equal if they denote the same number. -/
theorem eq_of_toIntLE_eq {b c : Bytes} (hsize : b.size = c.size) (h : b.toIntLE = c.toIntLE) : b = c := by
  rw [← ByteOrder.signedHigh_reverse, ← ByteOrder.signedHigh_reverse] at h
  have hreverse := ByteOrder.signedHigh_inj (by simpa using hsize) h
  exact Array.toList_inj.1 (List.reverse_inj.1 hreverse)

/-- No byte string but the empty one denotes the number and is shorter than this one. -/
def Minimal (n : Int) (b : Bytes) : Prop :=
  b ≠ #[] ∧ b.toIntLE = n ∧ ∀ c : Bytes, c ≠ #[] → c.toIntLE = n → b.size ≤ c.size

/-- The numbers of byte strings that are not empty lie in the range of their length. -/
theorem toIntLE_range {b : Bytes} (hb : b ≠ #[]) :
    -2 ^ (8 * b.size - 1) ≤ b.toIntLE ∧ b.toIntLE < 2 ^ (8 * b.size - 1) := by
  have hne : b.toList.reverse ≠ [] := by simpa using hb
  have hrange := ByteOrder.signedHigh_range hne
  rwa [ByteOrder.signedHigh_reverse, List.length_reverse, Array.length_toList] at hrange

end Bytes

namespace Integer

/-! ## Written bytes -/

/-- The bytes of an integer spell its number. -/
theorem toIntLE_toBytes {a : Integer} (ha : a.Canonical) : a.toBytes.toIntLE = a.toInt := by
  obtain ⟨hne, hsign, hvalue⟩ := toTwosComplement_exact ha
  have hlist : a.toBytes.toList.reverse = dropSignBytes (a.toTwosComplement.flatMap wordBytes).reverse := by
    simp [toBytes]
  rw [← ByteOrder.signedHigh_reverse, hlist, ByteOrder.signedHigh_dropSignBytes,
    ByteOrder.signedHigh_flatMap_wordBytes hne, hsign, hvalue]

/-- **An integer is read back from its bytes.** -/
theorem ofBytes_toBytes {a : Integer} (ha : a.Canonical) : ofBytes a.toBytes = a := by
  rw [eq_iff_toInt_eq (canonical_ofBytes _) ha, toInt_ofBytes, toIntLE_toBytes ha]

/-- At least one byte is written. -/
theorem toBytes_ne_empty {a : Integer} (ha : a.Canonical) : a.toBytes ≠ #[] := by
  simpa [toBytes] using ByteOrder.dropSignBytes_ne_nil (wordBytes_ne_nil ha)

/-- No byte string of the number is shorter. -/
theorem size_toBytes_le {a : Integer} (ha : a.Canonical) {b : Bytes} (hb : b ≠ #[]) (hnumber : b.toIntLE = a.toInt) :
    a.toBytes.size ≤ b.size := by
  have hpos : 1 ≤ b.size := Array.size_pos_iff.2 hb
  rw [size_toBytes, byteLength_le_iff ha hpos, ← hnumber]
  exact Bytes.toIntLE_range hb

/-- **An integer is written as the shortest byte string of its number**, and there is only one. -/
theorem minimal_iff {a : Integer} (ha : a.Canonical) (b : Bytes) : Bytes.Minimal a.toInt b ↔ b = a.toBytes := by
  constructor
  · rintro ⟨hb, hnumber, hshortest⟩
    refine Bytes.eq_of_toIntLE_eq ?_ (hnumber.trans (toIntLE_toBytes ha).symm)
    exact Nat.le_antisymm (hshortest _ (toBytes_ne_empty ha) (toIntLE_toBytes ha)) (size_toBytes_le ha hb hnumber)
  · rintro rfl
    exact ⟨toBytes_ne_empty ha, toIntLE_toBytes ha, fun c hc hnumber => size_toBytes_le ha hc hnumber⟩

/-- Writing what was read does not make it longer, but for the empty byte string. -/
theorem size_toBytes_ofBytes_le (b : Bytes) : (ofBytes b).toBytes.size ≤ Nat.max 1 b.size := by
  by_cases hb : b = #[]
  · rw [hb]
    decide
  · exact (size_toBytes_le (canonical_ofBytes b) hb (toInt_ofBytes b).symm).trans (Nat.le_max_right _ _)

/-! ## Reader and writer -/

/-- **Integers are written in the shortest little-endian two's-complement form and read from any.** An integer is read
back from its bytes, which are the only shortest byte string of its number, and its length is known without writing
it. Every byte string is read as the number that it denotes, with or without bytes that only repeat the sign; what is
written for it again is the only shortest byte string of that number, and not longer. -/
theorem codec_minimal :
    (∀ a : Integer, a.Canonical → ofBytes a.toBytes = a ∧
      (∀ b, Bytes.Minimal a.toInt b ↔ b = a.toBytes) ∧ a.byteLength = a.toBytes.size) ∧
    zero.toBytes = #[0] ∧ Bytes.toIntLE #[] = 0 ∧
    ∀ b : Bytes, (ofBytes b).toInt = b.toIntLE ∧
      (∀ c, Bytes.Minimal b.toIntLE c ↔ c = (ofBytes b).toBytes) ∧
      (ofBytes b).toBytes.size ≤ Nat.max 1 b.size := by
  refine ⟨fun a ha => ⟨ofBytes_toBytes ha, minimal_iff ha, (size_toBytes a).symm⟩, by decide, rfl, fun b => ?_⟩
  refine ⟨toInt_ofBytes b, fun c => ?_, size_toBytes_ofBytes_le b⟩
  rw [← toInt_ofBytes b]
  exact minimal_iff (canonical_ofBytes b) c

/-- The least integer of 32 bits takes four bytes, and two bytes of sign above -128 are read but not written. -/
theorem codec_minimal_boundary :
    let a := large true [0x80000000]
    a.Canonical ∧ (ofBytes a.toBytes = a ∧ Bytes.Minimal (-2147483648) #[0, 0, 0, 0x80] ∧ a.byteLength = 4) ∧
      Bytes.Minimal (-128) #[0x80] ∧ (ofBytes #[0x80, 0xFF, 0xFF]).toBytes = #[0x80] := by
  intro a
  have ha : a.Canonical := ⟨by simp [Words.Trimmed], by decide⟩
  have hwrite : (ofBytes #[0x80, 0xFF, 0xFF]).toBytes = #[0x80] := by decide +kernel
  have hnumber : Bytes.toIntLE #[0x80, 0xFF, 0xFF] = -128 := by decide
  obtain ⟨hwritten, -, -, hread⟩ := codec_minimal
  obtain ⟨hback, hminimal, hlength⟩ := hwritten a ha
  obtain ⟨-, hagain, -⟩ := hread #[0x80, 0xFF, 0xFF]
  rw [hnumber] at hagain
  exact ⟨ha, ⟨hback, (hminimal _).2 (by decide), hlength.trans (by decide)⟩, (hagain _).2 hwrite.symm, hwrite⟩

end Integer

end ScriptMachine
