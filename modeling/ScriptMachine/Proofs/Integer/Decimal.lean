import Mathlib
import ScriptMachine.Integer.Decimal
import ScriptMachine.Proofs.Integer.Division
import ScriptMachine.Proofs.Integer.Order

/-! # Decimal text of integers

A natural number has exactly one string of decimal digits without leading zeros. It is put together from chunks of
nine digits: below the plain digits of the top chunk the others are filled with zeros, so that every chunk takes its
nine places. The chunks of a magnitude are taken off by repeated division, which uses the magnitude up.

* `Decimal.Digits`, `Decimal.Digits.unique`: digits without leading zeros, and that there are no others.
* `Decimal.Digits.append`: digits that follow others.
* `Decimal.Numeral`, `Decimal.numeral_iff`: the numeral of a number.
* `Integer.Chunked`, `Integer.chunked_chunks`: the loop that takes chunks off, and its end.
* `Integer.digits_magnitudeDigits`, `Integer.numeral_toDecimal`: the printed digits.
* `Integer.decimal_exact`: decimal text as a whole.
-/

namespace ScriptMachine

/-! ## Numerals -/

namespace Decimal

/-- The decimal digits of a number, the most significant one first, without leading zeros. -/
structure Digits (n : Nat) (ds : List Char) : Prop where
  /-- There is at least one. -/
  nonempty : ds ≠ []
  /-- They are the characters from `0` to `9`. -/
  digits : ∀ c ∈ ds, c.isDigit = true
  /-- The first one is not zero, unless it is the only one. -/
  leading : ds.head? = some '0' → ds = ['0']
  /-- They spell the number. -/
  value : Nat.ofDigitChars 10 ds 0 = n

/-- The decimal numeral of a number: a minus sign exactly below zero, and the digits of the absolute value. -/
def Numeral (n : Int) (text : String) : Prop :=
  ∃ ds, Digits n.natAbs ds ∧ text.toList = if n < 0 then '-' :: ds else ds

/-- Digits that follow others are worth less. -/
theorem value_append (xs ys : List Char) :
    Nat.ofDigitChars 10 (xs ++ ys) 0 =
      10 ^ ys.length * Nat.ofDigitChars 10 xs 0 + Nat.ofDigitChars 10 ys 0 := by
  rw [← Nat.ofDigitChars_eq_ofDigitChars_zero, Nat.ofDigitChars_eq_foldl, Nat.ofDigitChars_eq_foldl,
    Nat.ofDigitChars_eq_foldl, List.foldl_append]

/-- A character that is a digit is the one of its value. -/
theorem digitChar_sub {c : Char} (hc : c.isDigit = true) :
    c.toNat - 48 < 10 ∧ Nat.digitChar (c.toNat - 48) = c := by
  obtain ⟨hlow, hhigh⟩ : 48 ≤ c.toNat ∧ c.toNat ≤ 57 := Char.isDigit_iff_toNat.1 hc
  have hlt : c.toNat - 48 < 10 := by omega
  refine ⟨hlt, Char.toNat_inj.1 ?_⟩
  rw [Nat.toNat_digitChar_of_lt_ten hlt]
  omega

/-- A digit spells its value. -/
theorem value_singleton (c : Char) : Nat.ofDigitChars 10 [c] 0 = c.toNat - 48 := by
  rw [Nat.ofDigitChars_eq_foldl]
  simp

namespace Digits

variable {n : Nat} {ds : List Char}

/-- Digits whose number is zero are the one zero. -/
theorem eq_zero (h : Digits 0 ds) : ds = ['0'] := by
  obtain _ | ⟨c, rest⟩ := ds
  · exact absurd rfl h.nonempty
  · -- The first digit counts, so that it is zero too.
    have hvalue := h.value
    obtain ⟨-, hchar⟩ := digitChar_sub (h.digits c List.mem_cons_self)
    rw [← List.singleton_append, value_append, value_singleton, Nat.add_eq_zero_iff, Nat.mul_eq_zero] at hvalue
    have hzero : c.toNat - 48 = 0 := hvalue.1.resolve_left (Nat.pow_pos (by decide)).ne'
    rw [hzero] at hchar
    exact h.leading (congrArg some hchar.symm)

/-- **Digits without leading zeros are told by their number.** -/
theorem unique (h : Digits n ds) : ds = Nat.toDigits 10 n := by
  induction ds using List.reverseRecOn generalizing n with
  | nil => exact absurd rfl h.nonempty
  | append_singleton init c ih =>
    obtain ⟨hlt, hchar⟩ := digitChar_sub (h.digits c (by simp))
    have hvalue := h.value
    rw [value_append, value_singleton, List.length_singleton, pow_one] at hvalue
    by_cases hinit : init = []
    · subst hinit
      rw [Nat.ofDigitChars_nil, Nat.mul_zero, Nat.zero_add] at hvalue
      rw [← hvalue, Nat.toDigits_of_lt_base hlt, hchar, List.nil_append]
    · -- The digits before the last one have no leading zero either, and are not zero.
      have hleading : init.head? ≠ some '0' := by
        intro hhead
        have hall := h.leading (by rw [List.head?_append_of_ne_nil _ hinit, hhead])
        exact hinit (by simpa using congrArg List.length hall)
      have hpart : Digits (Nat.ofDigitChars 10 init 0) init :=
        ⟨hinit, fun d hd => h.digits d (List.mem_append_left _ hd), fun hhead => absurd hhead hleading, rfl⟩
      have hpos : 0 < Nat.ofDigitChars 10 init 0 := by
        refine Nat.pos_of_ne_zero fun hzero => hleading ?_
        rw [hzero] at hpart
        rw [hpart.eq_zero]
        rfl
      rw [← hvalue, ← Nat.toDigits_append_toDigits (by decide) hpos hlt, Nat.toDigits_of_lt_base hlt, hchar]
      exact congrArg (· ++ [c]) (ih hpart)

/-- More digits go behind those of a number that is not zero. -/
theorem append (h : Digits n ds) (hn : 0 < n) {more : List Char} (hmore : ∀ c ∈ more, c.isDigit = true) :
    Digits (10 ^ more.length * n + Nat.ofDigitChars 10 more 0) (ds ++ more) where
  nonempty := fun hnil => h.nonempty (List.append_eq_nil_iff.1 hnil).1
  digits := fun c hc => (List.mem_append.1 hc).elim (h.digits c) (hmore c)
  leading := by
    rw [List.head?_append_of_ne_nil _ h.nonempty]
    intro hhead
    have hvalue := h.value
    rw [h.leading hhead, value_singleton] at hvalue
    exact absurd hvalue hn.ne
  value := by rw [value_append, h.value]

end Digits

/-- The digits that numbers are printed with. -/
theorem digits_toDigits (n : Nat) : Digits n (Nat.toDigits 10 n) where
  nonempty := Nat.toDigits_ne_nil
  digits := fun c hc => Nat.isDigit_of_mem_toDigits (by decide) (by decide) hc
  leading := by
    -- The number without its last digit has no leading zero, unless it is zero.
    induction n using Nat.strongRecOn with
    | ind n ih =>
      by_cases hlt : n < 10
      · rw [Nat.toDigits_of_lt_base hlt, List.head?_cons, Option.some_inj]
        exact congrArg fun c => [c]
      · have hinit : Nat.toDigits 10 (n / 10) ≠ [] := Nat.toDigits_ne_nil
        rw [Nat.toDigits_of_base_le (by decide) (Nat.le_of_not_lt hlt), List.head?_append_of_ne_nil _ hinit]
        intro hhead
        have hvalue := (Nat.ofDigitChars_ten_toDigits (n := n / 10)).symm
        rw [ih (n / 10) (by omega) hhead, value_singleton] at hvalue
        have : '0'.toNat - 48 = 0 := rfl
        omega
  value := Nat.ofDigitChars_ten_toDigits

/-- **Every number has exactly one numeral**, the text that the standard library gives it. -/
theorem numeral_iff (n : Int) (text : String) : Numeral n text ↔ text = n.repr := by
  have hrepr : n.repr.toList = if n < 0 then '-' :: Nat.toDigits 10 n.natAbs else Nat.toDigits 10 n.natAbs := by
    rw [Int.repr_eq_if, Nat.repr_eq_ofList_toDigits, Nat.repr_eq_ofList_toDigits]
    by_cases hn : 0 ≤ n
    · rw [if_pos hn, if_neg (by omega), String.toList_ofList, (by omega : n.toNat = n.natAbs)]
    · rw [if_neg hn, if_pos (by omega), String.toList_append, String.toList_ofList, String.toList_ofList,
        (by omega : (-n).toNat = n.natAbs)]
      rfl
  constructor
  · rintro ⟨ds, hds, htext⟩
    rw [hds.unique, ← hrepr] at htext
    exact String.toList_inj.1 htext
  · rintro rfl
    exact ⟨_, digits_toDigits _, hrepr⟩

end Decimal

namespace Integer

/-! ## Chunks -/

/-- The loop that takes the chunks of a magnitude off while it has words comes to its end with these chunks. -/
inductive Chunked : Words → List Nat → Prop
  /-- No words are left. -/
  | done : Chunked [] []
  /-- One chunk is the remainder, and the loop goes on with the quotient. -/
  | next {ws : Words} {rest : List Nat} (hws : ws ≠ []) (hrest : Chunked (Words.divRemWord ws 1000000000).1 rest) :
    Chunked ws ((Words.divRemWord ws 1000000000).2.toNat :: rest)

/-- What a division by a chunk leaves is trimmed, and has the quotient and the remainder of the number. -/
theorem divRemWord_chunk (ws : Words) :
    (Words.divRemWord ws 1000000000).1.Trimmed ∧
      (Words.divRemWord ws 1000000000).1.toNat = ws.toNat / 10 ^ 9 ∧
      (Words.divRemWord ws 1000000000).2.toNat = ws.toNat % 10 ^ 9 := by
  refine ⟨?_, Words.toNat_divRemWord ws (by decide)⟩
  rw [Words.divRemWord_eq]
  exact Words.trimmed_trim _

/-- A trimmed magnitude that denotes zero has no words. -/
theorem eq_nil_of_toNat_eq_zero {ws : Words} (hws : ws.Trimmed) (hzero : ws.toNat = 0) : ws = [] :=
  Words.eq_of_toNat_eq hws Words.trimmed_nil hzero

/-- The loop ends within as many rounds as the number has chunks. -/
theorem chunked_of_lt {ws : Words} (hws : ws.Trimmed) {fuel : Nat} (hlt : ws.toNat < (10 ^ 9) ^ fuel) :
    Chunked ws (chunks fuel ws) := by
  induction fuel generalizing ws with
  | zero =>
    obtain rfl := eq_nil_of_toNat_eq_zero hws (Nat.lt_one_iff.1 hlt)
    exact .done
  | succ fuel ih =>
    obtain _ | ⟨w, rest⟩ := ws
    · exact .done
    · obtain ⟨htrimmed, hquotient, -⟩ := divRemWord_chunk (w :: rest)
      refine .next (List.cons_ne_nil _ _) (ih htrimmed ?_)
      rw [hquotient]
      exact Nat.div_lt_of_lt_mul (by rwa [← Nat.pow_succ'])

/-- **The loop ends**, since a word has less than two chunks. -/
theorem chunked_chunks {ws : Words} (hws : ws.Trimmed) : Chunked ws (chunks (2 * ws.length) ws) := by
  refine chunked_of_lt hws (Nat.lt_of_lt_of_le (Words.toNat_lt ws) ?_)
  rw [Nat.pow_mul, Nat.pow_mul]
  exact Nat.pow_le_pow_left (by decide) _

/-- The digits of chunks, the most significant chunk first: the others are filled to nine places. -/
def chunkDigits : List Nat → List Char
  | [] => []
  | top :: rest => decimalDigits top ++ rest.flatMap paddedDigits

/-- A magnitude is printed by its chunks, from the top. -/
theorem magnitudeDigits_eq (ws : Words) : magnitudeDigits ws = chunkDigits (chunks (2 * ws.length) ws).reverse := by
  unfold magnitudeDigits chunkDigits
  rfl

/-- One more chunk below others is filled to nine places. -/
theorem chunkDigits_concat {above : List Nat} (habove : above ≠ []) (chunk : Nat) :
    chunkDigits (above ++ [chunk]) = chunkDigits above ++ paddedDigits chunk := by
  cases above with
  | nil => exact absurd rfl habove
  | cons top rest => simp [chunkDigits]

/-- A chunk takes nine digits, with zeros in front, and keeps its value. -/
theorem paddedDigits_exact {n : Nat} (hn : n < 10 ^ 9) :
    (paddedDigits n).length = 9 ∧ (∀ c ∈ paddedDigits n, c.isDigit = true) ∧
      Nat.ofDigitChars 10 (paddedDigits n) 0 = n := by
  have hlength : (decimalDigits n).length ≤ 9 := (Nat.length_toDigits_le_iff (by decide) (by decide)).2 hn
  refine ⟨?_, ?_, ?_⟩
  · rw [paddedDigits, List.length_append, List.length_replicate]
    omega
  · intro c hc
    rcases List.mem_append.1 hc with hzero | hdigit
    · rw [List.eq_of_mem_replicate hzero]
      rfl
    · exact (Decimal.digits_toDigits n).digits c hdigit
  · rw [paddedDigits, Decimal.value_append, Nat.ofDigitChars_replicate_zero, Nat.mul_zero, Nat.mul_zero, Nat.zero_add]
    exact (Decimal.digits_toDigits n).value

/-- **The digits of all chunks are the digits of the number.** -/
theorem Chunked.digits {ws : Words} {cs : List Nat} (h : Chunked ws cs) (hws : ws.Trimmed) (hne : ws ≠ []) :
    Decimal.Digits ws.toNat (chunkDigits cs.reverse) := by
  induction h with
  | done => exact absurd rfl hne
  | @next ws rest _ hrest ih =>
    obtain ⟨htrimmed, hquotient, hremainder⟩ := divRemWord_chunk ws
    have hlt := Nat.mod_lt ws.toNat (by decide : 10 ^ 9 > 0)
    have hsplit := Nat.div_add_mod ws.toNat (10 ^ 9)
    rw [← hremainder] at hlt
    rw [← hquotient, ← hremainder] at hsplit
    generalize (Words.divRemWord ws 1000000000).1 = quotient at *
    generalize (Words.divRemWord ws 1000000000).2.toNat = chunk at *
    rw [← hsplit, List.reverse_cons]
    by_cases hend : quotient = []
    · -- The top chunk is all that is left.
      subst hend
      obtain rfl : rest = [] := by
        cases hrest with
        | done => rfl
        | next h _ => exact absurd rfl h
      rw [List.reverse_nil, List.nil_append, chunkDigits, List.flatMap_nil, List.append_nil, Words.toNat_nil,
        Nat.mul_zero, Nat.zero_add]
      exact Decimal.digits_toDigits chunk
    · have hrest' : rest.reverse ≠ [] := by
        cases hrest with
        | done => exact absurd rfl hend
        | next => simp
      obtain ⟨hlength, hdigits, hvalue⟩ := paddedDigits_exact hlt
      have hpos := Nat.pos_of_ne_zero fun hzero => hend (eq_nil_of_toNat_eq_zero htrimmed hzero)
      have happend := (ih htrimmed hend).append hpos hdigits
      rw [hlength, hvalue] at happend
      rwa [chunkDigits_concat hrest']

/-- A magnitude with words is printed by its digits. -/
theorem digits_magnitudeDigits {ws : Words} (hws : ws.Trimmed) (hne : ws ≠ []) :
    Decimal.Digits ws.toNat (magnitudeDigits ws) := by
  rw [magnitudeDigits_eq]
  exact (chunked_chunks hws).digits hws hne

/-! ## Printed integers -/

/-- **An integer is printed by the numeral of its number.** -/
theorem numeral_toDecimal {a : Integer} (ha : a.Canonical) : Decimal.Numeral a.toInt a.toDecimal := by
  have hsign := isNegative_iff ha
  cases a with
  | small v =>
    have hnegative : v < 0 ↔ (small v).toInt < 0 := by rw [← hsign, isNegative, decide_eq_true_eq]
    refine ⟨_, Decimal.digits_toDigits _, ?_⟩
    rw [toDecimal, String.toList_ofList]
    by_cases h : v < 0
    · rw [if_pos h, if_pos (hnegative.1 h)]
      rfl
    · rw [if_neg h, if_neg (mt hnegative.2 h)]
      rfl
  | large negative ws =>
    have hne : ws ≠ [] := by
      rintro rfl
      exact absurd ha.2 (by decide)
    have habs : (large negative ws).toInt.natAbs = ws.toNat := by cases negative <;> simp [toInt]
    refine ⟨_, habs ▸ digits_magnitudeDigits ha.1 hne, ?_⟩
    rw [toDecimal, String.toList_ofList]
    by_cases h : negative = true
    · rw [if_pos h, if_pos (hsign.1 h)]
      rfl
    · rw [if_neg h, if_neg (mt hsign.2 h)]
      rfl

/-- The text of an integer is the one that the standard library gives to its number. -/
theorem toDecimal_eq_repr {a : Integer} (ha : a.Canonical) : a.toDecimal = a.toInt.repr :=
  (Decimal.numeral_iff _ _).1 (numeral_toDecimal ha)

/-- Integers are told apart by their texts. -/
theorem toDecimal_inj {a b : Integer} (ha : a.Canonical) (hb : b.Canonical) : a.toDecimal = b.toDecimal ↔ a = b := by
  refine ⟨fun h => ?_, fun h => h ▸ rfl⟩
  rw [toDecimal_eq_repr ha, toDecimal_eq_repr hb] at h
  rw [eq_iff_toInt_eq ha hb, ← Option.some_inj, ← Int.toInt?_repr, ← Int.toInt?_repr, h]

/-- **Integers are printed exactly.** Taking the chunks of a magnitude off comes to its end, with no words left. The
text of an integer is the only decimal numeral of its number: a minus sign exactly below zero, and the digits of the
absolute value without leading zeros. It is read back as the number, and different integers have different texts. -/
theorem decimal_exact :
    (∀ ws : Words, ws.Trimmed → Chunked ws (chunks (2 * ws.length) ws)) ∧
    ∀ a : Integer, a.Canonical →
      (∀ text, Decimal.Numeral a.toInt text ↔ text = a.toDecimal) ∧ a.toDecimal.toInt? = some a.toInt ∧
      ∀ b : Integer, b.Canonical → (a.toDecimal = b.toDecimal ↔ a = b) := by
  refine ⟨fun ws hws => chunked_chunks hws, fun a ha => ⟨fun text => ?_, ?_, fun b hb => toDecimal_inj ha hb⟩⟩
  · rw [toDecimal_eq_repr ha, Decimal.numeral_iff]
  · rw [toDecimal_eq_repr ha, Int.toInt?_repr]

/-- The middle chunk of `-(10 ^ 18 + 7)` is zero, and the lowest one has zeros in front. -/
theorem decimal_exact_inner_zeros :
    let a := large true [2808348679, 232830643]
    let b := large false [2808348679, 232830643]
    (a.Canonical ∧ b.Canonical) ∧ Chunked a.magnitude [7, 0, 1] ∧ a.toDecimal = "-1000000000000000007" ∧
      (a.toDecimal.toInt? = some (-1000000000000000007) ∧ a.toDecimal ≠ b.toDecimal) := by
  intro a b
  have ha : a.Canonical := ⟨by simp [Words.Trimmed], by decide⟩
  have hb : b.Canonical := ⟨by simp [Words.Trimmed], by decide⟩
  have hnumber : a.toInt = -1000000000000000007 := by decide
  obtain ⟨hends, hprints⟩ := decimal_exact
  obtain ⟨hnumeral, hread, hinj⟩ := hprints a ha
  rw [hnumber] at hnumeral hread
  have hchunks : chunks (2 * a.magnitude.length) a.magnitude = [7, 0, 1] := by decide +kernel
  refine ⟨⟨ha, hb⟩, hchunks ▸ hends _ ha.1, ((hnumeral _).1 ?_).symm, hread, fun h => ?_⟩
  · exact (Decimal.numeral_iff _ _).2 (by decide +kernel)
  · exact absurd ((hinj b hb).1 h) (by decide)

end Integer

end ScriptMachine
