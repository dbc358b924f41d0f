import ScriptMachine.Proofs.Integer.CheckedDivision

/-! # The rounds of a long division

Long division with all checks has a result, the same as without them: no read is past the end of a list, and no number
leaves its 64 bits. Each round finds one digit. The estimate of a digit is the digit or one more, and if it is one more
then the divisor is added back once.

* `Checked.Round`: what happens while one digit is found; `Checked.round_at`: it happens in each window.
* `Checked.digit?_eq`: the step; `Checked.foldlM_digit?`, `Checked.run?_eq`: the run, by induction on the digits.
* `Checked.Proceeds`, `Checked.rounds_of_scaled`: each round of a run.
* `divRem_never_overflows`: the division as a whole, and the remainder that is read back.
-/

namespace ScriptMachine

namespace LongDivision

namespace Checked

/-! ## One round -/

/-- The window of a digit in the numerator, one word longer than the divisor. -/
def window (vn un : Words) (j : Nat) : Words := (un.drop j).take (vn.length + 1)

/-- The numerator with other words in the window of a digit. -/
def overwrite (vn un : Words) (j : Nat) (words : Words) : Words := un.take j ++ words ++ un.drop (j + vn.length + 1)

/-- **The round that finds the digit at place `j`**: the estimate `qhat`, the window `diff` after multiply and subtract
with its signed top `t`, and the words `rest` that the round leaves below a zero. -/
structure Round (vn un : Words) (j : Nat) (qhat : UInt64) (t : Int64) (diff rest : Words) : Prop where
  /-- The window is inside of the numerator. -/
  window_fits : j + vn.length < un.length
  /-- The trial loop ends, with all its reads and numbers in range. -/
  trial : trial? vn un j = some qhat
  /-- The estimate is a digit. -/
  qhat_lt : qhat.toNat < 2 ^ 32
  /-- It is the true digit or one more. -/
  near : qhat.toNat = (window vn un j).toNat / vn.toNat ∨ qhat.toNat = (window vn un j).toNat / vn.toNat + 1
  /-- Multiply and subtract has all its reads and numbers in range. -/
  subtract : subtract? qhat vn un j = some (overwrite vn un j diff, t)
  /-- It goes below zero if the estimate was one too large, and only then. -/
  negative_iff : t < 0 ↔ qhat.toNat = (window vn un j).toNat / vn.toNat + 1
  /-- If it does not, then it leaves the remainder, and nothing above. -/
  not_negative : ¬ t < 0 → t = 0 ∧ diff = rest ++ [0]
  /-- If it does, then the top of the window is a borrow of one, and the carry of adding the divisor once cancels it. -/
  negative : t < 0 → t = -1 ∧ diff.getLastD 0 = 0xFFFFFFFF ∧
    addBack? vn (overwrite vn un j diff) j = some (overwrite vn un j (rest ++ [0]), 1)
  /-- As many words are left as the divisor has. -/
  length_rest : rest.length = vn.length
  /-- They are the remainder of the window. -/
  toNat_rest : rest.toNat = (window vn un j).toNat % vn.toNat

/-- The digit that a round writes. -/
def written (qhat : UInt64) (t : Int64) : UInt32 := if t < 0 then qhat.toUInt32 - 1 else qhat.toUInt32

/-- **A round writes its digit** and leaves its words in the numerator, if the quotient has that place. -/
theorem Round.digit?_eq {vn un diff rest : Words} {j : Nat} {qhat : UInt64} {t : Int64}
    (h : Round vn un j qhat t diff rest) (quotient : Words) (hj : j < quotient.length) :
    digit? vn (quotient, un) j = some (quotient.set j (written qhat t), overwrite vn un j (rest ++ [0])) := by
  have hplace : quotient[j]? = some quotient[j] := List.getElem?_eq_getElem hj
  have hword : word? qhat = some qhat.toUInt32 := if_pos h.qhat_lt
  unfold digit? written
  simp only [h.trial, h.subtract, hplace, hword, Option.bind_eq_bind, Option.bind_some]
  by_cases ht : t < 0
  · obtain ⟨-, -, hback⟩ := h.negative ht
    simp only [if_pos ht, hback, Option.bind_some]
  · obtain ⟨-, hdiff⟩ := h.not_negative ht
    rw [if_neg ht, if_neg ht, hdiff]

/-- One round more. -/
theorem run?_succ (vn un : Words) {count done : Nat} (hdone : done < count) :
    run? vn count un (done + 1) = (run? vn count un done).bind fun state => digit? vn state (count - (done + 1)) := by
  have hnext : (List.range count).reverse[done]? = some (count - (done + 1)) := by
    rw [List.getElem?_reverse (by simpa using hdone), List.getElem?_range (by simp; omega), List.length_range]
    congr 1
    omega
  rw [run?, run?, List.take_add_one, hnext, List.foldlM_append]
  simp

/-- **The round after some others**, in a division of the numerator `scaled` for a quotient of so many words: the words
above the next place are less than the divisor, there is a round at that place, and it leaves the state that the run has
after it. -/
def Proceeds (vn : Words) (count : Nat) (scaled : Words) (done : Nat) : Prop :=
  ∃ quotient un qhat t diff rest, run? vn count scaled done = some (quotient, un) ∧
    Words.toNat (un.drop (count - done)) < vn.toNat ∧
    Round vn un (count - (done + 1)) qhat t diff rest ∧
    run? vn count scaled (done + 1) =
      some (quotient.set (count - (done + 1)) (written qhat t), overwrite vn un (count - (done + 1)) (rest ++ [0]))

section Window

variable {vn : Words}

/-- The window between the words before it and those after it. -/
theorem window_append (pre : Words) {words : Words} (hlen : words.length = vn.length + 1) (post : Words) :
    window vn (pre ++ words ++ post) pre.length = words := by
  rw [window, List.append_assoc, List.drop_left, List.take_left' hlen]

/-- Only the window is overwritten. -/
theorem overwrite_append (pre : Words) {words : Words} (hlen : words.length = vn.length + 1) (post other : Words) :
    overwrite vn (pre ++ words ++ post) pre.length other = pre ++ other ++ post := by
  have hafter : (pre ++ words ++ post).drop (pre.length + vn.length + 1) = post := by
    rw [Nat.add_assoc, ← hlen, ← List.length_append, List.drop_left]
  rw [overwrite, hafter, List.append_assoc pre words, List.take_left]

/-- The last of the zeros before the digits that are found is overwritten. -/
theorem set_replicate (n : Nat) (digit : UInt32) (found : Words) :
    (List.replicate (n + 1) 0 ++ found).set n digit = List.replicate n 0 ++ digit :: found := by
  rw [List.replicate_succ', List.append_assoc, List.set_append_right _ _ (by simp)]
  simp

variable (hn : 2 ≤ vn.length) (hscaled : 2 ^ 31 ≤ (vn.getLastD 0).toNat) {rem : Words} (hrem : Rest vn rem)

include hn hscaled hrem

/-- **The round of a window** whose upper words are less than the divisor: it has the digit and leaves the words of the
division without checks. -/
theorem round_at (w : UInt32) (pre post : Words) :
    let qhat := estimate vn (w :: rem)
    let diff := mulSub qhat vn (w :: rem) 0
    Round vn (pre ++ (w :: rem) ++ post) pre.length qhat diff.2 diff.1 (digitStep vn rem w).2 ∧
      (digitStep vn rem w).1 = written qhat diff.2 := by
  intro qhat diff
  obtain ⟨hlen', hvalue, hless⟩ := hrem.window w
  obtain ⟨hlower, hupper, hqhat⟩ := estimate_near hn hscaled hlen' hless
  obtain ⟨low, hdiff, hlow, houtcome⟩ := mulSub_outcome hn hscaled hlen' hless
  have hstep : digitStep vn rem w = if diff.2 < 0 then (qhat.toUInt32 - 1, (addBack vn diff.1 0).take vn.length)
      else (qhat.toUInt32, diff.1.take vn.length) := digitStep_eq vn rem w
  obtain ⟨-, hrest, hleft⟩ := digitStep_exact w hn hscaled hrem
  rw [← hvalue] at hrest
  have hwindow := window_append pre hlen' post
  have hwrite := overwrite_append pre hlen' post
  change diff.1 = low ++ [diff.2.toUInt64.toUInt32] at hdiff
  change qhat.toNat = _ ∧ diff.2 = 0 ∧ _ ∨ qhat.toNat = _ ∧ diff.2 = -1 ∧ _ at houtcome
  have hdigit : (digitStep vn rem w).1 = written qhat diff.2 := by
    rw [hstep, written]
    split <;> rfl
  refine ⟨?_, hdigit⟩
  constructor
  case window_fits =>
    simp only [List.length_append, hlen']
    omega
  case trial => exact trial?_eq post hn hscaled hlen'
  case qhat_lt => exact hqhat
  case near => rw [hwindow]; exact houtcome.imp And.left And.left
  case subtract => rw [hwrite]; exact subtract?_eq hqhat hlen' pre post
  case negative_iff =>
    rw [hwindow]
    obtain ⟨heq, htop, -⟩ | ⟨heq, htop, -⟩ := houtcome
    · exact iff_of_false (by rw [htop]; decide) (by omega)
    · exact iff_of_true (by rw [htop]; decide) heq
  case not_negative =>
    intro hnot
    obtain ⟨-, htop, -⟩ | ⟨-, htop, -⟩ := houtcome
    · rw [hstep, if_neg hnot, hdiff, htop, ← hlow, List.take_left]
      exact ⟨rfl, rfl⟩
    · exact absurd (by rw [htop]; decide) hnot
  case negative =>
    intro hnegative
    obtain ⟨-, htop, -⟩ | ⟨-, htop, hback⟩ := houtcome
    · exact absurd hnegative (by rw [htop]; decide)
    -- The carry out of the sum makes the top of the window zero.
    have hmod : Words.toNat (w :: rem) % vn.toNat < 2 ^ (32 * vn.length) :=
      Nat.lt_trans (Nat.mod_lt _ (by omega)) (Words.toNat_lt vn)
    obtain ⟨hone, -⟩ := addBack_outcome hlow hback hmod
    have hzero : diff.2.toUInt64.toUInt32 + (sweep addPlace vn low 0).2.toUInt32 = 0 := by
      rw [htop, hone]
      rfl
    have hsum : addBack vn diff.1 0 = (digitStep vn rem w).2 ++ [0] := by
      rw [hstep, if_pos hnegative, hdiff, addBack_eq_sweep hlow, hzero, List.take_left' (length_sweep addPlace hlow 0)]
    refine ⟨htop, ?_, ?_⟩
    · rw [hdiff, htop, List.getLastD_concat]
      rfl
    · rw [hwrite, hwrite, hdiff, addBack?_eq hlow, ← hdiff, hsum, hone]
  case length_rest => exact hleft.length
  case toNat_rest => rw [hwindow]; exact hrest

/-! ## All rounds -/

/-- **One round** brings down the word `w`, and has the digit and leaves the words of the division without checks. -/
theorem digit?_eq (w : UInt32) (pre found zeros : Words) :
    digit? vn (List.replicate (pre.length + 1) 0 ++ found, pre ++ (w :: rem) ++ zeros) pre.length =
      some (List.replicate pre.length 0 ++ (digitStep vn rem w).1 :: found,
        pre ++ (digitStep vn rem w).2 ++ (0 :: zeros)) := by
  obtain ⟨hround, hdigit⟩ := round_at hn hscaled hrem w pre zeros
  rw [hround.digit?_eq _ (by simp; omega), ← hdigit, set_replicate, overwrite_append pre (hrem.window w).1]
  simp

/-- **The rounds of the words `ws`**, with the words `left` still to bring down: the quotient gets their digits, and of
the numerator they leave their remainder below zeros. -/
theorem foldlM_digit? (ws left found zeros : Words) :
    ((List.range (ws ++ left).length).reverse.take ws.length).foldlM (digit? vn)
        (List.replicate (ws ++ left).length 0 ++ found, (ws ++ left).reverse ++ rem ++ zeros) =
      some (List.replicate left.length 0 ++ (digits vn ws found rem).1,
        left.reverse ++ (digits vn ws found rem).2 ++ (List.replicate ws.length 0 ++ zeros)) := by
  -- The induction is on the words to bring down; each round leaves one zero more.
  induction ws generalizing found rem zeros with
  | nil => rfl
  | cons w ws ih =>
    obtain ⟨-, -, hleft⟩ := digitStep_exact w hn hscaled hrem
    have hrest := ih hleft ((digitStep vn rem w).1 :: found) (0 :: zeros)
    have hstep := digit?_eq hn hscaled hrem w (ws ++ left).reverse found zeros
    rw [List.length_reverse] at hstep
    have hcount : (w :: ws ++ left).length = (ws ++ left).length + 1 := rfl
    have hwords : (w :: ws ++ left).reverse ++ rem ++ zeros = (ws ++ left).reverse ++ (w :: rem) ++ zeros := by simp
    have hzeros : List.replicate (ws.length + 1) 0 ++ zeros = List.replicate ws.length 0 ++ 0 :: zeros := by
      rw [List.replicate_succ', List.append_assoc]
      rfl
    rw [hcount, hwords, List.length_cons, hzeros, List.range_succ, List.reverse_concat, List.take_succ_cons,
      List.foldlM_cons, hstep]
    exact hrest

/-- **The state after some rounds**: the digits and the remainder of the words that were brought down. -/
theorem run?_eq (ws : Words) {done : Nat} (hdone : done ≤ ws.length) :
    run? vn ws.length (ws.reverse ++ rem) done =
      some (List.replicate (ws.length - done) 0 ++ (digits vn (ws.take done) [] rem).1,
        (ws.drop done).reverse ++ (digits vn (ws.take done) [] rem).2 ++ List.replicate done 0) := by
  have hrun := foldlM_digit? hn hscaled hrem (ws.take done) (ws.drop done) [] []
  rw [List.take_append_drop, List.length_take_of_le hdone, List.length_drop] at hrun
  simpa [run?] using hrun

/-- **The state after all rounds**: there is nothing above the remainder. -/
theorem run?_all (ws : Words) :
    run? vn ws.length (ws.reverse ++ rem) ws.length =
      some ((digits vn ws [] rem).1, (digits vn ws [] rem).2 ++ List.replicate ws.length 0) := by
  simpa using run?_eq hn hscaled hrem ws (Nat.le_refl _)

/-- **Each round proceeds**, while there are words to bring down. -/
theorem proceeds (ws : Words) {done : Nat} (hdone : done < ws.length) :
    Proceeds vn ws.length (ws.reverse ++ rem) done := by
  have hrun := run?_eq hn hscaled hrem ws (Nat.le_of_lt hdone)
  obtain ⟨-, -, hleft⟩ := digits_exact hn hscaled (ws.take done) [] hrem
  generalize digits vn (ws.take done) [] rem = state at *
  obtain ⟨hround, -⟩ := round_at hn hscaled hleft ws[done] (ws.drop (done + 1)).reverse (List.replicate done 0)
  have hplace : (ws.drop (done + 1)).reverse.length = ws.length - (done + 1) := by simp
  have hwords : (ws.drop done).reverse ++ state.2 ++ List.replicate done 0 =
      (ws.drop (done + 1)).reverse ++ (ws[done] :: state.2) ++ List.replicate done 0 := by
    rw [List.drop_eq_getElem_cons hdone, List.reverse_cons, List.append_assoc _ [_]]
    rfl
  have habove : Words.toNat (((ws.drop done).reverse ++ state.2 ++ List.replicate done 0).drop (ws.length - done)) =
      state.2.toNat := by
    have hlow : (ws.drop done).reverse.length = ws.length - done := by simp
    rw [← hlow, List.append_assoc, List.drop_left, Words.toNat_append, Words.toNat_replicate, Nat.mul_zero,
      Nat.add_zero]
  rw [hplace, ← hwords] at hround
  refine ⟨_, _, _, _, _, _, hrun, habove.trans_lt hleft.lt, hround, ?_⟩
  rw [run?_succ vn _ hdone, hrun, Option.bind_some, hround.digit?_eq]
  simp
  omega

end Window

/-- **All rounds of a scaled division** proceed, and they end with the remainder below zeros. -/
theorem rounds_of_scaled {num den vn scaled : Words} {shift : UInt64} (h : Scaled num den shift vn scaled)
    (hn : 2 ≤ den.length) (hlen : den.length ≤ num.length) :
    let count := num.length + 1 - den.length
    let left := digits vn (scaled.take count).reverse [] (scaled.drop count)
    (∀ done < count, Proceeds vn count scaled done) ∧
      run? vn count scaled count = some (left.1, left.2 ++ List.replicate count 0) ∧
      Rest vn left.2 := by
  intro count left
  have hn' : 2 ≤ vn.length := hn.trans_eq h.length_divisor.symm
  -- The words that are brought down, and those from which the division starts.
  obtain ⟨hws, hrest⟩ := h.words hlen
  have hsplit : (scaled.take count).reverse.reverse ++ scaled.drop count = scaled := by
    rw [List.reverse_reverse, List.take_append_drop]
  have hround : ∀ done < count, Proceeds vn count scaled done := by
    intro done hdone
    have hproceeds := proceeds hn' h.top_bit hrest (scaled.take count).reverse (hdone.trans_eq hws.symm)
    rwa [hws, hsplit] at hproceeds
  have hrun := run?_all hn' h.top_bit hrest (scaled.take count).reverse
  rw [hws, hsplit] at hrun
  exact ⟨hround, hrun, (digits_exact hn' h.top_bit _ _ hrest).2.2⟩

end Checked

/-- **Long division never overflows**, and the estimate of a digit is off by at most one. With all checks, the division
has the result that it has without them, and each of its rounds proceeds as `Checked.Round` tells. After the last round
the word above the remainder is zero, and shifting back the words below it gives the whole remainder. -/
theorem divRem_never_overflows {num den : Words} (hden : den.Trimmed) (hn : 2 ≤ den.length)
    (hle : den.toNat ≤ num.toNat) :
    let count := num.length - den.length + 1
    Checked.divRem? num den = some (divRem num den) ∧
      ∃ (shift : UInt64) (vn scaled : Words), Checked.normalize? num den = some (shift, vn, scaled) ∧
        Scaled num den shift vn scaled ∧ (∀ done < count, Checked.Proceeds vn count scaled done) ∧
        ∃ quotient un rem, Checked.run? vn count scaled count = some (quotient, un) ∧ un.toNat < vn.toNat ∧
          un[den.length]? = some 0 ∧ Checked.readBack? shift den.length un = some rem ∧
          rem.toNat * 2 ^ shift.toNat = un.toNat ∧ rem.toNat = num.toNat % den.toNat := by
  intro count
  have hlen : den.length ≤ num.length :=
    Nat.le_of_not_lt fun hshort => absurd (Words.toNat_lt_of_length_lt hden hshort) (Nat.not_lt_of_le hle)
  have hcount : num.length + 1 - den.length = count := Nat.succ_sub hlen
  have hscaled := scaled_of_trimmed hden hn hlen
  have hnormal := Checked.normalize?_eq hscaled.shift_lt (List.ne_nil_of_length_pos (by omega : 0 < num.length))
    (List.ne_nil_of_length_pos (by omega : 0 < den.length))
  have hresult := divRem_eq_digits hden hn hlen
  dsimp only at hscaled hnormal hresult
  generalize (Words.shiftLeftBits (leadingZeros (den.getLastD 0)) num 0).1 ++
    [(Words.shiftLeftBits (leadingZeros (den.getLastD 0)) num 0).2.toUInt32] = scaled at *
  generalize (Words.shiftLeftBits (leadingZeros (den.getLastD 0)) den 0).1 = vn at *
  generalize leadingZeros (den.getLastD 0) = shift at *
  obtain ⟨-, hremainder⟩ := hscaled.digits hn hlen
  obtain ⟨hround, hrun, hlength, hless⟩ := Checked.rounds_of_scaled hscaled hn hlen
  rw [hcount] at hround hrun hlength hless hremainder hresult
  generalize digits vn (scaled.take count).reverse [] (scaled.drop count) = left at *
  have hread := Checked.readBack?_eq hscaled.shift_lt left.2 (List.replicate count 0)
  rw [hlength, hscaled.length_divisor] at hread
  have hvalue : Words.toNat (left.2 ++ List.replicate count 0) = left.2.toNat := by
    rw [Words.toNat_append, Words.toNat_replicate, Nat.mul_zero, Nat.add_zero]
  have hback : Words.toNat (Words.shiftRightBits shift left.2) = num.toNat % den.toNat := by
    rw [Words.toNat_shiftRightBits _ hscaled.shift_lt, hremainder, Nat.mul_div_cancel _ (Nat.two_pow_pos _)]
  constructor
  · change Checked.run? vn (num.length - den.length + 1) scaled (num.length - den.length + 1) = _ at hrun
    simp only [Checked.divRem?, hnormal, Option.bind_eq_bind, Option.bind_some, if_neg (Nat.not_lt_of_le hlen), hrun,
      hread, hresult]
  · refine ⟨shift, vn, scaled, hnormal, hscaled, hround, _, _, _, hrun, hvalue.trans_lt hless, ?_, hread, ?_, hback⟩
    · rw [← hscaled.length_divisor, ← hlength, List.getElem?_append_right (Nat.le_refl _), Nat.sub_self]
      rfl
    · rw [hback, hvalue, hremainder]

/-- A division of four words by three: the estimate of its last digit is one too large, and the divisor is added
back. -/
theorem divRem_adds_back :
    let num : Words := [0, 0, 0x80000000, 0x7FFFFFFF]
    let den : Words := [1, 0, 0x80000000]
    den.Trimmed ∧ 2 ≤ den.length ∧ den.toNat ≤ num.toNat ∧
      Checked.divRem? num den = some ([0xFFFFFFFE], [2, 0xFFFFFFFF, 0x7FFFFFFF]) ∧
      ∃ diff rest, Checked.Round den (num ++ [0]) 0 0xFFFFFFFF (-1) diff rest := by
  intro num den
  have hden : den.Trimmed := (Words.trimmed_concat [1, 0]).2 (by decide)
  have hn : 2 ≤ den.length := by decide
  have hle : den.toNat ≤ num.toNat := by decide
  refine ⟨hden, hn, hle, by decide, ?_⟩
  obtain ⟨-, shift, vn, scaled, hnormal, -, hrounds, -⟩ := divRem_never_overflows hden hn hle
  obtain ⟨quotient, un, qhat, t, diff, rest, hrun, -, hround, -⟩ := hrounds 1 (by decide)
  have hnormal' : Checked.normalize? num den = some (0, den, num ++ [0]) := by decide
  obtain ⟨rfl, rfl, rfl⟩ : shift = 0 ∧ vn = den ∧ scaled = num ++ [0] := by simpa [hnormal'] using hnormal.symm
  have hrun' : Checked.run? den 2 (num ++ [0]) 1 = some ([0, 0], num ++ [0]) := by decide
  obtain ⟨rfl, rfl⟩ : quotient = [0, 0] ∧ un = num ++ [0] := by
    simpa using hrun.symm.trans hrun'
  have hqhat : Checked.trial? den (num ++ [0]) 0 = some 0xFFFFFFFF := by decide
  obtain rfl : qhat = 0xFFFFFFFF := Option.some_inj.1 (hround.trial.symm.trans hqhat)
  have ht : (Checked.subtract? 0xFFFFFFFF den (num ++ [0]) 0).map Prod.snd = some (-1) := by decide
  obtain rfl : t = -1 := Option.some_inj.1 ((congrArg (Option.map Prod.snd) hround.subtract).symm.trans ht)
  exact ⟨diff, rest, hround⟩

end LongDivision

end ScriptMachine
