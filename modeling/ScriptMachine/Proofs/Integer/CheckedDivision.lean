import ScriptMachine.Proofs.Integer.Division

/-! # Long division with all checks

The long division of magnitudes in place, with every check that there is: the scaled numerator is one list of words, and
each digit overwrites a window of it. A read past the end of a list has no result, and neither has an operation whose
number does not fit its 64 bits, nor a loop that goes on for too long. Where the checks hold, each part has the result
that the same part without checks has on the window.

* `Checked.mul?`, `Checked.add?`, `Checked.sub?`, `Checked.minus?` and so on: checked operations.
* `Checked.trial?`, `Checked.subtract?`, `Checked.addBack?`: the parts of one digit.
* `Checked.normalize?`, `Checked.digit?`, `Checked.run?`, `Checked.readBack?`, `Checked.divRem?`: the division.
* `Checked.correct?_eq`, `Checked.foldlM_pass`, `Checked.subtract?_eq`, `Checked.addBack?_eq`: that the checks hold.
* `Checked.normalize?_eq`, `Checked.readBack?_eq`: scaling, and the remainder that is read back.
-/

namespace ScriptMachine

namespace LongDivision

namespace Checked

/-! ## Checked operations -/

/-- A product of 64 bits. -/
def mul? (a b : UInt64) : Option UInt64 := if a.toNat * b.toNat < 2 ^ 64 then some (a * b) else none

/-- A sum of 64 bits. -/
def add? (a b : UInt64) : Option UInt64 := if a.toNat + b.toNat < 2 ^ 64 then some (a + b) else none

/-- A difference that is not below zero. -/
def sub? (a b : UInt64) : Option UInt64 := if b.toNat ≤ a.toNat then some (a - b) else none

/-- Quotient and remainder by a divisor that is not zero. -/
def div? (a b : UInt64) : Option (UInt64 × UInt64) := if b.toNat ≠ 0 then some (a / b, a % b) else none

/-- A number moved up by a word, of which no bit is lost. -/
def raise? (a : UInt64) : Option UInt64 := if a.toNat < 2 ^ 32 then some (a <<< 32) else none

/-- A number as a signed one of the same value. -/
def signed? (a : UInt64) : Option Int64 := if a.toNat < 2 ^ 63 then some a.toInt64 else none

/-- A signed difference of 64 bits. -/
def minus? (a b : Int64) : Option Int64 :=
  if -2 ^ 63 ≤ a.toInt - b.toInt ∧ a.toInt - b.toInt < 2 ^ 63 then some (a - b) else none

/-- A number that is a word. -/
def word? (a : UInt64) : Option UInt32 := if a.toNat < 2 ^ 32 then some a.toUInt32 else none

/-- A word shifted left by less than its width. -/
def shiftLeft? (w : UInt32) (bits : UInt64) : Option UInt32 :=
  if bits.toNat < 32 then some (w <<< bits.toUInt32) else none

/-- A word shifted right by less than its width. -/
def shiftRight? (w : UInt32) (bits : UInt64) : Option UInt32 :=
  if bits.toNat < 32 then some (w >>> bits.toUInt32) else none

/-! ## The parts of one digit -/

/-- Whether an estimate is no digit, or the second word of the divisor shows it to be too large. The product is only
looked at if the estimate is a digit. -/
def tooLarge? (next low qhat rhat : UInt64) : Option Bool :=
  if base ≤ qhat then some true
  else do
    let product ← mul? qhat next
    let high ← raise? rhat
    some (decide ((high ||| low) < product))

/-- The trial loop, with no result if it goes on for more rounds than given. -/
def correct? (top next low : UInt64) : (rounds : Nat) → UInt64 → UInt64 → Option UInt64
  | 0, _, _ => none
  | rounds + 1, qhat, rhat => do
    let large ← tooLarge? next low qhat rhat
    if large then
      let qhat ← sub? qhat 1
      let rhat ← add? rhat top
      if base ≤ rhat then some qhat else correct? top next low rounds qhat rhat
    else some qhat

/-- The trial digit at place `j` of the numerator. -/
def trial? (vn un : Words) (j : Nat) : Option UInt64 := do
  let u2 ← un[j + vn.length]?
  let u1 ← un[j + vn.length - 1]?
  let u0 ← un[j + vn.length - 2]?
  let top ← vn[vn.length - 1]?
  let next ← vn[vn.length - 2]?
  let (qhat, rhat) ← div? ((u2.toUInt64 <<< 32) ||| u1.toUInt64) top.toUInt64
  correct? top.toUInt64 next.toUInt64 u0.toUInt64 2 qhat rhat

/-- One place of multiply and subtract: the word of the window, and what is borrowed from the next place. -/
def subtractPlace? (qhat : UInt64) (v u : UInt32) (borrow : Int64) : Option (UInt32 × Int64) := do
  let product ← mul? qhat v.toUInt64
  let low ← signed? (product &&& 0xFFFFFFFF)
  let high ← signed? (product >>> 32)
  let less ← minus? u.toUInt64.toInt64 borrow
  let t ← minus? less low
  let next ← minus? high (t >>> 32)
  some (t.toUInt64.toUInt32, next)

/-- One place of the addition of the divisor: the word of the window, and the carry. -/
def addPlace? (v u : UInt32) (carry : UInt64) : Option (UInt32 × UInt64) := do
  let both ← add? u.toUInt64 v.toUInt64
  let sum ← add? both carry
  some (sum.toUInt32, sum >>> 32)

/-- One place of a pass over the divisor: word `i` of the divisor meets word `i + j` of the numerator. -/
def pass? {β : Type} (place? : UInt32 → UInt32 → β → Option (UInt32 × β)) (vn : Words) (j : Nat)
    (state : Words × β) (i : Nat) : Option (Words × β) := do
  let v ← vn[i]?
  let u ← state.1[i + j]?
  let (w, carry) ← place? v u state.2
  some (state.1.set (i + j) w, carry)

/-- Multiply and subtract at place `j`, with the signed top of the window. -/
def subtract? (qhat : UInt64) (vn un : Words) (j : Nat) : Option (Words × Int64) := do
  let (un, borrow) ← (List.range vn.length).foldlM (pass? (subtractPlace? qhat) vn j) (un, 0)
  let u ← un[j + vn.length]?
  let t ← minus? u.toUInt64.toInt64 borrow
  some (un.set (j + vn.length) t.toUInt64.toUInt32, t)

/-- Adding the divisor back at place `j`, with the carry that the top of the window takes in. -/
def addBack? (vn un : Words) (j : Nat) : Option (Words × UInt64) := do
  let (un, carry) ← (List.range vn.length).foldlM (pass? addPlace? vn j) (un, 0)
  let u ← un[j + vn.length]?
  some (un.set (j + vn.length) (u + carry.toUInt32), carry)

/-! ## The division -/

/-- One digit, at place `j` of the quotient and of the numerator. -/
def digit? (vn : Words) (state : Words × Words) (j : Nat) : Option (Words × Words) := do
  let qhat ← trial? vn state.2 j
  let (un, t) ← subtract? qhat vn state.2 j
  let _ ← state.1[j]?
  let digit ← word? qhat
  if t < 0 then
    let (un, _) ← addBack? vn un j
    some (state.1.set j (digit - 1), un)
  else some (state.1.set j digit, un)

/-- The first digits, from the most significant one on, of a quotient of so many words: the quotient and the numerator
as they are then. -/
def run? (vn : Words) (count : Nat) (un : Words) (done : Nat) : Option (Words × Words) :=
  ((List.range count).reverse.take done).foldlM (digit? vn) (List.replicate count 0, un)

/-- Word `i` of a magnitude shifted left: its bits, and those that leave the word below. -/
def scaledWord? (bits : UInt64) (ws : Words) : Nat → Option UInt32
  | 0 => do
    let w ← ws[0]?
    shiftLeft? w bits
  | i + 1 => do
    let w ← ws[i + 1]?
    let below ← ws[i]?
    let back ← sub? 32 bits
    let high ← shiftLeft? w bits
    some (high ||| (below.toUInt64 >>> back).toUInt32)

/-- The shift that sets the top bit of the divisor, the scaled divisor, and the scaled numerator with one word more. -/
def normalize? (num den : Words) : Option (UInt64 × Words × Words) := do
  let last ← den[den.length - 1]?
  let shift := leadingZeros last
  let vn ← (List.range den.length).mapM (scaledWord? shift den)
  let low ← (List.range num.length).mapM (scaledWord? shift num)
  let top ← num[num.length - 1]?
  let back ← sub? 32 shift
  some (shift, vn, low ++ [(top.toUInt64 >>> back).toUInt32])

/-- Word `i` of a remainder of `n` words: its bits, and those that come in from the word above. The last word is read
alone. -/
def remainderWord? (bits : UInt64) (n : Nat) (un : Words) (i : Nat) : Option UInt32 := do
  let w ← un[i]?
  let low ← shiftRight? w bits
  if i + 1 < n then
    let above ← un[i + 1]?
    let back ← sub? 32 bits
    some (low ||| (above.toUInt64 <<< back).toUInt32)
  else some low

/-- The remainder in the `n` low words of the numerator. -/
def readBack? (bits : UInt64) (n : Nat) (un : Words) : Option Words := (List.range n).mapM (remainderWord? bits n un)

/-- Quotient and remainder. -/
def divRem? (num den : Words) : Option (Words × Words) := do
  let (shift, vn, un) ← normalize? num den
  if num.length < den.length then none
  else
    let count := num.length - den.length + 1
    let (quotient, un) ← run? vn count un count
    let rem ← readBack? shift den.length un
    some (Words.trim quotient, Words.trim rem)

/-! ## The trial digit -/

/-- The test of an estimate stays within 64 bits. -/
theorem tooLarge?_eq {next low qhat rhat : UInt64} (hnext : next.toNat < 2 ^ 32) (hrhat : rhat.toNat < 2 ^ 32) :
    tooLarge? next low qhat rhat = some (base ≤ qhat || ((rhat <<< 32) ||| low) < qhat * next) := by
  unfold tooLarge?
  by_cases hbase : base ≤ qhat
  · simp [hbase]
  · have hqhat : qhat.toNat < 2 ^ 32 := by
      rw [UInt64.le_iff_toNat_le, Nat.not_le] at hbase
      exact hbase
    have hmul : qhat.toNat * next.toNat ≤ (2 ^ 32 - 1) * (2 ^ 32 - 1) := Nat.mul_le_mul (by omega) (by omega)
    have hproduct : mul? qhat next = some (qhat * next) := if_pos (by omega)
    have hraise : raise? rhat = some (rhat <<< 32) := if_pos hrhat
    simp [hbase, hproduct, hraise]

/-- **The trial loop stays within 64 bits and ends in time**, if the remainder of the estimate cannot stay a word for
all rounds. -/
theorem correct?_eq {top next low : UInt64} {rounds : Nat} {qhat rhat : UInt64} (htop : top.toNat < 2 ^ 32)
    (hnext : next.toNat < 2 ^ 32) (hrhat : rhat.toNat < 2 ^ 32)
    (hrounds : 2 ^ 32 ≤ rhat.toNat + rounds * top.toNat) :
    correct? top next low rounds qhat rhat = some (correct top next low rounds qhat rhat) := by
  induction rounds generalizing qhat rhat with
  | zero => omega
  | succ rounds ih =>
    have hone : (1 : UInt64).toNat = 1 := rfl
    unfold correct? correct
    rw [tooLarge?_eq hnext hrhat, Option.bind_eq_bind, Option.bind_some]
    by_cases htest : (decide (base ≤ qhat) || decide (((rhat <<< 32) ||| low) < qhat * next)) = true
    · rw [if_pos htest, if_pos htest]
      -- An estimate that is too large is not zero.
      have hpositive : 1 ≤ qhat.toNat := by
        refine Nat.pos_of_ne_zero fun hzero => ?_
        rw [Bool.or_eq_true, decide_eq_true_eq, decide_eq_true_eq, UInt64.le_iff_toNat_le, UInt64.lt_iff_toNat_lt,
          UInt64.toNat_mul, hzero, Nat.zero_mul] at htest
        exact htest.elim (by decide) (Nat.not_lt_zero _)
      have hsub : sub? qhat 1 = some (qhat - 1) := if_pos hpositive
      have hadd : add? rhat top = some (rhat + top) := if_pos (by omega)
      have hsum : (rhat + top).toNat = rhat.toNat + top.toNat := by
        rw [UInt64.toNat_add, Nat.mod_eq_of_lt (by omega)]
      rw [hsub, hadd]
      by_cases hfull : base ≤ rhat + top
      · simp [hfull]
      · have hword : (rhat + top).toNat < 2 ^ 32 := by
          rw [UInt64.le_iff_toNat_le, Nat.not_le] at hfull
          exact hfull
        have hnextRounds : 2 ^ 32 ≤ (rhat + top).toNat + rounds * top.toNat := by
          rw [Nat.succ_mul] at hrounds
          omega
        simpa [hfull] using ih hword hnextRounds
    · rw [if_neg htest, if_neg htest]

/-- A word of a window is the word of the numerator at that place. -/
theorem getElem?_window (pre : Words) {window : Words} (post : Words) {i : Nat} (hi : i < window.length) :
    (pre ++ window ++ post)[pre.length + i]? = some (window.getD i 0) := by
  rw [List.append_assoc, List.getElem?_append_right (Nat.le_add_right _ _), Nat.add_sub_cancel_left,
    List.getElem?_append_left hi, List.getD_eq_getElem?_getD, List.getElem?_eq_getElem hi]
  rfl

/-- **The trial digit is found** with all reads in range, within 64 bits and with at most two corrections. -/
theorem trial?_eq {vn pre window : Words} (post : Words) (hn : 2 ≤ vn.length)
    (hscaled : 2 ^ 31 ≤ (vn.getLastD 0).toNat) (hlen : window.length = vn.length + 1) :
    trial? vn (pre ++ window ++ post) pre.length = some (estimate vn window) := by
  have hlast : vn.getLastD 0 = vn.getD (vn.length - 1) 0 := by
    rw [List.getLastD_eq_getLast?, List.getLast?_eq_getElem?, List.getD_eq_getElem?_getD]
  have htop := (vn.getD (vn.length - 1) 0).toNat_lt
  have hread : ∀ i, i < vn.length → vn[i]? = some (vn.getD i 0) := fun i hi => by
    simpa using getElem?_window [] [] hi
  have hread' : ∀ i, i < window.length → (pre ++ window ++ post)[pre.length + i]? = some (window.getD i 0) :=
    fun i hi => getElem?_window pre post hi
  rw [hlast] at hscaled
  unfold trial? estimate trialDigit
  rw [Nat.add_sub_assoc (by omega), Nat.add_sub_assoc hn, hread' _ (by omega), hread' _ (by omega),
    hread' _ (by omega), hread _ (by omega), hread _ (by omega)]
  have hdiv : ∀ a : UInt64, div? a (vn.getD (vn.length - 1) 0).toUInt64 =
      some (a / (vn.getD (vn.length - 1) 0).toUInt64, a % (vn.getD (vn.length - 1) 0).toUInt64) :=
    fun a => if_pos (by rw [UInt32.toNat_toUInt64]; omega)
  have hmod : ∀ a : UInt64, (a % (vn.getD (vn.length - 1) 0).toUInt64).toNat < 2 ^ 32 := by
    intro a
    rw [UInt64.toNat_mod, UInt32.toNat_toUInt64]
    exact Nat.lt_trans (Nat.mod_lt _ (by omega)) htop
  simp only [Option.bind_eq_bind, Option.bind_some, hdiv]
  refine correct?_eq (Words.toNat_toUInt64_lt _) (Words.toNat_toUInt64_lt _) (hmod _) ?_
  rw [UInt32.toNat_toUInt64]
  omega

/-! ## Passes over the divisor -/

section Sweep

variable {β : Type} {place? : UInt32 → UInt32 → β → Option (UInt32 × β)} {place : UInt32 → UInt32 → β → UInt32 × β}
  {I : β → Prop}

/-- What every place keeps of the carry, the pass keeps. -/
theorem sweep_keeps (hplace : ∀ v u carry, I carry → I (place v u carry).2) (vs us : Words) {carry : β}
    (hcarry : I carry) : I (sweep place vs us carry).2 := by
  induction vs generalizing us carry with
  | nil => exact hcarry
  | cons v vs ih =>
    cases us with
    | nil => exact hcarry
    | cons u us => exact ih us (hplace v u carry hcarry)

/-- **A pass with checks** has all reads and writes in range, and overwrites the window by what the pass without checks
leaves, if the checks of a place hold for the carries that occur. -/
theorem foldlM_pass (hplace : ∀ v u carry, I carry → place? v u carry = some (place v u carry) ∧ I (place v u carry).2)
    {vs us : Words} (hlen : us.length = vs.length) (passed pre post : Words) {carry : β} (hcarry : I carry) {j : Nat}
    (hpre : pre.length = passed.length + j) :
    (List.range' passed.length vs.length).foldlM (pass? place? (passed ++ vs) j) (pre ++ us ++ post, carry) =
      some (pre ++ (sweep place vs us carry).1 ++ post, (sweep place vs us carry).2) := by
  -- The induction is on the words that are left; those before them are settled.
  induction vs generalizing us passed pre carry with
  | nil =>
    obtain rfl := List.eq_nil_of_length_eq_zero hlen
    rfl
  | cons v vs ih =>
    cases us with
    | nil => cases hlen
    | cons u us =>
      obtain ⟨hchecks, hnext⟩ := hplace v u carry hcarry
      have hv : (passed ++ v :: vs)[passed.length]? = some v := by simp
      have hu : (pre ++ u :: us ++ post)[passed.length + j]? = some u := by simp [← hpre]
      have hset : (pre ++ u :: us ++ post).set (passed.length + j) (place v u carry).1 =
          pre ++ [(place v u carry).1] ++ us ++ post := by simp [← hpre]
      have hplaced : pass? place? (passed ++ v :: vs) j (pre ++ u :: us ++ post, carry) passed.length =
          some (pre ++ [(place v u carry).1] ++ us ++ post, (place v u carry).2) := by
        simp only [pass?, hv, hu, hchecks, Option.bind_eq_bind, Option.bind_some, hset]
      have hrest := ih (Nat.succ.inj hlen) (passed ++ [v]) (pre ++ [(place v u carry).1]) hnext
        (by simp [hpre]; omega)
      rw [List.length_append, List.length_singleton, List.append_assoc, List.singleton_append] at hrest
      rw [List.length_cons, List.range'_succ, List.foldlM_cons, hplaced, Option.bind_eq_bind, Option.bind_some, hrest]
      simp [sweep]

end Sweep

/-- The whole divisor passes over the low words of a window. -/
theorem foldlM_pass_range {β : Type} {place? : UInt32 → UInt32 → β → Option (UInt32 × β)}
    {place : UInt32 → UInt32 → β → UInt32 × β} {I : β → Prop}
    (hplace : ∀ v u carry, I carry → place? v u carry = some (place v u carry) ∧ I (place v u carry).2)
    {vn us : Words} (hlen : us.length = vn.length) (pre post : Words) {carry : β} (hcarry : I carry) :
    (List.range vn.length).foldlM (pass? place? vn pre.length) (pre ++ us ++ post, carry) =
      some (pre ++ (sweep place vn us carry).1 ++ post, (sweep place vn us carry).2) := by
  rw [List.range_eq_range']
  exact foldlM_pass hplace hlen [] pre post hcarry (Nat.zero_add _).symm

/-- The word above a pass, and the words when it is overwritten. -/
theorem above_pass (pre : Words) {words : Words} {n : Nat} (hlen : words.length = n) (u u' : UInt32) (post : Words) :
    (pre ++ words ++ (u :: post))[pre.length + n]? = some u ∧
      (pre ++ words ++ (u :: post)).set (pre.length + n) u' = pre ++ (words ++ [u']) ++ post := by
  subst hlen
  constructor <;> simp

/-! ### Multiply and subtract -/

/-- One place of multiply and subtract. -/
def subtractPlace (qhat : UInt64) (v u : UInt32) (borrow : Int64) : UInt32 × Int64 :=
  let product := qhat * v.toUInt64
  let t := u.toUInt64.toInt64 - borrow - (product &&& 0xFFFFFFFF).toInt64
  (t.toUInt64.toUInt32, (product >>> 32).toInt64 - (t >>> 32))

/-- What is borrowed from the next place is at most a full word. -/
def Borrowed (borrow : Int64) : Prop := 0 ≤ borrow.toInt ∧ borrow.toInt ≤ 2 ^ 32

/-- **One place of multiply and subtract stays within 64 bits.** -/
theorem subtractPlace?_eq {qhat : UInt64} (hqhat : qhat.toNat < 2 ^ 32) (v u : UInt32) (borrow : Int64)
    (hborrow : Borrowed borrow) :
    subtractPlace? qhat v u borrow = some (subtractPlace qhat v u borrow) ∧
      Borrowed (subtractPlace qhat v u borrow).2 := by
  refine ⟨?_, (mulSub_place hqhat u v hborrow.1 hborrow.2).1⟩
  have hu := u.toNat_lt
  obtain ⟨hlower, hupper⟩ := hborrow
  obtain ⟨⟨hproduct, hmax⟩, hand, hlow, hhigh, hword, hless, hplace⟩ := mulSub_terms hqhat u v hlower hupper
  unfold subtractPlace? subtractPlace
  dsimp only at hproduct hmax hand hlow hhigh hword hless hplace ⊢
  have hmul : mul? qhat v.toUInt64 = some (qhat * v.toUInt64) := if_pos (by rw [UInt32.toNat_toUInt64]; omega)
  generalize qhat * v.toUInt64 = product at *
  have hlow? : signed? (product &&& 0xFFFFFFFF) = some (product &&& 0xFFFFFFFF).toInt64 := if_pos (by omega)
  have hhigh? : signed? (product >>> 32) = some (product >>> 32).toInt64 :=
    if_pos (by rw [Words.toNat_highWord]; omega)
  have hless? : minus? u.toUInt64.toInt64 borrow = some (u.toUInt64.toInt64 - borrow) := if_pos (by omega)
  have hplace? : minus? (u.toUInt64.toInt64 - borrow) (product &&& 0xFFFFFFFF).toInt64 =
      some (u.toUInt64.toInt64 - borrow - (product &&& 0xFFFFFFFF).toInt64) := if_pos (by omega)
  have hnext? : minus? (product >>> 32).toInt64
      ((u.toUInt64.toInt64 - borrow - (product &&& 0xFFFFFFFF).toInt64) >>> 32) =
        some ((product >>> 32).toInt64 -
          ((u.toUInt64.toInt64 - borrow - (product &&& 0xFFFFFFFF).toInt64) >>> 32)) := by
    refine if_pos ?_
    rw [toInt_highWord]
    omega
  simp only [hmul, hlow?, hhigh?, hless?, hplace?, hnext?, Option.bind_eq_bind, Option.bind_some]

/-- Multiply and subtract passes over the words of the divisor, and then takes the last borrow from the top. -/
theorem mulSub_eq_sweep (qhat : UInt64) {vs us : Words} (hlen : us.length = vs.length) (u : UInt32) (borrow : Int64) :
    mulSub qhat vs (us ++ [u]) borrow =
      ((sweep (subtractPlace qhat) vs us borrow).1 ++
          [(u.toUInt64.toInt64 - (sweep (subtractPlace qhat) vs us borrow).2).toUInt64.toUInt32],
        u.toUInt64.toInt64 - (sweep (subtractPlace qhat) vs us borrow).2) := by
  induction vs generalizing us borrow with
  | nil =>
    obtain rfl := List.eq_nil_of_length_eq_zero hlen
    rfl
  | cons v vs ih =>
    cases us with
    | nil => cases hlen
    | cons w us =>
      simp only [List.cons_append, mulSub, sweep, subtractPlace, List.headD_cons, List.tail_cons,
        ih (Nat.succ.inj hlen)]

/-- **Multiply and subtract in place**: the window is overwritten by what is left of it. -/
theorem subtract?_eq {qhat : UInt64} (hqhat : qhat.toNat < 2 ^ 32) {vn window : Words}
    (hlen : window.length = vn.length + 1) (pre post : Words) :
    subtract? qhat vn (pre ++ window ++ post) pre.length =
      some (pre ++ (mulSub qhat vn window 0).1 ++ post, (mulSub qhat vn window 0).2) := by
  obtain ⟨us, u, rfl, hus⟩ := exists_top hlen
  have hzero : Borrowed 0 := ⟨by decide, by decide⟩
  have hplace := fun v u => subtractPlace?_eq hqhat v u
  have hloop := foldlM_pass_range hplace hus pre (u :: post) hzero
  obtain ⟨hlower, hupper⟩ := sweep_keeps (fun v u carry hcarry => (hplace v u carry hcarry).2) vn us hzero
  have hlength := length_sweep (subtractPlace qhat) hus 0
  have hsplit : pre ++ (us ++ [u]) ++ post = pre ++ us ++ (u :: post) := by simp
  rw [mulSub_eq_sweep qhat hus, subtract?, hsplit, hloop]
  generalize sweep (subtractPlace qhat) vn us 0 = left at *
  have hu := u.toNat_lt
  have hword : u.toUInt64.toInt64.toInt = u.toNat := toInt_toInt64 (by rw [UInt32.toNat_toUInt64]; omega)
  have htop : minus? u.toUInt64.toInt64 left.2 = some (u.toUInt64.toInt64 - left.2) := if_pos (by omega)
  obtain ⟨hread, hwrite⟩ := above_pass pre hlength u (u.toUInt64.toInt64 - left.2).toUInt64.toUInt32 post
  simp only [Option.bind_eq_bind, Option.bind_some, hread, htop, hwrite]

/-! ### Adding the divisor back -/

/-- **One place of the addition stays within 64 bits.** -/
theorem addPlace?_eq (v u : UInt32) (carry : UInt64) (hcarry : Carried carry) :
    addPlace? v u carry = some (addPlace v u carry) ∧ Carried (addPlace v u carry).2 := by
  refine ⟨?_, carried_addPlace v u hcarry⟩
  have hu := u.toNat_lt
  have hv := v.toNat_lt
  obtain ⟨hboth, hsum⟩ := toNat_placeSum v u hcarry
  unfold Carried at hcarry
  have hboth? : add? u.toUInt64 v.toUInt64 = some (u.toUInt64 + v.toUInt64) :=
    if_pos (by rw [UInt32.toNat_toUInt64, UInt32.toNat_toUInt64]; omega)
  have hsum? : add? (u.toUInt64 + v.toUInt64) carry = some (u.toUInt64 + v.toUInt64 + carry) := if_pos (by omega)
  simp only [addPlace?, addPlace, hboth?, hsum?, Option.bind_eq_bind, Option.bind_some]

/-- **Adding the divisor back in place**: the window is overwritten by the sum, and the carry out of the words of the
divisor goes to the top. -/
theorem addBack?_eq {vn us : Words} (hlen : us.length = vn.length) (u : UInt32) (pre post : Words) :
    addBack? vn (pre ++ (us ++ [u]) ++ post) pre.length =
      some (pre ++ addBack vn (us ++ [u]) 0 ++ post, (sweep addPlace vn us 0).2) := by
  have hloop := foldlM_pass_range addPlace?_eq hlen pre (u :: post) carried_zero
  have hsplit : pre ++ (us ++ [u]) ++ post = pre ++ us ++ (u :: post) := by simp
  obtain ⟨hread, hwrite⟩ :=
    above_pass pre (length_sweep addPlace hlen 0) u (u + (sweep addPlace vn us 0).2.toUInt32) post
  rw [addBack_eq_sweep hlen, addBack?, hsplit, hloop]
  simp only [Option.bind_eq_bind, Option.bind_some, hread, hwrite]

/-! ## Scaling, and the remainder -/

/-- Reads that all have a result, one for each index. -/
theorem mapM_range {α : Type} (f : Nat → Option α) (xs : List α) (hf : ∀ i (hi : i < xs.length), f i = some xs[i]) :
    (List.range xs.length).mapM f = some xs := by
  induction xs using List.reverseRecOn with
  | nil => rfl
  | append_singleton xs x ih =>
    have hinit := ih fun i hi => by
      have hall := hf i (by rw [List.length_append]; omega)
      rwa [List.getElem_append_left hi] at hall
    have hlast : f xs.length = some x := by simpa using hf xs.length (by simp)
    rw [List.length_append, List.length_singleton, List.range_succ, List.mapM_append, hinit, List.mapM_cons, hlast]
    rfl

/-- A word shifted left, with the bits that leave the word below. -/
def scaledWord (bits : UInt64) (below w : UInt32) : UInt32 :=
  (w <<< bits.toUInt32) ||| (below.toUInt64 >>> (32 - bits)).toUInt32

section Scaling

variable {bits : UInt64}

/-- The rest of a word's width. -/
theorem sub?_bits (hbits : bits.toNat < 32) :
    sub? 32 bits = some (32 - bits) ∧ (32 - bits).toNat = 32 - bits.toNat := by
  have hword : (32 : UInt64).toNat = 32 := rfl
  have hle : bits.toNat ≤ (32 : UInt64).toNat := Nat.le_of_lt hbits
  exact ⟨if_pos hle, UInt64.toNat_sub_of_le _ _ (UInt64.le_iff_toNat_le.2 hle)⟩

/-- The bits that leave a word. -/
theorem toNat_leaving (hbits : bits.toNat < 32) (w : UInt32) :
    (w.toUInt64 >>> (32 - bits)).toNat = w.toNat / 2 ^ (32 - bits.toNat) ∧
      (w.toUInt64 >>> (32 - bits)).toNat < 2 ^ bits.toNat := by
  have hw := w.toNat_lt
  have hvalue : (w.toUInt64 >>> (32 - bits)).toNat = w.toNat / 2 ^ (32 - bits.toNat) := by
    rw [UInt64.toNat_shiftRight, UInt32.toNat_toUInt64, (sub?_bits hbits).2, Nat.shiftRight_eq_div_pow,
      Nat.mod_eq_of_lt (by omega)]
  refine ⟨hvalue, ?_⟩
  rw [hvalue, Nat.div_lt_iff_lt_mul (Nat.two_pow_pos _), ← Nat.pow_add, Nat.add_sub_cancel' (Nat.le_of_lt hbits)]
  exact hw

/-- The low word of a shifted word. -/
theorem toUInt32_shifted (hbits : bits.toNat < 32) (w : UInt32) :
    (w.toUInt64 <<< bits).toUInt32 = w <<< bits.toUInt32 := by
  have hamount : bits.toUInt32.toNat = bits.toNat := by
    rw [UInt64.toNat_toUInt32, Nat.mod_eq_of_lt (by omega)]
  rw [← UInt32.toNat_inj, UInt64.toNat_toUInt32, UInt64.toNat_shiftLeft, UInt32.toNat_shiftLeft, UInt32.toNat_toUInt64,
    hamount, Nat.mod_eq_of_lt (by omega : bits.toNat < 64), Nat.mod_eq_of_lt hbits,
    Nat.mod_mod_of_dvd _ (by decide : 2 ^ 32 ∣ 2 ^ 64)]

/-- **A magnitude shifted left, word by word**: what leaves a word comes into the word above. -/
theorem shiftLeftBits_words (hbits : bits.toNat < 32) (ws : Words) (below : UInt32) :
    Words.shiftLeftBits bits ws (below.toUInt64 >>> (32 - bits)) =
      (List.zipWith (scaledWord bits) (below :: ws) ws, ((below :: ws).getLastD 0).toUInt64 >>> (32 - bits)) := by
  induction ws generalizing below with
  | nil => rfl
  | cons w ws ih =>
    have hpow : 2 ^ bits.toNat * 2 ^ (32 - bits.toNat) = 2 ^ 32 := by
      rw [← Nat.pow_add, Nat.add_sub_cancel' (Nat.le_of_lt hbits)]
    have hout : (((w.toUInt64 <<< bits) ||| (below.toUInt64 >>> (32 - bits))) >>> 32) = w.toUInt64 >>> (32 - bits) := by
      obtain ⟨-, hlt⟩ := toNat_leaving hbits below
      rw [← UInt64.toNat_inj, Words.toNat_highWord, Words.toNat_shiftLeft_or w (Nat.le_of_lt hbits) hlt,
        (toNat_leaving hbits w).1, ← hpow, ← Nat.div_div_eq_div_mul, Nat.mul_comm, Nat.mul_add_div (Nat.two_pow_pos _),
        Nat.div_eq_of_lt hlt, Nat.add_zero]
    unfold Words.shiftLeftBits
    dsimp only
    rw [hout, ih w, UInt64.toUInt32_or, toUInt32_shifted hbits]
    rfl

/-- Nothing leaves a zero word. -/
theorem leaving_zero (hbits : bits.toNat < 32) : (0 : UInt32).toUInt64 >>> (32 - bits) = 0 := by
  rw [← UInt64.toNat_inj, (toNat_leaving hbits 0).1]
  exact Nat.zero_div _

/-- Word by word, a magnitude is scaled with all reads in range, and the bits that leave it are those of its last
word. -/
theorem mapM_scaledWord? (hbits : bits.toNat < 32) (ws : Words) :
    (List.range ws.length).mapM (scaledWord? bits ws) = some (Words.shiftLeftBits bits ws 0).1 ∧
      (Words.shiftLeftBits bits ws 0).2 = (ws.getLastD 0).toUInt64 >>> (32 - bits) := by
  have hwords := shiftLeftBits_words hbits ws 0
  have hlength := Words.length_shiftLeftBits bits ws 0
  rw [leaving_zero hbits] at hwords
  rw [hwords] at hlength ⊢
  dsimp only at hlength ⊢
  constructor
  · have hread := mapM_range (scaledWord? bits ws) (List.zipWith (scaledWord bits) (0 :: ws) ws) ?_
    · rwa [hlength] at hread
    intro i hi
    rw [hlength] at hi
    have hshift : ∀ w, shiftLeft? w bits = some (w <<< bits.toUInt32) := fun w => if_pos hbits
    rw [List.getElem_zipWith]
    cases i with
    | zero =>
      -- Nothing comes in below the first word.
      have hnone : scaledWord bits 0 ws[0] = ws[0] <<< bits.toUInt32 := by
        rw [scaledWord, leaving_zero hbits]
        exact UInt32.or_zero
      rw [List.getElem_cons_zero, hnone, scaledWord?, List.getElem?_eq_getElem hi]
      simp only [Option.bind_eq_bind, Option.bind_some, hshift]
    | succ i =>
      rw [scaledWord?, List.getElem?_eq_getElem hi, List.getElem?_eq_getElem (Nat.lt_of_succ_lt hi)]
      simp only [Option.bind_eq_bind, Option.bind_some, hshift, (sub?_bits hbits).1]
      rfl
  · cases ws <;> rfl

/-- **Scaling in place** has the shift, the divisor and the numerator of the division without checks. -/
theorem normalize?_eq {num den : Words} (hshift : (leadingZeros (den.getLastD 0)).toNat < 32) (hnum : num ≠ [])
    (hden : den ≠ []) :
    let shift := leadingZeros (den.getLastD 0)
    normalize? num den =
      some (shift, (Words.shiftLeftBits shift den 0).1,
        (Words.shiftLeftBits shift num 0).1 ++ [(Words.shiftLeftBits shift num 0).2.toUInt32]) := by
  intro shift
  have hlast : ∀ {ws : Words}, ws ≠ [] → ws[ws.length - 1]? = some (ws.getLastD 0) := by
    intro ws hws
    rw [← List.getLast?_eq_getElem?, List.getLastD_eq_getLast?, List.getLast?_eq_some_getLast hws]
    rfl
  obtain ⟨hdivisor, -⟩ := mapM_scaledWord? hshift den
  obtain ⟨hlow, hout⟩ := mapM_scaledWord? hshift num
  simp only [normalize?, hlast hden, hlast hnum, hdivisor, hlow, (sub?_bits hshift).1, Option.bind_eq_bind,
    Option.bind_some, shift, hout]

/-- A word of a magnitude shifted right: its bits, and those that come in from the word above. -/
theorem shiftedWord (hbits : bits.toNat < 32) (w above : UInt32) :
    (((above.toUInt64 <<< 32) ||| w.toUInt64) >>> bits).toUInt32 =
      (w >>> bits.toUInt32) ||| (above.toUInt64 <<< (32 - bits)).toUInt32 := by
  have habove := above.toNat_lt
  have hw := w.toNat_lt
  have hamount : bits.toUInt32.toNat = bits.toNat := by
    rw [UInt64.toNat_toUInt32, Nat.mod_eq_of_lt (by omega)]
  have hword : (w.toUInt64 >>> bits).toUInt32 = w >>> bits.toUInt32 := by
    have hle : w.toNat / 2 ^ bits.toNat ≤ w.toNat := Nat.div_le_self _ _
    rw [← UInt32.toNat_inj, UInt64.toNat_toUInt32, UInt64.toNat_shiftRight, UInt32.toNat_shiftRight,
      UInt32.toNat_toUInt64, hamount, Nat.mod_eq_of_lt (by omega : bits.toNat < 64), Nat.mod_eq_of_lt hbits,
      Nat.shiftRight_eq_div_pow, Nat.mod_eq_of_lt (by omega)]
  have hraised : (above.toUInt64 <<< 32) >>> bits = above.toUInt64 <<< (32 - bits) := by
    have hpow : 2 ^ bits.toNat * 2 ^ (32 - bits.toNat) = 2 ^ 32 := by
      rw [← Nat.pow_add, Nat.add_sub_cancel' (Nat.le_of_lt hbits)]
    have hle : above.toNat * 2 ^ (32 - bits.toNat) ≤ above.toNat * 2 ^ 32 :=
      Nat.mul_le_mul_left _ (Nat.pow_le_pow_right (by decide) (Nat.sub_le _ _))
    have hthirtyTwo : (32 : UInt64).toNat % 64 = 32 := rfl
    rw [← UInt64.toNat_inj, UInt64.toNat_shiftRight, UInt64.toNat_shiftLeft, UInt64.toNat_shiftLeft,
      UInt32.toNat_toUInt64, (sub?_bits hbits).2, hthirtyTwo, Nat.mod_eq_of_lt (by omega : 32 - bits.toNat < 64),
      Nat.mod_eq_of_lt (by omega : bits.toNat < 64), Nat.shiftLeft_eq, Nat.shiftLeft_eq, Nat.shiftRight_eq_div_pow,
      Nat.mod_eq_of_lt (by omega), Nat.mod_eq_of_lt (by omega), ← hpow, Nat.mul_left_comm,
      Nat.mul_div_cancel_left _ (Nat.two_pow_pos _)]
  rw [UInt64.shiftRight_or, UInt64.toUInt32_or, hraised, hword, UInt32.or_comm]

/-- Shifting right keeps the number of words. -/
theorem length_shiftRightBits (bits : UInt64) (ws : Words) : (Words.shiftRightBits bits ws).length = ws.length := by
  induction ws with
  | nil => rfl
  | cons w ws ih => exact congrArg Nat.succ ih

/-- The words of a magnitude shifted right. -/
theorem getElem_shiftRightBits (hbits : bits.toNat < 32) (ws : Words) {i : Nat}
    (hi : i < (Words.shiftRightBits bits ws).length) (hi' : i < ws.length) :
    (Words.shiftRightBits bits ws)[i] =
      (ws[i] >>> bits.toUInt32) ||| ((ws.getD (i + 1) 0).toUInt64 <<< (32 - bits)).toUInt32 := by
  induction ws generalizing i with
  | nil => cases hi'
  | cons w ws ih =>
    cases i with
    | zero =>
      have hhead : ws.headD 0 = (w :: ws).getD 1 0 := by cases ws <;> rfl
      rw [← hhead, ← shiftedWord hbits]
      rfl
    | succ i => exact ih (Nat.lt_of_succ_lt_succ hi) (Nat.lt_of_succ_lt_succ hi')

/-- **The remainder is read back** from the low words of the numerator, with nothing above its last word. -/
theorem readBack?_eq (hbits : bits.toNat < 32) (rem post : Words) :
    readBack? bits rem.length (rem ++ post) = some (Words.shiftRightBits bits rem) := by
  have hread := mapM_range (remainderWord? bits rem.length (rem ++ post)) (Words.shiftRightBits bits rem) ?_
  · rwa [length_shiftRightBits] at hread
  intro i hi
  have hi' : i < rem.length := length_shiftRightBits bits rem ▸ hi
  have hword : ∀ {j}, j < rem.length → (rem ++ post)[j]? = some (rem.getD j 0) := by
    intro j hj
    rw [List.getElem?_append_left hj, List.getD_eq_getElem?_getD, List.getElem?_eq_getElem hj]
    rfl
  have hthis : rem.getD i 0 = rem[i] := List.getD_eq_getElem _ _ hi'
  have hshift : ∀ w, shiftRight? w bits = some (w >>> bits.toUInt32) := fun w => if_pos hbits
  rw [getElem_shiftRightBits hbits rem hi hi', remainderWord?, hword hi', hthis]
  by_cases hlast : i + 1 < rem.length
  · simp only [Option.bind_eq_bind, Option.bind_some, hshift, if_pos hlast, hword hlast, (sub?_bits hbits).1]
  · -- Above the last word of the remainder there are no bits.
    have hnone : rem.getD (i + 1) 0 = 0 := List.getD_eq_default _ _ (Nat.le_of_not_lt hlast)
    have hzero : (0 : UInt32).toUInt64 <<< (32 - bits) = 0 := UInt64.zero_shiftLeft
    rw [hnone, hzero]
    simp only [Option.bind_eq_bind, Option.bind_some, hshift, if_neg hlast]
    exact congrArg some UInt32.or_zero.symm

end Scaling

end Checked

end LongDivision

end ScriptMachine
