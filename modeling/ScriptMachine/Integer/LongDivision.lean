import ScriptMachine.Integer.Words

/-! # Long division of magnitudes

Division by a magnitude of at least two words, one quotient word at a time. The divisor is first
scaled so that its top bit is set. A *window* of one word more than the divisor holds the current
remainder with the next word of the numerator brought down; the two top words of the window give a
trial digit, which the third word corrects to the true digit or one more; multiply-and-subtract then
shows which of the two it was, and in the second case the divisor is added back once.

* `LongDivision.trialDigit`: the corrected estimate.
* `LongDivision.mulSub`, `LongDivision.addBack`: the two passes over a window.
* `LongDivision.digitStep`: one quotient word and the next remainder.
* `Words.divRem`: quotient and remainder of two magnitudes.
-/

namespace ScriptMachine

namespace LongDivision

/-- The word base as a 64-bit number. -/
def base : UInt64 := 0x100000000

/-- Lowers a digit estimate while it is not a digit or while the divisor's second word shows it to be
too large, at most `fuel` times. With a scaled divisor every correction adds at least half a word to
the partial remainder, so that two corrections are enough. -/
def correct (top next low : UInt64) : Nat → UInt64 → UInt64 → UInt64
  | 0, qhat, _ => qhat
  | fuel + 1, qhat, rhat =>
    if base ≤ qhat || ((rhat <<< 32) ||| low) < qhat * next then
      let qhat := qhat - 1
      let rhat := rhat + top
      if base ≤ rhat then qhat else correct top next low fuel qhat rhat
    else qhat

/-- The trial digit of a window whose top words are `u2`, `u1` and `u0`, for a divisor whose top words
are `top` and `next`. -/
def trialDigit (u2 u1 u0 : UInt32) (top next : UInt32) : UInt64 :=
  let dividend := (u2.toUInt64 <<< 32) ||| u1.toUInt64
  correct top.toUInt64 next.toUInt64 u0.toUInt64 2
    (dividend / top.toUInt64) (dividend % top.toUInt64)

/-- Subtracts `qhat` times the divisor from a window. The second component is the top word as a signed
number before it is cut to a word: it is negative exactly when the digit was too large. -/
def mulSub (qhat : UInt64) : Words → Words → Int64 → Words × Int64
  | [], us, borrow =>
    let t := (us.headD 0).toUInt64.toInt64 - borrow
    ([t.toUInt64.toUInt32], t)
  | v :: vs, us, borrow =>
    let product := qhat * v.toUInt64
    let t := (us.headD 0).toUInt64.toInt64 - borrow - (product &&& 0xFFFFFFFF).toInt64
    let (rest, top) := mulSub qhat vs us.tail ((product >>> 32).toInt64 - (t >>> 32))
    (t.toUInt64.toUInt32 :: rest, top)

/-- Adds the divisor to a window; the carry out of the window cancels its pending borrow. -/
def addBack : Words → Words → UInt64 → Words
  | [], us, carry => [us.headD 0 + carry.toUInt32]
  | v :: vs, us, carry =>
    let sum := (us.headD 0).toUInt64 + v.toUInt64 + carry
    sum.toUInt32 :: addBack vs us.tail (sum >>> 32)

/-- One quotient word: brings `w` down to the remainder `rem` and divides the window by the scaled
divisor. Returns the digit and the next remainder, which has as many words as the divisor. -/
def digitStep (divisor : Words) (rem : Words) (w : UInt32) : UInt32 × Words :=
  let n := divisor.length
  let window := w :: rem
  let qhat := trialDigit (window.getD n 0) (window.getD (n - 1) 0) (window.getD (n - 2) 0)
    (divisor.getD (n - 1) 0) (divisor.getD (n - 2) 0)
  let (diff, top) := mulSub qhat divisor window 0
  if top < 0 then (qhat.toUInt32 - 1, (addBack divisor diff 0).take n)
  else (qhat.toUInt32, diff.take n)

/-- Divides, most significant word first: the digits come out least significant first. -/
def digits (divisor : Words) : Words → Words → Words → Words × Words
  | [], quotient, rem => (quotient, rem)
  | w :: ws, quotient, rem =>
    let (digit, rem) := digitStep divisor rem w
    digits divisor ws (digit :: quotient) rem

/-- The number of zero bits above the top bit of a non-zero word. -/
def leadingZeros (w : UInt32) : UInt64 := 31 - w.log2.toUInt64

/-- Quotient and remainder for a trimmed divisor of at least two words and a numerator that is not
smaller. -/
def divRem (num den : Words) : Words × Words :=
  let shift := leadingZeros (den.getLastD 0)
  let divisor := (Words.shiftLeftBits shift den 0).1
  let (low, out) := Words.shiftLeftBits shift num 0
  let scaled := low ++ [out.toUInt32]
  let count := scaled.length - divisor.length
  let (quotient, rem) := digits divisor (scaled.take count).reverse [] (scaled.drop count)
  (Words.trim quotient, Words.trim (Words.shiftRightBits shift rem))

end LongDivision

/-- Quotient and remainder of two trimmed magnitudes, the second one not zero. -/
def Words.divRem (num den : Words) : Words × Words :=
  match Words.order num den, den with
  | .lt, _ => ([], num)
  | _, [d] =>
    let (quotient, rem) := Words.divRemWord num d
    (quotient, Words.trim [rem])
  | _, _ => LongDivision.divRem num den

end ScriptMachine
