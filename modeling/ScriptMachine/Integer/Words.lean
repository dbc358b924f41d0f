/-! # Magnitudes as lists of 32-bit words

A magnitude is a list of 32-bit words, least significant first. `Words.toNat` reads it as a natural
number; a magnitude is *trimmed* when its last word is not zero, so that every number has exactly one
trimmed magnitude.

* `Words.trim`, `Words.order`: normal form and three-way comparison.
* `Words.add`, `Words.sub`, `Words.mul`: schoolbook arithmetic with carries kept in 64 bits.
* `Words.divRemWord`: division by one word.
* `Words.shiftLeft`, `Words.shiftRight`: shifts by any number of bits.
-/

namespace ScriptMachine

/-- A magnitude: 32-bit words, least significant first. -/
abbrev Words := List UInt32

namespace Words

/-- The natural number a magnitude denotes. -/
def toNat : Words → Nat
  | [] => 0
  | w :: ws => w.toNat + 2 ^ 32 * toNat ws

/-- A magnitude without a zero word at its top. -/
def Trimmed (ws : Words) : Prop := ws.getLast? ≠ some 0

/-- Drops the zero words at the top. -/
def trim (ws : Words) : Words :=
  (ws.reverse.dropWhile (· == 0)).reverse

/-- Lexicographic order of two word lists, most significant word first. -/
def orderHigh : Words → Words → Ordering
  | [], [] => .eq
  | [], _ :: _ => .lt
  | _ :: _, [] => .gt
  | x :: xs, y :: ys => (compare x y).then (orderHigh xs ys)

/-- Three-way comparison of trimmed magnitudes: the longer one is larger, and at equal lengths the
most significant difference decides. -/
def order (a b : Words) : Ordering :=
  (compare a.length b.length).then (orderHigh a.reverse b.reverse)

/-! ### Addition and subtraction -/

/-- Adds `short`, read as zero past its end, and a carry to `long`. -/
def addCarry : Words → Words → UInt64 → Words
  | [], _, carry => if carry == 0 then [] else [carry.toUInt32]
  | w :: long, short, carry =>
    let sum := w.toUInt64 + (short.headD 0).toUInt64 + carry
    sum.toUInt32 :: addCarry long short.tail (sum >>> 32)

/-- The sum of two magnitudes. -/
def add (a b : Words) : Words :=
  if b.length ≤ a.length then addCarry a b 0 else addCarry b a 0

/-- Subtracts `short`, read as zero past its end, and a borrow from `long`. The word `2^32` is lent
to every place, and is given back exactly when it was not needed. -/
def subBorrow : Words → Words → UInt64 → Words
  | [], _, _ => []
  | w :: long, short, borrow =>
    let diff := w.toUInt64 + 0x100000000 - (short.headD 0).toUInt64 - borrow
    diff.toUInt32 :: subBorrow long short.tail ((1 : UInt64) - (diff >>> 32))

/-- The difference `a - b` of two magnitudes with `b ≤ a`, trimmed. -/
def sub (a b : Words) : Words := trim (subBorrow a b 0)

/-! ### Multiplication -/

/-- Adds the product of one word and a magnitude, and a carry, to an accumulator of the same length;
the last word of the result is the final carry. -/
def mulAddRow (x : UInt32) : Words → Words → UInt64 → Words
  | [], _, carry => [carry.toUInt32]
  | y :: ys, acc, carry =>
    let t := x.toUInt64 * y.toUInt64 + (acc.headD 0).toUInt64 + carry
    t.toUInt32 :: mulAddRow x ys acc.tail (t >>> 32)

/-- Schoolbook product: every word of the first factor adds one row and settles one word of the
result. -/
def mulRows : Words → Words → Words → Words
  | [], _, acc => acc
  | x :: xs, b, acc =>
    match mulAddRow x b acc 0 with
    | [] => []
    | low :: high => low :: mulRows xs b high

/-- The product of two magnitudes, trimmed. -/
def mul (a b : Words) : Words :=
  if a.isEmpty || b.isEmpty then [] else trim (mulRows a b (List.replicate b.length 0))

/-! ### Division by one word -/

/-- Quotient and remainder of a magnitude and one non-zero word, most significant word first. -/
def divRemWord (num : Words) (den : UInt32) : Words × UInt32 :=
  let (quotient, rem) := num.reverse.foldl
    (fun (digits, rem) w =>
      let cur : UInt64 := (rem <<< 32) ||| w.toUInt64
      ((cur / den.toUInt64).toUInt32 :: digits, cur % den.toUInt64))
    (([] : Words), (0 : UInt64))
  (trim quotient, rem.toUInt32)

/-! ### Shifts -/

/-- Shifts left by fewer than 32 bits; the second component holds the bits that leave the top. -/
def shiftLeftBits (bits : UInt64) : Words → UInt64 → Words × UInt64
  | [], carry => ([], carry)
  | w :: ws, carry =>
    let t := (w.toUInt64 <<< bits) ||| carry
    let (rest, out) := shiftLeftBits bits ws (t >>> 32)
    (t.toUInt32 :: rest, out)

/-- Shifts right by fewer than 32 bits. -/
def shiftRightBits (bits : UInt64) : Words → Words
  | [] => []
  | w :: ws =>
    let t := (((ws.headD 0).toUInt64 <<< 32) ||| w.toUInt64) >>> bits
    t.toUInt32 :: shiftRightBits bits ws

/-- `ws * 2^amount`, trimmed. -/
def shiftLeft (ws : Words) (amount : Nat) : Words :=
  let (shifted, out) := shiftLeftBits (UInt64.ofNat (amount % 32)) ws 0
  trim (List.replicate (amount / 32) 0 ++ shifted ++ [out.toUInt32])

/-- `ws / 2^amount` rounded down, trimmed. -/
def shiftRight (ws : Words) (amount : Nat) : Words :=
  trim (shiftRightBits (UInt64.ofNat (amount % 32)) (ws.drop (amount / 32)))

/-! ### Complement -/

/-- Two's-complement negation over the width of the list: every word is inverted and one is added. -/
def negate (ws : Words) : Words :=
  (ws.foldl
    (fun (out, carry) w =>
      let t : UInt64 := (~~~w).toUInt64 + carry
      (t.toUInt32 :: out, t >>> 32))
    (([] : Words), (1 : UInt64))).1.reverse

end Words

end ScriptMachine
