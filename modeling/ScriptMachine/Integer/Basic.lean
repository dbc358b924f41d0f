import ScriptMachine.Integer.Words

/-! # Integers of any size

An `Integer` is either a machine word (`small`), or a sign with a magnitude of 32-bit words (`large`).
`Integer.Canonical` picks one representation per number: everything whose absolute value is below
`2^31` is small, and large magnitudes are trimmed. On canonical integers equality of representations
is equality of numbers.

* `Integer.toInt`: the denoted number.
* `Integer.ofMagnitude`, `Integer.ofInt64`, `Integer.ofUInt64`: canonical integers.
* `Integer.signum`, `Integer.toInt32?`, `Integer.toInt64?`, `Integer.order`: sign, narrowing, order.
-/

namespace ScriptMachine

/-- An integer: inline when it is small, otherwise a sign and a magnitude. -/
inductive Integer where
  /-- A number whose absolute value is below `2^31`. -/
  | small (value : Int32)
  /-- Any other number, as a sign and magnitude words, least significant first. -/
  | large (negative : Bool) (words : Words)
  deriving DecidableEq, Repr

namespace Integer

/-- Zero. -/
def zero : Integer := small 0

/-- One. -/
def one : Integer := small 1

instance : Inhabited Integer := ⟨zero⟩

/-- The number an integer denotes. -/
def toInt : Integer → Int
  | small v => v.toInt
  | large negative ws => if negative then -(ws.toNat : Int) else (ws.toNat : Int)

/-- The chosen representation of each number. -/
def Canonical : Integer → Prop
  | small v => v ≠ Int32.minValue
  | large _ ws => ws.Trimmed ∧ 0x80000000 ≤ ws.toNat

/-- The canonical integer with the given sign and magnitude. -/
def ofMagnitude (negative : Bool) (ws : Words) : Integer :=
  match ws.trim with
  | [] => zero
  | [w] =>
    if w ≤ 0x7FFFFFFF then small (if negative then -w.toInt32 else w.toInt32)
    else large negative [w]
  | trimmed => large negative trimmed

/-- The two words of a 64-bit magnitude. -/
def wordsOfUInt64 (value : UInt64) : Words := [value.toUInt32, (value >>> 32).toUInt32]

/-- The canonical integer of an unsigned 64-bit number. -/
def ofUInt64 (value : UInt64) : Integer := ofMagnitude false (wordsOfUInt64 value)

/-- The canonical integer of a signed 64-bit number. -/
def ofInt64 (value : Int64) : Integer :=
  if -0x80000000 < value && value ≤ 0x7FFFFFFF then small value.toInt32
  else
    let negative := value < 0
    ofMagnitude negative (wordsOfUInt64 (if negative then -value else value).toUInt64)

/-- The canonical integer of a size or count below `2^64`. -/
def ofNat (n : Nat) : Integer := ofUInt64 (UInt64.ofNat n)

/-- One for `true` and zero for `false`. -/
def ofBool (b : Bool) : Integer := if b then one else zero

/-- The sign as -1, 0 or 1. -/
def signum : Integer → Int32
  | small v => if v < 0 then -1 else if v == 0 then 0 else 1
  | large negative _ => if negative then -1 else 1

/-- Whether the integer is below zero. -/
def isNegative : Integer → Bool
  | small v => v < 0
  | large negative _ => negative

/-- Whether the integer is zero. -/
def isZero : Integer → Bool
  | small v => v == 0
  | large _ _ => false

/-- Whether the integer is one. -/
def isOne : Integer → Bool
  | small v => v == 1
  | large _ _ => false

/-- The magnitude words; none for zero. -/
def magnitude : Integer → Words
  | small v => if v == 0 then [] else [(if v < 0 then -v else v).toUInt32]
  | large _ ws => ws

/-! ### Narrowing -/

/-- The value as a signed 32-bit number, if it is one. -/
def toInt32? : Integer → Option Int32
  | small v => some v
  | large true [w] => if w == 0x80000000 then some Int32.minValue else none
  | large _ _ => none

/-- The value as a signed 64-bit number, if it is one. -/
def toInt64? : Integer → Option Int64
  | small v => some v.toInt64
  | large negative ws =>
    if ws.length ≤ 2 then
      let m := (ws.headD 0).toUInt64 ||| ((ws.getD 1 0).toUInt64 <<< 32)
      if m ≤ 0x7FFFFFFFFFFFFFFF then
        some (if negative then -m.toInt64 else m.toInt64)
      else if negative && m == 0x8000000000000000 then some Int64.minValue
      else none
    else none

/-! ### Order -/

/-- Three-way comparison: signs first, then magnitudes, in reverse below zero. -/
def order (a b : Integer) : Ordering :=
  match compare a.signum b.signum with
  | .eq =>
    match a, b with
    | small x, small y => compare x y
    | _, _ =>
      let o := Words.order a.magnitude b.magnitude
      if a.isNegative then o.swap else o
  | o => o

/-- Whether the first integer is below the second. -/
def less (a b : Integer) : Bool := a.order b == .lt

/-- Whether the first integer is at most the second. -/
def atMost (a b : Integer) : Bool := a.order b != .gt

/-- The smaller of two integers; the first one when they are equal. -/
def min (a b : Integer) : Integer := if atMost a b then a else b

/-- The larger of two integers; the second one when they are equal. -/
def max (a b : Integer) : Integer := if atMost a b then b else a

end Integer

end ScriptMachine
