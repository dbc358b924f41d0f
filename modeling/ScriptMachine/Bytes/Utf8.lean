import ScriptMachine.Bytes.Basic

/-! # UTF-8

Byte strings are read as UTF-8 one byte at a time. Between bytes the reader stands between characters
or inside one; a byte that cannot continue the character closes it as malformed and starts anew.

* `Utf8.decode`: the characters, with `none` for every malformed stretch.
* `Utf8.text?`: the text of a well-formed byte string.
* `Utf8.lossyText`: the text with U+FFFD for every malformed stretch.
-/

namespace ScriptMachine

namespace Utf8

/-- A character under way: how many bytes are still owed, the range of the next one, and the bits read
so far. -/
structure Partial where
  /-- The number of bytes still owed. -/
  owed : Nat
  /-- The least next byte. -/
  least : Nat
  /-- The greatest next byte. -/
  greatest : Nat
  /-- The bits read so far. -/
  bits : Nat

/-- The character that a lead byte starts, if it is one. -/
def lead? (b : Nat) : Option Partial :=
  if b < 0xC2 then none
  else if b < 0xE0 then some ⟨1, 0x80, 0xBF, b - 0xC0⟩
  else if b == 0xE0 then some ⟨2, 0xA0, 0xBF, 0⟩
  else if b == 0xED then some ⟨2, 0x80, 0x9F, 0x0D⟩
  else if b < 0xF0 then some ⟨2, 0x80, 0xBF, b - 0xE0⟩
  else if b == 0xF0 then some ⟨3, 0x90, 0xBF, 0⟩
  else if b < 0xF4 then some ⟨3, 0x80, 0xBF, b - 0xF0⟩
  else if b == 0xF4 then some ⟨3, 0x80, 0x8F, 4⟩
  else none

/-- Reads bytes from between characters (`none`) or from inside one, and appends what they denote to
the characters read so far, the latest one first. -/
def scan : List UInt8 → Option Partial → List (Option Char) → List (Option Char)
  | [], none, out => out
  | [], some _, out => none :: out
  | byte :: rest, state, out =>
    let b := byte.toNat
    match state with
    | some c =>
      if c.least ≤ b && b ≤ c.greatest then
        let bits := 64 * c.bits + (b - 0x80)
        if c.owed ≤ 1 then scan rest none (some (Char.ofNat bits) :: out)
        else scan rest (some ⟨c.owed - 1, 0x80, 0xBF, bits⟩) out
      else if b < 0x80 then scan rest none (some (Char.ofNat b) :: none :: out)
      else
        match lead? b with
        | some c => scan rest (some c) (none :: out)
        | none => scan rest none (none :: none :: out)
    | none =>
      if b < 0x80 then scan rest none (some (Char.ofNat b) :: out)
      else
        match lead? b with
        | some c => scan rest (some c) out
        | none => scan rest none (none :: out)

/-- The characters of a byte string, with `none` for every malformed stretch. -/
def decode (b : Bytes) : List (Option Char) := (scan b.toList none []).reverse

/-- The text of a well-formed byte string. -/
def text? (b : Bytes) : Option String :=
  let chars := decode b
  if chars.all Option.isSome then some (String.ofList (chars.filterMap id)) else none

/-- The text of a byte string, with U+FFFD for every malformed stretch. -/
def lossyText (b : Bytes) : String :=
  String.ofList ((decode b).map fun c => c.getD (Char.ofNat 0xFFFD))

end Utf8

end ScriptMachine
