import ScriptMachine.Bytes.Basic
import ScriptMachine.Integer.Bitwise

/-! # The byte form of integers

An integer is written as the shortest non-empty little-endian two's-complement byte string that
denotes it; any byte string, also the empty one, can be read.

* `Integer.ofBytes`, `Integer.toBytes`: reader and writer.
* `Integer.byteLength`: the length of the written form.
-/

namespace ScriptMachine

namespace Integer

/-- The four bytes at the given offset as a word; bytes past the end are the filler. -/
def wordAt (b : Bytes) (fill : UInt8) (offset : Nat) : UInt32 :=
  let part (k : Nat) : UInt32 := (b.getD (offset + k) fill).toUInt32
  part 0 ||| (part 1 <<< 8) ||| (part 2 <<< 16) ||| (part 3 <<< 24)

/-- Reads a little-endian two's-complement byte string; the empty string is zero. -/
def ofBytes (b : Bytes) : Integer :=
  match b.back? with
  | none => zero
  | some last =>
    let fill : UInt8 := if last &&& 0x80 != 0 then 0xFF else 0
    ofTwosComplement ((List.range ((b.size + 3) / 4)).map fun i => wordAt b fill (4 * i))

/-- The bytes of a word, least significant first. -/
def wordBytes (w : UInt32) : List UInt8 :=
  [w.toUInt8, (w >>> 8).toUInt8, (w >>> 16).toUInt8, (w >>> 24).toUInt8]

/-- Drops sign bytes that the byte below already implies, from a list whose first byte is the most
significant one. -/
def dropSignBytes : List UInt8 → List UInt8
  | last :: prev :: rest =>
    if (last == 0x00 && prev &&& 0x80 == 0) || (last == 0xFF && prev &&& 0x80 != 0) then
      dropSignBytes (prev :: rest)
    else last :: prev :: rest
  | bytes => bytes

/-- The shortest non-empty two's-complement byte string, least significant byte first. -/
def toBytes (a : Integer) : Bytes :=
  (dropSignBytes (a.toTwosComplement.flatMap wordBytes).reverse).reverse.toArray

/-- The length of `toBytes`, found by range for small integers. -/
def byteLength : Integer → Nat
  | small v =>
    if -0x80 ≤ v && v < 0x80 then 1
    else if -0x8000 ≤ v && v < 0x8000 then 2
    else if -0x800000 ≤ v && v < 0x800000 then 3
    else 4
  | a => a.toBytes.size

end Integer

end ScriptMachine
