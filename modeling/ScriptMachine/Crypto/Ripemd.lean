import ScriptMachine.Crypto.Sha2

/-! # RIPEMD-160

Two lines of 80 rounds run side by side over every block and are added up crosswise.

* `Crypto.ripemd160`: the digest.
-/

namespace ScriptMachine

namespace Crypto

namespace Ripemd160

/-- The chaining value: five words. -/
structure Chain where
  /-- The first word. -/
  a : UInt32
  /-- The second word. -/
  b : UInt32
  /-- The third word. -/
  c : UInt32
  /-- The fourth word. -/
  d : UInt32
  /-- The fifth word. -/
  e : UInt32

/-- The chaining value before the first block. -/
def initial : Chain := ⟨0x67452301, 0xEFCDAB89, 0x98BADCFE, 0x10325476, 0xC3D2E1F0⟩

/-- The order of message words in the left line. -/
def leftWords : Array Nat := #[
  0, 1, 2, 3, 4, 5, 6, 7, 8, 9, 10, 11, 12, 13, 14, 15,
  7, 4, 13, 1, 10, 6, 15, 3, 12, 0, 9, 5, 2, 14, 11, 8,
  3, 10, 14, 4, 9, 15, 8, 1, 2, 7, 0, 6, 13, 11, 5, 12,
  1, 9, 11, 10, 0, 8, 12, 4, 13, 3, 7, 15, 14, 5, 6, 2,
  4, 0, 5, 9, 7, 12, 2, 10, 14, 1, 3, 8, 11, 6, 15, 13]

/-- The order of message words in the right line. -/
def rightWords : Array Nat := #[
  5, 14, 7, 0, 9, 2, 11, 4, 13, 6, 15, 8, 1, 10, 3, 12,
  6, 11, 3, 7, 0, 13, 5, 10, 14, 15, 8, 12, 4, 9, 1, 2,
  15, 5, 1, 3, 7, 14, 6, 9, 11, 8, 12, 2, 10, 0, 4, 13,
  8, 6, 4, 1, 3, 11, 15, 0, 5, 12, 2, 13, 9, 7, 10, 14,
  12, 15, 10, 4, 1, 5, 8, 7, 6, 2, 13, 14, 0, 3, 9, 11]

/-- The rotations of the left line. -/
def leftRotations : Array UInt32 := #[
  11, 14, 15, 12, 5, 8, 7, 9, 11, 13, 14, 15, 6, 7, 9, 8,
  7, 6, 8, 13, 11, 9, 7, 15, 7, 12, 15, 9, 11, 7, 13, 12,
  11, 13, 6, 7, 14, 9, 13, 15, 14, 8, 13, 6, 5, 12, 7, 5,
  11, 12, 14, 15, 14, 15, 9, 8, 9, 14, 5, 6, 8, 6, 5, 12,
  9, 15, 5, 11, 6, 8, 13, 12, 5, 12, 13, 14, 11, 8, 5, 6]

/-- The rotations of the right line. -/
def rightRotations : Array UInt32 := #[
  8, 9, 9, 11, 13, 15, 15, 5, 7, 7, 8, 11, 14, 14, 12, 6,
  9, 13, 15, 7, 12, 8, 9, 11, 7, 7, 12, 7, 6, 15, 13, 11,
  9, 7, 15, 11, 8, 6, 6, 14, 12, 13, 5, 14, 13, 13, 7, 5,
  15, 5, 8, 11, 14, 14, 6, 14, 6, 9, 12, 9, 12, 5, 15, 8,
  8, 5, 12, 9, 12, 5, 14, 6, 8, 13, 6, 5, 15, 13, 11, 11]

/-- The constants of the left line, by group of 16 rounds. -/
def leftConstants : Array UInt32 := #[0x00000000, 0x5A827999, 0x6ED9EBA1, 0x8F1BBCDC, 0xA953FD4E]

/-- The constants of the right line, by group of 16 rounds. -/
def rightConstants : Array UInt32 := #[0x50A28BE6, 0x5C4DD124, 0x6D703EF3, 0x7A6D76E9, 0x00000000]

/-- The five mixing functions. -/
def mix (group : Nat) (x y z : UInt32) : UInt32 :=
  match group with
  | 0 => x ^^^ y ^^^ z
  | 1 => (x &&& y) ||| (~~~x &&& z)
  | 2 => (x ||| ~~~y) ^^^ z
  | 3 => (x &&& z) ||| (y &&& ~~~z)
  | _ => x ^^^ (y ||| ~~~z)

/-- The little-endian word at an offset. -/
def wordLE (b : Bytes) (offset : Nat) : UInt32 :=
  let part (k : Nat) : UInt32 := (b.getD (offset + k) 0).toUInt32
  part 0 ||| (part 1 <<< 8) ||| (part 2 <<< 16) ||| (part 3 <<< 24)

/-- The bytes of a word, least significant first. -/
def bytesLE (w : UInt32) : Bytes :=
  #[w.toUInt8, (w >>> 8).toUInt8, (w >>> 16).toUInt8, (w >>> 24).toUInt8]

/-- One round with its mixing function, message word, constant and rotation. -/
def round (group : Nat) (word constant rotation : UInt32) (s : Chain) : Chain :=
  let t := rotateLeft (s.a + mix group s.b s.c s.d + word + constant) rotation + s.e
  ⟨s.e, t, s.b, rotateLeft s.c 10, s.d⟩

/-- Absorbs the block at an offset. -/
def block (b : Bytes) (s : Chain) (offset : Nat) : Chain :=
  let x (i : Nat) : UInt32 := wordLE b (offset + 4 * i)
  let l := (List.range 80).foldl
    (fun s t => round (t / 16) (x (leftWords.getD t 0)) (leftConstants.getD (t / 16) 0)
      (leftRotations.getD t 0) s) s
  let r := (List.range 80).foldl
    (fun s t => round (4 - t / 16) (x (rightWords.getD t 0)) (rightConstants.getD (t / 16) 0)
      (rightRotations.getD t 0) s) s
  ⟨s.b + l.c + r.d, s.c + l.d + r.e, s.d + l.e + r.a, s.e + l.a + r.b, s.a + l.b + r.c⟩

end Ripemd160

/-- The RIPEMD-160 digest. -/
def ripemd160 (message : Bytes) : Bytes :=
  let b := padBlocks message (Bytes.ofNatLE 8)
  let s := (List.range (b.size / 64)).foldl (fun s i => Ripemd160.block b s (64 * i))
    Ripemd160.initial
  Ripemd160.bytesLE s.a ++ Ripemd160.bytesLE s.b ++ Ripemd160.bytesLE s.c ++
    Ripemd160.bytesLE s.d ++ Ripemd160.bytesLE s.e

end Crypto

end ScriptMachine
