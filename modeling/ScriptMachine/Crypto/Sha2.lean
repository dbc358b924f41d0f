import ScriptMachine.Bytes.Basic

/-! # SHA-256

* `Crypto.padBlocks`: the message followed by a one bit, zeros and its bit length, in whole blocks.
* `Crypto.sha256`: the digest.
-/

namespace ScriptMachine

namespace Crypto

/-- The message, a one bit, zeros and eight bytes of bit length, together a multiple of 64 bytes. -/
def padBlocks (message : Bytes) (lengthBytes : Nat → Bytes) : Bytes :=
  let zeros := (119 - message.size % 64) % 64
  message ++ #[0x80] ++ Array.replicate zeros 0 ++ lengthBytes (8 * message.size)

/-- Eight bytes of a number, most significant first. -/
def length64BE (n : Nat) : Bytes := (Bytes.ofNatLE 8 n).reverse

/-- The big-endian word at an offset. -/
def wordBE (b : Bytes) (offset : Nat) : UInt32 :=
  let part (k : Nat) : UInt32 := (b.getD (offset + k) 0).toUInt32
  (part 0 <<< 24) ||| (part 1 <<< 16) ||| (part 2 <<< 8) ||| part 3

/-- The bytes of a word, most significant first. -/
def bytesBE (w : UInt32) : Bytes :=
  #[(w >>> 24).toUInt8, (w >>> 16).toUInt8, (w >>> 8).toUInt8, w.toUInt8]

/-- Rotates a word left by fewer than 32 bits. -/
def rotateLeft (w : UInt32) (k : UInt32) : UInt32 := (w <<< k) ||| (w >>> ((32 - k) % 32))

/-- Rotates a word right by fewer than 32 bits. -/
def rotateRight (w : UInt32) (k : UInt32) : UInt32 := (w >>> k) ||| (w <<< ((32 - k) % 32))

namespace Sha256

/-- The round constants. -/
def constants : Array UInt32 := #[
  0x428a2f98, 0x71374491, 0xb5c0fbcf, 0xe9b5dba5, 0x3956c25b, 0x59f111f1, 0x923f82a4, 0xab1c5ed5,
  0xd807aa98, 0x12835b01, 0x243185be, 0x550c7dc3, 0x72be5d74, 0x80deb1fe, 0x9bdc06a7, 0xc19bf174,
  0xe49b69c1, 0xefbe4786, 0x0fc19dc6, 0x240ca1cc, 0x2de92c6f, 0x4a7484aa, 0x5cb0a9dc, 0x76f988da,
  0x983e5152, 0xa831c66d, 0xb00327c8, 0xbf597fc7, 0xc6e00bf3, 0xd5a79147, 0x06ca6351, 0x14292967,
  0x27b70a85, 0x2e1b2138, 0x4d2c6dfc, 0x53380d13, 0x650a7354, 0x766a0abb, 0x81c2c92e, 0x92722c85,
  0xa2bfe8a1, 0xa81a664b, 0xc24b8b70, 0xc76c51a3, 0xd192e819, 0xd6990624, 0xf40e3585, 0x106aa070,
  0x19a4c116, 0x1e376c08, 0x2748774c, 0x34b0bcb5, 0x391c0cb3, 0x4ed8aa4a, 0x5b9cca4f, 0x682e6ff3,
  0x748f82ee, 0x78a5636f, 0x84c87814, 0x8cc70208, 0x90befffa, 0xa4506ceb, 0xbef9a3f7, 0xc67178f2]

/-- The chaining value: eight words. -/
structure Chain where
  /-- The first word. -/
  a : UInt32
  /-- The second word. -/
  b : UInt32
  /-- The third word. -/
  c : UInt32
  /-- The fourth word. -/
  d : UInt32
  /-- The fifth word. -/
  e : UInt32
  /-- The sixth word. -/
  f : UInt32
  /-- The seventh word. -/
  g : UInt32
  /-- The eighth word. -/
  h : UInt32

/-- The chaining value before the first block. -/
def initial : Chain :=
  ⟨0x6a09e667, 0xbb67ae85, 0x3c6ef372, 0xa54ff53a, 0x510e527f, 0x9b05688c, 0x1f83d9ab, 0x5be0cd19⟩

/-- The 64 scheduled words of the block at an offset. -/
def schedule (b : Bytes) (offset : Nat) : Array UInt32 :=
  let first := (Array.range 16).map fun i => wordBE b (offset + 4 * i)
  (List.range 48).foldl
    (fun w i =>
      let w15 := w.getD (i + 1) 0
      let w2 := w.getD (i + 14) 0
      let s0 := rotateRight w15 7 ^^^ rotateRight w15 18 ^^^ (w15 >>> 3)
      let s1 := rotateRight w2 17 ^^^ rotateRight w2 19 ^^^ (w2 >>> 10)
      w.push (w.getD i 0 + s0 + w.getD (i + 9) 0 + s1))
    first

/-- One round. -/
def round (w : Array UInt32) (s : Chain) (t : Nat) : Chain :=
  let s1 := rotateRight s.e 6 ^^^ rotateRight s.e 11 ^^^ rotateRight s.e 25
  let ch := (s.e &&& s.f) ^^^ (~~~s.e &&& s.g)
  let t1 := s.h + s1 + ch + constants.getD t 0 + w.getD t 0
  let s0 := rotateRight s.a 2 ^^^ rotateRight s.a 13 ^^^ rotateRight s.a 22
  let maj := (s.a &&& s.b) ^^^ (s.a &&& s.c) ^^^ (s.b &&& s.c)
  ⟨t1 + s0 + maj, s.a, s.b, s.c, s.d + t1, s.e, s.f, s.g⟩

/-- Absorbs the block at an offset. -/
def block (b : Bytes) (s : Chain) (offset : Nat) : Chain :=
  let w := schedule b offset
  let r := (List.range 64).foldl (round w) s
  ⟨s.a + r.a, s.b + r.b, s.c + r.c, s.d + r.d, s.e + r.e, s.f + r.f, s.g + r.g, s.h + r.h⟩

end Sha256

/-- The SHA-256 digest. -/
def sha256 (message : Bytes) : Bytes :=
  let b := padBlocks message length64BE
  let s := (List.range (b.size / 64)).foldl (fun s i => Sha256.block b s (64 * i)) Sha256.initial
  bytesBE s.a ++ bytesBE s.b ++ bytesBE s.c ++ bytesBE s.d ++ bytesBE s.e ++ bytesBE s.f ++
    bytesBE s.g ++ bytesBE s.h

end Crypto

end ScriptMachine
