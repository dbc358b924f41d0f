import ScriptMachine.Crypto.Sha2

/-! # SHA-1

* `Crypto.sha1`: the digest.
-/

namespace ScriptMachine

namespace Crypto

namespace Sha1

/-- The chaining value: five words. -/
structure Chain where
  /-- The first word. -/
  a : UInt32
  /-- The second word. -/
  b : UInt32
  /-- The third word. -/
  c : UInt32
  /-- The fourth word. -/
  d : UInt32
  /-- The fifth word. -/
  e : UInt32

/-- The chaining value before the first block. -/
def initial : Chain := ⟨0x67452301, 0xEFCDAB89, 0x98BADCFE, 0x10325476, 0xC3D2E1F0⟩

/-- The 80 scheduled words of the block at an offset. -/
def schedule (b : Bytes) (offset : Nat) : Array UInt32 :=
  let first := (Array.range 16).map fun i => wordBE b (offset + 4 * i)
  (List.range 64).foldl
    (fun w i =>
      w.push (rotateLeft
        (w.getD (i + 13) 0 ^^^ w.getD (i + 8) 0 ^^^ w.getD (i + 2) 0 ^^^ w.getD i 0) 1))
    first

/-- The mixing function and the constant of a round. -/
def mix (s : Chain) (t : Nat) : UInt32 × UInt32 :=
  if t < 20 then ((s.b &&& s.c) ||| (~~~s.b &&& s.d), 0x5A827999)
  else if t < 40 then (s.b ^^^ s.c ^^^ s.d, 0x6ED9EBA1)
  else if t < 60 then ((s.b &&& s.c) ||| (s.b &&& s.d) ||| (s.c &&& s.d), 0x8F1BBCDC)
  else (s.b ^^^ s.c ^^^ s.d, 0xCA62C1D6)

/-- One round. -/
def round (w : Array UInt32) (s : Chain) (t : Nat) : Chain :=
  let (f, k) := mix s t
  ⟨rotateLeft s.a 5 + f + s.e + k + w.getD t 0, s.a, rotateLeft s.b 30, s.c, s.d⟩

/-- Absorbs the block at an offset. -/
def block (b : Bytes) (s : Chain) (offset : Nat) : Chain :=
  let w := schedule b offset
  let r := (List.range 80).foldl (round w) s
  ⟨s.a + r.a, s.b + r.b, s.c + r.c, s.d + r.d, s.e + r.e⟩

end Sha1

/-- The SHA-1 digest. -/
def sha1 (message : Bytes) : Bytes :=
  let b := padBlocks message length64BE
  let s := (List.range (b.size / 64)).foldl (fun s i => Sha1.block b s (64 * i)) Sha1.initial
  bytesBE s.a ++ bytesBE s.b ++ bytesBE s.c ++ bytesBE s.d ++ bytesBE s.e

end Crypto

end ScriptMachine
