import ScriptMachine.Crypto.P256
import ScriptMachine.Crypto.Sha2

/-! # ECDSA over P-256

Signatures of the SHA-256 digest of a message, in the form of 64 bytes `r` and `s`. The nonce of a
signature is derived from the key and the digest, so that signing is a function.

* `Ecdsa.sign`, `Ecdsa.verify`: signatures.
* `Ecdsa.publicKey`: the public key of a private key.
* `Ecdsa.nonce?`: the derived nonce.
-/

namespace ScriptMachine

namespace Ecdsa

/-- Why a key or a signature is rejected. -/
inductive Error where
  /-- The public key is no point of the curve. -/
  | publicKey
  /-- The private key is no number between zero and the group order. -/
  | privateKey
  /-- The signature does not have 64 bytes. -/
  | signatureLength (length : Nat)
  /-- A half of the signature is no number between zero and the group order. -/
  | signature
  deriving DecidableEq, Repr

namespace Error

/-- The name of the group of an error. -/
def kindName : Error → String
  | publicKey | privateKey => "InvalidKey"
  | signatureLength _ | signature => "InvalidSignature"

/-- The text of an error. -/
def message : Error → String
  | publicKey => "Invalid public key: signature error"
  | privateKey => "Invalid public key: Invalid private key: signature error"
  | signatureLength length => s!"Invalid signature: expected 64 bytes, got {length}"
  | signature => "Invalid signature: signature error"

end Error

/-! ### Keys -/

/-- Reads a private key of 32 bytes; 24 to 31 bytes are filled with zeros in front. -/
def secret? (key : Bytes) : Option Nat :=
  let d := P256.ofBytes key
  if 24 ≤ key.size && key.size ≤ 32 && 0 < d && d < P256.n then some d else none

/-- Reads a public key; 64 bytes are the two plain coordinates. -/
def point? (key : Bytes) : Option P256.Point :=
  P256.decode? (if key.size == 64 then #[0x04] ++ key else key)

/-- The public key of a private key. -/
def publicKey (key : Bytes) (compressed : Bool) : Except Error Bytes :=
  match secret? key with
  | none => .error .privateKey
  | some d =>
    match P256.affine? (P256.scale 256 d P256.generator) with
    | some (x, y) => .ok (P256.encode compressed x y)
    | none => .error .privateKey

/-! ### Nonces -/

/-- HMAC with SHA-256 for keys of at most 64 bytes. -/
def hmac (key message : Bytes) : Bytes :=
  let key := key ++ Array.replicate (64 - key.size) 0
  let inner := Crypto.sha256 (key.map (· ^^^ 0x36) ++ message)
  Crypto.sha256 (key.map (· ^^^ 0x5c) ++ inner)

/-- Draws numbers until one lies between zero and the group order, at most `fuel` times. -/
def drawNonce : Nat → Bytes → Bytes → Option Nat
  | 0, _, _ => none
  | fuel + 1, k, v =>
    let v := hmac k v
    let candidate := P256.ofBytes v
    if 0 < candidate && candidate < P256.n then some candidate
    else
      let k := hmac k (v ++ #[0])
      drawNonce fuel k (hmac k v)

/-- The nonce derived from a private key and the digest reduced by the group order. A draw fails with
probability below `2^-32`, so that the bound on the draws is never met. -/
def nonce? (d z : Nat) : Option Nat :=
  let seed := P256.toBytes32 d ++ P256.toBytes32 z
  let v : Bytes := Array.replicate 32 1
  let k := hmac (Array.replicate 32 0) (v ++ #[0] ++ seed)
  let v := hmac k v
  let k := hmac k (v ++ #[1] ++ seed)
  drawNonce 128 k (hmac k v)

/-! ### Signatures -/

/-- The digest of a message as a number below the group order. -/
def digest (message : Bytes) : Nat := P256.ofBytes (Crypto.sha256 message) % P256.n

/-- Signs a message. -/
def sign (message key : Bytes) : Except Error Bytes :=
  match secret? key with
  | none => .error .privateKey
  | some d =>
    let z := digest message
    match nonce? d z with
    | none => .error .signature
    | some k =>
      match P256.affine? (P256.scale 256 k P256.generator) with
      | none => .error .signature
      | some (x, _) =>
        let r := x % P256.n
        let s := P256.invMod P256.n k * (z + r * d) % P256.n
        if r == 0 || s == 0 then .error .signature
        else .ok (P256.toBytes32 r ++ P256.toBytes32 s)

/-- Whether a signature belongs to a message and a key; malformed signatures are reported before
malformed keys. -/
def verify (message signature key : Bytes) : Except Error Bool :=
  if signature.size != 64 then .error (.signatureLength signature.size)
  else
    let r := P256.ofBytes (signature.extract 0 32)
    let s := P256.ofBytes (signature.extract 32 64)
    if r == 0 || s == 0 || P256.n ≤ r || P256.n ≤ s then .error .signature
    else
      match point? key with
      | none => .error .publicKey
      | some q =>
        let w := P256.invMod P256.n s
        let u1 := digest message * w % P256.n
        let u2 := r * w % P256.n
        match P256.affine? (P256.add (P256.scale 256 u1 P256.generator) (P256.scale 256 u2 q)) with
        | some (x, _) => .ok (x % P256.n == r)
        | none => .ok false

end Ecdsa

end ScriptMachine
