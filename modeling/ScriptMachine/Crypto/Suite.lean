import ScriptMachine.Crypto.Ecdsa
import ScriptMachine.Crypto.Ripemd
import ScriptMachine.Crypto.Sha1

/-! # The cryptography of a machine

A machine computes digests and checks signatures only through a `CryptoSuite`, so that a host can put
in its own.

* `CryptoSuite`: the functions a machine needs.
* `CryptoSuite.standard`: SHA-1, SHA-256, RIPEMD-160 and ECDSA over P-256.
-/

namespace ScriptMachine

namespace Crypto

/-- RIPEMD-160 of SHA-256; scripts are named by it. -/
def hash160 (message : Bytes) : Bytes := ripemd160 (sha256 message)

/-- SHA-256 of SHA-256. -/
def hash256 (message : Bytes) : Bytes := sha256 (sha256 message)

end Crypto

/-- The digests and the signature check of a machine. -/
structure CryptoSuite where
  /-- A digest of 20 bytes. -/
  sha1 : Bytes → Bytes
  /-- A digest of 32 bytes. -/
  sha256 : Bytes → Bytes
  /-- A digest of 20 bytes, which names scripts. -/
  hash160 : Bytes → Bytes
  /-- A digest of 32 bytes. -/
  hash256 : Bytes → Bytes
  /-- Whether a signature belongs to a message and a public key, in this order: message, signature,
  key. -/
  verify : Bytes → Bytes → Bytes → Bool

namespace CryptoSuite

/-- The standard digests and ECDSA over P-256; malformed keys and signatures never verify. -/
def standard : CryptoSuite where
  sha1 := Crypto.sha1
  sha256 := Crypto.sha256
  hash160 := Crypto.hash160
  hash256 := Crypto.hash256
  verify message signature key :=
    match Ecdsa.verify message signature key with
    | .ok valid => valid
    | .error _ => false

instance : Inhabited CryptoSuite := ⟨standard⟩

end CryptoSuite

end ScriptMachine
