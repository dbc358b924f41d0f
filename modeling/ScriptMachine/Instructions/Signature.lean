import ScriptMachine.Engine.Exec

/-! # Digests and signatures

Instructions that compute digests and check signatures. The message to sign comes from the host, except
for `Instructions.verify`, which takes it from the stack.
-/

namespace ScriptMachine

namespace Instructions

/-- Replaces a byte string by its digest. -/
def digest (hash : CryptoSuite → Bytes → Bytes) : Exec Unit := do
  let data ← Exec.onFrame Frame.popBytes
  Exec.pushBytes (hash (← get).crypto data)

/-- Checks a signature of the message of the host; the key is on top of the signature. -/
def checkSig : Exec Unit := do
  let key ← Exec.onFrame Frame.popBytes
  let signature ← Exec.onFrame Frame.popBytes
  let message ← Exec.askMessage
  Exec.pushBool (← Exec.checkSignature message signature key)

/-- Checks a signature of a message from the stack; the key is on top, the message at the bottom. -/
def verify : Exec Unit := do
  let key ← Exec.onFrame Frame.popBytes
  let signature ← Exec.onFrame Frame.popBytes
  let message ← Exec.onFrame Frame.popBytes
  Exec.pushBool (← Exec.checkSignature message signature key)

/-- Pops the head of a list of byte strings: either all of them, from an array or a struct, or their
number. -/
def popByteList : Exec (List Bytes ⊕ Int) := do
  let x ← Exec.pop
  match (← Exec.heap).elements? x with
  | some items => return .inl (← items.mapM fun y => MonadExcept.ofExcept y.byteView)
  | none =>
    let value ← MonadExcept.ofExcept x.integerValue
    match value.toInt64? with
    | some n => return .inr n.toInt
    | none => throw .countNotInt64

/-- Pops as many byte strings as announced. -/
def popCounted (count : Nat) : Exec (List Bytes) :=
  (List.range count).mapM fun _ => Exec.onFrame Frame.popBytes

/-- Pops the public keys; there must be at least one. -/
def popKeys : Exec (List Bytes) := do
  match ← popByteList with
  | .inl [] => throw .noPublicKeys
  | .inl keys => return keys
  | .inr n =>
    let depth ← Exec.onFrame Frame.evalDepth
    if n < 1 || depth < n then throw (.publicKeyCount n depth)
    popCounted n.toNat

/-- Pops the signatures; there must be at least one, and at most as many as keys. -/
def popSignatures (keyCount : Nat) : Exec (List Bytes) := do
  match ← popByteList with
  | .inl signatures =>
    if signatures.isEmpty || signatures.length > keyCount then
      throw (.signatureCount signatures.length keyCount)
    return signatures
  | .inr m =>
    let depth ← Exec.onFrame Frame.evalDepth
    if m < 1 || keyCount < m || depth < m then throw (.signatureCount m keyCount)
    popCounted m.toNat

/-- Matches signatures with keys in order. Every key is tried once, with the first signature that has
no key yet; the search ends when fewer keys than signatures are left. -/
def matchSignatures (message : Bytes) : List Bytes → List Bytes → Exec Bool
  | _, [] => return false
  | [], _ => return true
  | signature :: signatures, key :: keys => do
    let valid ← Exec.checkSignature message signature key
    let waiting := if valid then signatures else signature :: signatures
    if waiting.isEmpty then return true
    else if waiting.length > keys.length then return false
    else matchSignatures message waiting keys

/-- Checks signatures of the message of the host against keys, both in order. -/
def checkMultiSig : Exec Unit := do
  let keys ← popKeys
  let signatures ← popSignatures keys.length
  let message ← Exec.askMessage
  Exec.pushBool (← matchSignatures message signatures keys)

end Instructions

end ScriptMachine
