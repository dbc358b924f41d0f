import ScriptMachine.Heap.Basic

/-! # Writing scripts

Every function of this module gives the code of one instruction, or of the instructions that build one
item. Scripts are the concatenations of such pieces.

* `Emit.push`, `Emit.pushInteger`, `Emit.pushBool`, `Emit.pushText`: the shortest push of a value.
* `Emit.jump`, `Emit.callIsolated`, `Emit.appCall`, `Emit.callExternal`, `Emit.sysCall`: control.
* `Emit.pushItem`: the code that builds an item, containers included.
-/

namespace ScriptMachine

namespace Emit

/-- The code of an opcode without operands. -/
def op (o : OpCode) : Bytes := #[o.toByte]

/-- The shortest push of a byte string. -/
def push (data : Bytes) : Bytes :=
  if data.size == 0 then op .push0
  else if data.size ≤ 75 then #[UInt8.ofNat data.size] ++ data
  else if data.size ≤ 0xFF then op .pushData1 ++ Bytes.ofNatLE 1 data.size ++ data
  else if data.size ≤ 0xFFFF then op .pushData2 ++ Bytes.ofNatLE 2 data.size ++ data
  else op .pushData4 ++ Bytes.ofNatLE 4 data.size ++ data

/-- The shortest push of an integer: -1 to 16 have opcodes of their own. -/
def pushInteger (value : Integer) : Bytes :=
  match value.toInt32? with
  | none => push value.toBytes
  | some small =>
    let n := small.toInt
    if n == -1 then op .pushM1
    else if n == 0 then op .push0
    else if 1 ≤ n && n ≤ 16 then #[UInt8.ofNat (0x50 + n.toNat)]
    else push value.toBytes

/-- The push of a truth value, as zero or one. -/
def pushBool (value : Bool) : Bytes := if value then #[0x51] else op .push0

/-- The push of a text, in UTF-8. -/
def pushText (text : String) : Bytes := push (Bytes.ofText text)

/-- An offset of two bytes. -/
def offset (n : Int) : Bytes := Bytes.ofNatLE 2 (n % 0x10000).toNat

/-- A jump or call by an offset relative to its opcode. -/
def jump (o : OpCode) (distance : Int) : Except Fault Bytes :=
  if o = .jmp || o = .jmpIf || o = .jmpIfNot || o = .call then .ok (op o ++ offset distance)
  else .error (.notAJump o)

/-- A call with separate stacks. Its offset is relative to the place two bytes after its opcode. -/
def callIsolated (returnCount parameterCount : UInt8) (distance : Int) : Bytes :=
  op .callI ++ #[returnCount, parameterCount] ++ offset distance

/-- A call of a script by its hash; without one, the hash is taken from the stack, which zeros
announce. -/
def appCall (hash : Option Bytes) (tail : Bool) : Bytes :=
  op (if tail then .tailCall else .appCall) ++ hash.getD (Array.replicate 20 0)

/-- A call of a script by its hash with separate stacks; without a hash, it is taken from the stack. -/
def callExternal (hash : Option Bytes) (returnCount parameterCount : UInt8) (tail : Bool) : Bytes :=
  let o : OpCode :=
    match hash.isSome, tail with
    | true, false => .callE
    | false, false => .callED
    | true, true => .callET
    | false, true => .callEDT
  op o ++ #[returnCount, parameterCount] ++ hash.getD #[]

/-- A call of a host service. Names have 1 to 252 bytes. -/
def sysCall (name : String) : Except Fault Bytes :=
  let data := Bytes.ofText name
  if data.size == 0 || data.size > 252 then .error (.serviceNameLength data.size)
  else .ok (op .sysCall ++ #[UInt8.ofNat data.size] ++ data)

end Emit

/-- Code that was written, and the fault that ended the writing, if one did. -/
structure Emission where
  /-- The code. -/
  code : Bytes := #[]
  /-- The fault after which nothing more was written. -/
  fault : Option Fault := none
  deriving DecidableEq, Repr, Inhabited

namespace Emission

/-- Goes on writing, unless there was a fault. -/
def andThen (a b : Emission) : Emission :=
  match a.fault with
  | some _ => a
  | none => ⟨a.code ++ b.code, b.fault⟩

/-- One piece after the other. -/
def all (pieces : List Emission) : Emission := pieces.foldl andThen {}

end Emission

namespace Emit

/-- The code that builds an item nested at most `depth` containers deep. The elements of a list are
pushed from the last to the first and packed; a struct is an array that is converted; the entries of a
map are set one by one. -/
def pushItemWithin (h : Heap) : (depth : Nat) → Item → Emission
  | _, .boolean value => ⟨pushBool value, none⟩
  | _, .integer value => ⟨pushInteger value, none⟩
  | _, .bytes _ data => ⟨push data, none⟩
  | _, .interop .. => ⟨#[], some .handleInScript⟩
  | 0, _ => ⟨#[], some .cycleInScript⟩
  | depth + 1, .array id => list depth (h.items id) #[]
  | depth + 1, .struct id => list depth (h.items id) (op .newStruct)
  | depth + 1, .map id =>
    (Emission.mk (op .newMap) none).andThen <| .all <| (h.entries id).map fun entry =>
      .all [⟨op .dup, none⟩, pushItemWithin h depth entry.1, pushItemWithin h depth entry.2,
        ⟨op .setItem, none⟩]
where
  /-- The code that builds an array, with what follows it. -/
  list (depth : Nat) (items : List Item) (conversion : Bytes) : Emission :=
    (Emission.all (items.reverse.map (pushItemWithin h depth))).andThen
      ⟨pushInteger (Integer.ofNat items.length) ++ op .pack ++ conversion, none⟩

/-- The code that builds an item. No chain of containers without a repetition is longer than the number
of cells, so that only an item that contains itself is refused for its depth. -/
def pushItem (h : Heap) (x : Item) : Emission := pushItemWithin h h.size x

end Emit

end ScriptMachine
