import ScriptMachine.Fault
import ScriptMachine.Integer.Codec

/-! # Items

An `Item` is a value on a stack. Truth values and integers are plain values. Byte strings and handles
of the host carry the identity of the object that holds them, next to their content, which never
changes. Arrays, structs and maps are references to a cell of the heap.

* `Item.truth`, `Item.integer`, `Item.int32`, `Item.byteView`, `Item.byteViewSize`: coercions.
* `Item.wireBytes`, `Item.wireSize`: the bytes of an item at the host boundary.
* `Item.same`: equality of all items but structs.
-/

namespace ScriptMachine

/-- A value on a stack. -/
inductive Item where
  /-- A truth value. -/
  | boolean (value : Bool)
  /-- An integer. -/
  | integer (value : Integer)
  /-- A byte string, with the identity of its object. -/
  | bytes (id : Nat) (data : Bytes)
  /-- A handle of the host, with the identity of its object. -/
  | interop (id : Nat) (data : Bytes)
  /-- An array: the list in a cell of the heap. -/
  | array (id : Nat)
  /-- A struct: the list in a cell of the heap. -/
  | struct (id : Nat)
  /-- A map: the entries in a cell of the heap. -/
  | map (id : Nat)
  deriving DecidableEq, Repr

instance : Inhabited Item := ⟨.boolean false⟩

namespace Item

/-- The kind of an item. -/
def kind : Item → ItemKind
  | boolean _ => .boolean
  | integer _ => .integer
  | bytes .. => .byteArray
  | interop .. => .interop
  | array _ => .array
  | struct _ => .struct
  | map _ => .map

/-- Whether the item is a container. -/
def isCompound (x : Item) : Bool := x.kind.isCompound

/-- The cell that a container refers to. -/
def cell? : Item → Option Nat
  | array id | struct id | map id => some id
  | _ => none

/-- The cell that an array or a struct refers to. -/
def listCell? : Item → Option Nat
  | array id | struct id => some id
  | _ => none

/-- An integer item. -/
def ofInteger (value : Integer) : Item := .integer value

/-- The integer item of a size or count. -/
def ofNat (n : Nat) : Item := .integer (Integer.ofNat n)

/-! ### Coercions -/

/-- The truth of an item: zero and byte strings of zeros are false. -/
def truth : Item → Bool
  | boolean value => value
  | integer value => !value.isZero
  | bytes _ data => data.anyNonZero
  | _ => true

/-- The integer value of a primitive item. -/
def integerValue : Item → Except Fault Integer
  | boolean value => .ok (Integer.ofBool value)
  | integer value => .ok value
  | bytes _ data => .ok (Integer.ofBytes data)
  | x => .error (.noIntegerValue x.kind)

/-- The integer value of a primitive item, if it has at most 32 bits. -/
def int32 (x : Item) : Except Fault Int :=
  match x.integerValue with
  | .error f => .error f
  | .ok value =>
    match value.toInt32? with
    | some v => .ok v.toInt
    | none => .error .notInt32

/-- The byte view of a primitive item; `false` and zero are empty. -/
def byteView : Item → Except Fault Bytes
  | boolean value => .ok (if value then #[1] else #[])
  | integer value => .ok (if value.isZero then #[] else value.toBytes)
  | bytes _ data => .ok data
  | x => .error (.noByteView x.kind)

/-- The length of the byte view. -/
def byteViewSize : Item → Except Fault Nat
  | boolean value => .ok (if value then 1 else 0)
  | integer value => .ok (if value.isZero then 0 else value.byteLength)
  | bytes _ data => .ok data.size
  | x => .error (.noByteView x.kind)

/-! ### The host boundary -/

/-- The bytes of an item at the host boundary; containers have none. -/
def wireBytes : Item → Bytes
  | boolean value => #[if value then 1 else 0]
  | integer value => value.toBytes
  | bytes _ data => data
  | interop _ data => data
  | _ => #[]

/-- The length of `wireBytes`. -/
def wireSize : Item → Nat
  | boolean _ => 1
  | integer value => value.byteLength
  | bytes _ data => data.size
  | interop _ data => data.size
  | _ => 0

/-- A short description of a primitive item; containers have none. -/
def describe? : Item → Option String
  | boolean value => some (if value then "Boolean(true)" else "Boolean(false)")
  | integer value => some ("Integer(" ++ value.toDecimal ++ ")")
  | bytes _ data => some ("ByteArray(" ++ data.toHex ++ ")")
  | interop _ data => some ("Interop(" ++ data.toHex ++ ")")
  | _ => none

/-! ### Identity and equality -/

/-- Whether two items refer to the same object. Truth values and integers are no objects. -/
def sameObject : Item → Item → Bool
  | bytes a _, bytes b _ => a == b
  | interop a _, interop b _ => a == b
  | array a, array b => a == b
  | struct a, struct b => a == b
  | map a, map b => a == b
  | _, _ => false

/-- Equality of items that are not structs: primitives by their byte views, all others by identity.
A struct is never equal to another kind of item. -/
def same : Item → Item → Bool
  | array a, array b => a == b
  | map a, map b => a == b
  | interop a _, interop b _ => a == b
  | boolean a, boolean b => a == b
  | integer a, integer b => a == b
  | bytes _ a, bytes _ b => a == b
  | x, y =>
    match x.byteView, y.byteView with
    | .ok a, .ok b => a == b
    | _, _ => false

end Item

end ScriptMachine
