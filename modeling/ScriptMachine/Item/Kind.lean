/-! # Kinds of items

* `ItemKind`: the seven kinds of item with their names and tags.
-/

namespace ScriptMachine

/-- The kind of an item. -/
inductive ItemKind where
  /-- A byte string. -/
  | byteArray
  /-- A truth value. -/
  | boolean
  /-- An integer. -/
  | integer
  /-- A handle of the host. -/
  | interop
  /-- A shared list. -/
  | array
  /-- A list with value semantics. -/
  | struct
  /-- A map from primitive keys. -/
  | map
  deriving DecidableEq, Repr

namespace ItemKind

/-- The name of a kind. -/
def name : ItemKind → String
  | byteArray => "ByteArray"
  | boolean => "Boolean"
  | integer => "Integer"
  | interop => "InteropInterface"
  | array => "Array"
  | struct => "Struct"
  | map => "Map"

/-- The tag of a kind at the host boundary. -/
def tag : ItemKind → UInt8
  | byteArray => 0x00
  | boolean => 0x01
  | integer => 0x02
  | interop => 0x40
  | array => 0x80
  | struct => 0x81
  | map => 0x82

/-- The kind of a tag, if the tag is assigned. -/
def ofTag? : UInt8 → Option ItemKind
  | 0x00 => some byteArray
  | 0x01 => some boolean
  | 0x02 => some integer
  | 0x40 => some interop
  | 0x80 => some array
  | 0x81 => some struct
  | 0x82 => some map
  | _ => none

/-- Whether items of the kind contain items. -/
def isCompound : ItemKind → Bool
  | array | struct | map => true
  | _ => false

end ItemKind

end ScriptMachine
