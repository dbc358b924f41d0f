import ScriptMachine.Item.Basic

/-! # The heap

The heap holds the contents of arrays, structs and maps in numbered cells, and counts the byte strings
and host handles that were created, so that each one gets an identity of its own. Cells are never
taken away: a cell that nobody refers to any more is out of reach.

* `Heap.newBytes`, `Heap.newHandle`, `Heap.newArray`, `Heap.newStruct`, `Heap.newMap`: new objects.
* `Heap.items`, `Heap.entries`, `Heap.setItems`, `Heap.setEntries`: the content of a cell.
* `Heap.contained`, `Heap.held`: the containers in a cell, and everything that it holds.
* `Heap.ofTag`: an item from a tag and bytes.
-/

namespace ScriptMachine

/-- The content of a container. -/
inductive Cell where
  /-- The elements of an array or a struct. -/
  | list (items : List Item)
  /-- The entries of a map, in the order of insertion. -/
  | map (entries : List (Item × Item))
  deriving DecidableEq, Repr

instance : Inhabited Cell := ⟨.list []⟩

/-- The objects of a machine. -/
structure Heap where
  /-- The containers. -/
  cells : Array Cell := #[]
  /-- The number of byte strings and host handles created so far. -/
  leaves : Nat := 0
  deriving Repr, Inhabited

namespace Heap

/-- The heap without objects. -/
def empty : Heap := {}

/-- The number of cells. -/
def size (h : Heap) : Nat := h.cells.size

/-! ### New objects -/

/-- A new byte string. -/
def newBytes (h : Heap) (data : Bytes) : Item × Heap :=
  (.bytes h.leaves data, { h with leaves := h.leaves + 1 })

/-- A new handle of the host. -/
def newHandle (h : Heap) (data : Bytes) : Item × Heap :=
  (.interop h.leaves data, { h with leaves := h.leaves + 1 })

/-- A new cell and its number. -/
def alloc (h : Heap) (cell : Cell) : Nat × Heap :=
  (h.cells.size, { h with cells := h.cells.push cell })

/-- A new array. -/
def newArray (h : Heap) (items : List Item) : Item × Heap :=
  let (id, h) := h.alloc (.list items)
  (.array id, h)

/-- A new struct. -/
def newStruct (h : Heap) (items : List Item) : Item × Heap :=
  let (id, h) := h.alloc (.list items)
  (.struct id, h)

/-- A new, empty map. -/
def newMap (h : Heap) : Item × Heap :=
  let (id, h) := h.alloc (.map [])
  (.map id, h)

/-! ### Contents -/

/-- The elements in a cell of an array or a struct. -/
def items (h : Heap) (id : Nat) : List Item :=
  match h.cells[id]? with
  | some (.list items) => items
  | _ => []

/-- The entries in a cell of a map. -/
def entries (h : Heap) (id : Nat) : List (Item × Item) :=
  match h.cells[id]? with
  | some (.map entries) => entries
  | _ => []

/-- Replaces the elements in a cell. -/
def setItems (h : Heap) (id : Nat) (items : List Item) : Heap :=
  { h with cells := h.cells.setIfInBounds id (.list items) }

/-- Replaces the entries in a cell. -/
def setEntries (h : Heap) (id : Nat) (entries : List (Item × Item)) : Heap :=
  { h with cells := h.cells.setIfInBounds id (.map entries) }

/-- Empties a cell. -/
def clear (h : Heap) (id : Nat) : Heap :=
  match h.cells[id]? with
  | some (.list _) => h.setItems id []
  | some (.map _) => h.setEntries id []
  | none => h

/-- The elements of an array or a struct. -/
def elements? (h : Heap) (x : Item) : Option (List Item) := x.listCell?.map h.items

/-- The number of elements or entries of a container. -/
def length? (h : Heap) : Item → Option Nat
  | .array id | .struct id => some (h.items id).length
  | .map id => some (h.entries id).length
  | _ => none

/-! ### References -/

/-- The containers that a cell leads to: elements of a list and values of a map. -/
def contained (h : Heap) (id : Nat) : List Nat :=
  match h.cells[id]? with
  | some (.list items) => items.filterMap Item.cell?
  | some (.map entries) => entries.filterMap fun entry => entry.2.cell?
  | none => []

/-- Everything that a cell holds: elements of a list, keys and values of a map. -/
def held (h : Heap) (id : Nat) : List Item :=
  match h.cells[id]? with
  | some (.list items) => items
  | some (.map entries) => entries.flatMap fun entry => [entry.1, entry.2]
  | none => []

/-! ### The host boundary -/

/-- An item of the given kind from its bytes; a container starts empty. -/
def ofTag (h : Heap) (kind : ItemKind) (data : Bytes) : Item × Heap :=
  match kind with
  | .byteArray => h.newBytes data
  | .boolean => (.boolean data.anyNonZero, h)
  | .integer => (.integer (Integer.ofBytes data), h)
  | .interop => h.newHandle data
  | .array => h.newArray []
  | .struct => h.newStruct []
  | .map => h.newMap

end Heap

end ScriptMachine
