import ScriptMachine.Heap.Struct

/-! # Lists and maps on the heap

Operations on the content of one container. Lists are indexed from zero. Maps find a key by equality
and keep the order in which keys were first inserted.

* `Heap.setAt`, `Heap.insertAt`, `Heap.append`, `Heap.removeAt`, `Heap.reverse`, `Heap.indexOf?`: lists.
* `Heap.mapGet?`, `Heap.mapSet`, `Heap.mapRemove`, `Heap.mapKeys`, `Heap.mapValues`: maps.
-/

namespace ScriptMachine

namespace Heap

/-! ### Lists -/

/-- Replaces the element at an index. -/
def setAt (h : Heap) (id index : Nat) (x : Item) : Except Fault Heap :=
  let items := h.items id
  if index < items.length then .ok (h.setItems id (items.set index x))
  else .error (.indexOutOfRange index items.length)

/-- Inserts an element before an index; the length itself is allowed. -/
def insertAt (h : Heap) (id index : Nat) (x : Item) : Except Fault Heap :=
  let items := h.items id
  if index ≤ items.length then .ok (h.setItems id (items.insertIdx index x))
  else .error (.insertOutOfRange index items.length)

/-- Adds an element at the end. -/
def append (h : Heap) (id : Nat) (x : Item) : Heap := h.setItems id (h.items id ++ [x])

/-- Takes out the element at an index. -/
def removeAt (h : Heap) (id index : Nat) : Except Fault (Item × Heap) :=
  let items := h.items id
  match items[index]? with
  | some x => .ok (x, h.setItems id (items.eraseIdx index))
  | none => .error (.removeOutOfRange index items.length)

/-- Reverses the elements. -/
def reverse (h : Heap) (id : Nat) : Heap := h.setItems id (h.items id).reverse

/-- The index of the first element equal to an item. -/
def indexOf? (h : Heap) (id : Nat) (x : Item) : Option Nat :=
  (h.items id).findIdx? fun y => h.equals y x

/-! ### Maps -/

/-- The place of a key among the entries of a map. -/
def keyIndex? (h : Heap) (id : Nat) (key : Item) : Option Nat :=
  (h.entries id).findIdx? fun entry => h.equals entry.1 key

/-- The value of a key. -/
def mapGet? (h : Heap) (id : Nat) (key : Item) : Option Item :=
  match h.keyIndex? id key with
  | some i => (h.entries id)[i]?.map (·.2)
  | none => none

/-- Whether a map has a key. -/
def mapHas (h : Heap) (id : Nat) (key : Item) : Bool := (h.keyIndex? id key).isSome

/-- Sets the value of a key. A known key keeps its place and its item; a new one goes to the end. -/
def mapSet (h : Heap) (id : Nat) (key value : Item) : Heap :=
  let entries := h.entries id
  match h.keyIndex? id key with
  | some i => h.setEntries id (entries.modify i fun entry => (entry.1, value))
  | none => h.setEntries id (entries ++ [(key, value)])

/-- Takes out a key; returns its value if the map had it. -/
def mapRemove (h : Heap) (id : Nat) (key : Item) : Option Item × Heap :=
  let entries := h.entries id
  match h.keyIndex? id key with
  | some i => (entries[i]?.map (·.2), h.setEntries id (entries.eraseIdx i))
  | none => (none, h)

/-- The keys of a map, in the order of insertion. -/
def mapKeys (h : Heap) (id : Nat) : List Item := (h.entries id).map (·.1)

/-- The values of a map, in the order of insertion. -/
def mapValues (h : Heap) (id : Nat) : List Item := (h.entries id).map (·.2)

end Heap

end ScriptMachine
