import ScriptMachine.Engine.Exec

/-! # Containers

Instructions on arrays, structs and maps. Arrays and maps are shared; a struct is copied whenever it is
written into a container or read from one. A container that receives a container is tracked.
-/

namespace ScriptMachine

namespace Instructions

/-- Pops a key: any item that is no container. -/
def popKey : FrameM Item := do
  let key ← Frame.pop
  if key.isCompound then throw (.notAKey key.kind)
  return key

/-- A key as an index below a length. -/
def indexIn (key : Item) (length : Nat) : Except Fault Nat :=
  match key.int32 with
  | .error f => .error f
  | .ok index =>
    if 0 ≤ index ∧ index < length then .ok index.toNat
    else .error (.indexOutOfRange index length)

/-- Remembers a container that received an item, if the item is a container too. -/
def trackNesting (container value : Item) : Exec Unit :=
  if value.isCompound then modify (·.track container [container]) else pure ()

/-! ### Creation -/

/-- Builds an array of as many items as popped; the item popped first becomes the first element. -/
def pack : Exec Unit := do
  let max := (← Exec.limits).maxArraySize
  let size ← Exec.onFrame (Frame.popIndex "PACK size")
  let depth ← Exec.onFrame Frame.evalDepth
  if size > depth || size > max then throw (.packSize size depth max)
  Exec.pushArray (← Exec.onFrame (Frame.takeTop size))

/-- Spreads the elements of a list, the first one on top, and pushes their number. -/
def unpack : Exec Unit := do
  let x ← Exec.pop
  match (← Exec.heap).elements? x with
  | none => throw (.notACollection x.kind)
  | some items =>
    Exec.onFrame (modify fun f => { f with eval := f.eval.pushAll items })
    Exec.pushNat items.length

/-- The elements for a new list: as many `false` items as a popped count says. -/
def newElements (x : Item) : Exec (List Item) := do
  let max := (← Exec.limits).maxArraySize
  let count ← MonadExcept.ofExcept x.int32
  if count < 0 then throw (.negative "element count" count)
  if count.toNat > max then throw (.tooLarge count.toNat max)
  return List.replicate count.toNat (.boolean false)

/-- Creates an array of a popped length, or from the elements of a struct; an array stays as it is. -/
def newArray : Exec Unit := do
  match ← Exec.pop with
  | .array id => Exec.push (.array id)
  | .struct id => Exec.pushArray ((← Exec.heap).items id)
  | x => Exec.pushArray (← newElements x)

/-- Creates a struct of a popped length, or from the elements of an array; a struct stays as it is. -/
def newStruct : Exec Unit := do
  match ← Exec.pop with
  | .struct id => Exec.push (.struct id)
  | .array id => Exec.pushStruct ((← Exec.heap).items id)
  | x => Exec.pushStruct (← newElements x)

/-- Creates an empty map. -/
def newMap : Exec Unit := Exec.pushNew Heap.newMap

/-! ### Access -/

/-- Reads the element at a key; a struct is copied. -/
def pickItem : Exec Unit := do
  let key ← Exec.onFrame popKey
  let container ← Exec.pop
  let h ← Exec.heap
  let value ←
    match container with
    | .array id | .struct id => do
      let items := h.items id
      let index ← MonadExcept.ofExcept (indexIn key items.length)
      pure (items.getD index default)
    | .map id =>
      match h.mapGet? id key with
      | some value => pure value
      | none => throw .keyNotFound
    | _ => throw (.notACollection container.kind)
  Exec.push (← Exec.copyValue value)

/-- Writes the element at a key; a struct is copied. A map may get a new key if it has room. -/
def setItem : Exec Unit := do
  let max := (← Exec.limits).maxArraySize
  let value ← Exec.copyValue (← Exec.pop)
  let key ← Exec.onFrame popKey
  let container ← Exec.pop
  let h ← Exec.heap
  match container with
  | .array id | .struct id =>
    let index ← MonadExcept.ofExcept (indexIn key (h.items id).length)
    Exec.setHeap (← MonadExcept.ofExcept (h.setAt id index value))
  | .map id =>
    let length := (h.entries id).length
    if !h.mapHas id key && length ≥ max then throw (.tooLarge (length + 1) max)
    Exec.setHeap (h.mapSet id key value)
  | _ => throw (.notACollection container.kind)
  trackNesting container value

/-- Adds an element at the end of a list; a struct is copied. -/
def append : Exec Unit := do
  let max := (← Exec.limits).maxArraySize
  let value ← Exec.copyValue (← Exec.pop)
  let container ← Exec.pop
  match container.listCell? with
  | none => throw (.notACollection container.kind)
  | some id =>
    let h ← Exec.heap
    let length := (h.items id).length
    if length ≥ max then throw (.tooLarge (length + 1) max)
    Exec.setHeap (h.append id value)
    trackNesting container value

/-- Reverses a list. -/
def reverse : Exec Unit := do
  let container ← Exec.pop
  match container.listCell? with
  | none => throw (.notACollection container.kind)
  | some id => Exec.setHeap ((← Exec.heap).reverse id)

/-- Removes the element at a key; a map without the key stays as it is. -/
def remove : Exec Unit := do
  let key ← Exec.onFrame popKey
  let container ← Exec.pop
  let h ← Exec.heap
  match container with
  | .array id | .struct id =>
    let index ← MonadExcept.ofExcept (indexIn key (h.items id).length)
    let (_, h) ← MonadExcept.ofExcept (h.removeAt id index)
    Exec.setHeap h
  | .map id => Exec.setHeap (h.mapRemove id key).2
  | _ => throw (.notACollection container.kind)

/-- Whether a container has an element at a key. -/
def hasKey : Exec Unit := do
  let key ← Exec.onFrame popKey
  let container ← Exec.pop
  let h ← Exec.heap
  match container with
  | .array id | .struct id =>
    let index ← MonadExcept.ofExcept key.int32
    if index < 0 then throw (.negative "HASKEY index" index)
    Exec.pushBool (index.toNat < (h.items id).length)
  | .map id => Exec.pushBool (h.mapHas id key)
  | _ => throw (.notACollection container.kind)

/-- The keys of a map as a new array. -/
def keys : Exec Unit := do
  match ← Exec.pop with
  | .map id => Exec.pushArray ((← Exec.heap).mapKeys id)
  | x => throw (.keysOfNonMap x.kind)

/-- The elements of a list or the values of a map as a new array; structs are copied. -/
def values : Exec Unit := do
  let container ← Exec.pop
  let h ← Exec.heap
  let items ←
    match container with
    | .array id | .struct id => pure (h.items id)
    | .map id => pure (h.mapValues id)
    | _ => throw (.notACollection container.kind)
  Exec.pushArray (← items.mapM Exec.copyValue)

end Instructions

end ScriptMachine
