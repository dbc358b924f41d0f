import ScriptMachine.Heap.Basic

/-! # Liveness and claims

An object is kept by those who hold it. A container is *live* when a root holds it or a live container
does; the live containers are the largest such set, so that containers which hold each other in a ring
stay live without any root. The *claims* on an object are the places that hold it: roots, and elements,
keys and values of live containers.

* `Heap.live`: the live containers for a list of roots.
* `Heap.claims`: the number of claims on an item.
-/

namespace ScriptMachine

namespace Heap

/-- Marks the containers among the given items. -/
def markHeld (marks : Array Bool) (items : List Item) : Array Bool :=
  items.foldl
    (fun marks x =>
      match x.cell? with
      | some id => marks.setIfInBounds id true
      | none => marks)
    marks

/-- The containers held by a root or by one of the given containers. -/
def heldBy (h : Heap) (roots : List Item) (holders : Array Bool) : Array Bool :=
  (List.range h.size).foldl
    (fun marks id => if holders.getD id false then markHeld marks (h.held id) else marks)
    (markHeld (Array.replicate h.size false) roots)

/-- Keeps only the held containers, again and again until nothing changes. -/
def settle (h : Heap) (roots : List Item) : Nat → Array Bool → Array Bool
  | 0, holders => holders
  | fuel + 1, holders =>
    let next := h.heldBy roots holders
    if next == holders then holders else settle h roots fuel next

/-- The live containers, as marks by cell number. Every round but the last one drops a cell, so that
the number of cells bounds the rounds. -/
def live (h : Heap) (roots : List Item) : Array Bool :=
  h.settle roots (h.size + 1) (Array.replicate h.size true)

/-- How often an item occurs in a list, as an object. -/
def countObject (x : Item) (items : List Item) : Nat := items.countP (x.sameObject ·)

/-- The number of places that hold the object of an item; truth values and integers have one. -/
def claims (h : Heap) (roots : List Item) : Item → Nat
  | .boolean _ | .integer _ => 1
  | x =>
    let live := h.live roots
    (List.range h.size).foldl
      (fun n id => if live.getD id false then n + countObject x (h.held id) else n)
      (countObject x roots)

end Heap

end ScriptMachine
