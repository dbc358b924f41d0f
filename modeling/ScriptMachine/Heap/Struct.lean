import ScriptMachine.Heap.Basic
import ScriptMachine.Limits

/-! # Structs as values

A struct is copied with all structs nested in it, and two structs are equal when their elements are,
nested structs included. Both walks keep a list of pending structs and count the elements they meet;
past the bound they give up, so that they also end on structs that contain themselves.

* `Heap.copyStruct`: a fresh copy; arrays, maps and handles inside stay shared.
* `Heap.structEquals`: structural equality.
* `Heap.equalsWithin`, `Heap.equals`: equality of any two items.
-/

namespace ScriptMachine

namespace Heap

/-! ### Copies -/

/-- Copies a list of elements. Every struct among them gets a new, still empty cell and joins the
pending pairs of a source and its copy. -/
def copyElements : Heap → List Item → List (Nat × Nat) → List Item × List (Nat × Nat) × Heap
  | h, [], pending => ([], pending, h)
  | h, .struct child :: rest, pending =>
    let (copy, h) := h.alloc (.list [])
    let (items, pending, h) := copyElements h rest ((child, copy) :: pending)
    (.struct copy :: items, pending, h)
  | h, item :: rest, pending =>
    let (items, pending, h) := copyElements h rest pending
    (item :: items, pending, h)

/-- Every copied element adds at most one pending pair. -/
theorem length_copyElements (h : Heap) (items : List Item) (pending : List (Nat × Nat)) :
    (copyElements h items pending).2.1.length ≤ items.length + pending.length := by
  fun_induction copyElements h items pending with
  | case1 => simp
  | case2 h child rest pending copy h' hcopy copied pending' h'' hrest ih =>
    simp only [hrest, List.length_cons] at ih ⊢
    omega
  | case3 h item rest pending hitem copied pending' h' hrest ih =>
    simp only [hrest, List.length_cons] at ih ⊢
    omega

/-- Fills the copies of the pending structs, the most recent one first. -/
def copyPending (limit : Nat) (h : Heap) (pending : List (Nat × Nat)) (visited : Nat) :
    Except Fault Heap :=
  match pending with
  | [] => .ok h
  | (source, target) :: rest =>
    if visited + (h.items source).length > limit then
      .error (.tooLarge (visited + (h.items source).length) limit)
    else
      match _hc : copyElements h (h.items source) rest with
      | (copied, pending, h') =>
        copyPending limit (h'.setItems target copied) pending (visited + (h.items source).length)
termination_by (limit - visited) + pending.length
decreasing_by
  have := length_copyElements h (h.items source) rest
  simp only [_hc] at this
  simp only [List.length_cons]
  omega

/-- A fresh copy of a struct and of all structs nested in it, unless they have more than `limit`
elements together. -/
def copyStruct (h : Heap) (id : Nat) (limit : Nat) : Except Fault (Item × Heap) :=
  let (root, fresh) := h.alloc (.list [])
  match copyPending limit fresh [(id, root)] 0 with
  | .ok h => .ok (.struct root, h)
  | .error f => .error f

/-- A copy of a struct; any other item as it is. -/
def copyValue (h : Heap) (x : Item) (limit : Nat) : Except Fault (Item × Heap) :=
  match x with
  | .struct id => h.copyStruct id limit
  | _ => .ok (x, h)

/-! ### Equality -/

/-- Compares two lists of elements. Pairs of structs join the pending pairs; nothing is returned when
some other pair differs. -/
def pairElements : List Item → List Item → List (Nat × Nat) → Option (List (Nat × Nat))
  | .struct a :: xs, .struct b :: ys, pending => pairElements xs ys ((a, b) :: pending)
  | x :: xs, y :: ys, pending => if x.same y then pairElements xs ys pending else none
  | _, _, pending => some pending

/-- Every compared element adds at most one pending pair. -/
theorem length_pairElements {xs ys : List Item} {pending result : List (Nat × Nat)}
    (h : pairElements xs ys pending = some result) :
    result.length ≤ xs.length + pending.length := by
  fun_induction pairElements xs ys pending with
  | case1 a xs b ys pending ih =>
    have := ih h
    simp only [List.length_cons] at this ⊢
    omega
  | case2 x xs y ys pending hne heq ih =>
    have := ih h
    simp only [List.length_cons] at this ⊢
    omega
  | case3 => simp at h
  | case4 =>
    simp only [Option.some.injEq] at h
    subst h
    omega

/-- Compares the pending pairs of structs, the most recent one first. -/
def equalPending (h : Heap) (limit : Nat) (pending : List (Nat × Nat)) (visited : Nat) :
    Except Fault Bool :=
  match pending with
  | [] => .ok true
  | (a, b) :: rest =>
    if a == b then equalPending h limit rest visited
    else
      if (h.items a).length != (h.items b).length then .ok false
      else if visited + (h.items a).length > limit then
        .error (.tooLarge (visited + (h.items a).length) limit)
      else
        match _hp : pairElements (h.items a) (h.items b) rest with
        | none => .ok false
        | some pending => equalPending h limit pending (visited + (h.items a).length)
termination_by (limit - visited) + pending.length
decreasing_by
  · simp only [List.length_cons]
    omega
  · have := length_pairElements _hp
    simp only [List.length_cons]
    omega

/-- Structural equality of two structs, unless more than `limit` pairs of elements have to be
compared. -/
def structEquals (h : Heap) (a b : Nat) (limit : Nat) : Except Fault Bool :=
  h.equalPending limit [(a, b)] 0

/-- Equality of two items: structs by structure, all others as in `Item.same`. -/
def equalsWithin (h : Heap) (x y : Item) (limit : Nat) : Except Fault Bool :=
  match x, y with
  | .struct a, .struct b => h.structEquals a b limit
  | _, _ => .ok (x.same y)

/-- Equality of two items under the default bound; structs that exceed it are not equal. -/
def equals (h : Heap) (x y : Item) : Bool :=
  match h.equalsWithin x y Limits.default.traversal with
  | .ok b => b
  | .error _ => false

end Heap

end ScriptMachine
