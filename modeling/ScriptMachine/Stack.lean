import ScriptMachine.Item.Basic

/-! # Stacks

A stack is the list of its items, the top one first. Positions count from the top. Operations that
find too few items fail and leave the stack as it is.

* `Stack.pop`, `Stack.peek`, `Stack.set`, `Stack.remove`, `Stack.insert`: single items.
* `Stack.split`: the top items, as a stack of their own, and the rest.
* `Stack.pushAll`: puts the items of one stack on another, in their order.
-/

namespace ScriptMachine

/-- A stack of items, the top one first. -/
abbrev Stack := List Item

namespace Stack

/-- Takes the top item. -/
def pop : Stack → Except Fault (Item × Stack)
  | [] => .error (.underflow 1 0)
  | x :: s => .ok (x, s)

/-- The item at a position. -/
def peek (s : Stack) (n : Nat) : Except Fault Item :=
  match s[n]? with
  | some x => .ok x
  | none => .error (.underflow (n + 1) s.length)

/-- Replaces the item at a position. -/
def set (s : Stack) (n : Nat) (x : Item) : Except Fault Stack :=
  if n < s.length then .ok (List.set s n x) else .error (.underflow (n + 1) s.length)

/-- Takes out the item at a position. -/
def remove (s : Stack) (n : Nat) : Except Fault (Item × Stack) :=
  match s[n]? with
  | some x => .ok (x, s.eraseIdx n)
  | none => .error (.underflow (n + 1) s.length)

/-- Inserts an item so that it ends up at a position; the depth itself is allowed. -/
def insert (s : Stack) (n : Nat) (x : Item) : Except Fault Stack :=
  if n ≤ s.length then .ok (s.insertIdx n x) else .error (.underflow n s.length)

/-- The top `count` items as a stack, and the rest. -/
def split (s : Stack) (count : Nat) : Except Fault (Stack × Stack) :=
  if count ≤ s.length then .ok (s.take count, s.drop count)
  else .error (.underflow count s.length)

/-- Puts the items of `top` on `s`, in their order. -/
def pushAll (s top : Stack) : Stack := top ++ s

/-- The items from the bottom to the top. -/
def bottomUp (s : Stack) : List Item := s.reverse

/-- The stack with the given items, the last one on top. -/
def ofBottomUp (items : List Item) : Stack := items.reverse

end Stack

end ScriptMachine
