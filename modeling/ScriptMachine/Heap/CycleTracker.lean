import ScriptMachine.Heap.Liveness

/-! # Breaking cycles

Containers that hold each other in a ring would keep each other for ever. A `CycleTracker` remembers
the containers that received a container. When it is released, it empties those of them that can be
reached from themselves, which breaks every ring through one of them.

* `Heap.reachesItself`: whether a container lies on a ring.
* `CycleTracker.track`, `CycleTracker.prune`: remembering, and forgetting what is gone or known twice.
* `CycleTracker.liveCount`: how many remembered containers still exist.
* `CycleTracker.release`: empties the remembered containers on rings.
-/

namespace ScriptMachine

namespace Heap

/-- Visiting a container lowers the number of containers that were not visited. -/
theorem countP_visit (visited : Array Bool) (id : Nat) (h : id < visited.size)
    (hid : visited[id] = false) :
    (visited.set id true).countP (! ·) < visited.countP (! ·) := by
  have hpos : 0 < visited.countP (! ·) :=
    Array.countP_pos_iff.2 ⟨visited[id], Array.getElem_mem h, by rw [hid]; rfl⟩
  rw [Array.countP_set h, hid]
  show visited.countP (! ·) - 1 + 0 < visited.countP (! ·)
  omega

/-- Whether `origin` is among the pending containers or can be reached from one of them through
containers that were not visited. -/
def reaches (h : Heap) (origin : Nat) (pending : List Nat) (visited : Array Bool) : Bool :=
  match pending with
  | [] => false
  | next :: rest =>
    if next == origin then true
    else if hn : next < visited.size then
      if visited[next] then reaches h origin rest visited
      else reaches h origin (h.contained next ++ rest) (visited.set next true)
    else reaches h origin rest visited
termination_by (visited.countP (! ·), pending.length)
decreasing_by
  · exact Prod.Lex.right _ (Nat.lt_succ_self _)
  · rename_i hv
    exact Prod.Lex.left _ _ (countP_visit visited next hn (Bool.eq_false_iff.2 hv))
  · exact Prod.Lex.right _ (Nat.lt_succ_self _)

/-- Whether a container can be reached from itself. -/
def reachesItself (h : Heap) (id : Nat) : Bool :=
  h.reaches id (h.contained id) (Array.replicate h.size false)

end Heap

/-- The memory of containers that received a container. -/
structure CycleTracker where
  /-- The remembered containers, the most recent one first. -/
  entries : List Nat := []
  /-- The number of entries at which the next one prunes first. -/
  pruneAt : Nat := 64
  deriving DecidableEq, Repr, Inhabited

namespace CycleTracker

/-- The number of entries below which nothing is pruned. -/
def minPruneAt : Nat := 64

/-- The tracker that remembers nothing. -/
def empty : CycleTracker := {}

/-- Forgets containers that are gone and repetitions. -/
def prune (t : CycleTracker) (live : Array Bool) : CycleTracker :=
  let kept := (t.entries.filter fun id => live.getD id false).eraseDups
  { entries := kept, pruneAt := Nat.max minPruneAt (kept.length * 2) }

/-- Remembers a container; primitive items are ignored. The roots say what still exists, in case the
tracker prunes. -/
def track (t : CycleTracker) (h : Heap) (roots : List Item) (x : Item) : CycleTracker :=
  match x.cell? with
  | none => t
  | some id =>
    let t := if t.pruneAt ≤ t.entries.length then t.prune (h.live roots) else t
    { t with entries := id :: t.entries }

/-- The number of entries whose container still exists. -/
def liveCount (t : CycleTracker) (h : Heap) (roots : List Item) : Nat :=
  let live := h.live roots
  t.entries.countP fun id => live.getD id false

/-- The remembered containers that lie on a ring, each one once. -/
def cyclic (t : CycleTracker) (h : Heap) : List Nat :=
  t.entries.eraseDups.filter h.reachesItself

/-- Empties the remembered containers that lie on a ring, and forgets all. Returns their number. -/
def release (t : CycleTracker) (h : Heap) : Nat × Heap :=
  let cyclic := t.cyclic h
  (cyclic.length, cyclic.foldl Heap.clear h)

end CycleTracker

end ScriptMachine
