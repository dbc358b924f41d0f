import ScriptMachine.Proofs.Heap.Shapes

/-! # Finite unfoldings

A struct may contain itself, and then it unfolds without end. If an unfolding is finite, it is complete at some depth:
nothing is cut off there, and going deeper adds nothing. A struct has a finite unfolding of at most so many elements if
and only if no depth shows more of them.

* `Unfolding.Whole`, `Unfolding.size`: unfoldings that nothing was cut off from, and the number of their elements.
* `Heap.UnfoldsTo`: the finite unfolding of an item.
* `Heap.exists_unfoldsTo_iff`: finite unfoldings of a bounded size, by the elements at each depth.
* `Heap.structsWithin`: the structs that occur in an unfolding.
-/

namespace ScriptMachine

namespace Unfolding

/-- Nothing was cut off. -/
inductive Whole : Unfolding → Prop where
  /-- An item that is no struct. -/
  | item (x : Item) : Whole (.item x)
  /-- A struct with such elements. -/
  | struct {elements : List Unfolding} (helements : ∀ u ∈ elements, Whole u) : Whole (.struct elements)

mutual

/-- The number of elements at all depths, one for each occurrence. -/
def size : Unfolding → Nat
  | .struct elements => sizeAll elements
  | _ => 0

/-- The number of the elements of a struct and of the elements in them. -/
def sizeAll : List Unfolding → Nat
  | [] => 0
  | u :: us => 1 + size u + sizeAll us

end

/-- The elements of a struct are its own and those that are nested in them. -/
theorem sizeAll_eq (us : List Unfolding) : sizeAll us = us.length + (us.map size).sum := by
  induction us with
  | nil => rfl
  | cons u us ih =>
    rw [sizeAll, ih, List.length_cons, List.map_cons, List.sum_cons]
    omega

end Unfolding

namespace Heap

variable {h : Heap} {x : Item} {u : Unfolding} {depth : Nat}

/-- **The unfolding of the item is the finite tree.** -/
def UnfoldsTo (h : Heap) (x : Item) (u : Unfolding) : Prop := u.Whole ∧ ∃ depth, h.unfold depth x = u

/-- The structs that occur in the unfolding of an item down to a depth, one entry for each occurrence. -/
def structsWithin (h : Heap) : (depth : Nat) → Item → List Nat
  | depth + 1, .struct id => id :: (h.items id).flatMap (h.structsWithin depth)
  | _, _ => []

/-- The elements that an unfolding shows are those that a walk meets. -/
theorem size_unfold (depth : Nat) : ∀ x, (h.unfold depth x).size = h.spread depth x := by
  induction depth with
  | zero =>
    intro x
    cases x <;> rfl
  | succ depth ih =>
    intro x
    cases x with
    | struct id =>
      show Unfolding.sizeAll ((h.items id).map (h.unfold depth)) = _
      rw [Unfolding.sizeAll_eq, List.length_map, List.map_map]
      exact congrArg (_ + List.sum ·) (List.map_congr_left fun y _ => ih y)
    | _ => rfl

/-- The elements of a struct of which nothing is cut off. -/
theorem whole_struct_succ {id : Nat} :
    (h.unfold (depth + 1) (.struct id)).Whole ↔ ∀ x ∈ h.items id, (h.unfold depth x).Whole := by
  constructor
  · intro hwhole x hx
    cases hwhole with
    | struct helements => exact helements _ (List.mem_map_of_mem hx)
  · refine fun hitems => .struct fun u hu => ?_
    obtain ⟨x, hx, rfl⟩ := List.mem_map.1 hu
    exact hitems x hx

/-- **Going deeper adds nothing** where nothing was cut off. -/
theorem unfold_succ_of_whole (depth : Nat) :
    ∀ x, (h.unfold depth x).Whole → h.unfold (depth + 1) x = h.unfold depth x := by
  induction depth with
  | zero =>
    intro x hwhole
    cases x with
    | struct id => cases hwhole
    | _ => rfl
  | succ depth ih =>
    intro x hwhole
    cases x with
    | struct id =>
      rw [whole_struct_succ] at hwhole
      exact congrArg Unfolding.struct (List.map_congr_left fun x hx => ih x (hwhole x hx))
    | _ => rfl

/-- All greater depths show the same. -/
theorem unfold_of_whole_of_le {deeper : Nat} (hwhole : (h.unfold depth x).Whole) (hle : depth ≤ deeper) :
    h.unfold deeper x = h.unfold depth x := by
  induction deeper, hle using Nat.le_induction with
  | base => rfl
  | succ deeper _ ih =>
    rw [← ih] at hwhole
    rw [unfold_succ_of_whole deeper x hwhole, ih]

/-- An unfolding that is cut off at a depth shows an element on each level above. -/
theorem depth_le_spread (depth : Nat) : ∀ x, ¬ (h.unfold depth x).Whole → depth ≤ h.spread depth x := by
  induction depth with
  | zero => exact fun _ _ => Nat.zero_le _
  | succ depth ih =>
    intro x hcut
    cases x with
    | struct id =>
      rw [whole_struct_succ] at hcut
      push Not at hcut
      obtain ⟨y, hy, hcut⟩ := hcut
      have hbelow : h.spread depth y ≤ ((h.items id).map (h.spread depth)).sum :=
        List.le_sum_of_mem (List.mem_map_of_mem hy)
      have hlength := List.length_pos_of_mem hy
      have hdepth := ih y hcut
      show depth + 1 ≤ (h.items id).length + ((h.items id).map (h.spread depth)).sum
      omega
    | _ => exact absurd (.item _) hcut

/-- Deeper walks meet more elements. -/
theorem spread_mono {deeper : Nat} (hle : depth ≤ deeper) (x : Item) : h.spread depth x ≤ h.spread deeper x :=
  monotone_nat_of_le_succ (fun d => spread_le_succ (h := h) d x) hle

/-- **A finite unfolding of bounded size** is one of which no depth shows more elements. -/
theorem exists_unfoldsTo_iff {limit : Nat} :
    (∃ u, h.UnfoldsTo x u ∧ u.size ≤ limit) ↔ ∀ depth, h.spread depth x ≤ limit := by
  constructor
  · rintro ⟨_, ⟨hwhole, depth, rfl⟩, hsize⟩ other
    rw [size_unfold] at hsize
    rcases Nat.le_total other depth with hle | hle
    · exact (spread_mono hle x).trans hsize
    · rw [← size_unfold, unfold_of_whole_of_le hwhole hle, size_unfold]
      exact hsize
  · intro hbound
    -- Each level has an element, so that there are no more levels than elements.
    refine ⟨h.unfold (limit + 1) x, ⟨?_, limit + 1, rfl⟩, ?_⟩
    · -- A cut at this depth would show too many elements.
      by_contra hcut
      exact absurd (depth_le_spread (limit + 1) x hcut) (Nat.not_le.2 (Nat.lt_succ_of_le (hbound _)))
    · rw [size_unfold]
      exact hbound _

end Heap

end ScriptMachine
