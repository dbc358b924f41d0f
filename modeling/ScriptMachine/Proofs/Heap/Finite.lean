import Mathlib.Data.List.Perm.Subperm
import Mathlib.Logic.Relation
import ScriptMachine.Proofs.Heap.References

/-! # Finite items

An item is finite if no container in it contains itself, so that it is a tree of containers that exist, possibly with
shared parts. Every chain of containers in it is free of repetitions, and there are no more containers than cells; so a
finite item is never nested deeper than there are cells.

* `Heap.Holds`, `Heap.Comprises`: what a container holds, directly and at any depth.
* `Heap.Finite`: finite items.
* `Heap.Shallow`: items that are nested at most so many containers deep; `Heap.Finite.shallow`.
-/

namespace ScriptMachine

namespace Heap

variable {h : Heap} {x y : Item} {id : Nat}

/-- The item `y` is in the container `x`: it is an element of it, a key or a value. -/
def Holds (h : Heap) (x y : Item) : Prop := ∃ id, x.cell? = some id ∧ y ∈ h.held id

/-- The item `y` is inside of the item `x`, at any depth, or is that item. -/
def Comprises (h : Heap) (x y : Item) : Prop := Relation.ReflTransGen h.Holds x y

/-- **A finite item**: its containers exist, and none of them contains itself. -/
inductive Finite (h : Heap) : Item → Prop where
  /-- An item that is no container. -/
  | primitive {x : Item} (hx : x.cell? = none) : Finite h x
  /-- An array or a struct of finite items. -/
  | list {x : Item} {id : Nat} {items : List Item} (hx : x.listCell? = some id)
    (hcell : h.cells[id]? = some (.list items)) (hitems : ∀ y ∈ items, Finite h y) : Finite h x
  /-- A map from finite items to finite items. -/
  | map {id : Nat} {entries : List (Item × Item)} (hcell : h.cells[id]? = some (.map entries))
    (hkeys : ∀ entry ∈ entries, Finite h entry.1) (hvalues : ∀ entry ∈ entries, Finite h entry.2) :
    Finite h (.map id)

/-- The item is nested at most `depth` containers deep. -/
def Shallow (h : Heap) : (depth : Nat) → Item → Prop
  | 0, x => x.cell? = none
  | depth + 1, x => ∀ y, h.Holds x y → h.Shallow depth y

/-- A list holds its elements. -/
theorem holds_list {items : List Item} (hx : x.listCell? = some id) (hcell : h.cells[id]? = some (.list items)) :
    h.Holds x y ↔ y ∈ items := by
  have hid := Item.cell?_of_listCell? hx
  unfold Holds held
  constructor
  · rintro ⟨id', hid', hmem⟩
    obtain rfl : id = id' := Option.some.inj (hid.symm.trans hid')
    rw [hcell] at hmem
    exact hmem
  · intro hmem
    refine ⟨id, hid, ?_⟩
    rw [hcell]
    exact hmem

/-- A map holds its keys and values. -/
theorem holds_map {entries : List (Item × Item)} (hcell : h.cells[id]? = some (.map entries)) :
    h.Holds (.map id) y ↔ ∃ entry ∈ entries, y = entry.1 ∨ y = entry.2 := by
  unfold Holds held
  constructor
  · rintro ⟨_, ⟨⟩, hmem⟩
    rw [hcell] at hmem
    simpa using hmem
  · rintro ⟨entry, hentry, hy⟩
    refine ⟨id, rfl, ?_⟩
    rw [hcell]
    exact List.mem_flatMap.2 ⟨entry, hentry, by simpa using hy⟩

/-- What a finite item holds is finite. -/
theorem Finite.of_holds (hx : h.Finite x) (hy : h.Holds x y) : h.Finite y := by
  cases hx with
  | primitive hx =>
    obtain ⟨id, hid, -⟩ := hy
    rw [hx] at hid
    cases hid
  | list hx hcell hitems => exact hitems y ((holds_list hx hcell).1 hy)
  | map hcell hkeys hvalues =>
    obtain ⟨entry, hentry, rfl | rfl⟩ := (holds_map hcell).1 hy
    · exact hkeys entry hentry
    · exact hvalues entry hentry

/-- The container of a finite item exists. -/
theorem Finite.lt_size (hx : h.Finite x) (hid : x.cell? = some id) : id < h.size := by
  cases hx with
  | primitive hx =>
    rw [hx] at hid
    cases hid
  | list hx hcell _ =>
    obtain rfl := Option.some.inj ((Item.cell?_of_listCell? hx).symm.trans hid)
    exact (Array.getElem?_eq_some_iff.1 hcell).1
  | map hcell _ _ =>
    cases hid
    exact (Array.getElem?_eq_some_iff.1 hcell).1

/-- **A finite item does not contain itself.** -/
theorem Finite.not_in_itself (hx : h.Finite x) : ¬ Relation.TransGen h.Holds x x := by
  -- An element on the way back would contain itself as well.
  have hnone : ∀ x, (∀ y, h.Holds x y → ¬ Relation.TransGen h.Holds y y) → ¬ Relation.TransGen h.Holds x x := by
    intro x hbelow hring
    obtain ⟨y, hxy, hyx⟩ := Relation.TransGen.head'_iff.1 hring
    exact hbelow y hxy (Relation.TransGen.tail' hyx hxy)
  induction hx with
  | primitive hx =>
    refine hnone _ fun y ⟨id, hid, _⟩ => ?_
    rw [hx] at hid
    cases hid
  | list hx hcell _ ih => exact hnone _ fun y hy => ih y ((holds_list hx hcell).1 hy)
  | map hcell _ _ hkeys hvalues =>
    refine hnone _ fun y hy => ?_
    obtain ⟨entry, hentry, rfl | rfl⟩ := (holds_map hcell).1 hy
    · exact hkeys entry hentry
    · exact hvalues entry hentry

/-- A finite item below a chain of containers: the deeper it can be nested, the shorter the chain is. -/
theorem Finite.shallow_below (depth : Nat) : ∀ {x : Item} {chain : List Nat}, h.Finite x → chain.Nodup →
    (∀ c ∈ chain, c < h.size ∧ ∃ z, z.cell? = some c ∧ Relation.TransGen h.Holds z x) →
    chain.length + depth = h.size → h.Shallow depth x := by
  -- The container of the item is none of the chain, because it would contain itself.
  have hfresh : ∀ {x : Item} {chain : List Nat} {id : Nat}, h.Finite x →
      (∀ c ∈ chain, c < h.size ∧ ∃ z, z.cell? = some c ∧ Relation.TransGen h.Holds z x) →
      x.cell? = some id → id ∉ chain := by
    intro x chain id hx hchain hid hmem
    obtain ⟨-, z, hz, hzx⟩ := hchain id hmem
    obtain ⟨y, ⟨id', hid', hy⟩, hyx⟩ := Relation.TransGen.head'_iff.1 hzx
    have hxy : h.Holds x y := ⟨id', by rw [hid, ← hz, hid'], hy⟩
    exact hx.not_in_itself (Relation.TransGen.head' hxy hyx)
  induction depth with
  | zero =>
    intro x chain hx hnodup hchain hlength
    show x.cell? = none
    by_contra hcell
    obtain ⟨id, hid⟩ := Option.ne_none_iff_exists'.1 hcell
    have hlonger : (id :: chain).Nodup := List.nodup_cons.2 ⟨hfresh hx hchain hid, hnodup⟩
    have hsub : id :: chain ⊆ List.range h.size := by
      refine List.cons_subset.2 ⟨List.mem_range.2 (hx.lt_size hid), fun c hc => ?_⟩
      exact List.mem_range.2 (hchain c hc).1
    have hle := (List.subperm_of_subset hlonger hsub).length_le
    rw [List.length_cons, List.length_range] at hle
    omega
  | succ depth ih =>
    intro x chain hx hnodup hchain hlength y hy
    obtain ⟨id, hid, -⟩ := id hy
    refine ih (hx.of_holds hy) (List.nodup_cons.2 ⟨hfresh hx hchain hid, hnodup⟩) (fun c hc => ?_)
      (by rw [List.length_cons]; omega)
    rcases List.mem_cons.1 hc with rfl | hc
    · exact ⟨hx.lt_size hid, x, hid, .single hy⟩
    · obtain ⟨hlt, z, hz, hzx⟩ := hchain c hc
      exact ⟨hlt, z, hz, hzx.tail hy⟩

/-- **A finite item is not nested deeper than there are cells.** -/
theorem Finite.shallow (hx : h.Finite x) : h.Shallow h.size x :=
  hx.shallow_below h.size List.nodup_nil (fun _ hc => absurd hc List.not_mem_nil) (Nat.zero_add _)

end Heap

end ScriptMachine
