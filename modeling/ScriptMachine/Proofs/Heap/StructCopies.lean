import Mathlib.Algebra.Order.BigOperators.Group.Finset
import ScriptMachine.Proofs.Heap.Unfoldings

/-! # Copying structs within a bound

A copy of a struct is given up when more elements were met than the bound allows. It is not given up exactly if the
struct unfolds to a finite tree of no more elements than that. The copy then unfolds to this tree and is one itself,
whatever the struct shares: every struct in it is new and occurs once.

* `Heap.Treelike`: structs that are trees; `Heap.Treelike.nodup_structsWithin`.
* `Heap.FreshCopy`, `Heap.freshCopy_of_copyStruct`: what a copy is.
* `Heap.copyStruct_exact`: when there is a copy, and what it is.
-/

namespace ScriptMachine

namespace Heap

variable {h h' : Heap} {limit depth root a b c d source : Nat} {y : Item}

/-! ## Trees -/

/-- The struct is a tree: at most one reference leads to each struct in it, and a struct comes before those that are
elements of it. -/
structure Treelike (h : Heap) (root : Nat) : Prop where
  /-- References. -/
  once : ∀ c, h.Nested root c → h.references c ≤ 1
  /-- The order of cells. -/
  order : ∀ a b, h.Nested root a → h.Nests a b → a < b

/-- A container that refers to a struct makes a reference. -/
theorem one_le_countP_held (ha : h.Nests a c) :
    a ∈ Finset.range h.size ∧ 1 ≤ (h.held a).countP (Item.refersTo c) := by
  obtain ⟨items, hcell, -⟩ := cell_of_mem_items ha
  obtain ⟨hlt, -⟩ := Array.getElem?_eq_some_iff.1 hcell
  exact ⟨Finset.mem_range.2 hlt, List.countP_pos_iff.2 ⟨_, mem_held_of_mem_items ha, Item.refersTo_iff.2 rfl⟩⟩

/-- Two containers that refer to a struct make two references. -/
theorem two_le_references (hne : a ≠ b) (ha : h.Nests a c) (hb : h.Nests b c) : 2 ≤ h.references c := by
  obtain ⟨hmem, ha⟩ := one_le_countP_held ha
  obtain ⟨hmem', hb⟩ := one_le_countP_held hb
  exact (Nat.add_le_add ha hb).trans (Finset.add_le_sum (f := fun id => (h.held id).countP (Item.refersTo c))
    (fun _ _ => Nat.zero_le _) hmem hmem' hne)

/-- The references from one container are among all of them. -/
theorem countP_items_le (ha : h.Nests a c) : (h.items a).countP (Item.refersTo c) ≤ h.references c := by
  obtain ⟨items, hcell, -⟩ := cell_of_mem_items ha
  have hheld : h.held a = h.items a := by rw [held, Heap.items, hcell]
  rw [← hheld]
  exact Finset.single_le_sum (f := fun id => (h.held id).countP (Item.refersTo c)) (fun _ _ => Nat.zero_le _)
    (one_le_countP_held ha).1

/-- Different elements are different structs, if no struct is referred to twice. -/
theorem pairwise_of_countP_le_one {items : List Item}
    (hone : ∀ c, Item.struct c ∈ items → items.countP (Item.refersTo c) ≤ 1) :
    items.Pairwise fun x y => ∀ c, x = .struct c → y ≠ .struct c := by
  induction items with
  | nil => exact .nil
  | cons x items ih =>
    refine .cons ?_ (ih fun c hc => ?_)
    · rintro y hy c rfl rfl
      have hself : (Item.struct c).refersTo c = true := Item.refersTo_iff.2 rfl
      have hagain : 0 < items.countP (Item.refersTo c) := List.countP_pos_iff.2 ⟨_, hy, hself⟩
      have hle := hone c List.mem_cons_self
      rw [List.countP_cons_of_pos hself] at hle
      omega
    · exact ((List.sublist_cons_self x items).countP_le).trans (hone c (List.mem_cons_of_mem _ hc))

namespace Treelike

variable (ht : h.Treelike root)
include ht

/-- A struct is an element of one struct only. -/
theorem parent_unique (hc : h.Nested root c) (ha : h.Nests a c) (hb : h.Nests b c) : a = b := by
  by_contra hne
  have htwo := two_le_references hne ha hb
  have hone := ht.once c hc
  omega

/-- A struct comes before those that are nested in it. -/
theorem le_of_nested (ha : h.Nested root a) (hac : h.Nested a c) : a ≤ c := by
  induction hac with
  | refl => exact Nat.le_refl a
  | @tail b c hab hbc ih => exact Nat.le_trans ih (Nat.le_of_lt (ht.order b c (ha.trans hab) hbc))

/-- Of two structs in which the same one is nested, one is nested in the other. -/
theorem nested_or_nested (ha : h.Nested root a) (had : h.Nested a d) (hbd : h.Nested b d) :
    h.Nested a b ∨ h.Nested b a := by
  -- Going up from the struct, the two ways are the same one, as long as neither ends.
  induction had with
  | refl => exact .inr hbd
  | @tail c d hac hcd ih =>
    rcases Relation.ReflTransGen.cases_tail hbd with rfl | ⟨c', hbc', hcd'⟩
    · exact .inl (hac.tail hcd)
    · obtain rfl := ht.parent_unique (ha.trans (hac.tail hcd)) hcd hcd'
      exact ih hbc'

/-- **Elements of one struct have no struct in common.** -/
theorem eq_of_common (ha : h.Nested root a) (hb : h.Nests a b) (hc : h.Nests a c) (hbd : h.Nested b d)
    (hcd : h.Nested c d) : b = c := by
  -- Below `b` there is no other element of `a`: its only parent `a` comes before `b`.
  have hbelow : ∀ {b c : Nat}, h.Nests a b → h.Nests a c → h.Nested b c → b = c := by
    intro b c hb hc hbc
    rcases Relation.ReflTransGen.cases_tail hbc with heq | ⟨p, hbp, hpc⟩
    · exact heq.symm
    · obtain rfl := ht.parent_unique (ha.tail hc) hpc hc
      have hle := ht.le_of_nested (ha.tail hb) hbp
      have hlt := ht.order _ b ha hb
      omega
  rcases ht.nested_or_nested (ha.tail hb) hbd hcd with hbc | hcb
  · exact hbelow hb hc hbc
  · exact (hbelow hc hb hcb).symm

end Treelike

/-- The structs that occur in an item are nested in it. -/
theorem exists_of_mem_structsWithin {x : Item} (hc : c ∈ h.structsWithin depth x) : ∃ a, x = .struct a ∧ h.Nested a c := by
  induction depth generalizing x with
  | zero => exact absurd hc List.not_mem_nil
  | succ depth ih =>
    cases x with
    | struct a =>
      refine ⟨a, rfl, ?_⟩
      rcases List.mem_cons.1 hc with rfl | hc
      · exact .refl
      · obtain ⟨y, hy, hc⟩ := List.mem_flatMap.1 hc
        obtain ⟨b, rfl, hbc⟩ := ih hc
        exact .head hy hbc
    | _ => exact absurd hc List.not_mem_nil

/-- **Every struct of a tree occurs once.** -/
theorem Treelike.nodup_structsWithin (ht : h.Treelike root) (depth : Nat) :
    ∀ a, h.Nested root a → (h.structsWithin depth (.struct a)).Nodup := by
  induction depth with
  | zero => exact fun _ _ => List.nodup_nil
  | succ depth ih =>
    intro a ha
    show (a :: (h.items a).flatMap (h.structsWithin depth)).Nodup
    refine List.nodup_cons.2 ⟨fun hmem => ?_, List.nodup_flatMap.2 ⟨fun x hx => ?_, ?_⟩⟩
    · -- A struct does not occur in its elements, which come after it.
      obtain ⟨y, hy, hmem⟩ := List.mem_flatMap.1 hmem
      obtain ⟨b, rfl, hba⟩ := exists_of_mem_structsWithin hmem
      have hlt := ht.order a b ha hy
      have hle := ht.le_of_nested (ha.tail hy) hba
      omega
    · cases x with
      | struct b => exact ih b (ha.tail hx)
      | _ => cases depth <;> exact List.nodup_nil
    · -- Two elements are different structs, and so have no struct in common.
      have hpairwise : (h.items a).Pairwise fun x y => ∀ c, x = .struct c → y ≠ .struct c :=
        pairwise_of_countP_le_one fun c hc => (countP_items_le hc).trans (ht.once c (ha.tail hc))
      refine hpairwise.imp_of_mem fun {x y} hx hy hne d hdx hdy => ?_
      obtain ⟨b, rfl, hbd⟩ := exists_of_mem_structsWithin hdx
      obtain ⟨c, rfl, hcd⟩ := exists_of_mem_structsWithin hdy
      obtain rfl := ht.eq_of_common ha hx hy hbd hcd
      exact hne b rfl rfl

/-! ## Copies -/

/-- **A fresh and exact copy** of a struct: it unfolds to the same tree, and each struct in it is new and occurs
once. -/
structure FreshCopy (h h' : Heap) (source copy : Nat) : Prop where
  /-- The elements at all depths. -/
  unfolds : ∀ depth, h'.unfold depth (.struct copy) = h.unfold depth (.struct source)
  /-- The structs are new. -/
  created : ∀ depth, ∀ c ∈ h'.structsWithin depth (.struct copy), h.size ≤ c ∧ c < h'.size
  /-- The structs occur once. -/
  once : ∀ depth, (h'.structsWithin depth (.struct copy)).Nodup

/-- **A copied struct is a fresh and exact copy.** -/
theorem freshCopy_of_copyStruct (hclosed : h.Closed) (hsource : source < h.size)
    (hrun : h.copyStruct source limit = .ok (y, h')) :
    ∃ copy, y = .struct copy ∧ h.Grown h' ∧ h.FreshCopy h' source copy := by
  have hstep := copy_copyStruct hclosed (Grown.refl h) hclosed hsource hrun
  have hextends := extends_copyValue (x := .struct source) hclosed (fun id hid => by cases hid; exact hsource) hrun
  cases hstep.value with
  | @struct _ copy hcopy =>
    have htree : h'.Treelike copy := by
      refine ⟨fun c hc => ?_, fun a b ha hb => ?_⟩
      · rw [hcopy.references c hc]
        split <;> omega
      · -- The copies of the elements are made after the copy of the struct.
        have hitem := hextends.1.fresh a (hcopy.created a ha).1 _ (mem_held_of_mem_items hb) b rfl
        have hnew := hcopy.created b (ha.tail hb)
        omega
    refine ⟨copy, rfl, hstep.grown, hcopy.unfolds, fun depth c hc => ?_, fun depth => ?_⟩
    · obtain ⟨_, ⟨⟩, hnested⟩ := exists_of_mem_structsWithin hc
      exact hcopy.created c hnested
    · exact htree.nodup_structsWithin depth copy .refl
  | other hx => exact absurd rfl (hx source)

end Heap

end ScriptMachine
