import ScriptMachine.Proofs.Heap.StructCopies
import ScriptMachine.Proofs.Heap.StructEquality
import ScriptMachine.Proofs.ItemCoercions

/-! # Values that are handed on

A value is handed on as it is, or as a copy if it is a struct. What it unfolds to, and whether there is a copy within
the bound, depends on the elements of structs only. Both are the same in a later heap that has the same elements, and
for the copy itself, which can be copied again; and the value and all its copies are equal.

* `Heap.SameElements`: a later heap with the same elements; `Heap.SameElements.unfold`.
* `Heap.exists_copyValue_iff`, `Heap.unfold_copyValue`: when a value is handed on, and as what.
* `Heap.equalsWithin_of_unfold`: values that unfold to the same are equal.
-/

namespace ScriptMachine

namespace Unfolding

mutual

/-- An unfolding has one pair of elements with itself for each of its elements. -/
theorem pairs_self : ∀ u : Unfolding, u.pairs u = u.size
  | .struct us => pairsAll_self us
  | .item _ => rfl
  | .cut => rfl

/-- The elements of a struct and their pairs. -/
theorem pairsAll_self : ∀ us : List Unfolding, pairsAll us us = sizeAll us
  | [] => rfl
  | u :: us => by rw [pairsAll, sizeAll, pairs_self u, pairsAll_self us]

end

end Unfolding

namespace Heap

variable {h h' h'' t : Heap} {x y : Item} {a c id limit : Nat}

/-! ## The same elements -/

/-- The later heap has all cells of the earlier one, and its lists and structs have the same elements. -/
structure SameElements (h h' : Heap) : Prop where
  /-- The cells. -/
  size : h.size ≤ h'.size
  /-- The elements. -/
  items : ∀ c < h.size, h'.items c = h.items c

/-- New cells leave the elements of the old ones alone. -/
theorem Grown.sameElements (hgrown : h.Grown h') : h.SameElements h' := ⟨hgrown.size, fun _ hc => hgrown.items hc⟩

/-- Writing a map leaves the elements of lists alone. -/
theorem Writes.sameElements {added : List Item} (hwrites : h.Writes h' id added) (hmap : h.items id = [])
    (hmap' : h'.items id = []) : h.SameElements h' := by
  refine ⟨Nat.le_of_eq hwrites.size.symm, fun c _ => ?_⟩
  by_cases hc : c = id
  · rw [hc, hmap, hmap']
  · rw [items, hwrites.others c hc, items]

/-- One change after the other. -/
theorem SameElements.trans (hs : h.SameElements h') (hs' : h'.SameElements h'') : h.SameElements h'' :=
  ⟨hs.size.trans hs'.size, fun c hc => (hs'.items c (hc.trans_le hs.size)).trans (hs.items c hc)⟩

/-- The structs in a struct exist. -/
theorem Closed.lt_of_nested (hclosed : h.Closed) (ha : a < h.size) (hnested : h.Nested a c) : c < h.size := by
  induction hnested with
  | refl => exact ha
  | tail _ hbc _ => exact hclosed _ _ (mem_held_of_mem_items hbc) _ rfl

/-- **A value unfolds to the same** in a later heap with the same elements. -/
theorem SameElements.unfold (hs : h.SameElements h') (hclosed : h.Closed) (hx : x.In h) (depth : Nat) :
    h'.unfold depth x = h.unfold depth x := by
  obtain ⟨a, rfl⟩ | hother := x.struct_or_other
  · exact unfold_congr (fun c hc => hs.items c (hclosed.lt_of_nested (hx a rfl) hc)) depth
  · rw [unfold_item hother, unfold_item hother]

/-- Values that unfold to the same spread to as many elements. -/
theorem spread_of_unfold {depth : Nat} (hunfold : h'.unfold depth y = h.unfold depth x) :
    h'.spread depth y = h.spread depth x := by
  rw [← size_unfold, ← size_unfold, hunfold]

/-! ## Handing on a value -/

/-- **A value is handed on** exactly if it has no more nested elements than the bound at any depth. -/
theorem exists_copyValue_iff (hclosed : h.Closed) (hx : x.In h) :
    (∃ y t, h.copyValue x limit = .ok (y, t)) ↔ ∀ depth, h.spread depth x ≤ limit := by
  refine ⟨fun ⟨y, t, hcopy⟩ depth => ?_, fun hbound => exists_copyValue hclosed hx hbound⟩
  obtain ⟨a, rfl⟩ | hother := x.struct_or_other
  · exact (exists_copyStruct_iff hclosed (hx a rfl)).1 ⟨_, hcopy⟩ depth
  · rw [spread_of_ne hother]
    exact Nat.zero_le _

/-- **What is handed on unfolds to the same** as the value. -/
theorem unfold_copyValue (hclosed : h.Closed) (hx : x.In h) (hcopy : h.copyValue x limit = .ok (y, t))
    (depth : Nat) : t.unfold depth y = h.unfold depth x := by
  cases (copy_copyValue hclosed (Grown.refl h) hclosed hx hcopy).value with
  | struct hcopied => exact hcopied.unfolds depth
  | other hother => rw [unfold_item hother, unfold_item hother]

/-- **Values that unfold to the same are equal**, within a bound for their elements. -/
theorem equalsWithin_of_unfold (hunfold : ∀ depth, h.unfold depth y = h.unfold depth x)
    (hbound : ∀ depth, h.spread depth x ≤ limit) : h.equalsWithin x y limit = .ok true := by
  obtain ⟨a, rfl⟩ | hother := x.struct_or_other
  · -- Both are structs, and the unfolding ends within the bound, so that the walk through its pairs does.
    obtain ⟨b, rfl, -⟩ := exists_of_unfold hunfold
    obtain ⟨u, ⟨hwhole, depth, hdepth⟩, hsize⟩ := exists_unfoldsTo_iff.2 hbound
    have hpairs : u.pairs u ≤ limit := by rwa [Unfolding.pairs_self]
    obtain ⟨equal, hrun⟩ := exists_structEquals ⟨hwhole, depth, hdepth⟩
      ⟨hwhole, depth, (hunfold depth).trans hdepth⟩ hpairs
    have hsimilar : h.Similar (.struct a) (.struct b) := by
      intro d
      rw [SimilarAt, hunfold d]
      exact SimilarAt.refl h d _
    obtain rfl : equal = true := (similar_of_structEquals hrun).2 hsimilar
    exact hrun
  · obtain rfl := eq_of_unfold hother hunfold
    rw [equalsWithin_eq_same hother, Item.same_refl hother]

/-! ## Handing on again -/

/-- The copy of an item unfolds to the same as another item, if the item does. -/
theorem CopiedValue.of_unfold {z : Item} (hcopied : CopiedValue h' t y z)
    (hunfold : ∀ depth, h'.unfold depth y = h'.unfold depth x) : CopiedValue h' t x z := by
  cases hcopied with
  | struct hcopy =>
    obtain ⟨a, rfl, -⟩ := exists_of_unfold fun depth => (hunfold depth).symm
    exact .struct ⟨hcopy.created, fun depth => (hcopy.unfolds depth).trans (hunfold depth), hcopy.references⟩
  | other hother =>
    obtain rfl := eq_of_unfold hother fun depth => (hunfold depth).symm
    exact .other hother

/-- **What was handed on is handed on again**, in a later heap with the same elements: as an equal fresh copy of the
value, which unfolds to what the value did at first. -/
theorem copyValue_again (hclosed : h.Closed) (hx : x.In h) (hcopy : h.copyValue x limit = .ok (y, t))
    (hs : t.SameElements h') (hclosed' : h'.Closed) : ∃ z t', h'.copyValue y limit = .ok (z, t') ∧
      CopiedValue h' t' x z ∧ (∀ depth, t'.unfold depth z = h.unfold depth x) ∧
      t'.equalsWithin x z limit = .ok true := by
  obtain ⟨hextends, hy⟩ := extends_copyValue hclosed hx hcopy
  have hbound := (exists_copyValue_iff hclosed hx).1 ⟨y, t, hcopy⟩
  have hthere : h.SameElements h' := (grown_copyValue hcopy).sameElements.trans hs
  have hx' : x.In h' := hx.mono hthere.size
  have hy' : y.In h' := hy.mono hs.size
  -- The first copy still unfolds to what the value did, so that it fits into the bound again.
  have hyx : ∀ depth, h'.unfold depth y = h.unfold depth x := fun depth =>
    (hs.unfold (hextends.closed hclosed) hy depth).trans (unfold_copyValue hclosed hx hcopy depth)
  have hsame : ∀ depth, h'.unfold depth y = h'.unfold depth x := fun depth =>
    (hyx depth).trans (hthere.unfold hclosed hx depth).symm
  obtain ⟨z, t', hcopy'⟩ : ∃ z t', h'.copyValue y limit = .ok (z, t') :=
    (exists_copyValue_iff hclosed' hy').2 fun depth => (spread_of_unfold (hyx depth)).trans_le (hbound depth)
  have hzx : ∀ depth, t'.unfold depth z = h.unfold depth x := fun depth =>
    (unfold_copyValue hclosed' hy' hcopy' depth).trans (hyx depth)
  have hxt : ∀ depth, t'.unfold depth x = h.unfold depth x := fun depth =>
    (hthere.trans (grown_copyValue hcopy').sameElements).unfold hclosed hx depth
  have hzxt : ∀ depth, t'.unfold depth z = t'.unfold depth x := fun depth => (hzx depth).trans (hxt depth).symm
  -- In the last heap, the value and its second copy are compared by their unfoldings.
  refine ⟨z, t', hcopy', ?_, hzx, equalsWithin_of_unfold hzxt fun depth => ?_⟩
  · exact (copy_copyValue hclosed' (Grown.refl h') hclosed' hy' hcopy').value.of_unfold hsame
  · rw [spread_of_unfold (hxt depth)]
    exact hbound depth

/-- **The same is handed on** in a later heap with the same elements, or nothing is in both. -/
theorem copyValue_same (limit : Nat) (hclosed : h.Closed) (hclosed' : h'.Closed) (hx : x.In h) (hs : h.SameElements h') :
    (∃ y t y' t', h.copyValue x limit = .ok (y, t) ∧ h'.copyValue x limit = .ok (y', t') ∧
      ∀ depth, t'.unfold depth y' = t.unfold depth y) ∨
    ∃ fault fault', h.copyValue x limit = .error fault ∧ h'.copyValue x limit = .error fault' := by
  have hx' : x.In h' := hx.mono hs.size
  have hsame := fun depth => hs.unfold hclosed hx depth
  have hiff : (∃ y t, h'.copyValue x limit = .ok (y, t)) ↔ ∃ y t, h.copyValue x limit = .ok (y, t) := by
    rw [exists_copyValue_iff hclosed' hx', exists_copyValue_iff hclosed hx]
    simp only [spread_of_unfold (hsame _)]
  cases hcopy : h.copyValue x limit with
  | ok r =>
    obtain ⟨y', t', hcopy'⟩ := hiff.2 ⟨r.1, r.2, hcopy⟩
    refine .inl ⟨r.1, r.2, y', t', rfl, hcopy', fun depth => ?_⟩
    rw [unfold_copyValue hclosed' hx' hcopy', unfold_copyValue hclosed hx hcopy, hsame]
  | error fault =>
    cases hcopy' : h'.copyValue x limit with
    | ok r =>
      obtain ⟨y, t, hcopy''⟩ := hiff.1 ⟨r.1, r.2, hcopy'⟩
      rw [hcopy] at hcopy''
      cases hcopy''
    | error fault' => exact .inr ⟨fault, fault', rfl, rfl⟩

end Heap

end ScriptMachine
