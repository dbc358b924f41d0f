import ScriptMachine.Heap.Container
import ScriptMachine.Proofs.Heap.Rings
import ScriptMachine.Proofs.Policy

/-! # References and changes of the heap

A heap is *closed* when all containers that it holds exist. Instructions change it in two ways: they write one
container, or they add containers to it. A new container may refer to old ones and to newer ones, but nothing
old refers to it; so no new ring arises from additions, struct copies included, and rings that arise from
writing pass through the container that was written.

* `Item.In`, `Heap.Closed`: containers that exist.
* `Heap.Writes`: one container was written; `Heap.Writes.ring` on its rings.
* `Heap.Extends`: containers were added; `Heap.Extends.ring` on its rings.
* `Heap.extends_alloc`, `Heap.extends_copyValue`, `Heap.writes_append`, `Heap.writes_mapSet` and so on.
-/

namespace ScriptMachine

/-- The container of the item, if it is one, exists. -/
def Item.In (h : Heap) (x : Item) : Prop := ∀ id, x.cell? = some id → id < h.size

/-- An item is a container, or it refers to no cell. -/
theorem Item.cell?_eq_none {x : Item} (hx : x.isCompound = false) : x.cell? = none := by
  cases x <;> first | rfl | cases hx

/-- An item is a struct, or it is none. -/
theorem Item.struct_or_other (x : Item) : (∃ id, x = .struct id) ∨ ∀ id, x ≠ .struct id :=
  (Classical.em _).imp_right not_exists.1

/-- An item that is no container needs none. -/
theorem Item.in_of_primitive {h : Heap} {x : Item} (hx : x.cell? = none) : x.In h := by
  intro id hid
  rw [hx] at hid
  cases hid

/-- A list is a container. -/
theorem Item.cell?_of_listCell? {x : Item} {id : Nat} (hx : x.listCell? = some id) : x.cell? = some id := by
  cases x <;> first | exact hx | cases hx

/-- A container exists in a larger heap. -/
theorem Item.In.mono {h h' : Heap} {x : Item} (hx : x.In h) (hle : h.size ≤ h'.size) : x.In h' :=
  fun id hid => Nat.lt_of_lt_of_le (hx id hid) hle

namespace Heap

variable {h h' : Heap} {id : Nat}

/-- All containers that the heap holds exist. -/
def Closed (h : Heap) : Prop := ∀ id, ∀ x ∈ h.held id, x.In h

/-! ## Contents -/

/-- The cell of a list is what its elements come from. -/
theorem cell_of_mem_items {x : Item} (hx : x ∈ h.items id) :
    ∃ items, h.cells[id]? = some (.list items) ∧ x ∈ items := by
  unfold items at hx
  split at hx
  · rename_i items hcell
    exact ⟨items, hcell, hx⟩
  · exact absurd hx List.not_mem_nil

/-- The cell of a map is what its entries come from. -/
theorem cell_of_mem_entries {entry : Item × Item} (hentry : entry ∈ h.entries id) :
    ∃ entries, h.cells[id]? = some (.map entries) ∧ entry ∈ entries := by
  unfold entries at hentry
  split at hentry
  · rename_i entries hcell
    exact ⟨entries, hcell, hentry⟩
  · exact absurd hentry List.not_mem_nil

/-- The elements of a container are held. -/
theorem mem_held_of_mem_items {x : Item} (hx : x ∈ h.items id) : x ∈ h.held id := by
  obtain ⟨items, hcell, hmem⟩ := cell_of_mem_items hx
  rw [held, hcell]
  exact hmem

/-- The containers among the elements are referred to. -/
theorem refers_of_mem_items {x : Item} (hx : x ∈ h.items id) {b : Nat} (hb : x.cell? = some b) :
    h.Refers id b := by
  obtain ⟨items, hcell, hmem⟩ := cell_of_mem_items hx
  rw [Refers, contained, hcell]
  exact List.mem_filterMap.2 ⟨x, hmem, hb⟩

/-- The keys and values of a map are held. -/
theorem mem_held_of_mem_entries {entry : Item × Item} (hentry : entry ∈ h.entries id) :
    entry.1 ∈ h.held id ∧ entry.2 ∈ h.held id := by
  obtain ⟨entries, hcell, hmem⟩ := cell_of_mem_entries hentry
  rw [held, hcell]
  exact ⟨List.mem_flatMap.2 ⟨entry, hmem, List.mem_cons_self⟩,
    List.mem_flatMap.2 ⟨entry, hmem, List.mem_cons_of_mem _ List.mem_cons_self⟩⟩

/-- The containers among the values are referred to. -/
theorem refers_of_mem_entries {entry : Item × Item} (hentry : entry ∈ h.entries id) {b : Nat}
    (hb : entry.2.cell? = some b) : h.Refers id b := by
  obtain ⟨entries, hcell, hmem⟩ := cell_of_mem_entries hentry
  rw [Refers, contained, hcell]
  exact List.mem_filterMap.2 ⟨entry, hmem, hb⟩

/-- The value of a key is held. -/
theorem mem_held_of_mapGet {key x : Item} (hx : h.mapGet? id key = some x) : x ∈ h.held id := by
  unfold mapGet? at hx
  split at hx
  · obtain ⟨entry, hentry, rfl⟩ := Option.map_eq_some_iff.1 hx
    exact (mem_held_of_mem_entries (List.mem_of_getElem? hentry)).2
  · cases hx

/-! ## Writing -/

/-- One container was written: the others are the same, and it holds nothing new but the added items. -/
structure Writes (h h' : Heap) (id : Nat) (added : List Item) : Prop where
  /-- There are as many containers. -/
  size : h'.size = h.size
  /-- The other containers are the same. -/
  others : ∀ other, other ≠ id → h'.cells[other]? = h.cells[other]?
  /-- What the container holds. -/
  held : ∀ x ∈ h'.held id, x ∈ h.held id ∨ x ∈ added
  /-- What the container refers to. -/
  refers : ∀ b, h'.Refers id b → h.Refers id b ∨ ∃ x ∈ added, x.cell? = some b

variable {added : List Item}

/-- The containers that the heap holds still exist. -/
theorem Writes.closed (hw : h.Writes h' id added) (hclosed : h.Closed) (hadded : ∀ x ∈ added, x.In h) :
    h'.Closed := by
  intro other x hx
  refine Item.In.mono ?_ (Nat.le_of_eq hw.size.symm)
  by_cases heq : other = id
  · subst heq
    rcases hw.held x hx with hx | hx
    · exact hclosed other x hx
    · exact hadded x hx
  · rw [Heap.held, hw.others other heq] at hx
    exact hclosed other x hx

/-- **A ring passes through the container that was written, or it was there before.** -/
theorem Writes.ring (hw : h.Writes h' id added) {ring : List Nat} (hring : h'.Ring ring) :
    id ∈ ring ∨ h.Ring ring := by
  by_cases hid : id ∈ ring
  · exact Or.inl hid
  · refine Or.inr (hring.imp fun a ha b hab => ?_)
    have hne : a ≠ id := fun heq => hid (heq ▸ ha)
    rw [Refers, contained, hw.others a hne] at hab
    exact hab

/-- Without new containers no ring is new. -/
theorem Writes.ring_of_primitive (hw : h.Writes h' id added) (hadded : ∀ x ∈ added, x.cell? = none)
    {ring : List Nat} (hring : h'.Ring ring) : h.Ring ring := by
  refine hring.imp fun a _ b hab => ?_
  by_cases hne : a = id
  · subst hne
    refine (hw.refers b hab).resolve_right ?_
    rintro ⟨x, hx, hcell⟩
    rw [hadded x hx] at hcell
    cases hcell
  · rw [Refers, contained, hw.others a hne] at hab
    exact hab

/-- A container gets another cell, if it exists. -/
theorem writes_of_cell {cell : Cell} (hsize : h'.size = h.size)
    (hcells : h'.cells = h.cells.setIfInBounds id cell)
    (hheld : h'.cells[id]? = some cell → ∀ x ∈ h'.held id, x ∈ h.held id ∨ x ∈ added)
    (hrefers : h'.cells[id]? = some cell → ∀ b, h'.Refers id b →
      h.Refers id b ∨ ∃ x ∈ added, x.cell? = some b) : h.Writes h' id added := by
  have hothers : ∀ other, other ≠ id → h'.cells[other]? = h.cells[other]? := by
    intro other hne
    rw [hcells]
    exact Array.getElem?_setIfInBounds_ne hne.symm
  by_cases hlt : id < h.cells.size
  · have hcell : h'.cells[id]? = some cell := by
      rw [hcells, Array.getElem?_setIfInBounds, if_pos rfl, if_pos hlt]
    exact ⟨hsize, hothers, hheld hcell, hrefers hcell⟩
  · -- A container that does not exist is not written.
    have hnone : h'.cells[id]? = none := by
      rw [hcells, Array.getElem?_setIfInBounds, if_pos rfl, if_neg hlt]
    refine ⟨hsize, hothers, fun x hx => ?_, fun b hb => ?_⟩
    · rw [held, hnone] at hx
      exact absurd hx List.not_mem_nil
    · rw [Refers, contained, hnone] at hb
      exact absurd hb List.not_mem_nil

/-- Other elements in a container. -/
theorem writes_setItems {items : List Item} (hitems : ∀ x ∈ items, x ∈ h.items id ∨ x ∈ added) :
    h.Writes (h.setItems id items) id added := by
  refine writes_of_cell Array.size_setIfInBounds rfl (fun hcell x hx => ?_) fun hcell b hb => ?_
  · rw [held, hcell] at hx
    exact (hitems x hx).imp_left mem_held_of_mem_items
  · rw [Refers, contained, hcell] at hb
    obtain ⟨x, hx, hb⟩ := List.mem_filterMap.1 hb
    exact (hitems x hx).imp (fun hx => refers_of_mem_items hx hb) fun hx => ⟨x, hx, hb⟩

/-- Other entries in a container. -/
theorem writes_setEntries {entries : List (Item × Item)}
    (hentries : ∀ entry ∈ entries, entry ∈ h.entries id ∨
      (entry.1 ∈ added ∨ ∃ old ∈ h.entries id, old.1 = entry.1) ∧ entry.2 ∈ added) :
    h.Writes (h.setEntries id entries) id added := by
  refine writes_of_cell Array.size_setIfInBounds rfl (fun hcell x hx => ?_) fun hcell b hb => ?_
  · rw [held, hcell] at hx
    obtain ⟨entry, hentry, hx⟩ := List.mem_flatMap.1 hx
    rcases hentries entry hentry with hold | ⟨hkey, hvalue⟩
    · obtain ⟨hfirst, hsecond⟩ := mem_held_of_mem_entries hold
      rcases List.mem_pair.1 hx with rfl | rfl
      · exact Or.inl hfirst
      · exact Or.inl hsecond
    · rcases List.mem_pair.1 hx with rfl | rfl
      · rcases hkey with hkey | ⟨old, hold, heq⟩
        · exact Or.inr hkey
        · rw [← heq]
          exact Or.inl (mem_held_of_mem_entries hold).1
      · exact Or.inr hvalue
  · rw [Refers, contained, hcell] at hb
    obtain ⟨entry, hentry, hb⟩ := List.mem_filterMap.1 hb
    rcases hentries entry hentry with hold | ⟨-, hvalue⟩
    · exact Or.inl (refers_of_mem_entries hold hb)
    · exact Or.inr ⟨entry.2, hvalue, hb⟩

/-- Replacing an element. -/
theorem writes_setAt {index : Nat} {x : Item} (hset : h.setAt id index x = .ok h') :
    h.Writes h' id [x] := by
  unfold setAt at hset
  dsimp only at hset
  split at hset
  · cases hset
    refine writes_setItems fun y hy => ?_
    exact (List.mem_or_eq_of_mem_set hy).imp_right fun heq => List.mem_singleton.2 heq
  · cases hset

/-- Adding an element at the end. -/
theorem writes_append (h : Heap) (id : Nat) (x : Item) : h.Writes (h.append id x) id [x] :=
  writes_setItems fun _ hy => List.mem_append.1 hy

/-- Taking out an element. -/
theorem writes_removeAt {index : Nat} {r : Item × Heap} (hremove : h.removeAt id index = .ok r) :
    h.Writes r.2 id [] := by
  unfold removeAt at hremove
  dsimp only at hremove
  split at hremove
  · cases hremove
    exact writes_setItems fun y hy => Or.inl ((List.eraseIdx_sublist _ _).mem hy)
  · cases hremove

/-- Reversing the elements. -/
theorem writes_reverse (h : Heap) (id : Nat) : h.Writes (h.reverse id) id [] :=
  writes_setItems fun _ hy => Or.inl (List.mem_reverse.1 hy)

/-- Setting a key: a known key keeps its item. -/
theorem writes_mapSet (h : Heap) (id : Nat) (key value : Item) :
    h.Writes (h.mapSet id key value) id [key, value] := by
  unfold mapSet
  dsimp only
  split
  · refine writes_setEntries fun entry hentry => ?_
    obtain ⟨old, hold, rfl | rfl⟩ := Policy.exists_of_mem_modify hentry
    · exact Or.inl hold
    · exact Or.inr ⟨Or.inr ⟨old, hold, rfl⟩, List.mem_cons_of_mem _ List.mem_cons_self⟩
  · refine writes_setEntries fun entry hentry => ?_
    rcases List.mem_append.1 hentry with hentry | hentry
    · exact Or.inl hentry
    · cases List.mem_singleton.1 hentry
      exact Or.inr ⟨Or.inl List.mem_cons_self, List.mem_cons_of_mem _ List.mem_cons_self⟩

/-- Taking out a key. -/
theorem writes_mapRemove (h : Heap) (id : Nat) (key : Item) : h.Writes (h.mapRemove id key).2 id [] := by
  unfold mapRemove
  dsimp only
  split
  · exact writes_setEntries fun entry hentry => Or.inl ((List.eraseIdx_sublist _ _).mem hentry)
  · exact ⟨rfl, fun _ _ => rfl, fun _ hx => Or.inl hx, fun _ hb => Or.inl hb⟩

/-! ## Adding containers -/

/-- Containers were added: the old ones are the same, and the new ones refer to old ones and to newer ones. -/
structure Extends (h h' : Heap) : Prop where
  /-- There are at least as many containers. -/
  size : h.size ≤ h'.size
  /-- The old containers are the same. -/
  old : ∀ id, id < h.size → h'.cells[id]? = h.cells[id]?
  /-- What the new containers hold. -/
  fresh : ∀ id, h.size ≤ id → ∀ x ∈ h'.held id, ∀ c, x.cell? = some c →
    c < h'.size ∧ (c < h.size ∨ id < c)

/-- The containers that the heap holds still exist. -/
theorem Extends.closed (hx : h.Extends h') (hclosed : h.Closed) : h'.Closed := by
  intro id x hheld c hc
  by_cases hlt : id < h.size
  · rw [held, hx.old id hlt] at hheld
    exact Nat.lt_of_lt_of_le (hclosed id x hheld c hc) hx.size
  · exact (hx.fresh id (Nat.le_of_not_lt hlt) x hheld c hc).1

/-- From a new container, paths lead to old ones and to newer ones. -/
theorem Extends.path_of_fresh (hx : h.Extends h') (hclosed : h.Closed) {a b : Nat}
    (hpath : Relation.TransGen h'.Refers a b) (ha : h.size ≤ a) : b < h.size ∨ a < b := by
  have hstep : ∀ b c, h'.Refers b c → h.size ≤ b → c < h.size ∨ b < c := by
    intro b c hbc hb
    obtain ⟨x, hheld, hc⟩ := hbc.exists_held
    exact (hx.fresh b hb x hheld c hc).2
  induction hpath with
  | single hab => exact hstep a _ hab ha
  | @tail b c _ hbc ih =>
    by_cases hb : b < h.size
    · -- Old containers refer to old ones.
      obtain ⟨x, hheld, hc⟩ := hbc.exists_held
      rw [held, hx.old b hb] at hheld
      exact Or.inl (hclosed b x hheld c hc)
    · have hlt := ih.resolve_left hb
      exact (hstep b c hbc (Nat.le_of_not_lt hb)).imp_right (Nat.lt_trans hlt)

/-- **No ring is new when containers are added.** -/
theorem Extends.ring (hx : h.Extends h') (hclosed : h.Closed) {ring : List Nat} (hring : h'.Ring ring) :
    h.Ring ring := by
  refine hring.imp fun a ha b hab => ?_
  have hold : a < h.size := by
    by_contra hfresh
    have hge : h.size ≤ a := Nat.le_of_not_lt hfresh
    rcases hx.path_of_fresh hclosed (hring.transGen ha) hge with hlt | hlt <;> omega
  rw [Refers, contained, hx.old a hold] at hab
  exact hab

/-- A new container comes after the old ones, which stay the same. -/
theorem cells_alloc_of_lt (cell : Cell) (hid : id < h.size) :
    (h.alloc cell).2.cells[id]? = h.cells[id]? :=
  (Array.getElem?_push_lt hid).trans (Array.getElem?_eq_getElem hid).symm

/-- There is one more container. -/
theorem size_alloc (h : Heap) (cell : Cell) : (h.alloc cell).2.size = h.size + 1 := Array.size_push cell

/-- What the containers from the new one on hold. -/
theorem held_alloc_of_le {items : List Item} (hid : h.size ≤ id) {x : Item}
    (hx : x ∈ (h.alloc (.list items)).2.held id) : id = h.size ∧ x ∈ items := by
  have hcell : (h.alloc (.list items)).2.cells[id]? = (h.cells.push (.list items))[id]? := rfl
  rw [held, hcell, Array.getElem?_push] at hx
  by_cases heq : id = h.cells.size
  · rw [if_pos heq] at hx
    exact ⟨heq, hx⟩
  · have hnone : h.cells[id]? = none := Array.getElem?_eq_none hid
    rw [if_neg heq, hnone] at hx
    exact absurd hx List.not_mem_nil

/-- A new list of existing items. -/
theorem extends_alloc_list {items : List Item} (hitems : ∀ x ∈ items, x.In h) :
    h.Extends (h.alloc (.list items)).2 := by
  have hsize := h.size_alloc (.list items)
  refine ⟨by omega, fun id hid => cells_alloc_of_lt _ hid, fun id hid x hx c hc => ?_⟩
  have hlt := hitems x (held_alloc_of_le hid hx).2 c hc
  omega

/-- A new, empty map. -/
theorem extends_newMap (h : Heap) : h.Extends h.newMap.2 := by
  have hsize := h.size_alloc (.map [])
  refine ⟨?_, fun id hid => cells_alloc_of_lt _ hid, fun id hid x hx => ?_⟩
  · show h.size ≤ (h.alloc (.map [])).2.size
    omega
  · have hcell : h.newMap.2.cells[id]? = (h.cells.push (.map []))[id]? := rfl
    rw [held, hcell, Array.getElem?_push] at hx
    by_cases heq : id = h.cells.size
    · rw [if_pos heq] at hx
      exact absurd hx List.not_mem_nil
    · have hnone : h.cells[id]? = none := Array.getElem?_eq_none hid
      rw [if_neg heq, hnone] at hx
      exact absurd hx List.not_mem_nil

/-! ## Copies of structs -/

/-- What copying a list of elements gives: copies of its structs in new, still empty containers, which are
pending, and all other items as they are. -/
structure Copies (h : Heap) (items : List Item) (pending : List (Nat × Nat)) (copied : List Item)
    (pending' : List (Nat × Nat)) (h' : Heap) : Prop where
  /-- There are at least as many containers. -/
  size : h.size ≤ h'.size
  /-- The old containers are the same. -/
  old : ∀ id, id < h.size → h'.cells[id]? = h.cells[id]?
  /-- The new containers are empty. -/
  fresh : ∀ id, h.size ≤ id → h'.held id = []
  /-- The containers among the copies are old or new. -/
  copied : ∀ x ∈ copied, ∀ c, x.cell? = some c →
    (∃ y ∈ items, y.cell? = some c) ∨ h.size ≤ c ∧ c < h'.size
  /-- The new pending pairs of a source and its copy. -/
  pending : ∀ pair ∈ pending', pair ∈ pending ∨
    (∃ y ∈ items, y.cell? = some pair.1) ∧ h.size ≤ pair.2 ∧ pair.2 < h'.size

variable {items copied : List Item} {pending pending' : List (Nat × Nat)}

/-- One more struct is copied. -/
theorem Copies.cons_struct {child : Nat}
    (hc : (h.alloc (.list [])).2.Copies items ((child, h.size) :: pending) copied pending' h') :
    h.Copies (.struct child :: items) pending (.struct h.size :: copied) pending' h' := by
  have hsize := h.size_alloc (.list [])
  have hle := hc.size
  refine ⟨by omega, fun id hid => ?_, fun id hid => ?_, fun x hx c hcell => ?_, fun pair hpair => ?_⟩
  · rw [hc.old id (by omega)]
    exact cells_alloc_of_lt _ hid
  · by_cases heq : id = h.size
    · -- The container of the copy is still empty.
      rw [held, hc.old id (by omega)]
      refine List.eq_nil_iff_forall_not_mem.2 fun x hx => ?_
      exact absurd (held_alloc_of_le hid hx).2 List.not_mem_nil
    · exact hc.fresh id (by omega)
  · rcases List.mem_cons.1 hx with rfl | hx
    · cases hcell
      exact Or.inr ⟨Nat.le_refl _, by omega⟩
    · rcases hc.copied x hx c hcell with ⟨y, hy, hcell⟩ | ⟨hge, hlt⟩
      · exact Or.inl ⟨y, List.mem_cons_of_mem _ hy, hcell⟩
      · exact Or.inr ⟨by omega, hlt⟩
  · rcases hc.pending pair hpair with hpair | ⟨⟨y, hy, hcell⟩, hge, hlt⟩
    · rcases List.mem_cons.1 hpair with rfl | hpair
      · exact Or.inr ⟨⟨_, List.mem_cons_self, rfl⟩, Nat.le_refl _, by omega⟩
      · exact Or.inl hpair
    · exact Or.inr ⟨⟨y, List.mem_cons_of_mem _ hy, hcell⟩, by omega, hlt⟩

/-- One more item stays as it is. -/
theorem Copies.cons (hc : h.Copies items pending copied pending' h') (x : Item) :
    h.Copies (x :: items) pending (x :: copied) pending' h' := by
  refine ⟨hc.size, hc.old, hc.fresh, fun y hy c hcell => ?_, fun pair hpair => ?_⟩
  · rcases List.mem_cons.1 hy with rfl | hy
    · exact Or.inl ⟨y, List.mem_cons_self, hcell⟩
    · refine (hc.copied y hy c hcell).imp_left ?_
      rintro ⟨z, hz, hcell⟩
      exact ⟨z, List.mem_cons_of_mem _ hz, hcell⟩
  · refine (hc.pending pair hpair).imp_right ?_
    rintro ⟨⟨z, hz, hcell⟩, hnew⟩
    exact ⟨⟨z, List.mem_cons_of_mem _ hz, hcell⟩, hnew⟩

/-- A container that does not exist holds nothing. -/
theorem held_of_le (hid : h.size ≤ id) : h.held id = [] := by
  have hnone : h.cells[id]? = none := Array.getElem?_eq_none hid
  rw [held, hnone]

/-- **Copying elements** adds one empty container for each struct among them. -/
theorem copies_copyElements (h : Heap) (items : List Item) (pending : List (Nat × Nat)) :
    h.Copies items pending (copyElements h items pending).1 (copyElements h items pending).2.1
      (copyElements h items pending).2.2 := by
  fun_induction copyElements h items pending with
  | case1 h pending =>
    exact ⟨Nat.le_refl _, fun _ _ => rfl, fun _ => held_of_le, fun x hx => absurd hx List.not_mem_nil,
      fun pair hpair => Or.inl hpair⟩
  | case2 h child rest pending copy h₁ hcopy copied pending' h₂ hrest ih =>
    cases hcopy
    rw [hrest] at ih
    exact ih.cons_struct
  | case3 h item rest pending hitem copied pending' h' hrest ih =>
    rw [hrest] at ih
    exact ih.cons item

/-- Copies are being filled: the pending pairs have an old source and a new target. -/
structure Filling (h₀ h : Heap) (pending : List (Nat × Nat)) : Prop where
  /-- Containers were added. -/
  extend : h₀.Extends h
  /-- The outermost copy is one of them. -/
  exists_root : h₀.size < h.size
  /-- The pending pairs. -/
  pending : ∀ pair ∈ pending, pair.1 < h₀.size ∧ h₀.size ≤ pair.2 ∧ pair.2 < h.size

/-- **A copy is filled**: it refers to what its source refers to and to newer copies. -/
theorem Filling.step {h₀ : Heap} (hclosed : h₀.Closed) {source target : Nat} {rest : List (Nat × Nat)}
    (hf : Filling h₀ h ((source, target) :: rest))
    (hc : h.Copies (h.items source) rest copied pending' h') :
    Filling h₀ (h'.setItems target copied) pending' := by
  obtain ⟨hsource, htarget, hlt⟩ := hf.pending _ List.mem_cons_self
  have hroot := hf.exists_root
  have hsize : (h'.setItems target copied).size = h'.size := Array.size_setIfInBounds
  have hle := hc.size
  -- The source is old, and so are the containers in it.
  have hitems : ∀ y ∈ h.items source, ∀ c, y.cell? = some c → c < h₀.size := by
    intro y hy c hcell
    have hheld := mem_held_of_mem_items hy
    rw [held, hf.extend.old source hsource] at hheld
    exact hclosed source y hheld c hcell
  have hothers : ∀ id, id ≠ target → (h'.setItems target copied).cells[id]? = h'.cells[id]? :=
    fun id hne => Array.getElem?_setIfInBounds_ne hne.symm
  refine ⟨⟨by omega, fun id hid => ?_, fun id hid x hx c hcell => ?_⟩, by omega, fun pair hpair => ?_⟩
  · rw [hothers id (by omega), hc.old id (by omega)]
    exact hf.extend.old id hid
  · by_cases heq : id = target
    · subst heq
      have hcell' : (h'.setItems id copied).cells[id]? = some (.list copied) := by
        have hin : id < h'.cells.size := Nat.lt_of_lt_of_le hlt hle
        unfold setItems
        rw [Array.getElem?_setIfInBounds, if_pos rfl, if_pos hin]
      rw [held, hcell'] at hx
      rcases hc.copied x hx c hcell with ⟨y, hy, hcell⟩ | ⟨hge, hlt'⟩
      · have := hitems y hy c hcell
        omega
      · omega
    · rw [held, hothers id heq] at hx
      by_cases hold : id < h.size
      · rw [hc.old id hold] at hx
        have := hf.extend.fresh id hid x hx c hcell
        omega
      · have hnone := hc.fresh id (Nat.le_of_not_lt hold)
        rw [held] at hnone
        rw [hnone] at hx
        exact absurd hx List.not_mem_nil
  · rcases hc.pending pair hpair with hpair | ⟨⟨y, hy, hcell⟩, hge, hlt'⟩
    · have := hf.pending pair (List.mem_cons_of_mem _ hpair)
      omega
    · have := hitems y hy _ hcell
      omega

/-- **A copy of a struct adds containers**, and no old container refers to them. -/
theorem extends_copyValue (hclosed : h.Closed) {x y : Item} {limit : Nat} (hx : x.In h)
    (hcopy : h.copyValue x limit = .ok (y, h')) : h.Extends h' ∧ y.In h' := by
  unfold copyValue at hcopy
  split at hcopy
  · rename_i id
    have hsize := h.size_alloc (.list [])
    have hstart : Filling h (h.alloc (.list [])).2 [(id, h.size)] := by
      refine ⟨extends_alloc_list fun x hx => absurd hx List.not_mem_nil, by omega, fun pair hpair => ?_⟩
      rw [List.mem_singleton.1 hpair]
      exact ⟨hx id rfl, Nat.le_refl _, by omega⟩
    have hround : ∀ w w', CopyWalk.Round limit w w' → Filling h w.heap w.pending → Filling h w'.heap w'.pending := by
      rintro _ _ ⟨-⟩ hf
      exact hf.step hclosed (copies_copyElements _ _ _)
    obtain ⟨rfl, _, hall⟩ := copyStruct_keeps hround hstart hcopy
    refine ⟨hall.extend, ?_⟩
    rintro _ ⟨⟩
    exact hall.exists_root
  · cases hcopy
    refine ⟨⟨Nat.le_refl _, fun _ _ => rfl, fun id hid z hz => ?_⟩, hx⟩
    rw [held_of_le hid] at hz
    exact absurd hz List.not_mem_nil

end Heap

end ScriptMachine
