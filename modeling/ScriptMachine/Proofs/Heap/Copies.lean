import Mathlib.Algebra.BigOperators.Intervals
import ScriptMachine.Proofs.Heap.References

/-! # Copies of structs

A struct unfolds to a tree: its elements, and the elements of the structs nested in it. A copy unfolds to the same
tree, and it is a tree itself: all of its structs are new, and to each of them leads one reference. The copy is
filled through a list of pending structs, whatever is shared among the sources; the invariant of that walk tells
which pairs of a source and its copy there are, which of them are filled, and how many references lead to each copy.

* `Heap.unfold`, `Heap.Nested`, `Heap.references`: what is said of copies.
* `Heap.copyElements_copies`: copying the elements of one struct.
* `Heap.CopyWalk.Spares`: what a walk leaves alone; `Heap.CopyWalk.Spares.reaches`.
* `Heap.Copying`: the invariant of the walk, with `Heap.Copying.step`.
* `Heap.Copy`, `Heap.copy_copyStruct`: what a copy is.
-/

namespace ScriptMachine

/-- What an item unfolds to through structs. -/
inductive Unfolding where
  /-- An item that is no struct. -/
  | item (x : Item)
  /-- The elements of a struct. -/
  | struct (elements : List Unfolding)
  /-- A struct at the depth at which the unfolding ends. -/
  | cut

/-- The item refers to a cell. -/
def Item.refersTo (c : Nat) (x : Item) : Bool := x.cell? == some c

/-- An item refers to the cell of the container that it is. -/
theorem Item.refersTo_iff {c : Nat} {x : Item} : x.refersTo c = true ↔ x.cell? = some c := beq_iff_eq

namespace Heap

variable {h h' h₀ h₁ : Heap} {id c : Nat}

/-! ## Unfoldings -/

/-- The unfolding of an item through structs, down to a depth. Two items unfold to the same, possibly infinite tree
if they do so to every depth. -/
def unfold (h : Heap) : (depth : Nat) → Item → Unfolding
  | 0, .struct _ => .cut
  | depth + 1, .struct id => .struct ((h.items id).map (h.unfold depth))
  | _, x => .item x

/-- The struct `b` is an element of the struct `a`. -/
def Nests (h : Heap) (a b : Nat) : Prop := Item.struct b ∈ h.items a

/-- The struct `b` is nested in the struct `a`, at any depth, or is that struct. -/
def Nested (h : Heap) (a b : Nat) : Prop := Relation.ReflTransGen h.Nests a b

/-- An item that is no struct unfolds to itself. -/
theorem unfold_item {x : Item} (hx : ∀ id, x ≠ .struct id) (depth : Nat) : h.unfold depth x = .item x := by
  cases x with
  | struct id => exact absurd rfl (hx id)
  | _ => cases depth <;> rfl

/-- **An unfolding depends on the structs in it only.** -/
theorem unfold_congr {a : Nat} (hsame : ∀ c, h.Nested a c → h'.items c = h.items c) (depth : Nat) :
    h'.unfold depth (.struct a) = h.unfold depth (.struct a) := by
  induction depth generalizing a with
  | zero => rfl
  | succ depth ih =>
    show Unfolding.struct ((h'.items a).map _) = .struct ((h.items a).map _)
    rw [hsame a .refl]
    refine congrArg _ (List.map_congr_left fun x hx => ?_)
    obtain ⟨b, rfl⟩ | hother := x.struct_or_other
    · exact ih fun c hc => hsame c (.head hx hc)
    · rw [unfold_item hother, unfold_item hother]

/-- The structs in a struct are the same in another heap that agrees on them. -/
theorem Nested.congr {a b : Nat} (hnested : h'.Nested a b) (hsame : ∀ c, h.Nested a c → h'.items c = h.items c) :
    h.Nested a b := by
  induction hnested with
  | refl => exact .refl
  | @tail b c _ hbc ih =>
    refine ih.tail ?_
    rw [Nests, hsame b ih] at hbc
    exact hbc

/-! ## References -/

/-- The number of references that lead to a cell from containers. -/
def references (h : Heap) (c : Nat) : Nat :=
  ∑ id ∈ Finset.range h.size, (h.held id).countP (Item.refersTo c)

/-- No reference leads to a cell that no container refers to. -/
theorem references_eq_zero (hnone : ∀ id, ∀ x ∈ h.held id, x.cell? ≠ some c) : h.references c = 0 := by
  refine Finset.sum_eq_zero fun id _ => List.countP_eq_zero.2 fun x hx => ?_
  rw [Item.refersTo_iff]
  exact hnone id x hx

/-- No reference leads to a cell that does not exist. -/
theorem Closed.references_eq_zero (hclosed : h.Closed) (hc : h.size ≤ c) : h.references c = 0 := by
  refine Heap.references_eq_zero fun id x hx hcell => ?_
  exact absurd (hclosed id x hx c hcell) (Nat.not_lt.2 hc)

/-- What an old container holds when another one is added. -/
theorem held_alloc_of_lt (cell : Cell) (hid : id < h.size) : (h.alloc cell).2.held id = h.held id := by
  rw [held, cells_alloc_of_lt cell hid, held]

/-- A new list brings the references of its elements. -/
theorem references_alloc (h : Heap) (items : List Item) (c : Nat) :
    (h.alloc (.list items)).2.references c = h.references c + items.countP (Item.refersTo c) := by
  have hnew : (h.alloc (.list items)).2.held h.size = items := by
    have hcell : (h.alloc (.list items)).2.cells[h.size]? = some (.list items) := Array.getElem?_push_size
    rw [held, hcell]
  unfold references
  rw [size_alloc, Finset.sum_range_succ, hnew]
  refine congrArg (· + _) (Finset.sum_congr rfl fun id hid => ?_)
  rw [held_alloc_of_lt _ (Finset.mem_range.1 hid)]

/-- A container was written: the references in it before are replaced by the ones in it now. -/
theorem references_write (hsize : h'.size = h.size) (hid : id < h.size)
    (hothers : ∀ other, other ≠ id → h'.cells[other]? = h.cells[other]?) (c : Nat) :
    h'.references c + (h.held id).countP (Item.refersTo c) =
      h.references c + (h'.held id).countP (Item.refersTo c) := by
  have hmem : id ∈ Finset.range h.size := Finset.mem_range.2 hid
  have hrest : ∑ other ∈ (Finset.range h.size).erase id, (h'.held other).countP (Item.refersTo c) =
      ∑ other ∈ (Finset.range h.size).erase id, (h.held other).countP (Item.refersTo c) := by
    refine Finset.sum_congr rfl fun other hother => ?_
    rw [held, hothers other (Finset.ne_of_mem_erase hother), held]
  unfold references
  rw [hsize, ← Finset.add_sum_erase _ _ hmem, ← Finset.add_sum_erase _ _ hmem, hrest]
  omega

/-! ## Copies of elements -/

/-- An element and its copy: structs in pairs of a source and its copy, all other items as they are. -/
inductive CopiedItem (pairs : List (Nat × Nat)) : Item → Item → Prop where
  /-- A struct. -/
  | struct {source copy : Nat} (h : (source, copy) ∈ pairs) : CopiedItem pairs (.struct source) (.struct copy)
  /-- Any other item. -/
  | other {x : Item} (hx : ∀ id, x ≠ .struct id) : CopiedItem pairs x x

/-- More pairs. -/
theorem CopiedItem.mono {pairs pairs' : List (Nat × Nat)} (hsub : pairs ⊆ pairs') {x y : Item}
    (hcopied : CopiedItem pairs x y) : CopiedItem pairs' x y := by
  cases hcopied with
  | struct hpair => exact .struct (hsub hpair)
  | other hx => exact .other hx

/-- Each element of a related list has one that it is related to. -/
theorem exists_of_mem_right {α β : Type} {R : α → β → Prop} {xs : List α} {ys : List β}
    (hrelated : List.Forall₂ R xs ys) {y : β} (hy : y ∈ ys) : ∃ x ∈ xs, R x y := by
  induction hrelated with
  | nil => exact absurd hy List.not_mem_nil
  | cons hxy _ ih =>
    rcases List.mem_cons.1 hy with rfl | hy
    · exact ⟨_, List.mem_cons_self, hxy⟩
    · obtain ⟨x, hx, hrelated⟩ := ih hy
      exact ⟨x, List.mem_cons_of_mem _ hx, hrelated⟩

/-- What copying the elements of a struct adds: pairs of the structs among them and of new cells, one after the
other. -/
structure CopiedElements (h : Heap) (items : List Item) (pending : List (Nat × Nat)) (copied : List Item)
    (pending' : List (Nat × Nat)) (h' : Heap) (fresh : List (Nat × Nat)) : Prop where
  /-- The new pairs are pending. -/
  pending : pending' = fresh ++ pending
  /-- The copies are the new cells. -/
  targets : fresh.map Prod.snd = (List.range' h.size fresh.length).reverse
  /-- There are as many new cells. -/
  size : h'.size = h.size + fresh.length
  /-- The sources are elements. -/
  sources : ∀ pair ∈ fresh, Item.struct pair.1 ∈ items
  /-- The copies of the elements. -/
  elements : List.Forall₂ (CopiedItem fresh) items copied
  /-- The references to existing cells are no more than before, and one leads to each new cell. -/
  references : ∀ c, (∀ x ∈ items, x.cell? ≠ some c) →
    copied.countP (Item.refersTo c) = if h.size ≤ c ∧ c < h'.size then 1 else 0

section

variable {items copied : List Item} {pending pending' fresh : List (Nat × Nat)}

/-- One more struct. -/
theorem CopiedElements.cons_struct {child : Nat}
    (hc : (h.alloc (.list [])).2.CopiedElements items ((child, h.size) :: pending) copied pending' h' fresh) :
    h.CopiedElements (.struct child :: items) pending (.struct h.size :: copied) pending' h'
      (fresh ++ [(child, h.size)]) := by
  have hsize := h.size_alloc (.list [])
  have hsize' := hc.size
  constructor
  · rw [hc.pending, List.append_assoc, List.singleton_append]
  · rw [List.map_append, hc.targets, hsize, List.length_append, List.length_singleton, List.range'_succ,
      List.reverse_cons]
    rfl
  · rw [List.length_append, List.length_singleton]
    omega
  · intro pair hpair
    rcases List.mem_append.1 hpair with hpair | hpair
    · exact List.mem_cons_of_mem _ (hc.sources pair hpair)
    · rw [List.mem_singleton.1 hpair]
      exact List.mem_cons_self
  · refine .cons (.struct (List.mem_append_right _ List.mem_cons_self)) (hc.elements.imp fun _ _ h => ?_)
    exact h.mono (List.subset_append_left _ _)
  · intro c hc'
    have hrest := hc.references c fun x hx => hc' x (List.mem_cons_of_mem _ hx)
    rw [List.countP_cons, hrest]
    by_cases heq : c = h.size
    · subst heq
      have hself : (Item.struct h.size).refersTo h.size = true := Item.refersTo_iff.2 rfl
      rw [if_neg (by omega), if_pos hself, if_pos (by omega)]
    · have hne : (Item.struct h.size).refersTo c = false := by
        rw [← Bool.not_eq_true, Item.refersTo_iff]
        rintro ⟨⟩
        exact heq rfl
      rw [hne]
      simp only [hsize, Bool.false_eq_true, if_false, Nat.add_zero]
      exact if_congr (by omega) rfl rfl

/-- One more item that is no struct. -/
theorem CopiedElements.cons (hc : h.CopiedElements items pending copied pending' h' fresh) {x : Item}
    (hx : ∀ id, x ≠ .struct id) : h.CopiedElements (x :: items) pending (x :: copied) pending' h' fresh := by
  refine ⟨hc.pending, hc.targets, hc.size, fun pair hpair => List.mem_cons_of_mem _ (hc.sources pair hpair),
    .cons (.other hx) hc.elements, fun c hc' => ?_⟩
  have hrest := hc.references c fun y hy => hc' y (List.mem_cons_of_mem _ hy)
  have hne : ¬ x.refersTo c = true := by
    rw [Item.refersTo_iff]
    exact hc' x List.mem_cons_self
  rw [List.countP_cons_of_neg hne, hrest]

end

/-- **Copying elements.** -/
theorem copyElements_copies (h : Heap) (items : List Item) (pending : List (Nat × Nat)) :
    ∃ fresh, h.CopiedElements items pending (copyElements h items pending).1
      (copyElements h items pending).2.1 (copyElements h items pending).2.2 fresh := by
  fun_induction copyElements h items pending with
  | case1 h pending =>
    refine ⟨[], rfl, rfl, rfl, fun _ hpair => absurd hpair List.not_mem_nil, .nil, fun c _ => ?_⟩
    dsimp only
    rw [if_neg (by omega)]
    rfl
  | case2 h child rest pending copy h₁ hcopy copied pending' h₂ hrest ih =>
    cases hcopy
    rw [hrest] at ih
    obtain ⟨fresh, hfresh⟩ := ih
    exact ⟨_, hfresh.cons_struct⟩
  | case3 h item rest pending hitem copied pending' h' hrest ih =>
    rw [hrest] at ih
    obtain ⟨fresh, hfresh⟩ := ih
    exact ⟨fresh, hfresh.cons fun id heq => hitem id heq⟩

/-! ## Filling copies -/

/-- Cells were added, and the old ones are the same. -/
structure Grown (h h' : Heap) : Prop where
  /-- There are at least as many cells. -/
  size : h.size ≤ h'.size
  /-- The old cells are the same. -/
  old : ∀ id, id < h.size → h'.cells[id]? = h.cells[id]?

/-- Nothing has changed. -/
theorem Grown.refl (h : Heap) : h.Grown h := ⟨Nat.le_refl _, fun _ _ => rfl⟩

/-- Cells were added more than once. -/
theorem Grown.trans {h'' : Heap} (hg : h.Grown h') (hg' : h'.Grown h'') : h.Grown h'' :=
  ⟨Nat.le_trans hg.size hg'.size,
    fun id hid => (hg'.old id (Nat.lt_of_lt_of_le hid hg.size)).trans (hg.old id hid)⟩

/-- The elements of an old list. -/
theorem Grown.items (hg : h.Grown h') (hid : id < h.size) : h'.items id = h.items id := by
  rw [Heap.items, hg.old id hid, Heap.items]

/-- What an old container holds. -/
theorem Grown.held (hg : h.Grown h') (hid : id < h.size) : h'.held id = h.held id := by
  rw [Heap.held, hg.old id hid, Heap.held]

/-- A new list. -/
theorem grown_alloc (h : Heap) (cell : Cell) : h.Grown (h.alloc cell).2 := by
  refine ⟨?_, fun id hid => cells_alloc_of_lt cell hid⟩
  rw [size_alloc]
  exact Nat.le_succ _

/-- **The invariant of a copy** that started from the heap `h₁`, of a struct of the heap `h₀`: there are pairs of a
source and its copy, and those that are not pending are filled. -/
structure Copying (h₀ h₁ h : Heap) (root : Nat) (pairs pending : List (Nat × Nat)) : Prop where
  /-- Cells were added. -/
  grown : h₁.Grown h
  /-- All containers that the heap holds exist. -/
  closed : h.Closed
  /-- The outermost copy exists. -/
  exists_root : root < h.size
  /-- The sources are structs of the first heap, and the copies are new. -/
  range : ∀ pair ∈ pairs, pair.1 < h₀.size ∧ h₁.size ≤ pair.2 ∧ pair.2 < h.size
  /-- A copy has one source. -/
  sources : ∀ pair ∈ pairs, ∀ other ∈ pairs, pair.2 = other.2 → pair = other
  /-- What is pending is empty. -/
  waiting : ∀ pair ∈ pending, pair ∈ pairs ∧ h.held pair.2 = []
  /-- Nothing is pending twice. -/
  once : (pending.map Prod.snd).Nodup
  /-- All other copies have copies of the elements of their source. -/
  filled : ∀ pair ∈ pairs, pair ∉ pending →
    List.Forall₂ (CopiedItem pairs) (h₀.items pair.1) (h.items pair.2)
  /-- One reference leads to each copy but the outermost one. -/
  references : ∀ c, h₁.size ≤ c → c < h.size → h.references c = if c = root then 0 else 1
  /-- The references to what was there before the copy, but is not of the first heap. -/
  others : ∀ c, h₀.size ≤ c → c < h₁.size → h.references c = h₁.references c

section

variable {root source target : Nat} {pairs pending pending' fresh rest : List (Nat × Nat)}
  {items copied : List Item}

/-- Other cells are the same after elements were replaced. -/
theorem cells_setItems_of_ne {other : Nat} (hne : other ≠ id) :
    (h.setItems id items).cells[other]? = h.cells[other]? := Array.getElem?_setIfInBounds_ne hne.symm

/-- The replaced elements. -/
theorem cells_setItems_self (hid : id < h.size) : (h.setItems id items).cells[id]? = some (.list items) := by
  have hin : id < h.cells.size := hid
  unfold setItems
  rw [Array.getElem?_setIfInBounds, if_pos rfl, if_pos hin]

/-- Replacing elements replaces what the cell holds. -/
theorem held_setItems_self (hid : id < h.size) : (h.setItems id items).held id = items := by
  rw [held, cells_setItems_self hid]

/-- Replacing elements. -/
theorem items_setItems_self (hid : id < h.size) : (h.setItems id items).items id = items := by
  rw [Heap.items, cells_setItems_self hid]

/-- There are as many cells after elements were replaced. -/
theorem size_setItems (h : Heap) (id : Nat) (items : List Item) : (h.setItems id items).size = h.size :=
  Array.size_setIfInBounds

/-- The new copies are different from each other. -/
theorem CopiedElements.nodup (hc : h.CopiedElements items pending copied pending' h' fresh) :
    (fresh.map Prod.snd).Nodup := by
  rw [hc.targets, List.nodup_reverse]
  exact List.nodup_range'

/-- The new copies come after the old cells. -/
theorem CopiedElements.range (hc : h.CopiedElements items pending copied pending' h' fresh) {pair : Nat × Nat}
    (hpair : pair ∈ fresh) : h.size ≤ pair.2 ∧ pair.2 < h'.size := by
  have hmem : pair.2 ∈ fresh.map Prod.snd := List.mem_map_of_mem hpair
  have hsize := hc.size
  rw [hc.targets, List.mem_reverse, List.mem_range'_1] at hmem
  omega

/-- Copying elements adds cells. -/
theorem Copies.grown (hc : h.Copies items pending copied pending' h') : h.Grown h' := ⟨hc.size, hc.old⟩

/-- Copying elements adds empty cells, so that the heap stays closed. -/
theorem Copies.closed (hc : h.Copies items pending copied pending' h') (hclosed : h.Closed) : h'.Closed := by
  intro id x hx
  by_cases hid : id < h.size
  · rw [hc.grown.held hid] at hx
    exact (hclosed id x hx).mono hc.size
  · rw [hc.fresh id (Nat.le_of_not_lt hid)] at hx
    exact absurd hx List.not_mem_nil

/-- Empty cells bring no references. -/
theorem Copies.references (hc : h.Copies items pending copied pending' h') (c : Nat) :
    h'.references c = h.references c := by
  have hsub : Finset.range h.size ⊆ Finset.range h'.size := Finset.range_subset_range.2 hc.size
  unfold Heap.references
  rw [← Finset.sum_subset hsub fun id _ hid => ?_]
  · refine Finset.sum_congr rfl fun id hid => ?_
    rw [hc.grown.held (Finset.mem_range.1 hid)]
  · rw [hc.fresh id (Nat.le_of_not_lt fun hlt => hid (Finset.mem_range.2 hlt))]
    rfl

/-- Replacing the elements of a new cell leaves the old ones alone. -/
theorem Grown.setItems (hg : h₀.Grown h) (hid : h₀.size ≤ id) : h₀.Grown (h.setItems id items) := by
  refine ⟨?_, fun other hother => ?_⟩
  · rw [size_setItems]
    exact hg.size
  · rw [cells_setItems_of_ne (by omega)]
    exact hg.old other hother

namespace CopyWalk

/-- The walk has left the cells of an earlier heap alone, and writes newer ones only. -/
structure Spares (h₀ : Heap) (w : CopyWalk) : Prop where
  /-- Cells were added. -/
  grown : h₀.Grown w.heap
  /-- The copies are new. -/
  targets : ∀ pair ∈ w.pending, h₀.size ≤ pair.2

/-- A copy starts with a new cell. -/
theorem spares_start (h : Heap) (source : Nat) : Spares h (start h source) := by
  refine ⟨grown_alloc h _, fun pair hpair => ?_⟩
  rw [List.mem_singleton.1 hpair]

/-- A round leaves the older cells alone. -/
theorem Spares.round {limit : Nat} {w w' : CopyWalk} (hround : Round limit w w') (hw : Spares h₀ w) :
    Spares h₀ w' := by
  cases hround with
  | @copy h source target visited rest =>
    have hcopies := copies_copyElements h (h.items source) rest
    obtain ⟨fresh, hfresh⟩ := copyElements_copies h (h.items source) rest
    refine ⟨(hw.grown.trans hcopies.grown).setItems (hw.targets _ List.mem_cons_self), fun pair hpair => ?_⟩
    have hmem : pair ∈ fresh ++ rest := hfresh.pending ▸ hpair
    rcases List.mem_append.1 hmem with hpair | hpair
    · exact Nat.le_trans hw.grown.size (hfresh.range hpair).1
    · exact hw.targets pair (List.mem_cons_of_mem _ hpair)

/-- **A walk leaves the older cells alone**, whether it succeeds or is given up. -/
theorem Spares.reaches {limit : Nat} {w w' : CopyWalk} (hw : Spares h₀ w) (hreaches : Reaches limit w w') :
    Spares h₀ w' := hreaches.keeps (fun _ _ => round) hw

end CopyWalk

/-- **Copying a value adds cells**, whatever there is in the heap. -/
theorem grown_copyValue {x y : Item} {limit : Nat} (hrun : h.copyValue x limit = .ok (y, h')) : h.Grown h' := by
  unfold copyValue at hrun
  split at hrun
  · rename_i source
    obtain ⟨-, _, hspares⟩ :=
      copyStruct_keeps (fun _ _ => CopyWalk.Spares.round) (CopyWalk.spares_start h source) hrun
    exact hspares.grown
  · cases hrun
    exact Grown.refl h

/-- **A copy is filled.** -/
theorem Copying.step (hclosed : h₀.Closed) (hgrown : h₀.Grown h₁)
    (hf : Copying h₀ h₁ h root pairs ((source, target) :: rest))
    (hc : h.Copies (h.items source) rest copied pending' h')
    (hfresh : h.CopiedElements (h.items source) rest copied pending' h' fresh) :
    Copying h₀ h₁ (h'.setItems target copied) root (fresh ++ pairs) pending' := by
  obtain ⟨hpair', hempty⟩ := hf.waiting _ List.mem_cons_self
  obtain ⟨hsource, htarget, hlt⟩ := hf.range _ hpair'
  have hgrown' := hgrown.trans hf.grown
  -- The elements of the source are those of the first heap.
  have hitems : h.items source = h₀.items source := hgrown'.items hsource
  have hold : ∀ x ∈ h.items source, ∀ c, x.cell? = some c → c < h₀.size := by
    intro x hx c hcell
    rw [hitems] at hx
    exact hclosed source x (mem_held_of_mem_items hx) c hcell
  have hsize := h'.size_setItems target copied
  have hle := hc.size
  have hin : target < h'.size := Nat.lt_of_lt_of_le hlt hle
  have hheld : ∀ id, id ≠ target → (h'.setItems target copied).held id = h'.held id :=
    fun id hne => by rw [held, cells_setItems_of_ne hne, held]
  have hother : ∀ id, id ≠ target → (h'.setItems target copied).items id = h'.items id :=
    fun id hne => by rw [Heap.items, cells_setItems_of_ne hne, Heap.items]
  -- The copied elements bring one reference to each new cell.
  have hreferences : ∀ c, h₀.size ≤ c → (h'.setItems target copied).references c =
      h.references c + if h.size ≤ c ∧ c < h'.size then 1 else 0 := by
    intro c hc'
    have hwrite := references_write hsize hin (fun _ hne => cells_setItems_of_ne hne) c
    rw [held_setItems_self hin, hc.grown.held hlt, hempty, hc.references c,
      hfresh.references c fun x hx hcell => absurd (hold x hx c hcell) (Nat.not_lt.2 hc')] at hwrite
    exact hwrite
  have hrest := hf.once
  rw [List.map_cons, List.nodup_cons] at hrest
  have hne : ∀ pair ∈ rest, pair.2 ≠ target := fun pair hpair heq =>
    hrest.1 (List.mem_map.2 ⟨pair, hpair, heq⟩)
  constructor
  · -- Only a new cell was written.
    exact (hf.grown.trans hc.grown).setItems htarget
  · refine (writes_setItems fun x hx => Or.inr hx).closed (hc.closed hf.closed) fun x hx c hcell => ?_
    rcases hc.copied x hx c hcell with ⟨y, hy, hcell⟩ | ⟨-, hlt'⟩
    · have := hold y hy c hcell
      have := hgrown'.size
      omega
    · exact hlt'
  · have := hf.exists_root
    omega
  · intro pair hpair
    rcases List.mem_append.1 hpair with hpair | hpair
    · have hnew := hfresh.range hpair
      exact ⟨hold _ (hfresh.sources pair hpair) _ rfl, by omega, by omega⟩
    · have := hf.range pair hpair
      omega
  · intro pair hpair other hother heq
    rcases List.mem_append.1 hpair with hpair | hpair <;> rcases List.mem_append.1 hother with hother | hother
    · exact List.inj_on_of_nodup_map hfresh.nodup hpair hother heq
    · have hnew := hfresh.range hpair
      have := hf.range other hother
      omega
    · have hnew := hfresh.range hother
      have := hf.range pair hpair
      omega
    · exact hf.sources pair hpair other hother heq
  · intro pair hpair
    rw [hfresh.pending] at hpair
    rcases List.mem_append.1 hpair with hpair | hpair
    · have hnew := hfresh.range hpair
      rw [hheld pair.2 (by omega)]
      exact ⟨List.mem_append_left _ hpair, hc.fresh pair.2 hnew.1⟩
    · obtain ⟨hmem, hnone⟩ := hf.waiting pair (List.mem_cons_of_mem _ hpair)
      rw [hheld pair.2 (hne pair hpair), hc.grown.held (hf.range pair hmem).2.2]
      exact ⟨List.mem_append_right _ hmem, hnone⟩
  · rw [hfresh.pending, List.map_append, List.nodup_append]
    refine ⟨hfresh.nodup, hrest.2, fun a ha b hb heq => ?_⟩
    obtain ⟨pair, hpair, rfl⟩ := List.mem_map.1 ha
    obtain ⟨other, hother, rfl⟩ := List.mem_map.1 hb
    have hnew := hfresh.range hpair
    have := hf.range other (hf.waiting other (List.mem_cons_of_mem _ hother)).1
    omega
  · intro pair hpair hnot
    rw [hfresh.pending, List.mem_append, not_or] at hnot
    have hmem := (List.mem_append.1 hpair).resolve_left hnot.1
    by_cases htarget' : pair.2 = target
    · -- The copy that was filled now.
      obtain rfl : pair = (source, target) := hf.sources pair hmem _ hpair' htarget'
      rw [items_setItems_self hin, ← hitems]
      exact hfresh.elements.imp fun _ _ h => h.mono (List.subset_append_left _ _)
    · have hbefore : pair ∉ (source, target) :: rest := by
        rw [List.mem_cons, not_or]
        exact ⟨fun heq => htarget' (congrArg Prod.snd heq), hnot.2⟩
      rw [hother pair.2 htarget', hc.grown.items (hf.range pair hmem).2.2]
      exact (hf.filled pair hmem hbefore).imp fun _ _ h => h.mono (List.subset_append_right _ _)
  · intro c hge hc'
    have hroot := hf.exists_root
    rw [hreferences c (Nat.le_trans hgrown.size hge)]
    by_cases hold' : c < h.size
    · rw [if_neg (by omega), hf.references c hge hold', Nat.add_zero]
    · rw [hf.closed.references_eq_zero (Nat.le_of_not_lt hold'), if_pos (by omega), if_neg (by omega)]
  · intro c hge hc'
    have := hf.grown.size
    rw [hreferences c hge, if_neg (by omega), hf.others c hge hc', Nat.add_zero]

/-- The structs in a filled copy are copies. -/
theorem Copying.nested (hf : Copying h₀ h₁ h root pairs []) {a b : Nat} (ha : ∃ source, (source, a) ∈ pairs)
    (hnested : h.Nested a b) : ∃ source, (source, b) ∈ pairs := by
  induction hnested with
  | refl => exact ha
  | @tail b c _ hbc ih =>
    obtain ⟨source, hpair⟩ := ih
    obtain ⟨x, -, hcopied⟩ := exists_of_mem_right (hf.filled _ hpair List.not_mem_nil) hbc
    cases hcopied with
    | struct hpair' => exact ⟨_, hpair'⟩
    | other hx => exact absurd rfl (hx c)

/-- **A filled copy unfolds to what its source unfolds to.** -/
theorem Copying.unfold (hf : Copying h₀ h₁ h root pairs []) (depth : Nat) :
    ∀ source copy, (source, copy) ∈ pairs → h.unfold depth (.struct copy) = h₀.unfold depth (.struct source) := by
  induction depth with
  | zero => exact fun _ _ _ => rfl
  | succ depth ih =>
    intro source copy hpair
    have helements : List.Forall₂ (CopiedItem pairs) (h₀.items source) (h.items copy) :=
      hf.filled _ hpair List.not_mem_nil
    have hunfold : List.Forall₂ (· = ·) ((h₀.items source).map (h₀.unfold depth))
        ((h.items copy).map (h.unfold depth)) := by
      refine List.forall₂_map_left_iff.2 (List.forall₂_map_right_iff.2 (helements.imp fun x y hxy => ?_))
      cases hxy with
      | struct hpair' => exact (ih _ _ hpair').symm
      | other hx => rw [unfold_item hx, unfold_item hx]
    rw [List.forall₂_eq_eq_eq] at hunfold
    exact congrArg Unfolding.struct hunfold.symm

end

/-! ## Copies -/

/-- **A copy of a struct** of an earlier heap that nothing refers to yet: it unfolds to the same tree, its structs
are new, and one reference leads to each struct nested in it. -/
structure Copy (h₀ h : Heap) (source copy : Nat) : Prop where
  /-- The structs of the copy are new. -/
  created : ∀ c, h.Nested copy c → h₀.size ≤ c ∧ c < h.size
  /-- The unfolding. -/
  unfolds : ∀ depth, h.unfold depth (.struct copy) = h₀.unfold depth (.struct source)
  /-- The references to the structs of the copy. -/
  references : ∀ c, h.Nested copy c → h.references c = if c = copy then 0 else 1

variable {source copy limit : Nat} {x y : Item}

/-- A copy in a later heap in which its structs are the same, and nothing else refers to them. -/
theorem Copy.later (hcopy : Copy h₀ h source copy) (hgrown : h.Grown h')
    (hreferences : ∀ c, h₀.size ≤ c → c < h.size → h'.references c = h.references c) :
    Copy h₀ h' source copy := by
  have hsame : ∀ c, h.Nested copy c → h'.items c = h.items c := fun c hc => hgrown.items (hcopy.created c hc).2
  refine ⟨fun c hc => ?_, fun depth => ?_, fun c hc => ?_⟩
  · obtain ⟨hge, hlt⟩ := hcopy.created c (hc.congr hsame)
    exact ⟨hge, Nat.lt_of_lt_of_le hlt hgrown.size⟩
  · rw [unfold_congr hsame]
    exact hcopy.unfolds depth
  · have hc' := hc.congr hsame
    obtain ⟨hge, hlt⟩ := hcopy.created c hc'
    rw [hreferences c hge hlt]
    exact hcopy.references c hc'

/-- An item and what the machine hands on for it: a copy for a struct, any other item as it is. -/
inductive CopiedValue (h₀ h : Heap) : Item → Item → Prop where
  /-- A struct. -/
  | struct {source copy : Nat} (hcopy : Copy h₀ h source copy) : CopiedValue h₀ h (.struct source) (.struct copy)
  /-- Any other item. -/
  | other {x : Item} (hx : ∀ id, x ≠ .struct id) : CopiedValue h₀ h x x

/-- The result of a copy of an item of the heap `h₀`, made in the later heap `h₁`. -/
structure CopyStep (h₀ h₁ h : Heap) (x y : Item) : Prop where
  /-- Cells were added. -/
  grown : h₁.Grown h
  /-- All containers that the heap holds exist. -/
  closed : h.Closed
  /-- The copy. -/
  value : CopiedValue h₀ h x y
  /-- The copy of a struct is none of the structs from before. -/
  fresh : ∀ id, y = .struct id → h₁.size ≤ id ∧ id < h.size
  /-- What was there before the copy, but is not of the first heap, gets no references. -/
  others : ∀ c, h₀.size ≤ c → c < h₁.size → h.references c = h₁.references c

/-- **A copied struct.** -/
theorem copy_copyStruct (hclosed : h₀.Closed) (hgrown : h₀.Grown h₁) (hclosed₁ : h₁.Closed)
    (hsource : source < h₀.size) (hrun : h₁.copyStruct source limit = .ok (y, h)) :
    CopyStep h₀ h₁ h (.struct source) y := by
  have hsize := h₁.size_alloc (.list [])
  have hnothing : h₁.Closed → (h₁.alloc (.list [])).2.Closed :=
    fun hclosed => (extends_alloc_list fun x hx => absurd hx List.not_mem_nil).closed hclosed
  have hempty : (h₁.alloc (.list [])).2.held h₁.size = [] := by
    refine List.eq_nil_iff_forall_not_mem.2 fun x hx => ?_
    exact absurd (held_alloc_of_le (Nat.le_refl _) hx).2 List.not_mem_nil
  have hstart : Copying h₀ h₁ (h₁.alloc (.list [])).2 h₁.size [(source, h₁.size)] [(source, h₁.size)] := by
    refine ⟨grown_alloc h₁ _, hnothing hclosed₁, by omega, ?_, ?_, ?_, List.nodup_singleton _, ?_, ?_, ?_⟩
    · intro pair hpair
      rw [List.mem_singleton.1 hpair]
      exact ⟨hsource, Nat.le_refl _, by omega⟩
    · intro pair hpair other hother _
      rw [List.mem_singleton.1 hpair, List.mem_singleton.1 hother]
    · intro pair hpair
      rw [List.mem_singleton.1 hpair]
      exact ⟨List.mem_cons_self, hempty⟩
    · exact fun pair hpair hnot => absurd hpair hnot
    · intro c hge hlt
      obtain rfl : c = h₁.size := by omega
      rw [if_pos rfl, references_alloc, hclosed₁.references_eq_zero (Nat.le_refl _)]
      rfl
    · intro c _ _
      rw [references_alloc]
      rfl
  have hround : ∀ w w', CopyWalk.Round limit w w' →
      (∃ pairs, (source, h₁.size) ∈ pairs ∧ Copying h₀ h₁ w.heap h₁.size pairs w.pending) →
      ∃ pairs, (source, h₁.size) ∈ pairs ∧ Copying h₀ h₁ w'.heap h₁.size pairs w'.pending := by
    rintro _ _ ⟨-⟩ ⟨pairs, hroot, hf⟩
    obtain ⟨fresh, hfresh⟩ := copyElements_copies _ _ _
    exact ⟨fresh ++ pairs, List.mem_append_right _ hroot,
      hf.step hclosed hgrown (copies_copyElements _ _ _) hfresh⟩
  obtain ⟨rfl, _, pairs, hroot, hall⟩ := copyStruct_keeps hround ⟨_, List.mem_cons_self, hstart⟩ hrun
  have hnested : ∀ c, h.Nested h₁.size c → h₁.size ≤ c ∧ c < h.size := by
    intro c hc
    obtain ⟨_, hpair⟩ := hall.nested ⟨source, hroot⟩ hc
    exact (hall.range _ hpair).2
  refine ⟨hall.grown, hall.closed, .struct ⟨fun c hc => ?_, fun depth => ?_, fun c hc => ?_⟩, ?_, hall.others⟩
  · obtain ⟨hge, hlt⟩ := hnested c hc
    exact ⟨Nat.le_trans hgrown.size hge, hlt⟩
  · exact hall.unfold depth source _ hroot
  · obtain ⟨hge, hlt⟩ := hnested c hc
    exact hall.references c hge hlt
  · rintro _ ⟨⟩
    exact ⟨Nat.le_refl _, hall.exists_root⟩

/-- **A copied item.** -/
theorem copy_copyValue (hclosed : h₀.Closed) (hgrown : h₀.Grown h₁) (hclosed₁ : h₁.Closed) (hx : x.In h₀)
    (hrun : h₁.copyValue x limit = .ok (y, h)) : CopyStep h₀ h₁ h x y := by
  unfold copyValue at hrun
  split at hrun
  · rename_i id
    exact copy_copyStruct hclosed hgrown hclosed₁ (hx id rfl) hrun
  · rename_i hother
    cases hrun
    exact ⟨Grown.refl h, hclosed₁, .other fun id heq => hother id heq, fun id heq => absurd heq (hother id),
      fun _ _ _ => rfl⟩

end Heap

end ScriptMachine
