import Mathlib.Algebra.Order.BigOperators.Group.List
import ScriptMachine.Proofs.ByteViews
import ScriptMachine.Proofs.Heap.Copies

/-! # Items of the same shape

Two items, each one in a heap of its own, have the same shape if they are containers of the same kind and length
whose parts have the same shape, or primitive items with the same byte view. `Heap.Rebuilt` says in addition that all
containers of the second item are new. This survives the addition of containers and the writing of others, and it is
handed on to a copy: a struct whose nested elements are no more than the bound is copied, and the copy has the shape of
the struct.

* `Heap.Rebuilt`, `Heap.Rebuilt.mono`: the same shape, in new containers.
* `Heap.spread`, `Heap.Rebuilt.spread`: the number of elements that a walk through nested structs meets.
* `Heap.exists_copyStruct_iff`, `Heap.exists_copyValue`: when a copy succeeds.
* `Heap.Rebuilt.copied`: the shape of a copy.
-/

namespace ScriptMachine

namespace Heap

variable {h h' h₀ h₁ h₂ : Heap} {lo lo' : Nat} {x y z : Item}

/-- **The item `y` of `h'` has the shape of the item `x` of `h`**, and its containers are cells from `lo` on. -/
inductive Rebuilt (h h' : Heap) (lo : Nat) : Item → Item → Prop where
  /-- Primitive items with the same byte view; the kind may differ. -/
  | primitive {x y : Item} {view : Bytes} (hx : x.byteView = .ok view) (hy : y.byteView = .ok view)
    (hcanonical : y.Canonical) : Rebuilt h h' lo x y
  /-- Two arrays or two structs, element for element. -/
  | list {x y : Item} {a b : Nat} (hx : x.listCell? = some a) (hy : y.listCell? = some b) (hkind : y.kind = x.kind)
    (hnew : lo ≤ b ∧ b < h'.size) (hlength : (h'.items b).length = (h.items a).length)
    (hitems : ∀ i (hi : i < (h.items a).length) (hi' : i < (h'.items b).length),
      Rebuilt h h' lo (h.items a)[i] (h'.items b)[i]) : Rebuilt h h' lo x y
  /-- Two maps, entry for entry. -/
  | map {a b : Nat} (hnew : lo ≤ b ∧ b < h'.size) (hlength : (h'.entries b).length = (h.entries a).length)
    (hkeys : ∀ i (hi : i < (h.entries a).length) (hi' : i < (h'.entries b).length),
      Rebuilt h h' lo (h.entries a)[i].1 (h'.entries b)[i].1)
    (hvalues : ∀ i (hi : i < (h.entries a).length) (hi' : i < (h'.entries b).length),
      Rebuilt h h' lo (h.entries a)[i].2 (h'.entries b)[i].2) : Rebuilt h h' lo (.map a) (.map b)

namespace Rebuilt

/-- The containers of a rebuilt item exist. -/
theorem exists_cell (hy : h.Rebuilt h' lo x y) : y.In h' := by
  intro id hid
  cases hy with
  | primitive _ hy _ =>
    rw [Item.cell?_of_byteView hy] at hid
    cases hid
  | list _ hy _ hnew _ _ =>
    obtain rfl := Option.some.inj ((Item.cell?_of_listCell? hy).symm.trans hid)
    exact hnew.2
  | map hnew _ _ _ =>
    cases hid
    exact hnew.2

/-- A rebuilt primitive item has the same byte view. -/
theorem exists_byteView (hy : h.Rebuilt h' lo x y) (hx : x.isCompound = false) :
    ∃ view, x.byteView = .ok view ∧ y.byteView = .ok view ∧ y.Canonical := by
  cases hy with
  | primitive hx hy hcanonical => exact ⟨_, hx, hy, hcanonical⟩
  | list hlist _ _ _ _ _ =>
    cases x with
    | array _ | struct _ => cases hx
    | _ => cases hlist
  | map => cases hx

/-- **A rebuilt item stays rebuilt** as long as the cells from `lo` on are the same. -/
theorem mono (hy : h.Rebuilt h' lo x y) (hlo : lo' ≤ lo) (hsize : h'.size ≤ h₁.size)
    (hsame : ∀ c, lo ≤ c → c < h'.size → h₁.cells[c]? = h'.cells[c]?) : h.Rebuilt h₁ lo' x y := by
  have hnew : ∀ b, lo ≤ b ∧ b < h'.size → lo' ≤ b ∧ b < h₁.size := fun b hb =>
    ⟨Nat.le_trans hlo hb.1, Nat.lt_of_lt_of_le hb.2 hsize⟩
  induction hy with
  | primitive hx hy hcanonical => exact .primitive hx hy hcanonical
  | @list x y a b hx hy hkind hb hlength _ ih =>
    have hitems : h₁.items b = h'.items b := by rw [items, hsame b hb.1 hb.2, items]
    refine .list hx hy hkind (hnew b hb) ?_ ?_
    · rw [hitems]
      exact hlength
    · simpa only [hitems] using ih
  | @map a b hb hlength _ _ hkeys hvalues =>
    have hentries : h₁.entries b = h'.entries b := by rw [entries, hsame b hb.1 hb.2, entries]
    refine .map (hnew b hb) ?_ ?_ ?_
    · rw [hentries]
      exact hlength
    · simpa only [hentries] using hkeys
    · simpa only [hentries] using hvalues

/-- A rebuilt item stays rebuilt when containers are added. -/
theorem grown (hy : h.Rebuilt h' lo x y) (hlo : lo' ≤ lo) (hgrown : h'.Grown h₁) : h.Rebuilt h₁ lo' x y :=
  hy.mono hlo hgrown.size fun c _ hc => hgrown.old c hc

end Rebuilt

/-! ## New lists -/

/-- The elements of a new list. -/
theorem items_alloc (h : Heap) (items : List Item) : (h.alloc (.list items)).2.items h.size = items := by
  have hcell : (h.alloc (.list items)).2.cells[h.size]? = some (.list items) := Array.getElem?_push_size
  rw [Heap.items, hcell]

/-- A new list of rebuilt elements is a rebuilt list. -/
theorem rebuilt_alloc {id : Nat} {ys : List Item} (hx : x.listCell? = some id) (hy : y.listCell? = some h₁.size)
    (hkind : y.kind = x.kind) (hgrown : h₀.Grown h₁) (hys : List.Forall₂ (h.Rebuilt h₁ h₀.size) (h.items id) ys) :
    h.Rebuilt (h₁.alloc (.list ys)).2 h₀.size x y := by
  have hitems := items_alloc h₁ ys
  have hrebuilt := List.forall₂_iff_get.1 (hys.imp fun _ _ hy => hy.grown (Nat.le_refl _) (grown_alloc h₁ (.list ys)))
  refine .list hx hy hkind ⟨hgrown.size, ?_⟩ ?_ fun i hi hi' => ?_
  · rw [size_alloc]
    exact Nat.lt_succ_self _
  · rw [hitems]
    exact hys.length_eq.symm
  · simp only [hitems] at hi' ⊢
    exact hrebuilt.2 i hi hi'

/-- A new list of elements that exist. -/
theorem closed_alloc {xs ys : List Item} (hclosed : h₁.Closed) (hys : List.Forall₂ (h.Rebuilt h₁ lo) xs ys) :
    (h₁.alloc (.list ys)).2.Closed := by
  refine (extends_alloc_list fun y hy => ?_).closed hclosed
  obtain ⟨x, -, hrebuilt⟩ := exists_of_mem_right hys hy
  exact hrebuilt.exists_cell

/-! ## The elements of nested structs -/

/-- The number of elements that a walk through the structs of an item meets, down to a depth: all elements of the
struct, and of the structs nested in it. -/
def spread (h : Heap) : (depth : Nat) → Item → Nat
  | depth + 1, .struct id => (h.items id).length + ((h.items id).map (h.spread depth)).sum
  | _, _ => 0

/-- An item that is no struct has no such elements. -/
theorem spread_of_ne (hx : ∀ id, x ≠ .struct id) (depth : Nat) : h.spread depth x = 0 := by
  cases x with
  | struct id => exact absurd rfl (hx id)
  | _ => cases depth <;> rfl

/-- Deeper walks meet more elements. -/
theorem spread_le_succ (depth : Nat) : ∀ x, h.spread depth x ≤ h.spread (depth + 1) x := by
  induction depth with
  | zero => exact fun x => Nat.zero_le _
  | succ depth ih =>
    intro x
    obtain ⟨id, rfl⟩ | hother := x.struct_or_other
    · exact Nat.add_le_add_left (List.sum_le_sum fun y _ => ih y) _
    · rw [spread_of_ne hother]
      exact Nat.zero_le _

/-- **Items of the same shape have as many nested elements.** -/
theorem Rebuilt.spread (hy : h.Rebuilt h' lo x y) : ∀ depth, h'.spread depth y = h.spread depth x := by
  induction hy with
  | @primitive x y view hx hy _ =>
    have hother : ∀ x : Item, x.byteView = .ok view → ∀ id, x ≠ .struct id := by
      rintro _ hview id rfl
      cases hview
    intro depth
    rw [spread_of_ne (hother x hx), spread_of_ne (hother y hy)]
  | @list x y a b hx hy hkind _ hlength _ ih =>
    rintro (_ | depth)
    · cases x <;> cases y <;> rfl
    have hmap : (h'.items b).map (h'.spread depth) = (h.items a).map (h.spread depth) := by
      refine List.ext_getElem (by simpa using hlength) fun i hi hi' => ?_
      rw [List.getElem_map, List.getElem_map]
      exact ih i (by simpa using hi') (by simpa using hi) depth
    cases x <;> cases y <;> cases hx <;> cases hy <;> cases hkind
    · rfl
    · show (h'.items b).length + _ = (h.items a).length + _
      rw [hlength, hmap]
  | map => exact fun depth => by cases depth <;> rfl

/-- The pending structs after copying elements: the structs among the elements were added. -/
theorem sum_copyElements (weight : Item → Nat) (hweight : ∀ x, (∀ id, x ≠ .struct id) → weight x = 0) (h : Heap)
    (items : List Item) (pending : List (Nat × Nat)) :
    ((copyElements h items pending).2.1.map fun pair => weight (.struct pair.1)).sum =
      (items.map weight).sum + (pending.map fun pair => weight (.struct pair.1)).sum := by
  fun_induction copyElements h items pending with
  | case1 => simp
  | case2 h child rest pending copy h₁ hcopy copied pending' h₂ hrest ih =>
    rw [hrest] at ih
    simp only [ih, List.map_cons, List.sum_cons]
    omega
  | case3 h item rest pending hitem copied pending' h' hrest ih =>
    rw [hrest] at ih
    rw [ih, List.map_cons, List.sum_cons, hweight item fun id heq => hitem id heq, Nat.zero_add]

namespace CopyWalk

/-- The walk copies structs of an earlier heap, and has met no more elements than the bound. -/
structure Draws (h₀ : Heap) (limit : Nat) (w : CopyWalk) : Prop extends Spares h₀ w where
  /-- The sources are structs of the earlier heap. -/
  sources : ∀ pair ∈ w.pending, pair.1 < h₀.size
  /-- The elements that were met. -/
  visited_le : w.visited ≤ limit

/-- The elements that were met, and all that are still to meet, are within the bound. -/
def Fits (h₀ : Heap) (limit : Nat) (w : CopyWalk) : Prop :=
  ∀ depth, w.visited + (w.pending.map fun pair => h₀.spread depth (.struct pair.1)).sum ≤ limit

variable {limit : Nat} {w w' : CopyWalk} {result : Except Fault Heap}

/-- A round goes on to structs in the source, and is within the bound. -/
theorem Draws.round (hclosed : h₀.Closed) (hround : Round limit w w') (hw : Draws h₀ limit w) :
    Draws h₀ limit w' := by
  refine ⟨hw.toSpares.round hround, ?_, ?_⟩ <;> cases hround with
    | @copy h source target visited rest hroom => ?_
  · obtain ⟨fresh, hfresh⟩ := copyElements_copies h (h.items source) rest
    intro pair hpair
    have hmem : pair ∈ fresh ++ rest := hfresh.pending ▸ hpair
    rcases List.mem_append.1 hmem with hpair | hpair
    · have hchild := hfresh.sources pair hpair
      rw [hw.grown.items (hw.sources _ List.mem_cons_self)] at hchild
      exact hclosed source _ (mem_held_of_mem_items hchild) _ rfl
    · exact hw.sources pair (List.mem_cons_of_mem _ hpair)
  · exact hroom

/-- A round takes the elements that it meets off the source. -/
theorem Draws.fits_iff (hround : Round limit w w') (hw : Draws h₀ limit w) :
    w.Fits h₀ limit ↔ w'.Fits h₀ limit := by
  cases hround with
  | @copy h source target visited rest =>
    have hsource : h.items source = h₀.items source := hw.grown.items (hw.sources _ List.mem_cons_self)
    have hnext : ∀ depth, ((copyElements h (h.items source) rest).2.1.map fun pair =>
        h₀.spread depth (.struct pair.1)).sum = ((h₀.items source).map (h₀.spread depth)).sum +
          (rest.map fun pair => h₀.spread depth (.struct pair.1)).sum := by
      intro depth
      rw [sum_copyElements (h₀.spread depth) (fun x hx => spread_of_ne hx depth), hsource]
    have hhead : ∀ depth, h₀.spread (depth + 1) (.struct source) =
      (h₀.items source).length + ((h₀.items source).map (h₀.spread depth)).sum := fun _ => rfl
    simp only [Fits, next, List.map_cons, List.sum_cons, hnext]
    rw [hsource]
    constructor
    · intro hbound depth
      have htotal := hbound (depth + 1)
      have hrest : (rest.map fun pair => h₀.spread depth (.struct pair.1)).sum ≤
          (rest.map fun pair => h₀.spread (depth + 1) (.struct pair.1)).sum :=
        List.sum_le_sum fun pair _ => spread_le_succ depth _
      rw [hhead] at htotal
      omega
    · intro hbound depth
      have htotal := hbound depth
      have hsucc := spread_le_succ (h := h₀) depth (.struct source)
      rw [hhead] at hsucc
      omega

/-- At the end, all elements were met. -/
theorem Draws.ends_iff (hw : Draws h₀ limit w) (hends : Ends limit w result) :
    (∃ h, result = .ok h) ↔ w.Fits h₀ limit := by
  cases hends with
  | done h visited => exact ⟨fun _ _ => hw.visited_le, fun _ => ⟨h, rfl⟩⟩
  | @tooLarge h source target visited rest hlimit =>
    refine ⟨fun hok => ?_, fun hbound => ?_⟩
    · obtain ⟨_, ⟨⟩⟩ := hok
    · have hsource : h.items source = h₀.items source := hw.grown.items (hw.sources _ List.mem_cons_self)
      have hone : (h.items source).length ≤ h₀.spread 1 (.struct source) := by
        rw [hsource]
        exact Nat.le_add_right _ _
      have htotal := hbound 1
      simp only [List.map_cons, List.sum_cons] at htotal
      omega

end CopyWalk

/-- **A copy of a struct succeeds** exactly if it has no more nested elements than the bound at any depth. -/
theorem exists_copyStruct_iff (hclosed : h.Closed) {id limit : Nat} (hid : id < h.size) :
    (∃ r, h.copyStruct id limit = .ok r) ↔ ∀ depth, h.spread depth (.struct id) ≤ limit := by
  have hstart : CopyWalk.Draws h limit (.start h id) := by
    refine ⟨CopyWalk.spares_start h id, fun pair hpair => ?_, Nat.zero_le _⟩
    rw [List.mem_singleton.1 hpair]
    exact hid
  have hfits : (CopyWalk.start h id).Fits h limit ↔ ∀ depth, h.spread depth (.struct id) ≤ limit := by
    simp [CopyWalk.Fits, CopyWalk.start]
  obtain ⟨w, result, hreaches, hends, heq⟩ := copyStruct_ends limit h id
  obtain ⟨hdraws, hiff⟩ : w.Draws h limit ∧ ((CopyWalk.start h id).Fits h limit ↔ w.Fits h limit) :=
    hreaches.keeps (P := fun w => w.Draws h limit ∧ ((CopyWalk.start h id).Fits h limit ↔ w.Fits h limit))
      (fun w w' hround hw => ⟨hw.1.round hclosed hround, hw.2.trans (hw.1.fits_iff hround)⟩) ⟨hstart, Iff.rfl⟩
  rw [← hfits, hiff, ← hdraws.ends_iff hends, heq]
  cases result <;> simp [Except.map]

/-- A copy of an item succeeds if it has no more nested elements than the bound. -/
theorem exists_copyValue (hclosed : h.Closed) (hx : x.In h) {limit : Nat} (hbound : ∀ depth, h.spread depth x ≤ limit) :
    ∃ y h', h.copyValue x limit = .ok (y, h') := by
  obtain ⟨id, rfl⟩ | hother := x.struct_or_other
  · obtain ⟨⟨y, h'⟩, hcopy⟩ := (exists_copyStruct_iff hclosed (hx id rfl)).2 hbound
    exact ⟨y, h', hcopy⟩
  · refine ⟨x, h, ?_⟩
    unfold copyValue
    split
    · exact absurd rfl (hother _)
    · rfl

/-! ## The shape of a copy -/

/-- Two items that unfold to the same: if the first one is no struct, they are the same. -/
theorem eq_of_unfold (hy : ∀ id, y ≠ .struct id) (hz : ∀ depth, h₂.unfold depth z = h₁.unfold depth y) : z = y := by
  have hzero := hz 0
  rw [unfold_item hy] at hzero
  obtain ⟨id, rfl⟩ | hother := z.struct_or_other
  · cases hzero
  · rw [unfold_item hother] at hzero
    exact Unfolding.item.inj hzero

/-- Two items that unfold to the same: if the first one is a struct, so is the second one, and their elements unfold
to the same. -/
theorem exists_of_unfold {b : Nat} (hz : ∀ depth, h₂.unfold depth z = h₁.unfold depth (.struct b)) :
    ∃ c, z = .struct c ∧ ∀ depth, (h₂.items c).map (h₂.unfold depth) = (h₁.items b).map (h₁.unfold depth) := by
  obtain ⟨c, rfl⟩ | hother := z.struct_or_other
  · exact ⟨c, rfl, fun depth => Unfolding.struct.inj (hz (depth + 1))⟩
  · have hzero := hz 0
    rw [unfold_item hother] at hzero
    cases hzero

/-- An item in new structs that unfolds to a rebuilt item is rebuilt. -/
theorem Rebuilt.of_unfold (hy : h.Rebuilt h₁ lo x y) (hgrown : h₁.Grown h₂)
    (hz : ∀ depth, h₂.unfold depth z = h₁.unfold depth y)
    (hnew : ∀ a c, z = .struct a → h₂.Nested a c → lo ≤ c ∧ c < h₂.size) : h.Rebuilt h₂ lo x z := by
  induction hy generalizing z with
  | primitive hx hy hcanonical =>
    obtain rfl := eq_of_unfold (by rintro id rfl; cases hy) hz
    exact .primitive hx hy hcanonical
  | @list x y a b hx hy hkind hb hlength hitems ih =>
    obtain ⟨_, rfl⟩ | hother := y.struct_or_other
    · cases hy
      obtain ⟨c, rfl, helements⟩ := exists_of_unfold hz
      have hsame : (h₂.items c).length = (h₁.items b).length := by
        simpa using congrArg List.length (helements 0)
      refine .list hx rfl hkind (hnew c c rfl .refl) (hsame.trans hlength) fun i hi hi' => ?_
      refine ih i hi (hsame ▸ hi') (fun depth => ?_) fun a' c' ha' hc' => ?_
      · have hget := congrArg (·[i]?) (helements depth)
        simpa [hi', hsame ▸ hi'] using hget
      · refine hnew c c' rfl (.head ?_ hc')
        rw [Nests, ← ha']
        exact List.getElem_mem hi'
    · obtain rfl := eq_of_unfold hother hz
      exact (Rebuilt.list hx hy hkind hb hlength hitems).grown (Nat.le_refl _) hgrown
  | map hb hlength hkeys hvalues =>
    obtain rfl := eq_of_unfold (by rintro id ⟨⟩) hz
    exact (Rebuilt.map hb hlength hkeys hvalues).grown (Nat.le_refl _) hgrown

/-- **A copy of a rebuilt item is rebuilt.** -/
theorem Rebuilt.copied (hy : h.Rebuilt h₁ lo x y) (hclosed : h₁.Closed) (hlo : lo ≤ h₁.size) {limit : Nat}
    (hcopy : h₁.copyValue y limit = .ok (z, h₂)) : h.Rebuilt h₂ lo x z := by
  have hstep := copy_copyValue hclosed (Grown.refl h₁) hclosed hy.exists_cell hcopy
  cases hstep.value with
  | struct hcopied =>
    refine hy.of_unfold hstep.grown hcopied.unfolds ?_
    rintro _ c ⟨⟩ hc
    obtain ⟨hge, hlt⟩ := hcopied.created c hc
    exact ⟨Nat.le_trans hlo hge, hlt⟩
  | other hx => exact hy.grown (Nat.le_refl _) hstep.grown

end Heap

end ScriptMachine
