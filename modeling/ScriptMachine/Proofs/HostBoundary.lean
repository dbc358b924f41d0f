import ScriptMachine.Heap.Basic
import ScriptMachine.Proofs.ItemCoercions

/-! # Items at the host boundary

A host gives and takes items as a kind and bytes. An item that is no container is read back from its bytes with its
content, a handle as a new handle; a container gives no bytes, and is read back as an empty one. So what was read from
any bytes is written by bytes of its own, which are read as the same content again: reading settles what a kind can
hold. The sizes that are asked for without the bytes are the sizes of these bytes.

* `Heap.SameContent`: items of one kind with the same content.
* `Heap.contents_ofTag`: reading an item leaves the containers as they are.
* `Heap.Settled`, `Heap.settled_ofTag`: items that their bytes tell all of; all items that were read.
* `Heap.Settled.reads_back`: such an item is read back.
* `Item.wireSize_eq`, `Item.byteViewSize_eq_map`: the sizes.
* `Heap.host_boundary_round_trips`: reading, writing and sizes together.
-/

namespace ScriptMachine

/-! ## Content -/

namespace Heap

/-- Two items of the same kind hold the same: the same value or bytes, or the same elements or entries. Which objects
they are does not matter. -/
inductive SameContent (h : Heap) : Item → Item → Prop
  /-- The same truth value. -/
  | boolean (b : Bool) : SameContent h (.boolean b) (.boolean b)
  /-- The same integer. -/
  | integer (v : Integer) : SameContent h (.integer v) (.integer v)
  /-- The same bytes. -/
  | bytes (i j : Nat) (data : Bytes) : SameContent h (.bytes i data) (.bytes j data)
  /-- Handles with the same bytes. -/
  | interop (i j : Nat) (data : Bytes) : SameContent h (.interop i data) (.interop j data)
  /-- Arrays of the same elements. -/
  | array {i j : Nat} (hitems : h.items i = h.items j) : SameContent h (.array i) (.array j)
  /-- Structs of the same elements. -/
  | struct {i j : Nat} (hitems : h.items i = h.items j) : SameContent h (.struct i) (.struct j)
  /-- Maps of the same entries. -/
  | map {i j : Nat} (hentries : h.entries i = h.entries j) : SameContent h (.map i) (.map j)

variable {h : Heap} {x y : Item}

/-- Items with the same content are of one kind. -/
theorem SameContent.kind (hxy : h.SameContent x y) : y.kind = x.kind := by cases hxy <;> rfl

/-- Items with the same content are written by the same bytes. -/
theorem SameContent.wireBytes (hxy : h.SameContent x y) : y.wireBytes = x.wireBytes := by cases hxy <;> rfl

/-! ## Reading -/

/-- A new empty container changes the content of no container, and adds none. -/
theorem contents_alloc_empty {cell : Cell} (hcell : cell = .list [] ∨ cell = .map []) (id : Nat) :
    (h.alloc cell).2.items id = h.items id ∧ (h.alloc cell).2.entries id = h.entries id := by
  unfold items entries alloc
  dsimp only
  rw [Array.getElem?_push]
  by_cases hid : id = h.cells.size
  · -- Past the end there was no content before.
    rw [if_pos hid, Array.getElem?_eq_none hid.ge]
    rcases hcell with rfl | rfl <;> exact ⟨rfl, rfl⟩
  · rw [if_neg hid]
    exact ⟨rfl, rfl⟩

/-- **Reading an item leaves the containers as they are.** -/
theorem contents_ofTag (h : Heap) (kind : ItemKind) (data : Bytes) (id : Nat) :
    (h.ofTag kind data).2.items id = h.items id ∧ (h.ofTag kind data).2.entries id = h.entries id := by
  cases kind with
  | array | struct => exact contents_alloc_empty (.inl rfl) id
  | map => exact contents_alloc_empty (.inr rfl) id
  | byteArray | boolean | integer | interop => exact ⟨rfl, rfl⟩

/-- The cell behind the last one has no content. -/
theorem contents_size (h : Heap) : h.items h.size = [] ∧ h.entries h.size = [] := by
  have hcell : h.cells[h.size]? = none := Array.getElem?_eq_none (Nat.le_refl _)
  unfold items entries
  rw [hcell]
  exact ⟨rfl, rfl⟩

/-- Kind and bytes tell all of the item: it is no container, or an empty one. Integers are in their chosen
representation. -/
structure Settled (h : Heap) (x : Item) : Prop where
  /-- The item is in its chosen representation. -/
  canonical : x.Canonical
  /-- A container is empty. -/
  empty : ∀ n, h.length? x = some n → n = 0

/-- What is no container is told by its kind and its bytes. -/
theorem settled_of_not_compound (hx : x.Canonical) (hcompound : x.isCompound = false) : h.Settled x := by
  refine ⟨hx, fun n hn => ?_⟩
  cases x with
  | boolean _ | integer _ | bytes _ _ | interop _ _ => cases hn
  | array _ | struct _ | map _ => cases hcompound

/-- **What was read is told by its kind and its bytes.** -/
theorem settled_ofTag (h : Heap) (kind : ItemKind) (data : Bytes) :
    (h.ofTag kind data).2.Settled (h.ofTag kind data).1 := by
  obtain ⟨hitems, hentries⟩ := contents_ofTag h kind data h.size
  obtain ⟨hnone, hnone'⟩ := contents_size h
  cases kind with
  | byteArray | boolean | interop => exact settled_of_not_compound trivial rfl
  | integer => exact settled_of_not_compound (Integer.canonical_ofBytes data) rfl
  | array | struct =>
    refine ⟨trivial, fun n hn => ?_⟩
    cases hn
    exact congrArg List.length (hitems.trans hnone)
  | map =>
    refine ⟨trivial, fun n hn => ?_⟩
    cases hn
    exact congrArg List.length (hentries.trans hnone')

/-- The kind that was asked for is read. -/
theorem kind_ofTag (h : Heap) (kind : ItemKind) (data : Bytes) : (h.ofTag kind data).1.kind = kind := by
  cases kind <;> rfl

/-- **An item that its kind and its bytes tell is read back from them.** -/
theorem Settled.reads_back (hx : h.Settled x) :
    (h.ofTag x.kind x.wireBytes).2.SameContent x (h.ofTag x.kind x.wireBytes).1 := by
  obtain ⟨hnone, hnone'⟩ := contents_size h
  -- An empty container is read as a new one, in the cell behind the last one.
  have hnew := contents_ofTag h x.kind x.wireBytes h.size
  have hold := contents_ofTag h x.kind x.wireBytes
  rw [hnone, hnone'] at hnew
  cases x with
  | boolean b =>
    have hback : Bytes.anyNonZero #[if b then 1 else 0] = b := by cases b <;> simp [Bytes.anyNonZero]
    show SameContent h (.boolean b) (.boolean (Bytes.anyNonZero #[if b then 1 else 0]))
    rw [hback]
    exact .boolean b
  | integer v =>
    have hback : Integer.ofBytes v.toBytes = v := Integer.ofBytes_toBytes hx.canonical
    show SameContent _ (.integer v) (.integer (Integer.ofBytes v.toBytes))
    rw [hback]
    exact .integer v
  | bytes i data => exact .bytes i _ data
  | interop i data => exact .interop i _ data
  | array id =>
    exact .array (((hold id).1.trans (List.eq_nil_of_length_eq_zero (hx.empty _ rfl))).trans hnew.1.symm)
  | struct id =>
    exact .struct (((hold id).1.trans (List.eq_nil_of_length_eq_zero (hx.empty _ rfl))).trans hnew.1.symm)
  | map id =>
    exact .map (((hold id).2.trans (List.eq_nil_of_length_eq_zero (hx.empty _ rfl))).trans hnew.2.symm)

end Heap

/-! ## Sizes -/

namespace Item

/-- **The length of the bytes at the boundary** is found without making them. -/
theorem wireSize_eq (x : Item) : x.wireSize = x.wireBytes.size := by
  cases x with
  | integer v => exact (Integer.size_toBytes v).symm
  | boolean _ | bytes _ _ | interop _ _ | array _ | struct _ | map _ => rfl

/-- **The length of a byte view** is found without making the view, and is refused with it. -/
theorem byteViewSize_eq_map (x : Item) : x.byteViewSize = x.byteView.map Array.size := by
  cases hview : x.byteView with
  | ok view => exact byteViewSize_eq hview
  | error fault =>
    cases x with
    | boolean _ | integer _ | bytes _ _ => cases hview
    | interop _ _ | array _ | struct _ | map _ => exact congrArg Except.error (Except.error.inj hview)

end Item

/-! ## Reading, writing and sizes together -/

namespace Heap

/-- **The host boundary round-trips.** An item that is no container, with its integer in the chosen representation, is
read back from its kind and its bytes as an item of that kind with that content; a handle is read as a new handle.
Whatever bytes an item of some kind was read from, its own bytes are read as an item of that kind with the same
content, which is written by the same bytes again. The sizes of the bytes of an item and of its byte view are the
lengths of these, and the size of a byte view is refused with the same fault as the view. -/
theorem host_boundary_round_trips (h : Heap) :
    (∀ x : Item, x.Canonical → x.isCompound = false →
      let read := h.ofTag x.kind x.wireBytes
      (read.1.kind = x.kind ∧ read.2.SameContent x read.1) ∧
        ∀ id data, x = .interop id data → read.1 = .interop h.leaves data ∧ read.2.leaves = h.leaves + 1 ∧
          (id < h.leaves → x.sameObject read.1 = false)) ∧
    (∀ (kind : ItemKind) (data : Bytes),
      let first := h.ofTag kind data
      let again := first.2.ofTag kind first.1.wireBytes
      (first.1.kind = kind ∧ again.1.kind = kind) ∧ again.2.SameContent first.1 again.1 ∧
        again.1.wireBytes = first.1.wireBytes) ∧
    (∀ x : Item, x.wireSize = x.wireBytes.size) ∧
    ∀ x : Item, x.byteViewSize = x.byteView.map Array.size := by
  refine ⟨fun x hx hcompound => ?_, fun kind data => ?_, Item.wireSize_eq, Item.byteViewSize_eq_map⟩
  · have hback := (settled_of_not_compound (h := h) hx hcompound).reads_back
    refine ⟨⟨hback.kind, hback⟩, ?_⟩
    rintro id data rfl
    exact ⟨rfl, rfl, fun hid => beq_false_of_ne hid.ne⟩
  · have hback := (settled_ofTag h kind data).reads_back
    rw [kind_ofTag] at hback
    exact ⟨⟨kind_ofTag h kind data, kind_ofTag _ kind _⟩, hback, hback.wireBytes⟩

/-- Zero is written by a byte and viewed by none, -129 is read back from two bytes, a handle is read as another
handle, and two bytes that are not the shortest ones of one are read and written as one byte. -/
theorem host_boundary_round_trips_zero :
    let h : Heap := { leaves := 5 }
    let x : Item := .integer (.small (-129))
    let handle : Item := .interop 3 #[1, 0]
    ((x.Canonical ∧ x.isCompound = false) ∧ handle.Canonical ∧ handle.isCompound = false) ∧
    (h.SameContent x (h.ofTag .integer #[0x7F, 0xFF]).1 ∧
      h.ofTag .interop #[1, 0] = (.interop 5 #[1, 0], { leaves := 6 }) ∧
      handle.sameObject (.interop 5 #[1, 0]) = false) ∧
    ((h.ofTag .integer #[1, 0]).1.wireBytes = #[1] ∧ (h.ofTag .integer #[1]).1.wireBytes = #[1]) ∧
    ((Item.integer .zero).wireSize = 1 ∧ (Item.integer .zero).byteViewSize = .ok 0) := by
  intro h x handle
  have hx : x.Canonical := fun hleast => by cases hleast
  obtain ⟨hback, hfixed, hsize, hview⟩ := host_boundary_round_trips h
  have hbytes : x.wireBytes = #[0x7F, 0xFF] := by decide +kernel
  obtain ⟨⟨-, hcontent⟩, -⟩ := hback x hx rfl
  obtain ⟨-, hhandle⟩ := hback handle trivial rfl
  obtain ⟨-, -, hother⟩ := hhandle 3 #[1, 0] rfl
  obtain ⟨-, -, hagain⟩ := hfixed .integer #[1, 0]
  have hone : (h.ofTag .integer #[1, 0]).1.wireBytes = #[1] := by decide +kernel
  rw [hbytes] at hcontent
  refine ⟨⟨⟨hx, rfl⟩, trivial, rfl⟩, ⟨hcontent, rfl, hother (by decide)⟩, ⟨hone, ?_⟩, ?_, ?_⟩
  · exact (congrArg (fun data => (h.ofTag .integer data).1.wireBytes) hone).symm.trans (hagain.trans hone)
  · rw [hsize]
    rfl
  · rw [hview]
    rfl

end Heap

end ScriptMachine
