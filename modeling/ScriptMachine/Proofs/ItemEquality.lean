import ScriptMachine.Proofs.ByteViews

/-! # Equality of items

Two items that are no structs are equal exactly if they are compared by the same thing: a primitive item by its byte
view, all others by the object that they refer to. So equality is an equivalence on them, also across kinds, as long as
integers are in their chosen representation. An item that is primitive can be a key of a map.

* `Item.comparand?`: what an item is compared by; `Item.same_iff`.
* `Item.same_comm`, `Item.same_refl`, `Item.same_trans`: equality of items that are no structs.
* `Key`: items that can be keys, with `Key.equal`.
-/

namespace ScriptMachine

namespace Item

variable {x y z : Item}

/-- What an item is compared by: its byte view, or the object that it refers to. Structs are compared by their
elements. -/
def comparand? (x : Item) : Option (Bytes ⊕ ItemKind × Nat) :=
  match x.byteView with
  | .ok view => some (.inl view)
  | .error _ =>
    match x with
    | interop id _ => some (.inr (.interop, id))
    | array id => some (.inr (.array, id))
    | map id => some (.inr (.map, id))
    | _ => none

/-- Items with byte views are compared by them. -/
theorem comparand?_of_byteView {view : Bytes} (hview : x.byteView = .ok view) : x.comparand? = some (.inl view) := by
  unfold comparand?
  rw [hview]

/-- Only structs are not compared by something of their own. -/
theorem exists_comparand (hx : ∀ id, x ≠ .struct id) : ∃ c, x.comparand? = some c := by
  cases x with
  | struct id => exact absurd rfl (hx id)
  | _ => exact ⟨_, rfl⟩

/-- **Items are equal if they are compared by the same**, unless they are structs. -/
theorem same_iff (hx : x.Canonical) (hy : y.Canonical) :
    x.same y = true ↔ ∃ c, x.comparand? = some c ∧ y.comparand? = some c := by
  cases hview : x.byteView with
  | ok view =>
    rw [comparand?_of_byteView hview]
    cases hview' : y.byteView with
    | ok view' =>
      rw [comparand?_of_byteView hview', same_eq hx hy hview hview', beq_iff_eq]
      simp [eq_comm]
    | error _ =>
      -- An item with a byte view differs from all items that have none.
      cases x <;> cases y <;> simp_all [same, comparand?, byteView]
  | error _ =>
    -- Two items without byte views have to be of one kind.
    cases x <;> cases y <;> simp_all [same, comparand?, byteView] <;> exact eq_comm

/-- A primitive item is no struct. -/
theorem ne_struct (hx : x.isCompound = false) (id : Nat) : x ≠ .struct id := by
  rintro rfl
  cases hx

/-- Equality does not mind the order of its operands. -/
theorem same_comm (x y : Item) : x.same y = y.same x := by
  cases x <;> cases y <;> simp [same, byteView, Bool.beq_comm]

/-- An item that is no struct equals itself. -/
theorem same_refl (hx : ∀ id, x ≠ .struct id) : x.same x = true := by
  cases x with
  | struct id => exact absurd rfl (hx id)
  | _ => exact beq_self_eq_true _

/-- A struct equals no item without looking at its elements. -/
theorem same_struct (id : Nat) (y : Item) : (Item.struct id).same y = false := by
  cases y <;> rfl

/-- **Equality is transitive**, across all kinds of items. -/
theorem same_trans (hx : x.Canonical) (hy : y.Canonical) (hz : z.Canonical) (hxy : x.same y = true)
    (hyz : y.same z = true) : x.same z = true := by
  obtain ⟨c, hxc, hyc⟩ := (same_iff hx hy).1 hxy
  obtain ⟨d, hyd, hzd⟩ := (same_iff hy hz).1 hyz
  obtain rfl : c = d := Option.some.inj (hyc.symm.trans hyd)
  exact (same_iff hx hz).2 ⟨c, hxc, hzd⟩

end Item

/-- Items of which one is no struct are compared in the same way in all heaps. -/
theorem Heap.equals_eq_same {h : Heap} {x y : Item} (hx : ∀ id, x ≠ .struct id) : h.equals x y = x.same y := by
  cases x with
  | struct id => exact absurd rfl (hx id)
  | _ => rfl

/-- A key of a map: a primitive item, with integers in their chosen representation. -/
structure Key where
  /-- The item. -/
  item : Item
  /-- It is no container. -/
  primitive : item.isCompound = false
  /-- It is no other representation of an integer. -/
  canonical : item.Canonical

namespace Key

variable {a b c : Key}

/-- Equality of keys. -/
def equal (a b : Key) : Bool := a.item.same b.item

/-- Keys are compared as items are, in any heap. -/
theorem equals_eq_equal (h : Heap) (a b : Key) : h.equals a.item b.item = a.equal b :=
  Heap.equals_eq_same (Item.ne_struct a.primitive)

/-- **Keys are equal if they are compared by the same.** -/
theorem equal_iff : a.equal b = true ↔ a.item.comparand? = b.item.comparand? := by
  rw [equal, Item.same_iff a.canonical b.canonical]
  constructor
  · rintro ⟨c, ha, hb⟩
    rw [ha, hb]
  · intro heq
    obtain ⟨c, ha⟩ := Item.exists_comparand (Item.ne_struct a.primitive)
    exact ⟨c, ha, heq ▸ ha⟩

/-- A key equals itself. -/
@[simp] theorem equal_self (a : Key) : a.equal a = true := equal_iff.2 rfl

/-- Equality of keys does not mind the order. -/
theorem equal_comm (a b : Key) : a.equal b = b.equal a := Item.same_comm _ _

/-- Equal keys equal the same keys. -/
theorem equal_congr (hab : a.equal b = true) (c : Key) : c.equal a = c.equal b := by
  rw [Bool.eq_iff_iff, equal_iff, equal_iff, equal_iff.1 hab]

/-- **Equality of keys is an equivalence**, across all kinds of keys. -/
theorem equal_equivalence : Equivalence fun a b : Key => a.equal b = true where
  refl := equal_self
  symm hab := (equal_comm _ _).trans hab
  trans hab hbc := (equal_congr hbc _).symm.trans hab

end Key

end ScriptMachine
