import ScriptMachine.Proofs.ItemEquality

/-! # Equal items are interchangeable

A primitive item (a truth value, an integer or a byte string) is known by its byte view: all that can be read off it is
read off its view. So items with equal views, which are the equal ones, have the same truth, number and length. The
truth of an item tells whether its number is not zero, for all three kinds; a byte string of zeros is false, however
long it is.

* `Item.Primitive`: the items with byte views, `Item.Primitive.exists_byteView`.
* `Bytes.toIntLE_eq_zero_iff`: the byte strings of zero are those of zeros only.
* `Item.truth_iff`: the truth of an item by its number.
* `Item.congr_of_byteView`: what is read off items with the same view.
* `Heap.equals_iff`: primitive items are equal if their views are.
* `Heap.equality_coherent`: equality and coercions together.
-/

namespace ScriptMachine

/-! ## Byte strings of zero -/

namespace Bytes

/-- The unsigned number of a byte string fits its length. -/
theorem toNatLE_lt (b : Bytes) : b.toNatLE < 2 ^ (8 * b.size) := by
  have hlt := ByteOrder.high_lt b.toList.reverse
  rwa [ByteOrder.high_reverse, List.length_reverse, Array.length_toList, show 256 = 2 ^ 8 from rfl, ← Nat.pow_mul]
    at hlt

/-- The unsigned number of a byte string is zero if all its bytes are. -/
theorem toNatLE_eq_zero_iff (b : Bytes) : b.toNatLE = 0 ↔ b.anyNonZero = false := by
  rw [toNatLE, ← Array.foldr_toList, anyNonZero, ← Array.any_toList]
  induction b.toList with
  | nil => simp
  | cons byte rest ih =>
    rw [List.foldr_cons, List.any_cons, Bool.or_eq_false_iff, ← ih, bne_eq_false_iff_eq, ← UInt8.toNat_inj]
    show _ ↔ byte.toNat = 0 ∧ _
    omega

/-- **Only byte strings of zeros denote zero.** -/
theorem toIntLE_eq_zero_iff (b : Bytes) : b.toIntLE = 0 ↔ b.anyNonZero = false := by
  rw [← toNatLE_eq_zero_iff, toIntLE, ← Int.dvd_iff_bmod_eq_zero]
  have hlt := b.toNatLE_lt
  constructor
  · intro hdvd
    exact Nat.eq_zero_of_dvd_of_lt (Int.natCast_dvd_natCast.1 hdvd) hlt
  · intro hzero
    rw [hzero]
    exact Int.dvd_zero _

end Bytes

/-! ## Primitive items -/

namespace Item

variable {x y : Item} {view : Bytes}

/-- Truth values, integers and byte strings. -/
def Primitive (x : Item) : Prop := x.kind = .boolean ∨ x.kind = .integer ∨ x.kind = .byteArray

/-- A primitive item has a byte view. -/
theorem Primitive.exists_byteView (hx : x.Primitive) : ∃ view, x.byteView = .ok view := by
  cases x with
  | boolean _ | integer _ | bytes _ _ => exact ⟨_, rfl⟩
  | _ => simp [Primitive, kind] at hx

/-- A primitive item is no struct. -/
theorem Primitive.ne_struct (hx : x.Primitive) (id : Nat) : x ≠ .struct id := by
  rintro rfl
  simp [Primitive, kind] at hx

/-- **An item is true if its number is not zero.** -/
theorem truth_iff {v : Integer} (hx : x.Canonical) (hv : x.integerValue = .ok v) : x.truth = true ↔ v.toInt ≠ 0 := by
  cases x with
  | boolean value =>
    cases hv
    cases value <;> decide
  | integer value =>
    cases hv
    rw [truth, Bool.not_eq_true', ← Bool.not_eq_true, ne_eq, Integer.isZero_iff hx]
  | bytes _ data =>
    cases hv
    rw [truth, ← Bool.not_eq_false, ne_eq, Integer.toInt_ofBytes, Bytes.toIntLE_eq_zero_iff]
  | _ => cases hv

/-- **What is read off items with the same view is the same.** -/
theorem congr_of_byteView (hx : x.Canonical) (hy : y.Canonical) (hxview : x.byteView = .ok view)
    (hyview : y.byteView = .ok view) :
    x.truth = y.truth ∧ x.integerValue = y.integerValue ∧ x.int32 = y.int32 ∧ x.byteViewSize = y.byteViewSize := by
  have hxvalue := integerValue_of_byteView hx hxview
  have hyvalue := integerValue_of_byteView hy hyview
  have hvalue : x.integerValue = y.integerValue := hxvalue.trans hyvalue.symm
  refine ⟨?_, hvalue, ?_, (byteViewSize_eq hxview).trans (byteViewSize_eq hyview).symm⟩
  · rw [Bool.eq_iff_iff, truth_iff hx hxvalue, truth_iff hy hyvalue]
  · rw [int32, int32, hvalue]

end Item

/-! ## Equality -/

namespace Heap

variable {h : Heap} {x y : Item}

/-- Items of which one is no struct are compared in the same way under every bound. -/
theorem equalsWithin_eq_same (hx : ∀ id, x ≠ .struct id) (limit : Nat) : h.equalsWithin x y limit = .ok (x.same y) := by
  cases x with
  | struct id => exact absurd rfl (hx id)
  | _ => rfl

/-- **Primitive items are equal if their views are**, whatever their kinds are. -/
theorem equals_iff (hx : x.Canonical) (hy : y.Canonical) (hxp : x.Primitive) (hyp : y.Primitive) :
    h.equals x y = true ↔ x.byteView = y.byteView := by
  obtain ⟨view, hview⟩ := hxp.exists_byteView
  obtain ⟨view', hview'⟩ := hyp.exists_byteView
  rw [equals_eq_same hxp.ne_struct, Item.same_eq hx hy hview hview', beq_iff_eq, hview, hview', Except.ok.injEq]

/-- **Equality of items that are no structs is an equivalence, and equal primitive items are interchangeable.** Two
primitive items are equal if and only if their byte views are the same, within one kind and across kinds and under
every bound of the comparison; then they have the same truth, the same number, also as a number of 32 bits, and the
same length. Every primitive item has a number, which its byte view spells as a byte string, and it is true if and only
if that number is not zero. Integers are in their chosen representation. -/
theorem equality_coherent (h : Heap) :
    (∀ x : Item, (∀ id, x ≠ .struct id) → h.equals x x = true) ∧
    (∀ x y : Item, (∀ id, x ≠ .struct id) → (∀ id, y ≠ .struct id) →
      (∀ limit, h.equalsWithin x y limit = .ok (h.equals x y)) ∧ (h.equals x y = true → h.equals y x = true)) ∧
    (∀ x y z : Item, x.Canonical → y.Canonical → z.Canonical → (∀ id, x ≠ .struct id) → (∀ id, y ≠ .struct id) →
      h.equals x y = true → h.equals y z = true → h.equals x z = true) ∧
    (∀ x y : Item, x.Canonical → y.Canonical → x.Primitive → y.Primitive →
      (h.equals x y = true ↔ x.byteView = y.byteView) ∧
      (h.equals x y = true → x.truth = y.truth ∧ x.integerValue = y.integerValue ∧ x.int32 = y.int32 ∧
        x.byteViewSize = y.byteViewSize)) ∧
    ∀ x : Item, x.Canonical → x.Primitive → ∃ view v, x.byteView = .ok view ∧ x.integerValue = .ok v ∧
      (x.truth = true ↔ v.toInt ≠ 0) ∧ ∀ id, (Item.bytes id view).integerValue = .ok v := by
  refine ⟨fun x hx => ?_, fun x y hx hy => ⟨fun limit => ?_, fun hxy => ?_⟩, fun x y z hxc hyc hzc hx hy hxy hyz => ?_,
    fun x y hxc hyc hx hy => ⟨equals_iff hxc hyc hx hy, fun hxy => ?_⟩, fun x hxc hx => ?_⟩
  · rw [equals_eq_same hx, Item.same_refl hx]
  · rw [equals_eq_same hx, equalsWithin_eq_same hx]
  · rwa [equals_eq_same hy, Item.same_comm, ← equals_eq_same hx (h := h)]
  · rw [equals_eq_same hx] at hxy ⊢
    rw [equals_eq_same hy] at hyz
    exact Item.same_trans hxc hyc hzc hxy hyz
  · obtain ⟨view, hview⟩ := hx.exists_byteView
    exact Item.congr_of_byteView hxc hyc hview (((equals_iff hxc hyc hx hy).1 hxy).symm.trans hview)
  · obtain ⟨view, hview⟩ := hx.exists_byteView
    have hvalue := Item.integerValue_of_byteView hxc hview
    exact ⟨view, _, hview, hvalue, Item.truth_iff hxc hvalue, fun _ => rfl⟩

/-- The truth value, the number and the byte string of one are equal to each other, and read in the same way; the least
number of 32 bits is true, and read back from its four bytes. -/
theorem equality_coherent_one :
    let x : Item := .boolean true
    let y : Item := .integer (.small 1)
    let z : Item := .bytes 7 #[1]
    let least : Item := .integer (.large true [0x80000000])
    ((x.Canonical ∧ y.Canonical ∧ z.Canonical ∧ least.Canonical) ∧
      (x.Primitive ∧ y.Primitive ∧ z.Primitive ∧ least.Primitive)) ∧
    (empty.equals x y = true ∧ empty.equals y z = true ∧ empty.equals x z = true ∧ empty.equals y x = true) ∧
    (x.int32 = y.int32 ∧ y.byteViewSize = z.byteViewSize) ∧
    empty.equals (.array 3) (.array 3) = true ∧
    least.truth = true ∧ (Item.bytes 7 #[0, 0, 0, 0x80]).integerValue = least.integerValue := by
  intro x y z least
  have hx : x.Canonical := trivial
  have hy : y.Canonical := fun h => by cases h
  have hz : z.Canonical := trivial
  have hleast : least.Canonical := ⟨by simp [Words.Trimmed], by decide⟩
  have hxp : x.Primitive := .inl rfl
  have hyp : y.Primitive := .inr (.inl rfl)
  have hzp : z.Primitive := .inr (.inr rfl)
  have hleastp : least.Primitive := .inr (.inl rfl)
  obtain ⟨hrefl, hsymm, htrans, hviews, hnumber⟩ := equality_coherent empty
  have hxy : empty.equals x y = true := (hviews x y hx hy hxp hyp).1.2 (by decide)
  have hyz : empty.equals y z = true := (hviews y z hy hz hyp hzp).1.2 (by decide)
  obtain ⟨-, -, hint, -⟩ := (hviews x y hx hy hxp hyp).2 hxy
  obtain ⟨-, -, -, hsize⟩ := (hviews y z hy hz hyp hzp).2 hyz
  obtain ⟨view, v, hview, hvalue, htruth, hback⟩ := hnumber least hleast hleastp
  cases hvalue
  have hbytes : least.byteView = .ok #[0, 0, 0, 0x80] := by decide
  cases hview.symm.trans hbytes
  exact ⟨⟨⟨hx, hy, hz, hleast⟩, hxp, hyp, hzp, hleastp⟩,
    ⟨hxy, hyz, htrans x y z hx hy hz hxp.ne_struct hyp.ne_struct hxy hyz,
      (hsymm x y hxp.ne_struct hyp.ne_struct).2 hxy⟩,
    ⟨hint, hsize⟩, hrefl _ (fun _ h => by cases h), htruth.2 (by decide), hback 7⟩

end Heap

end ScriptMachine
