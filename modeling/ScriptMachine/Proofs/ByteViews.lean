import ScriptMachine.Proofs.Integer.ByteCodec
import ScriptMachine.Proofs.Numbers

/-! # Byte views

A primitive item is known by its byte view: it denotes the number that the view spells, and it equals another
primitive item exactly if their views are the same, whatever their kinds are.

* `Item.integerValue_of_byteView`: the number of an item by its byte view.
* `Item.same_eq`: equality of items by their byte views.
-/

namespace ScriptMachine

namespace Integer

/-- There is one zero. -/
theorem eq_zero_of_isZero {a : Integer} (ha : a.isZero = true) : a = zero := by
  cases a with
  | small v => exact congrArg small (eq_of_beq ha)
  | large _ _ => cases ha

end Integer

namespace Item

variable {x y : Item} {view view' : Bytes}

/-- **The byte view of an item spells its number.** -/
theorem integerValue_of_byteView (hx : x.Canonical) (hview : x.byteView = .ok view) :
    x.integerValue = .ok (Integer.ofBytes view) := by
  cases x with
  | boolean value =>
    cases hview
    cases value <;> rfl
  | integer value =>
    cases hview
    by_cases hzero : value.isZero = true
    · rw [if_pos hzero, Integer.eq_zero_of_isZero hzero]
      rfl
    · rw [if_neg hzero, Integer.ofBytes_toBytes hx]
      rfl
  | bytes _ _ =>
    cases hview
    rfl
  | _ => cases hview

/-- An item with a byte view is no container. -/
theorem isCompound_of_byteView (hview : x.byteView = .ok view) : x.isCompound = false := by
  cases x <;> first | rfl | cases hview

/-- An item with a byte view refers to no cell. -/
theorem cell?_of_byteView (hview : x.byteView = .ok view) : x.cell? = none := by
  cases x <;> first | rfl | cases hview

/-- **Items with byte views are equal if their views are**, whatever their kinds are. -/
theorem same_eq (hx : x.Canonical) (hy : y.Canonical) (hview : x.byteView = .ok view)
    (hview' : y.byteView = .ok view') : x.same y = (view == view') := by
  cases x with
  | boolean a =>
    cases y with
    | boolean b =>
      cases hview
      cases hview'
      cases a <;> cases b <;> rfl
    | _ => simp [same, hview, hview']
  | integer a =>
    cases y with
    | integer b =>
      -- An integer that is read from the view is the one that the view was made from.
      have ha := integerValue_of_byteView hx hview
      have hb := integerValue_of_byteView hy hview'
      show (a == b) = _
      rw [Bool.eq_iff_iff, beq_iff_eq, beq_iff_eq]
      constructor
      · rintro rfl
        exact Except.ok.inj (hview.symm.trans hview')
      · rintro rfl
        exact Except.ok.inj (ha.trans hb.symm)
    | _ => simp [same, hview, hview']
  | bytes _ a =>
    cases y with
    | bytes _ b =>
      cases hview
      cases hview'
      rfl
    | _ => simp [same, hview, hview']
  | _ => cases hview

end Item

end ScriptMachine
