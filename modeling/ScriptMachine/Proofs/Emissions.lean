import ScriptMachine.Emit
import ScriptMachine.Proofs.Heap.Finite

/-! # Emissions that fail

Pieces of code are written one after the other until one of them fails. The code of an item is written piece by piece
along its containers; an item that is finite fails for one reason only, which is a handle of the host inside of it.

* `Emission.andThen_assoc`, `Emission.all_cons`, `Emission.all_append`: sequences of pieces.
* `Emission.FailsIf`: when an emission fails, with its rules for sequences.
* `Emit.pushItemWithin_failsIf`: finite items.
-/

namespace ScriptMachine

namespace Emission

variable {a b c : Emission} {pieces others : List Emission}

/-- What follows a piece that did not fail. -/
theorem andThen_of_none (ha : a.fault = none) : a.andThen b = ⟨a.code ++ b.code, b.fault⟩ := by
  rw [andThen, ha]

/-- Nothing follows a fault. -/
theorem andThen_of_some {cause : Fault} (ha : a.fault = some cause) : a.andThen b = a := by
  rw [andThen, ha]

/-- No piece, and then one. -/
theorem empty_andThen (a : Emission) : ({} : Emission).andThen a = a := by
  rw [andThen_of_none rfl]
  simp

/-- Sequences are associative. -/
theorem andThen_assoc (a b c : Emission) : (a.andThen b).andThen c = a.andThen (b.andThen c) := by
  cases ha : a.fault with
  | some cause => rw [andThen_of_some ha, andThen_of_some ha, andThen_of_some ha]
  | none =>
    rw [andThen_of_none ha, andThen_of_none ha]
    cases hb : b.fault with
    | some cause => rw [andThen_of_some hb, andThen_of_some rfl, hb]
    | none => rw [andThen_of_none hb, andThen_of_none rfl, Array.append_assoc]

/-- No piece. -/
theorem all_nil : all [] = {} := rfl

/-- The first piece, and then the others. -/
theorem all_cons (a : Emission) (pieces : List Emission) : all (a :: pieces) = a.andThen (all pieces) := by
  have hfold : ∀ start : Emission, pieces.foldl andThen start = start.andThen (pieces.foldl andThen {}) := by
    induction pieces with
    | nil =>
      intro start
      cases hstart : start.fault with
      | some cause => rw [andThen_of_some hstart, List.foldl_nil]
      | none =>
        rw [andThen_of_none hstart, ← hstart]
        simp
    | cons b pieces ih =>
      intro start
      rw [List.foldl_cons, List.foldl_cons, ih, ih (({} : Emission).andThen b), empty_andThen, andThen_assoc]
  rw [all, List.foldl_cons, empty_andThen, hfold]
  rfl

/-- Some pieces, and then others. -/
theorem all_append (pieces others : List Emission) : all (pieces ++ others) = (all pieces).andThen (all others) := by
  induction pieces with
  | nil => rw [List.nil_append, all_nil, empty_andThen]
  | cons a pieces ih => rw [List.cons_append, all_cons, all_cons, ih, andThen_assoc]

/-- One piece. -/
theorem all_singleton (a : Emission) : all [a] = a := by
  rw [all_cons, all_nil]
  cases ha : a.fault with
  | some cause => rw [andThen_of_some ha]
  | none =>
    rw [andThen_of_none ha, ← ha]
    simp

/-! ## When an emission fails -/

/-- The emission fails for the given cause if the condition holds, and otherwise it does not fail. -/
def FailsIf (a : Emission) (cause : Fault) (P : Prop) : Prop :=
  (P ∧ a.fault = some cause) ∨ (¬ P ∧ a.fault = none)

variable {cause : Fault} {P Q : Prop}

namespace FailsIf

/-- An emission that never fails. -/
theorem never (hP : ¬ P) (ha : a.fault = none) : a.FailsIf cause P := Or.inr ⟨hP, ha⟩

/-- An emission that always fails. -/
theorem always (hP : P) (ha : a.fault = some cause) : a.FailsIf cause P := Or.inl ⟨hP, ha⟩

/-- It fails under the condition. -/
theorem fault_of (ha : a.FailsIf cause P) (hP : P) : a.fault = some cause :=
  ha.elim And.right fun h => absurd hP h.1

/-- It does not fail without the condition. -/
theorem fault_of_not (ha : a.FailsIf cause P) (hP : ¬ P) : a.fault = none :=
  ha.elim (fun h => absurd h.1 hP) And.right

/-- The same condition. -/
theorem congr (ha : a.FailsIf cause P) (hPQ : P ↔ Q) : a.FailsIf cause Q := by
  rwa [FailsIf, ← hPQ]

/-- **A sequence fails if one of its pieces does.** -/
theorem andThen (ha : a.FailsIf cause P) (hb : b.FailsIf cause Q) : (a.andThen b).FailsIf cause (P ∨ Q) := by
  rcases ha with ⟨hP, ha⟩ | ⟨hP, ha⟩
  · rw [andThen_of_some ha]
    exact always (Or.inl hP) ha
  · rw [andThen_of_none ha]
    rcases hb with ⟨hQ, hb⟩ | ⟨hQ, hb⟩
    · exact always (Or.inr hQ) hb
    · exact never (not_or.2 ⟨hP, hQ⟩) hb

/-- **The pieces for the elements of a list** fail if one of them does. -/
theorem all {α : Type} {piece : α → Emission} {R : α → Prop} {xs : List α}
    (hpieces : ∀ x ∈ xs, (piece x).FailsIf cause (R x)) :
    (Emission.all (xs.map piece)).FailsIf cause (∃ x ∈ xs, R x) := by
  induction xs with
  | nil => exact never (fun ⟨x, hx, _⟩ => absurd hx List.not_mem_nil) rfl
  | cons x xs ih =>
    obtain ⟨hx, hxs⟩ := List.forall_mem_cons.1 hpieces
    rw [List.map_cons, all_cons]
    exact (hx.andThen (ih hxs)).congr (List.exists_mem_cons_iff R x xs).symm

end FailsIf

end Emission

/-! ## The code of an item -/

/-- There is a handle of the host inside of the item, or it is one. -/
def Heap.HasHandle (h : Heap) (x : Item) : Prop := ∃ y, h.Comprises x y ∧ y.kind = .interop

/-- A handle inside of a container is inside of something that it holds. -/
theorem Heap.hasHandle_iff {h : Heap} {x : Item} (hx : x.kind ≠ .interop) :
    h.HasHandle x ↔ ∃ z, h.Holds x z ∧ h.HasHandle z := by
  constructor
  · rintro ⟨y, hxy, hy⟩
    rcases Relation.ReflTransGen.cases_head hxy with rfl | ⟨z, hxz, hzy⟩
    · exact absurd hy hx
    · exact ⟨z, hxz, y, hzy, hy⟩
  · rintro ⟨z, hxz, y, hzy, hy⟩
    exact ⟨y, .head hxz hzy, hy⟩

namespace Emit

variable {h : Heap} {x : Item} {id : Nat}

/-- The code of a container is the code of what it holds, one level further down. -/
theorem pushItemWithin_list {items : List Item} (hx : x.listCell? = some id)
    (hcell : h.cells[id]? = some (.list items)) (depth : Nat) :
    pushItemWithin h (depth + 1) x =
      pushItemWithin.list h depth items (if x.kind = .struct then op .newStruct else #[]) := by
  have hitems : h.items id = items := by rw [Heap.items, hcell]
  cases x <;> cases hx <;> rw [pushItemWithin, hitems] <;> rfl

/-- The code of one entry of a map, on top of which the map lies. -/
def entry (h : Heap) (depth : Nat) (entry : Item × Item) : Emission :=
  .all [⟨op .dup, none⟩, pushItemWithin h depth entry.1, pushItemWithin h depth entry.2, ⟨op .setItem, none⟩]

/-- The code of a map. -/
theorem pushItemWithin_map {entries : List (Item × Item)} (hcell : h.cells[id]? = some (.map entries)) (depth : Nat) :
    pushItemWithin h (depth + 1) (.map id) =
      (Emission.mk (op .newMap) none).andThen (.all (entries.map (entry h depth))) := by
  have hentries : h.entries id = entries := by rw [Heap.entries, hcell]
  rw [pushItemWithin, hentries]
  rfl

/-- **The code of a finite item fails exactly if there is a handle of the host inside.** -/
theorem pushItemWithin_failsIf (hx : h.Finite x) :
    ∀ depth, h.Shallow depth x → (pushItemWithin h depth x).FailsIf .handleInScript (h.HasHandle x) := by
  induction hx with
  | @primitive x hx =>
    intro depth _
    -- Nothing is inside of a primitive item but itself.
    have hself : h.HasHandle x ↔ x.kind = .interop := by
      by_cases hkind : x.kind = .interop
      · exact iff_of_true ⟨x, .refl, hkind⟩ hkind
      · refine iff_of_false (fun hhandle => ?_) hkind
        obtain ⟨z, ⟨id, hid, -⟩, -⟩ := (Heap.hasHandle_iff hkind).1 hhandle
        rw [hx] at hid
        cases hid
    refine Emission.FailsIf.congr ?_ hself.symm
    cases x with
    | interop _ _ => exact .always rfl (by rw [pushItemWithin])
    | array _ | struct _ | map _ => cases hx
    | _ => exact .never (by rintro ⟨⟩) (by rw [pushItemWithin])
  | @list x id items hx hcell hitems ih =>
    rintro (_ | depth) hshallow
    · exact absurd (hshallow.symm.trans (Item.cell?_of_listCell? hx)) (by rintro ⟨⟩)
    have hkind : x.kind ≠ .interop := by
      rintro hkind
      cases x <;> cases hx <;> cases hkind
    rw [pushItemWithin_list hx hcell, pushItemWithin.list]
    refine ((Emission.FailsIf.all (R := h.HasHandle) fun y hy => ?_).andThen
      (Emission.FailsIf.never not_false rfl)).congr ?_
    · have hmem := List.mem_reverse.1 hy
      exact ih y hmem depth (hshallow y ((Heap.holds_list hx hcell).2 hmem))
    · rw [Heap.hasHandle_iff hkind, or_false]
      simp only [List.mem_reverse, Heap.holds_list hx hcell]
  | @map id entries hcell hkeys hvalues ihkeys ihvalues =>
    rintro (_ | depth) hshallow
    · cases hshallow
    rw [pushItemWithin_map hcell]
    refine ((Emission.FailsIf.never not_false rfl).andThen (Emission.FailsIf.all
      (R := fun entry => h.HasHandle entry.1 ∨ h.HasHandle entry.2) fun entry hentry => ?_)).congr ?_
    · have hkey := ihkeys entry hentry depth (hshallow _ ((Heap.holds_map hcell).2 ⟨entry, hentry, Or.inl rfl⟩))
      have hvalue := ihvalues entry hentry depth (hshallow _ ((Heap.holds_map hcell).2 ⟨entry, hentry, Or.inr rfl⟩))
      rw [Emit.entry, Emission.all_cons, Emission.all_cons, Emission.all_cons, Emission.all_singleton]
      refine ((Emission.FailsIf.never not_false rfl).andThen (hkey.andThen (hvalue.andThen
        (Emission.FailsIf.never not_false rfl)))).congr ?_
      rw [false_or, or_false]
    · rw [Heap.hasHandle_iff (by rintro ⟨⟩), false_or]
      simp only [Heap.holds_map hcell]
      constructor
      · rintro ⟨entry, hentry, hhandle | hhandle⟩
        · exact ⟨_, ⟨entry, hentry, Or.inl rfl⟩, hhandle⟩
        · exact ⟨_, ⟨entry, hentry, Or.inr rfl⟩, hhandle⟩
      · rintro ⟨_, ⟨entry, hentry, rfl | rfl⟩, hhandle⟩
        · exact ⟨entry, hentry, Or.inl hhandle⟩
        · exact ⟨entry, hentry, Or.inr hhandle⟩

end Emit

end ScriptMachine
