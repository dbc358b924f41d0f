import ScriptMachine.Proofs.Tidy

/-! # Instructions on containers keep machines tidy

Instructions build containers of items that exist, which makes no rings, copies of structs included. Those that
write a container may close a ring, through the container that they write: it is tracked if what it receives
is a container. Taking out and reordering elements makes no rings either.

* `Exec.pushNew_tidy`, `Exec.copyValue_tidy`, `Exec.Builds`: new containers.
* `Instructions.write_tidy`: writing and tracking.
* `Neat` for `pack`, `unpack`, `newArray`, `pickItem`, `setItem`, `append`, `remove`, `values` and so on.
-/

namespace ScriptMachine

open Neat

variable {α : Type} {held : List Item} {s : State} {h h' : Heap} {id : Nat}

namespace Exec

/-! ## Parts of instructions on containers -/

/-- Items that were held meanwhile. -/
theorem forgets {m : Exec α} {M : List Item}
    (hm : Leads (Tidy (M ++ held)) m (fun _ => Tidy (M ++ held)) (Tidy [])) :
    Leads (Tidy (M ++ held)) m (fun _ => Tidy held) (Tidy []) :=
  hm.ends (fun _ _ hs => hs.drop (List.subset_append_right _ _)) fun _ hs => hs

/-- Popping hands out an item of the stack. -/
theorem pop_tidy : Leads (Tidy held) pop (fun x => Tidy (x :: held)) (Tidy []) := by
  refine (onFrame_tidy (Q := fun _ => True) (C := fun x => [x]) fun ok _ _ f₀ => ?_).ends
    (fun _ _ h => h.2) fun _ h => h
  exact Frame.pop_keeps.weaken fun x hx => ⟨trivial, List.forall_mem_singleton.2 hx⟩

/-- Popping a key hands out a primitive item. -/
theorem popKey_tidy :
    Leads (Tidy held) (onFrame Instructions.popKey) (fun key s => Tidy held s ∧ key.cell? = none) (Tidy []) := by
  refine (onFrame_tidy (Q := fun key => key.cell? = none) (C := fun _ => []) fun ok _ _ f₀ => ?_).ends
    (fun _ _ h => ⟨h.2, h.1⟩) fun _ h => h
  exact Instructions.popKey_keeps.weaken fun key hkey =>
    ⟨Item.cell?_eq_none hkey.1, fun x hx => absurd hx List.not_mem_nil⟩

/-- Reading the objects. -/
theorem heap_tidy : Leads (Tidy held) heap (fun h s => Tidy held s ∧ s.heap = h) (Tidy []) :=
  fun _ hs => ⟨hs, rfl⟩

/-- Pushing a new object. -/
theorem pushNew_tidy {create : Heap → Item × Heap}
    (hcreate : ∀ s, Tidy held s → s.heap.Extends (create s.heap).2 ∧ (create s.heap).1.In (create s.heap).2) :
    Leads (Tidy held) (pushNew create) (fun _ => Tidy held) (Tidy []) := by
  refine heap_tidy.seq fun h => ?_
  refine Leads.seq (A := fun _ => Tidy ((create h).1 :: held)) (Leads.updates ?_) fun _ => ?_
  · rintro s ⟨hs, rfl⟩
    obtain ⟨hextends, hin⟩ := hcreate s hs
    exact (hs.extended hextends).hold (List.forall_mem_singleton.2 hin)
  · exact forgets (M := [(create h).1]) (push_tidy (Or.inr List.mem_cons_self))

/-- A new list of held items exists from then on. -/
theorem newList_tidy {items : List Item} (hitems : ∀ x ∈ items, x.cell? = none ∨ x ∈ held) (hs : Tidy held s)
    {x : Item} (hx : x.cell? = some s.heap.size) :
    s.heap.Extends (s.heap.alloc (.list items)).2 ∧ x.In (s.heap.alloc (.list items)).2 := by
  refine ⟨Heap.extends_alloc_list fun y hy => (hitems y hy).elim Item.in_of_primitive (hs.held y), ?_⟩
  intro id hid
  rw [hx] at hid
  cases hid
  exact Nat.lt_of_lt_of_eq (Nat.lt_succ_self _) (Heap.size_alloc _ _).symm

/-- The computation builds a container of items that are held or primitive. -/
def Builds (create : List Item → Exec Unit) : Prop :=
  ∀ {items held : List Item}, (∀ x ∈ items, x.cell? = none ∨ x ∈ held) →
    Leads (Tidy held) (create items) (fun _ => Tidy held) (Tidy [])

/-- Pushing a new array. -/
theorem pushArray_builds : Builds pushArray :=
  fun hitems => pushNew_tidy fun _ hs => newList_tidy hitems hs rfl

/-- Pushing a new struct. -/
theorem pushStruct_builds : Builds pushStruct :=
  fun hitems => pushNew_tidy fun _ hs => newList_tidy hitems hs rfl

/-- Building a container of items of the heap. -/
theorem Builds.collects {create : List Item → Exec Unit} (hcreate : Builds create) {items : List Item}
    (hitems : h.Closed → ∀ x ∈ items, x.In h) :
    Leads (fun s => Tidy held s ∧ s.heap = h) (create items) (fun _ => Tidy held) (Tidy []) := by
  refine Leads.starts (forgets (hcreate fun x hx => Or.inr (List.mem_append_left held hx))) ?_
  rintro s ⟨hs, rfl⟩
  exact hs.hold (hitems hs.closed)

/-- **Copying a struct** adds containers; any other item is handed on. -/
theorem copyValue_tidy {x : Item} (hx : x ∈ held) :
    Leads (Tidy held) (copyValue x) (fun y => Tidy (y :: held)) (Tidy []) := by
  unfold copyValue
  refine Leads.reads fun s hs => ?_
  refine Leads.seq (A := fun r t => t = s ∧ s.heap.Extends r.2 ∧ r.1.In r.2)
    (Leads.result (fun r hr t ht => ⟨ht, ?_⟩) fun t ht => ht ▸ hs.dropAll) fun r => ?_
  · exact Heap.extends_copyValue hs.closed (hs.held x hx) hr
  · refine Leads.seq (A := fun _ => Tidy (r.1 :: held)) (Leads.updates ?_) fun _ => Leads.returns fun _ h => h
    rintro t ⟨rfl, hextends, hin⟩
    exact (hs.extended hextends).hold (List.forall_mem_singleton.2 hin)

/-- Copying all structs of a list. -/
theorem copyValues_tidy {items : List Item} (hitems : ∀ x ∈ items, x ∈ held) :
    Leads (Tidy held) (items.mapM copyValue) (fun ys => Tidy (ys ++ held)) (Tidy []) := by
  -- Each copy is held while the next ones are made.
  induction items generalizing held with
  | nil =>
    rw [List.mapM_nil]
    exact Leads.returns fun _ hs => hs
  | cons x items ih =>
    obtain ⟨hx, hitems⟩ := List.forall_mem_cons.1 hitems
    rw [List.mapM_cons]
    refine (copyValue_tidy hx).seq fun y => ?_
    refine (ih fun z hz => List.mem_cons_of_mem y (hitems z hz)).seq fun ys => Leads.returns fun s hs => ?_
    refine hs.drop fun z hz => ?_
    simp only [List.cons_append, List.mem_cons, List.mem_append] at hz ⊢
    tauto

end Exec

namespace Instructions

open Exec

/-! ## Creation of containers -/

instance : Neat pack := by
  refine ⟨fun held => ?_⟩
  refine (leads held).seq fun l => (leads held).seq fun size => (leads held).seq fun depth => ?_
  refine Leads.guarded (fun _ hs => hs.dropAll) fun _ => ?_
  refine Leads.seq (A := fun items => Tidy (items ++ held)) ?_ fun items => ?_
  · refine (onFrame_tidy (Q := fun _ => True) (C := fun items => items) fun ok _ _ f₀ => ?_).ends
      (fun _ _ h => h.2) fun _ h => h
    exact (Frame.takeTop_keeps size).weaken fun items hitems => ⟨trivial, hitems.2⟩
  · exact forgets (pushArray_builds fun x hx => Or.inr (List.mem_append_left _ hx))

instance : Neat unpack := by
  refine ⟨fun held => (leads held).seq fun x => heap_tidy.seq fun h => ?_⟩
  split
  · exact Leads.throws fun _ hs => hs.1.dropAll
  · rename_i items hitems
    have hstart : ∀ s, Tidy held s ∧ s.heap = h → Tidy (items ++ held) s := by
      rintro s ⟨hs, rfl⟩
      exact hs.hold (hs.elements hitems)
    refine Leads.starts (forgets (Leads.seq ?_ fun _ => leads _)) hstart
    refine (onFrame_tidy (Q := fun _ => True) (C := fun _ => []) fun ok _ hheld f₀ => ?_).ends
      (fun _ _ h => h.2) fun _ h => h
    refine (Keeps.updates fun f hf => hf.setEval ?_).weaken
      fun _ _ => ⟨trivial, fun x hx => absurd hx List.not_mem_nil⟩
    exact List.forall_mem_append.2 ⟨fun x hx => hheld x (List.mem_append_left _ hx), hf.eval⟩

/-- The elements of a new list are primitive. -/
theorem newElements_tidy (x : Item) : Leads (Tidy held) (newElements x)
    (fun items s => Tidy held s ∧ ∀ y ∈ items, y.cell? = none) (Tidy []) := by
  refine (leads held).seq fun l => (leads held).seq fun count => ?_
  refine Leads.guarded (fun _ hs => hs.dropAll) fun _ => Leads.guarded (fun _ hs => hs.dropAll) fun _ => ?_
  refine Leads.returns fun s hs => ⟨hs, fun y hy => ?_⟩
  rw [List.eq_of_mem_replicate hy]
  rfl

/-- A new list of the elements of an old one. -/
theorem convert_tidy {create : List Item → Exec Unit} (hcreate : Builds create) (id : Nat) :
    Leads (Tidy held) (do create ((← Exec.heap).items id)) (fun _ => Tidy held) (Tidy []) :=
  heap_tidy.seq fun _ => hcreate.collects fun hclosed x hx => hclosed id x (Heap.mem_held_of_mem_items hx)

/-- A new list of primitive elements. -/
theorem fill_tidy {create : List Item → Exec Unit} (hcreate : Builds create) (x : Item) :
    Leads (Tidy held) (do create (← newElements x)) (fun _ => Tidy held) (Tidy []) :=
  (newElements_tidy x).seq fun _ => Leads.knowing fun hitems => hcreate fun y hy => Or.inl (hitems y hy)

instance : Neat newArray := by
  refine ⟨fun held => pop_tidy.seq fun x => forgets (M := [x]) ?_⟩
  split
  · exact push_tidy (Or.inr List.mem_cons_self)
  · exact convert_tidy pushArray_builds _
  · exact fill_tidy pushArray_builds _

instance : Neat newStruct := by
  refine ⟨fun held => pop_tidy.seq fun x => forgets (M := [x]) ?_⟩
  split
  · exact push_tidy (Or.inr List.mem_cons_self)
  · exact convert_tidy pushStruct_builds _
  · exact fill_tidy pushStruct_builds _

instance : Neat newMap := by
  refine ⟨fun held => pushNew_tidy fun s _ => ⟨Heap.extends_newMap _, ?_⟩⟩
  rintro _ ⟨⟩
  exact Nat.lt_of_lt_of_eq (Nat.lt_succ_self _) (Heap.size_alloc _ _).symm

/-! ## Access to containers -/

/-- A result that is computed from the objects. -/
theorem result_tidy {x : Except Fault α} :
    Leads (fun s => Tidy held s ∧ s.heap = h) (MonadExcept.ofExcept x)
      (fun a s => (Tidy held s ∧ s.heap = h) ∧ x = .ok a) (Tidy []) :=
  Leads.result (fun _ hx _ hs => ⟨hs, hx⟩) fun _ hs => hs.1.dropAll

/-- Pushing a copy of an item of the heap. -/
theorem pushCopy_tidy {value : Item} (hvalue : h.Closed → value.In h) :
    Leads (fun s => Tidy held s ∧ s.heap = h) (do Exec.push (← Exec.copyValue value)) (fun _ => Tidy held)
      (Tidy []) := by
  refine Leads.starts (P := Tidy ([value] ++ held)) (forgets ?_) ?_
  · refine (copyValue_tidy List.mem_cons_self).seq fun y => ?_
    exact forgets (M := [y]) (push_tidy (Or.inr List.mem_cons_self))
  · rintro s ⟨hs, rfl⟩
    exact hs.hold (List.forall_mem_singleton.2 (hvalue hs.closed))

/-- The element at an index exists; past the end stands a primitive item. -/
theorem getD_in (hclosed : h.Closed) (id index : Nat) : ((h.items id).getD index default).In h := by
  rw [List.getD_eq_getElem?_getD]
  cases helement : (h.items id)[index]? with
  | none => exact Item.in_of_primitive rfl
  | some x => exact hclosed id x (Heap.mem_held_of_mem_items (List.mem_of_getElem? helement))

instance : Neat pickItem := by
  refine ⟨fun held => popKey_tidy.seq fun key => Leads.knowing fun _ => ?_⟩
  refine (leads held).seq fun container => heap_tidy.seq fun h => ?_
  have hlist : ∀ id, Leads (fun s => Tidy held s ∧ s.heap = h)
      (do
        let index ← MonadExcept.ofExcept (indexIn key (h.items id).length)
        Exec.push (← Exec.copyValue ((h.items id).getD index default)))
      (fun _ => Tidy held) (Tidy []) := fun id =>
    result_tidy.seq fun index => Leads.knowing fun _ => pushCopy_tidy fun hclosed => getD_in hclosed id index
  dsimp only
  split
  · exact hlist _
  · exact hlist _
  · split
    · rename_i value hvalue
      exact pushCopy_tidy fun hclosed => hclosed _ value (Heap.mem_held_of_mapGet hvalue)
    · exact Leads.fails fun _ hs => hs.1.dropAll
  · exact Leads.fails fun _ hs => hs.1.dropAll

/-- **Writing a container**: if it receives a container, it is tracked. -/
theorem write_tidy {container value : Item} {added : List Item} (hcell : container.cell? = some id)
    (hw : h.Writes h' id added) (hvalue : value ∈ held) (hadded : ∀ x ∈ added, x.cell? = none ∨ x = value) :
    Leads (fun s => Tidy held s ∧ s.heap = h)
      (do
        Exec.setHeap h'
        trackNesting container value)
      (fun _ => Tidy held) (Tidy []) := by
  rintro s ⟨hs, rfl⟩
  rw [run_seq]
  unfold trackNesting
  by_cases hcompound : value.isCompound = true
  · rw [if_pos hcompound]
    refine hs.tracked hw hcell _ fun x hx => (hadded x hx).imp_right ?_
    rintro rfl
    exact hvalue
  · rw [if_neg hcompound]
    refine hs.written hw fun x hx => (hadded x hx).elim (fun hx => hx) ?_
    rintro rfl
    exact Item.cell?_eq_none (Bool.eq_false_iff.2 hcompound)

instance : Neat setItem := by
  refine ⟨fun held => (leads held).seq fun l => pop_tidy.seq fun x => forgets (M := [x]) ?_⟩
  refine (copyValue_tidy List.mem_cons_self).seq fun value => forgets (M := [value]) ?_
  refine popKey_tidy.seq fun key => Leads.knowing fun hkey => ?_
  refine (leads _).seq fun container => heap_tidy.seq fun h => ?_
  dsimp only
  split
  · refine result_tidy.seq fun index => Leads.knowing fun _ => result_tidy.seq fun h' =>
      Leads.knowing fun hset => write_tidy rfl (Heap.writes_setAt hset) List.mem_cons_self fun y hy => ?_
    exact Or.inr (List.mem_singleton.1 hy)
  · refine result_tidy.seq fun index => Leads.knowing fun _ => result_tidy.seq fun h' =>
      Leads.knowing fun hset => write_tidy rfl (Heap.writes_setAt hset) List.mem_cons_self fun y hy => ?_
    exact Or.inr (List.mem_singleton.1 hy)
  · refine Leads.guarded (fun _ hs => hs.1.dropAll) fun _ => ?_
    refine write_tidy rfl (Heap.writes_mapSet h _ key value) List.mem_cons_self fun y hy => ?_
    rcases List.mem_pair.1 hy with rfl | rfl
    · exact Or.inl hkey
    · exact Or.inr rfl
  · exact Leads.fails fun _ hs => hs.1.dropAll

instance : Neat append := by
  refine ⟨fun held => (leads held).seq fun l => pop_tidy.seq fun x => forgets (M := [x]) ?_⟩
  refine (copyValue_tidy List.mem_cons_self).seq fun value => forgets (M := [value]) ?_
  refine (leads _).seq fun container => ?_
  split
  · exact Leads.throws fun _ hs => hs.dropAll
  · rename_i id hcell
    refine heap_tidy.seq fun h => Leads.guarded (fun _ hs => hs.1.dropAll) fun _ => ?_
    refine write_tidy (Item.cell?_of_listCell? hcell) (Heap.writes_append h id value) List.mem_cons_self ?_
    exact fun y hy => Or.inr (List.mem_singleton.1 hy)

/-- Writing a container that receives nothing. -/
theorem setHeap_tidy (hw : h.Writes h' id []) :
    Leads (fun s => Tidy held s ∧ s.heap = h) (Exec.setHeap h') (fun _ => Tidy held) (Tidy []) := by
  rintro s ⟨hs, rfl⟩
  exact hs.written hw fun x hx => absurd hx List.not_mem_nil

instance : Neat reverse := by
  refine ⟨fun held => (leads held).seq fun container => ?_⟩
  split
  · exact Leads.throws fun _ hs => hs.dropAll
  · exact heap_tidy.seq fun h => setHeap_tidy (Heap.writes_reverse h _)

instance : Neat remove := by
  refine ⟨fun held => popKey_tidy.seq fun key => Leads.knowing fun _ => ?_⟩
  refine (leads held).seq fun container => heap_tidy.seq fun h => ?_
  have hlist : ∀ id, Leads (fun s => Tidy held s ∧ s.heap = h)
      (do
        let index ← MonadExcept.ofExcept (indexIn key (h.items id).length)
        let (_, h) ← MonadExcept.ofExcept (h.removeAt id index)
        Exec.setHeap h)
      (fun _ => Tidy held) (Tidy []) := fun id =>
    result_tidy.seq fun index => Leads.knowing fun _ => result_tidy.seq fun r =>
      Leads.knowing fun hremove => setHeap_tidy (Heap.writes_removeAt hremove)
  split
  · exact hlist _
  · exact hlist _
  · exact setHeap_tidy (Heap.writes_mapRemove h _ key)
  · exact Leads.throws fun _ hs => hs.1.dropAll

instance : Neat hasKey := by
  refine seq fun key => seq fun container => seq fun h => ?_
  split <;> infer_instance

instance : Neat keys := by
  refine ⟨fun held => (leads held).seq fun x => ?_⟩
  split
  · refine heap_tidy.seq fun h => pushArray_builds.collects fun hclosed x hx => ?_
    obtain ⟨entry, hentry, rfl⟩ := List.mem_map.1 hx
    exact hclosed _ _ (Heap.mem_held_of_mem_entries hentry).1
  · exact Leads.throws fun _ hs => hs.dropAll

instance : Neat values := by
  refine ⟨fun held => (leads held).seq fun container => heap_tidy.seq fun h => ?_⟩
  have hcopy : ∀ items : List Item, (h.Closed → ∀ x ∈ items, x.In h) →
      Leads (fun s => Tidy held s ∧ s.heap = h) (do Exec.pushArray (← items.mapM Exec.copyValue))
        (fun _ => Tidy held) (Tidy []) := by
    intro items hitems
    refine Leads.starts (P := Tidy (items ++ held)) (forgets ?_) ?_
    · refine (copyValues_tidy fun x hx => List.mem_append_left _ hx).seq fun ys => forgets ?_
      exact pushArray_builds fun y hy => Or.inr (List.mem_append_left _ hy)
    · rintro s ⟨hs, rfl⟩
      exact hs.hold (hitems hs.closed)
  dsimp only
  split
  · exact hcopy _ fun hclosed x hx => hclosed _ x (Heap.mem_held_of_mem_items hx)
  · exact hcopy _ fun hclosed x hx => hclosed _ x (Heap.mem_held_of_mem_items hx)
  · refine hcopy _ fun hclosed x hx => ?_
    obtain ⟨entry, hentry, rfl⟩ := List.mem_map.1 hx
    exact hclosed _ _ (Heap.mem_held_of_mem_entries hentry).2
  · exact Leads.fails fun _ hs => hs.1.dropAll

end Instructions

end ScriptMachine
