import ScriptMachine.Proofs.Cycles
import ScriptMachine.Proofs.Heap.Maps
import ScriptMachine.Proofs.Writes

/-! # Structs are values

Structs are copied when they are stored in a container and when they are read from one. The copy unfolds to what
the struct unfolded to at that moment, all of its structs are new, and to each of them leads one reference: to the
outermost one from its slot, and to the others from within the copy. No later instruction that writes one of the
containers from before therefore changes a struct of the copy.

* `State.Intact`, `Engine.Reached.intact`: machines without dangling references.
* `Heap.CopiedAll`, `Heap.CopiesAll.copiedAll`: copies that were made one after the other.
* `State.references`, `State.Placed`, `State.Placed.handsOn`: what has become of the copies when they are placed.
* `OpCode.originals`, `OpCode.copies`, `Engine.structs_are_values`: the instructions.
-/

namespace ScriptMachine

variable {c : Nat} {s t : State} {h h' h₀ h₁ : Heap} {f : Frame} {outer : List Frame} {xs ys : List Item}

/-! ## Copies made one after the other -/

namespace Heap

/-- Copies of items of the heap `h₀` that were made one after the other in the later heap `h₁`. -/
structure CopiedAll (h₀ h₁ h : Heap) (xs ys : List Item) : Prop where
  /-- Cells were added. -/
  grown : h₁.Grown h
  /-- All containers that the heap holds exist. -/
  closed : h.Closed
  /-- The copies. -/
  values : List.Forall₂ (CopiedValue h₀ h) xs ys
  /-- The copies are none of the structs from before. -/
  fresh : ∀ c, h₀.size ≤ c → ∀ y ∈ ys, y.cell? = some c → h₁.size ≤ c
  /-- The copies are different from each other. -/
  once : ∀ c, h₀.size ≤ c → ys.countP (Item.refersTo c) ≤ 1
  /-- What was there before the copies, but is not of the first heap, gets no references. -/
  others : ∀ c, h₀.size ≤ c → c < h₁.size → h.references c = h₁.references c

/-- A reference of a copy that is none of the first heap leads to a struct that was made for it. -/
theorem CopyStep.made {x y : Item} (hstep : CopyStep h₀ h₁ h x y) (hx : x.In h₀) (hc : h₀.size ≤ c)
    (hy : y.cell? = some c) : h₁.size ≤ c ∧ c < h.size := by
  cases hstep.value with
  | struct hcopy =>
    cases hy
    exact hstep.fresh c rfl
  | other _ => exact absurd (hx c hy) (Nat.not_lt.2 hc)

/-- **Copies that were made one after the other** are copies still when all of them are made. -/
theorem CopiesAll.copiedAll {limit : Nat} (hclosed : h₀.Closed) (hcopies : CopiesAll limit h₁ xs ys h)
    (hgrown : h₀.Grown h₁) (hclosed₁ : h₁.Closed) (hin : ∀ x ∈ xs, x.In h₀) : CopiedAll h₀ h₁ h xs ys := by
  induction hcopies with
  | nil =>
    exact ⟨Grown.refl _, hclosed₁, .nil, fun _ _ _ hy => absurd hy List.not_mem_nil, fun _ _ => Nat.zero_le _,
      fun _ _ _ => rfl⟩
  | @cons h₁ h₂ h x y xs ys hcopy _ ih =>
    obtain ⟨hx, hxs⟩ := List.forall_mem_cons.1 hin
    have hstep := copy_copyValue hclosed hgrown hclosed₁ hx hcopy
    have hrest := ih (hgrown.trans hstep.grown) hstep.closed hxs
    have hle := hstep.grown.size
    refine ⟨hstep.grown.trans hrest.grown, hrest.closed, .cons ?_ hrest.values, ?_, ?_, ?_⟩
    · -- The copies that were made later lead to nothing in this one.
      cases hstep.value with
      | struct hmade => exact .struct (hmade.later hrest.grown hrest.others)
      | other hx => exact .other hx
    · intro c hc z hz hcell
      rcases List.mem_cons.1 hz with rfl | hz
      · exact (hstep.made hx hc hcell).1
      · exact Nat.le_trans hle (hrest.fresh c hc z hz hcell)
    · intro c hc
      by_cases hy : y.refersTo c = true
      · have hmade := hstep.made hx hc (Item.refersTo_iff.1 hy)
        have hnone : ys.countP (Item.refersTo c) = 0 := by
          refine List.countP_eq_zero.2 fun z hz hcell => ?_
          have := hrest.fresh c hc z hz (Item.refersTo_iff.1 hcell)
          omega
        rw [List.countP_cons_of_pos hy, hnone]
      · rw [List.countP_cons_of_neg hy]
        exact hrest.once c hc
    · intro c hc hlt
      rw [hrest.others c hc (Nat.lt_of_lt_of_le hlt hle), hstep.others c hc hlt]

/-- The references from the copies to the structs of one of them: one to the outermost struct. -/
theorem CopiedAll.countP (hall : CopiedAll h₀ h₁ h xs ys) {source copy : Nat} (hcopy : Copy h₀ h source copy)
    (hmem : Item.struct copy ∈ ys) (hin : ∀ x ∈ xs, x.In h₀) (hc : h.Nested copy c) :
    ys.countP (Item.refersTo c) = if c = copy then 1 else 0 := by
  obtain ⟨hge, -⟩ := hcopy.created c hc
  by_cases heq : c = copy
  · subst heq
    rw [if_pos rfl]
    have hpos : 0 < ys.countP (Item.refersTo c) := List.countP_pos_iff.2 ⟨_, hmem, Item.refersTo_iff.2 rfl⟩
    exact Nat.le_antisymm (hall.once c hge) hpos
  · rw [if_neg heq]
    refine List.countP_eq_zero.2 fun y hy hcell => ?_
    rw [Item.refersTo_iff] at hcell
    -- Nothing refers to the outermost struct of a copy, but something refers to a nested one.
    obtain ⟨x, hx, hxy⟩ := exists_of_mem_right hall.values hy
    cases hxy with
    | other hother => exact absurd (hin y hx c hcell) (Nat.not_lt.2 hge)
    | struct hother =>
      cases hcell
      have hone := hcopy.references c hc
      rw [if_neg heq, hother.references c .refl, if_pos rfl] at hone
      exact absurd hone Nat.zero_ne_one

/-! ## Storing one value -/

/-- A container that referred nowhere to a cell was written: the references to it are those in the container now. -/
theorem Writes.references {id : Nat} {added : List Item} {n : Nat} (hw : h.Writes h' id added) (hid : id < h.size)
    (hnone : ∀ x ∈ h.held id, ¬ x.refersTo c = true) (hcount : (h'.held id).countP (Item.refersTo c) = n) :
    h'.references c = h.references c + n := by
  have hwrite := references_write hw.size hid hw.others c
  rw [List.countP_eq_zero.2 hnone, hcount] at hwrite
  exact hwrite

section

variable {container key y : Item} {id : Nat}

/-- A value that was added at the end of a list is its last element. -/
theorem contents_append (hcontainer : container.listCell? = some id) (hin : container.In h) :
    ((h.append id y).contents container).getLast? = some y := by
  have hitems : (h.append id y).items id = h.items id ++ [y] :=
    items_setItems_self (hin id (Item.cell?_of_listCell? hcontainer))
  have hcontents : (h.append id y).contents container = (h.append id y).items id := by
    cases container <;> first | (cases hcontainer; rfl) | cases hcontainer
  rw [hcontents, hitems, List.getLast?_concat]

/-- A value that was added at the end of a list brings its references. -/
theorem references_append (hid : id < h.size) (hnone : ∀ x ∈ h.held id, ¬ x.refersTo c = true) :
    (h.append id y).references c = h.references c + [y].countP (Item.refersTo c) := by
  refine (writes_append h id y).references hid hnone ?_
  have hitems : (h.items id).countP (Item.refersTo c) = 0 :=
    List.countP_eq_zero.2 fun x hx => hnone x (mem_held_of_mem_items hx)
  rw [append, held_setItems_self hid, List.countP_append, hitems, Nat.zero_add]

variable (hstored : h.Stores container key y h') (hkey : key.isCompound = false) (hin : container.In h)
include hstored hkey hin

/-- A value that was stored is found in its slot. -/
theorem Stores.element? : h'.element? container key = some y := by
  cases hstored with
  | @list id index hcontainer hindex =>
    have hlt := Instructions.lt_of_indexIn hindex
    have hitems : (h.setItems id ((h.items id).set index y)).items id = (h.items id).set index y :=
      items_setItems_self (hin id (Item.cell?_of_listCell? hcontainer))
    have hindex' : Instructions.indexIn key ((h.setItems id ((h.items id).set index y)).items id).length =
        .ok index := by rw [hitems, List.length_set, hindex]
    rw [element?_list hcontainer hindex', hitems, List.getElem?_set_self hlt]
  | @map id hcontainer =>
    subst hcontainer
    exact mapGet?_mapSet (hin id rfl) hkey

/-- A value that was stored brings its references. -/
theorem Stores.references (hnone : ∀ id, container.cell? = some id → ∀ x ∈ h.held id, ¬ x.refersTo c = true) :
    h'.references c = h.references c + [y].countP (Item.refersTo c) := by
  cases hstored with
  | @list id index hcontainer hindex =>
    have hcell := Item.cell?_of_listCell? hcontainer
    have hlt := Instructions.lt_of_indexIn hindex
    have hcount : ∀ x ∈ h.items id, ¬ x.refersTo c = true :=
      fun x hx => hnone id hcell x (mem_held_of_mem_items hx)
    have hwrites : h.Writes (h.setItems id ((h.items id).set index y)) id [y] :=
      writes_setItems fun x hx => (List.mem_or_eq_of_mem_set hx).imp_right List.mem_singleton.2
    refine hwrites.references (hin id hcell) (hnone id hcell) ?_
    rw [held_setItems_self (hin id hcell), List.countP_set hlt, List.countP_eq_zero.2 hcount, List.countP_singleton,
      Nat.zero_sub, Nat.zero_add]
  | @map id hcontainer =>
    subst hcontainer
    refine (writes_mapSet h id key y).references (hin id rfl) (hnone id rfl) ?_
    refine countP_held_mapSet _ (hin id rfl) (hnone id rfl) ?_
    rw [Item.refersTo_iff, Item.cell?_eq_none hkey]
    exact (Option.some_ne_none c).symm

end

end Heap

/-- An element of a container is held by it. -/
theorem Heap.mem_held_of_element? {container key x : Item} (hx : h.element? container key = some x) :
    ∃ id, x ∈ h.held id := by
  unfold Heap.element? at hx
  split at hx
  · split at hx
    · exact ⟨_, Heap.mem_held_of_mem_items (List.mem_of_getElem? hx)⟩
    · cases hx
  · split at hx
    · exact ⟨_, Heap.mem_held_of_mem_items (List.mem_of_getElem? hx)⟩
    · cases hx
  · exact ⟨_, Heap.mem_held_of_mapGet hx⟩
  · cases hx

/-- What a container has is held by it. -/
theorem Heap.mem_held_of_mem_contents {container x : Item} (hx : x ∈ h.contents container) :
    ∃ id, x ∈ h.held id := by
  unfold Heap.contents at hx
  split at hx
  · exact ⟨_, Heap.mem_held_of_mem_items hx⟩
  · exact ⟨_, Heap.mem_held_of_mem_items hx⟩
  · obtain ⟨entry, hentry, rfl⟩ := List.mem_map.1 hx
    exact ⟨_, (Heap.mem_held_of_mem_entries hentry).2⟩
  · exact absurd hx List.not_mem_nil

/-! ## Machines without dangling references -/

/-- All containers that the roots and the containers of the machine refer to exist. -/
structure State.Intact (s : State) : Prop where
  /-- The containers in containers. -/
  closed : s.heap.Closed
  /-- The containers on the stacks, among the results, and those that the host keeps hold of. -/
  roots : ∀ x ∈ s.roots, x.In s.heap

/-- **Every reached machine is intact.** -/
theorem Engine.Reached.intact {l : Limits} {crypto : CryptoSuite} {e : Engine} (he : Reached l crypto e) :
    e.state.Intact := ⟨he.tidied.tidy.closed, he.tidied.tidy.roots⟩

/-- The number of references that lead to a cell: from the containers, the stacks and the results, and from what
the host keeps hold of. Tracked containers are not held by their tracker. -/
def State.references (s : State) (c : Nat) : Nat := s.heap.references c + s.roots.countP (Item.refersTo c)

/-- The items on top of the innermost frame exist. -/
theorem State.Intact.eval (hs : s.Intact) (hframes : s.frames = f :: outer) {x : Item} (hx : x ∈ f.eval) :
    x.In s.heap := by
  refine hs.roots x (List.mem_append_right _ (State.mem_stackItems.2 (Or.inr ⟨f, ?_, ?_⟩)))
  · rw [hframes]
    exact List.mem_cons_self
  · exact List.mem_append_left _ hx

/-- **The references to what was made by an instruction** that leaves the items `front` on the rest of the stack. -/
theorem State.Intact.references_resume (hs : s.Intact) (hframes : s.frames = f :: outer) (tracker : CycleTracker)
    (front : List Item) {rest : List Item} (hrest : rest ⊆ f.eval) (hc : s.heap.size ≤ c) :
    ((s.withTracker tracker).resume h { f with eval := front ++ rest }).references c =
      h.references c + front.countP (Item.refersTo c) := by
  -- What was held before refers to nothing that is new.
  have hold : ∀ items : List Item, items ⊆ s.roots → items.countP (Item.refersTo c) = 0 := by
    intro items hitems
    refine List.countP_eq_zero.2 fun x hx hcell => ?_
    exact absurd (hs.roots x (hitems hx) c (Item.refersTo_iff.1 hcell)) (Nat.not_lt.2 hc)
  have hbefore : s.roots =
      (s.kept.map (·.2) ++ s.session.results) ++ (f.eval ++ (f.alt ++ outer.flatMap fun g => g.eval ++ g.alt)) := by
    rw [State.roots, State.stackItems, hframes, List.flatMap_cons]
    simp only [List.append_assoc]
  have hafter : ((s.withTracker tracker).resume h { f with eval := front ++ rest }).roots =
      (s.kept.map (·.2) ++ s.session.results) ++
        (front ++ (rest ++ (f.alt ++ outer.flatMap fun g => g.eval ++ g.alt))) := by
    have htail : (s.withTracker tracker).frames.tail = outer := congrArg List.tail hframes
    rw [State.roots, State.stackItems, State.resume_frames, htail, List.flatMap_cons]
    simp only [List.append_assoc]
    rfl
  have houtside : (s.kept.map (·.2) ++ s.session.results).countP (Item.refersTo c) = 0 := by
    refine hold _ ?_
    rw [hbefore]
    exact List.subset_append_left _ _
  have hbelow : (rest ++ (f.alt ++ outer.flatMap fun g => g.eval ++ g.alt)).countP (Item.refersTo c) = 0 := by
    refine hold _ ?_
    rw [hbefore]
    refine List.append_subset.2 ⟨?_, ?_⟩
    · exact fun x hx => List.mem_append_right _ (List.mem_append_left _ (hrest hx))
    · exact fun x hx => List.mem_append_right _ (List.mem_append_right _ hx)
  show h.references c + _ = _
  rw [hafter, List.countP_append, houtside, List.countP_append, hbelow, Nat.zero_add, Nat.add_zero]

/-! ## Copies in their places -/

/-- Copies of items of the machine `s` are in their places in the machine `t`. -/
structure State.Placed (s t : State) (xs ys : List Item) : Prop where
  /-- The copies were made in the heap of the first machine, and were not changed when they were placed. -/
  copied : ∃ h, Heap.CopiedAll s.heap s.heap h xs ys ∧ h.size ≤ t.heap.size ∧
    (∀ c, s.heap.size ≤ c → c < h.size → t.heap.items c = h.items c) ∧
    ∀ c, s.heap.size ≤ c → c < h.size → t.references c = h.references c + ys.countP (Item.refersTo c)
  /-- The items were there before. -/
  originals : ∀ x ∈ xs, x.In s.heap

/-- **A struct of the heap `h` that was copied by value** into the machine `t`. -/
structure Heap.ValueCopy (h : Heap) (t : State) (source copy : Nat) : Prop where
  /-- All structs of the copy are new. -/
  created : ∀ c, t.heap.Nested copy c → h.size ≤ c ∧ c < t.heap.size
  /-- One reference leads to each of them: from the slot of the copy, and from within the copy. -/
  once : ∀ c, t.heap.Nested copy c → t.references c = 1
  /-- The copy unfolds to what the struct has unfolded to. -/
  unfolds : ∀ depth, t.heap.unfold depth (.struct copy) = h.unfold depth (.struct source)

/-- An item and what is handed on for it: a struct is copied by value, any other item is the same. -/
inductive Heap.HandsOn (h : Heap) (t : State) : Item → Item → Prop where
  /-- A struct. -/
  | struct {source copy : Nat} (hcopy : h.ValueCopy t source copy) : HandsOn h t (.struct source) (.struct copy)
  /-- Any other item. -/
  | other {x : Item} (hx : ∀ id, x ≠ .struct id) : HandsOn h t x x

/-- **Copies in their places are copies by value.** -/
theorem State.Placed.handsOn (hplaced : s.Placed t xs ys) : List.Forall₂ (s.heap.HandsOn t) xs ys := by
  obtain ⟨⟨h, hall, hsize, hsame, hreferences⟩, hin⟩ := hplaced
  have hvalue : ∀ source copy, Heap.Copy s.heap h source copy → Item.struct copy ∈ ys →
      s.heap.ValueCopy t source copy := by
    intro source copy hcopy hmem
    have hitems : ∀ c, h.Nested copy c → t.heap.items c = h.items c :=
      fun c hc => hsame c (hcopy.created c hc).1 (hcopy.created c hc).2
    have hback : ∀ c, t.heap.Nested copy c → h.Nested copy c := fun c hc => hc.congr hitems
    refine ⟨fun c hc => ?_, fun c hc => ?_, fun depth => ?_⟩
    · obtain ⟨hge, hlt⟩ := hcopy.created c (hback c hc)
      exact ⟨hge, Nat.lt_of_lt_of_le hlt hsize⟩
    · obtain ⟨hge, hlt⟩ := hcopy.created c (hback c hc)
      rw [hreferences c hge hlt, hcopy.references c (hback c hc), hall.countP hcopy hmem hin (hback c hc)]
      split <;> rfl
    · rw [Heap.unfold_congr hitems]
      exact hcopy.unfolds depth
  have hvalues : List.Forall₂ (fun y x => y ∈ ys ∧ Heap.CopiedValue s.heap h x y) ys xs :=
    (List.forall₂_and_left ys xs).2 ⟨fun _ hy => hy, hall.values.flip⟩
  refine List.Forall₂.flip (hvalues.imp fun y x hxy => ?_)
  obtain ⟨hy, hcopied⟩ := hxy
  cases hcopied with
  | struct hcopy => exact .struct (hvalue _ _ hcopy hy)
  | other hx => exact .other hx

/-! ## Instructions -/

/-- The instruction copies structs. -/
def OpCode.Copies : OpCode → Prop
  | .setItem | .append | .pickItem | .values => True
  | _ => False

/-- What an instruction takes to store or to push it: the top item of the stack, or what a container has. -/
def OpCode.originals (h : Heap) : OpCode → Stack → List Item
  | .setItem, x :: _ => [x]
  | .append, x :: _ => [x]
  | .pickItem, key :: container :: _ => (h.element? container key).toList
  | .values, container :: _ => h.contents container
  | _, _ => []

/-- The evaluation stack of the innermost frame. -/
def State.operands (s : State) : Stack := (s.frames.head?.map (·.eval)).getD []

/-- What an instruction has stored or pushed, on the stack with which it started: the element at the key, the last
element, the top item, or what the array on top has. -/
def OpCode.copies (t : State) : OpCode → Stack → List Item
  | .setItem, _ :: key :: container :: _ => (t.heap.element? container key).toList
  | .append, _ :: container :: _ => (t.heap.contents container).getLast?.toList
  | .pickItem, _ => t.operands.head?.toList
  | .values, _ => t.operands.head?.toList.flatMap t.heap.contents
  | _, _ => []

/-- What was there before refers to nothing that is new, also after copies were made. -/
theorem State.Intact.held_old (hs : s.Intact) (hgrown : s.heap.Grown h) {id : Nat} (hid : id < s.heap.size)
    (hc : s.heap.size ≤ c) : ∀ x ∈ h.held id, ¬ x.refersTo c = true := by
  intro x hx hcell
  rw [hgrown.held hid] at hx
  exact absurd (hs.closed id x hx c (Item.refersTo_iff.1 hcell)) (Nat.not_lt.2 hc)

section

variable {x y container key : Item} {rest : Stack} (hs : s.Intact) (hframes : s.frames = f :: outer)
include hs hframes

/-- A copy of one item, stored in a container that was there before. -/
theorem State.Intact.stored {id : Nat} {added : List Item} (hx : x.In s.heap)
    (hcopy : s.heap.copyValue x s.limits.traversal = .ok (y, h₁)) (hid : id < s.heap.size)
    (hwrites : h₁.Writes h id added)
    (hreferences : ∀ c, (∀ z ∈ h₁.held id, ¬ z.refersTo c = true) →
      h.references c = h₁.references c + [y].countP (Item.refersTo c))
    (hrest : rest ⊆ f.eval) (tracker : CycleTracker) :
    s.Placed ((s.withTracker tracker).resume h { f with eval := rest }) [x] [y] := by
  have hin : ∀ z ∈ [x], z.In s.heap := List.forall_mem_singleton.2 hx
  have hall : Heap.CopiedAll s.heap s.heap h₁ [x] [y] :=
    (Heap.CopiesAll.cons hcopy .nil).copiedAll hs.closed (Heap.Grown.refl _) hs.closed hin
  refine ⟨⟨h₁, hall, Nat.le_of_eq hwrites.size.symm, fun c hc _ => ?_, fun c hc _ => ?_⟩, hin⟩
  · show h.items c = h₁.items c
    rw [Heap.items, hwrites.others c (by omega), Heap.items]
  · have hroots := hs.references_resume (h := h) hframes tracker [] hrest hc
    exact hroots.trans (hreferences c (hs.held_old hall.grown hid hc))

/-- `SETITEM` stores a copy by value. -/
theorem Instructions.SetItemDone.placed (ht : SetItemDone s s.heap f t) :
    s.Placed t (OpCode.setItem.originals s.heap f.eval) (OpCode.setItem.copies t f.eval) := by
  obtain @⟨x, key, container, y, rest, h₁, h₂, tracker, heval, hkey, hcopy, hstored⟩ := ht
  have hin : ∀ z ∈ f.eval, z.In s.heap := fun z hz => hs.eval hframes hz
  have hsub : rest ⊆ f.eval := by
    rw [heval]
    exact fun z hz => List.mem_cons_of_mem _ (List.mem_cons_of_mem _ (List.mem_cons_of_mem _ hz))
  rw [heval] at hin
  obtain ⟨hx, -, hcontainer, -⟩ := by simpa only [List.forall_mem_cons] using hin
  have hcontainer₁ : container.In h₁ := hcontainer.mono (Heap.grown_copyValue hcopy).size
  obtain ⟨id, hcell, hwrites⟩ := hstored.writes
  rw [heval]
  show s.Placed _ [x] (h₂.element? container key).toList
  rw [hstored.element? hkey hcontainer₁]
  refine hs.stored hframes hx hcopy (hcontainer id hcell) hwrites (fun c hnone => ?_) hsub tracker
  refine hstored.references hkey hcontainer₁ fun id' hid' => ?_
  rw [hcell] at hid'
  cases hid'
  exact hnone

/-- `APPEND` stores a copy by value. -/
theorem Instructions.AppendDone.placed (ht : AppendDone s s.heap f t) :
    s.Placed t (OpCode.append.originals s.heap f.eval) (OpCode.append.copies t f.eval) := by
  obtain @⟨x, container, y, rest, h₁, id, tracker, heval, hcopy, hid⟩ := ht
  have hin : ∀ z ∈ f.eval, z.In s.heap := fun z hz => hs.eval hframes hz
  have hsub : rest ⊆ f.eval := by
    rw [heval]
    exact fun z hz => List.mem_cons_of_mem _ (List.mem_cons_of_mem _ hz)
  rw [heval] at hin
  obtain ⟨hx, hcontainer, -⟩ := by simpa only [List.forall_mem_cons] using hin
  have hcontainer₁ : container.In h₁ := hcontainer.mono (Heap.grown_copyValue hcopy).size
  have hcell := Item.cell?_of_listCell? hid
  rw [heval]
  show s.Placed _ [x] ((h₁.append id y).contents container).getLast?.toList
  rw [Heap.contents_append hid hcontainer₁]
  exact hs.stored hframes hx hcopy (hcontainer id hcell) (Heap.writes_append h₁ id y)
    (fun c hnone => Heap.references_append (hcontainer₁ id hcell) hnone) hsub tracker

/-- `PICKITEM` pushes a copy by value. -/
theorem Instructions.PickItemDone.placed (ht : PickItemDone s s.heap f t) :
    s.Placed t (OpCode.pickItem.originals s.heap f.eval) (OpCode.pickItem.copies t f.eval) := by
  obtain @⟨key, container, x, y, rest, h', heval, helement, hcopy⟩ := ht
  have hin : ∀ z ∈ [x], z.In s.heap := by
    refine List.forall_mem_singleton.2 ?_
    obtain ⟨id, hheld⟩ := Heap.mem_held_of_element? helement
    exact hs.closed id x hheld
  have hall : Heap.CopiedAll s.heap s.heap h' [x] [y] :=
    (Heap.CopiesAll.cons hcopy .nil).copiedAll hs.closed (Heap.Grown.refl _) hs.closed hin
  have hsub : rest ⊆ f.eval := by
    rw [heval]
    exact fun z hz => List.mem_cons_of_mem _ (List.mem_cons_of_mem _ hz)
  rw [heval]
  show s.Placed _ (s.heap.element? container key).toList [y]
  rw [helement]
  refine ⟨⟨h', hall, Nat.le_refl _, fun _ _ _ => rfl, fun c hc _ => ?_⟩, hin⟩
  exact hs.references_resume (h := h') hframes s.session.tracker [y] hsub hc

/-- `VALUES` pushes an array of copies by value. -/
theorem Instructions.ValuesDone.placed (ht : ValuesDone s s.heap f t) :
    s.Placed t (OpCode.values.originals s.heap f.eval) (OpCode.values.copies t f.eval) := by
  obtain @⟨container, rest, ys, h', heval, hcopies⟩ := ht
  have hin : ∀ z ∈ s.heap.contents container, z.In s.heap := by
    intro x hx
    obtain ⟨id, hheld⟩ := Heap.mem_held_of_mem_contents hx
    exact hs.closed id x hheld
  have hall := hcopies.copiedAll hs.closed (Heap.Grown.refl _) hs.closed hin
  have hsub : rest ⊆ f.eval := by
    rw [heval]
    exact fun z hz => List.mem_cons_of_mem _ hz
  have hgrown := Heap.grown_alloc h' (.list ys)
  have hnew : (h'.alloc (.list ys)).2.items h'.size = ys := by
    have hcell : (h'.alloc (.list ys)).2.cells[h'.size]? = some (.list ys) := Array.getElem?_push_size
    rw [Heap.items, hcell]
  rw [heval]
  show s.Placed _ (s.heap.contents container) ((h'.alloc (.list ys)).2.items h'.size ++ [])
  rw [hnew, List.append_nil]
  refine ⟨⟨h', hall, hgrown.size, fun c _ hlt => hgrown.items hlt, fun c hc hlt => ?_⟩, hin⟩
  have hroots := hs.references_resume (h := (h'.alloc (.list ys)).2) hframes s.session.tracker
    [.array h'.size] hsub hc
  -- The new array is none of the copies.
  have hne : ¬ (Item.array h'.size).refersTo c = true := by
    rw [Item.refersTo_iff]
    rintro ⟨⟩
    exact absurd hlt (Nat.lt_irrefl _)
  rw [List.countP_cons_of_neg hne, List.countP_nil, Nat.add_zero, Heap.references_alloc] at hroots
  exact hroots

end

namespace Engine

variable {e : Engine} {nested : Engine → Engine} {op : OpCode}

/-- An instruction that succeeds, of which it is known where it leads. -/
theorem onState_leads {m : Exec Unit} {done fault : State → Prop} (hframes : e.state.frames = f :: outer)
    (hm : Leads (· = e.state.resume e.state.heap f) m (fun _ => done) fault) {e' : Engine}
    (hrun : (onState m).run e = (.ok (), e')) : e.StateIn done e' := by
  have hleads := hm e.state (State.resume_self hframes).symm
  rw [run_onState] at hrun
  revert hleads hrun
  rcases m.run e.state with ⟨_ | _, t⟩
  · intro hrun _
    cases hrun
  · intro hrun hdone
    cases hrun
    exact ⟨t, rfl, hdone⟩

/-- **An instruction that copies structs** has put the copies in their places when it succeeds. -/
theorem perform_placed (hs : e.state.Intact) (hframes : e.state.frames = f :: outer) (hop : op.Copies)
    (i : Instruction) {e' : Engine} (hrun : (perform nested op i).run e = (.ok (), e')) :
    e.StateIn (fun t => e.state.Placed t (op.originals e.state.heap f.eval) (op.copies t f.eval)) e' := by
  unfold perform at hrun
  cases op with
  | setItem =>
    obtain ⟨t, rfl, ht⟩ := onState_leads hframes Instructions.setItem_leads hrun
    exact ⟨t, rfl, ht.placed hs hframes⟩
  | append =>
    obtain ⟨t, rfl, ht⟩ := onState_leads hframes Instructions.append_leads hrun
    exact ⟨t, rfl, ht.placed hs hframes⟩
  | pickItem =>
    obtain ⟨t, rfl, ht⟩ := onState_leads hframes Instructions.pickItem_leads hrun
    exact ⟨t, rfl, ht.placed hs hframes⟩
  | values =>
    obtain ⟨t, rfl, ht⟩ := onState_leads hframes Instructions.values_leads hrun
    exact ⟨t, rfl, ht.placed hs hframes⟩
  | _ => exact hop.elim

/-- The next instruction asks for no service, and a container that it writes is one of the first `size` ones. -/
def WritesBelow (e : Engine) (size : Nat) : Prop :=
  ∀ next ∈ e.next?, next.1 ≠ .sysCall ∧ ∀ id ∈ (next.1.target? next.2).bind Item.cell?, id < size

instance (e : Engine) (size : Nat) : Decidable (e.WritesBelow size) := by
  unfold WritesBelow
  infer_instance

/-- Writing older containers leaves a newer one alone. -/
theorem WritesBelow.spares {size : Nat} (hwrites : e.WritesBelow size) (hc : size ≤ c) : e.Spares c := by
  intro next hnext
  obtain ⟨hservice, htarget⟩ := hwrites next hnext
  exact ⟨hservice, fun hcell => absurd (htarget c hcell) (Nat.not_lt.2 hc)⟩

/-- **Structs are values.** When an instruction that stores a value in a container or reads values from one has
succeeded, in a machine without dangling references, what it has stored or pushed is one by one what it has taken,
but for the structs: each of these is a copy, which unfolds to what the struct unfolded to. All structs of the copy
were made by the instruction, and one reference leads to each of them, so that they are referred to only from the
slot of the copy and from within the copy. They keep their elements as long as the instructions that follow write
only containers that were there before. -/
theorem structs_are_values (htable : e.table = .standard) (hloader : e.LoaderLoadsOnly) (hs : e.state.Intact)
    {eval : Stack} (hnext : e.next? = some (op, eval)) (hop : op.Copies) (hrun : e.step.status = .running) :
    List.Forall₂ (e.state.heap.HandsOn e.step.state) (op.originals e.state.heap eval) (op.copies e.step.state eval) ∧
    ∀ copy, .struct copy ∈ op.copies e.step.state eval → ∀ c, e.step.state.heap.Nested copy c →
      ∀ n, (∀ k < n, (steps k e.step).WritesBelow e.state.heap.size) →
        (steps n e.step).state.heap.items c = e.step.state.heap.items c := by
  obtain ⟨f, outer, hframes, hfetch, rfl⟩ := exists_of_next? hnext
  obtain ⟨op', total, hfetch', hperform⟩ := step_performed htable hframes hrun
  rw [hfetch] at hfetch'
  cases hfetch'
  -- Paying for the instruction and reading its opcode leave the references as they are.
  have hroots : (e.state.charge total f outer).roots = e.state.roots := by
    rw [State.roots, State.stackItems, State.roots, State.stackItems, hframes]
    rfl
  have hcharged : (e.state.charge total f outer).Intact := ⟨hs.closed, hroots ▸ hs.roots⟩
  have hinnermost : ({ e with state := e.state.charge total f outer } : Engine).state.frames =
      f.advance :: outer := rfl
  obtain ⟨t, ht, hplaced⟩ := perform_placed hcharged hinnermost hop _ hperform
  have hstate : e.step.state = t := by rw [ht]
  have hall : List.Forall₂ (e.state.heap.HandsOn e.step.state) (op.originals e.state.heap f.eval)
      (op.copies e.step.state f.eval) := by
    rw [hstate]
    exact hplaced.handsOn
  refine ⟨hall, fun copy hmem c hc n hwrites => ?_⟩
  obtain ⟨x, -, hcopied⟩ := Heap.exists_of_mem_right hall hmem
  cases hcopied with
  | other hx => exact absurd rfl (hx copy)
  | struct hcopy =>
    obtain ⟨hge, hlt⟩ := hcopy.created c hc
    have hkeeping : e.step.Keeping c e.step.state.heap.cells[c] := by
      refine ⟨?_, ?_, Array.getElem?_eq_getElem hlt⟩
      · rw [ht]
        exact htable
      · rw [ht]
        exact hloader
    have hkept := (hkeeping.steps fun k hk => (hwrites k hk).spares hge).has
    rw [Heap.items, hkept, Heap.items, Array.getElem?_eq_getElem hlt]

/-- A script that appends a struct, in which there is another one, to an array, and then writes the inner one: the
copy in the array has a struct of its own, which stays. -/
theorem structs_are_values_append :
    let digests : CryptoSuite :=
      { sha1 := fun _ => #[], sha256 := fun _ => #[], hash160 := fun _ => #[], hash256 := fun _ => #[]
        verify := fun _ _ _ => false }
    let script : Bytes := #[0x51, 0xC6, 0x51, 0xC1, 0xC6, 0x6B, 0x00, 0xC5, 0x76, 0x6A, 0xC8,
      0x6C, 0xC2, 0x75, 0x00, 0x57, 0xC4]
    let e := steps 10 ((Engine.new .default digests).modifyState fun s => (s.loadScript script returnAll).2)
    (Reached .default digests e ∧ e.next? = some (.append, [.struct 2, .array 3, .array 3]) ∧
      e.step.status = .running ∧ ∀ k < 6, (steps k e.step).WritesBelow e.state.heap.size) ∧
    e.step.state.heap.items 3 = [.struct 4] ∧ e.state.heap.ValueCopy e.step.state 2 4 ∧
    e.step.state.heap.items 4 = [.struct 5] ∧ e.step.state.references 5 = 1 ∧
    (steps 6 e.step).state.heap.items 0 = [.integer (.small 7)] ∧
    (steps 6 e.step).state.heap.items 5 = e.step.state.heap.items 5 := by
  intro digests script e
  have hfresh : Reached .default digests (Engine.new .default digests) := .fresh none none fun _ h => by cases h
  have hreached : Reached .default digests e := steps_keeps (fun _ h => h.step) (hfresh.load _ _) 10
  have hnext : e.next? = some (.append, [.struct 2, .array 3, .array 3]) := by decide +kernel
  have hrun : e.step.status = .running := by decide +kernel
  have hlater : ∀ k < 6, (steps k e.step).WritesBelow e.state.heap.size := by decide +kernel
  have hhost := hreached.tidied.host
  obtain ⟨hcopies, hlasts⟩ := structs_are_values hhost.table hhost.loader hreached.intact hnext trivial hrun
  have houter : e.step.state.heap.items 4 = [.struct 5] := by decide +kernel
  have happended : OpCode.copies e.step.state .append [.struct 2, .array 3, .array 3] = [.struct 4] := by
    decide +kernel
  have hnested : e.step.state.heap.Nested 4 5 := by
    refine .single ?_
    rw [Heap.Nests, houter]
    exact List.mem_cons_self
  have hvalue : e.state.heap.ValueCopy e.step.state 2 4 := by
    rw [happended] at hcopies
    cases hcopies with
    | cons hcopy _ =>
      cases hcopy with
      | struct hcopy => exact hcopy
  refine ⟨⟨hreached, hnext, hrun, hlater⟩, by decide +kernel, hvalue, houter, hvalue.once 5 hnested, by decide +kernel,
    hlasts 4 ?_ 5 hnested 6 hlater⟩
  rw [happended]
  exact List.mem_cons_self

end Engine

end ScriptMachine
