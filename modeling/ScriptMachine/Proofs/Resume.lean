import ScriptMachine.Proofs.Keeps
import ScriptMachine.Proofs.Heap.Copies

/-! # The innermost frame and the objects

Most instructions change the innermost frame and the objects, and nothing else. `State.resume` is the machine with
other objects and another innermost frame; the effect of such an instruction is told in these terms. Each of the
instructions that copy structs, and of those that write containers, has one lemma here that says all that it does
when it succeeds, and what it leaves of the objects when it fails.

* `State.resume`, `Engine.resume`, with the runs of the parts of instructions on them.
* `Heap.Stores`, `Heap.Removes`, `Instructions.setItem_leads` and so on: instructions that write a container.
* `Heap.element?`, `Heap.contents`, `Instructions.pickItem_leads`, `values_leads`: instructions that read one.
-/

namespace ScriptMachine

variable {α β : Type} {s : State} {h h' : Heap} {f : Frame} {B : β → State → Prop} {E : State → Prop}

/-- The machine with other objects and another innermost frame. -/
def State.resume (s : State) (h : Heap) (f : Frame) : State := { s with heap := h }.setFrames (f :: s.frames.tail)

namespace State

/-- A machine goes on from where it is. -/
theorem resume_self {outer : List Frame} (hframes : s.frames = f :: outer) : s.resume s.heap f = s := by
  have hcalls : { s.session.calls with frames := f :: outer } = s.session.calls := by
    rw [← hframes]
    rfl
  show ({ s with session := { s.session with calls := { s.session.calls with frames := f :: s.frames.tail } } } :
    State) = s
  rw [hframes, List.tail_cons, hcalls]

/-- The objects are the given ones. -/
@[simp] theorem resume_heap : (s.resume h f).heap = h := rfl

/-- The frames outside of the innermost one are the same. -/
@[simp] theorem resume_frames : (s.resume h f).frames = f :: s.frames.tail := rfl

/-- Only the last objects and the last innermost frame count. -/
@[simp] theorem resume_resume {f' : Frame} : (s.resume h f).resume h' f' = s.resume h' f' := rfl

/-- A list of tracked containers belongs to the machine. -/
def withTracker (s : State) (tracker : CycleTracker) : State := { s with session := { s.session with tracker } }

end State

/-- The engine with other objects and another innermost frame. -/
def Engine.resume (e : Engine) (h : Heap) (f : Frame) : Engine := { e with state := e.state.resume h f }

/-- An engine goes on from where it is. -/
theorem Engine.resume_self {e : Engine} {outer : List Frame} (hframes : e.state.frames = f :: outer) :
    e.resume e.state.heap f = e := by
  rw [resume, State.resume_self hframes]

/-! ## Parts of instructions -/

/-- Nothing can be popped from an empty stack. -/
theorem Frame.run_pop_nil (heval : f.eval = []) : Frame.pop.run f = (.error (.underflow 1 0), f) := by
  rw [Frame.pop, run_get_seq, heval]
  rfl

/-- Popping takes the top item. -/
theorem Frame.run_pop_cons {x : Item} {rest : Stack} (heval : f.eval = x :: rest) :
    Frame.pop.run f = (.ok x, { f with eval := rest }) := by
  rw [Frame.pop, run_get_seq, heval]
  rfl

/-- Popping a key takes the top item, and faults if it is a container. -/
theorem Instructions.run_popKey_cons {x : Item} {rest : Stack} (heval : f.eval = x :: rest) :
    popKey.run f = (if x.isCompound then .error (.notAKey x.kind) else .ok x, { f with eval := rest }) := by
  rw [popKey, run_seq, Frame.run_pop_cons heval]
  cases hcompound : x.isCompound <;> simp [hcompound] <;> rfl

namespace Exec

/-- A computation of the innermost frame. -/
theorem run_onFrame_resume (m : FrameM α) :
    (onFrame m).run (s.resume h f) = ((m.run f).1, s.resume h (m.run f).2) := run_onFrame_cons m rfl

end Exec

/-- A computation of the innermost frame of an engine. -/
theorem Engine.run_onFrame_resume (m : FrameM α) (e : Engine) :
    (onFrame m).run (e.resume h f) = ((m.run f).1, e.resume h (m.run f).2) := by
  have hstate : (Exec.onFrame m).run (e.resume h f).state = ((m.run f).1, e.state.resume h (m.run f).2) :=
    Exec.run_onFrame_resume m
  rw [onFrame, run_onState, hstate]
  rfl

namespace Leads

/-- A computation that starts from one machine. -/
theorem run {m : Exec α} {A : α → State → Prop} {t : State} {r : Except Fault α}
    (hrun : m.run s = (r, t)) (hok : ∀ a, r = .ok a → A a t) (herror : ∀ cause, r = .error cause → E t) :
    Leads (· = s) m A E := by
  rintro _ rfl
  rw [hrun]
  cases r with
  | error cause => exact herror cause rfl
  | ok a => exact hok a rfl

section

variable {k : Item → Exec β} (herror : ∀ f', E (s.resume h f'))
include herror

/-- **Popping an item**, and what follows. -/
theorem pop (hk : ∀ x rest, f.eval = x :: rest →
      Leads (· = s.resume h { f with eval := rest }) (k x) B E) :
    Leads (· = s.resume h f) (Exec.pop >>= k) B E := by
  refine seq (A := fun x t => ∃ rest, f.eval = x :: rest ∧ t = s.resume h { f with eval := rest })
    (run (Exec.run_onFrame_resume Frame.pop) ?_ fun _ _ => herror _) ?_
  · intro x hx
    cases heval : f.eval with
    | nil =>
      rw [Frame.run_pop_nil heval] at hx
      cases hx
    | cons y rest =>
      rw [Frame.run_pop_cons heval] at hx ⊢
      cases hx
      exact ⟨rest, rfl, rfl⟩
  · rintro x _ ⟨rest, heval, rfl⟩
    exact hk x rest heval _ rfl

/-- **Popping a key**, and what follows. -/
theorem popKey (hk : ∀ key rest, f.eval = key :: rest → key.isCompound = false →
      Leads (· = s.resume h { f with eval := rest }) (k key) B E) :
    Leads (· = s.resume h f) (Exec.onFrame Instructions.popKey >>= k) B E := by
  refine seq (A := fun key t => ∃ rest, f.eval = key :: rest ∧ key.isCompound = false ∧
    t = s.resume h { f with eval := rest })
    (run (Exec.run_onFrame_resume Instructions.popKey) ?_ fun _ _ => herror _) ?_
  · intro key hkey
    cases heval : f.eval with
    | nil =>
      rw [Instructions.popKey, run_seq, Frame.run_pop_nil heval] at hkey
      cases hkey
    | cons y rest =>
      rw [Instructions.run_popKey_cons heval] at hkey ⊢
      cases hcompound : y.isCompound with
      | true =>
        rw [hcompound] at hkey
        cases hkey
      | false =>
        rw [hcompound] at hkey
        cases hkey
        exact ⟨rest, rfl, hcompound, rfl⟩
  · rintro key _ ⟨rest, heval, hkey, rfl⟩
    exact hk key rest heval hkey _ rfl

/-- **Copying a value**, and what follows. -/
theorem copyValue {x : Item} (hk : ∀ y h', h.copyValue x s.limits.traversal = .ok (y, h') →
      Leads (· = s.resume h' f) (k y) B E) :
    Leads (· = s.resume h f) (Exec.copyValue x >>= k) B E := by
  refine seq (A := fun y t => ∃ h', h.copyValue x s.limits.traversal = .ok (y, h') ∧ t = s.resume h' f) ?_ ?_
  · unfold Exec.copyValue
    refine reads ?_
    rintro _ rfl
    have hlimits : (s.resume h f).limits = s.limits := rfl
    rw [State.resume_heap, hlimits]
    cases hcopy : h.copyValue x s.limits.traversal with
    | error cause => exact fails fun t ht => ht ▸ herror f
    | ok r =>
      rintro _ rfl
      exact ⟨r.2, rfl, rfl⟩
  · rintro y _ ⟨h', hcopy, rfl⟩
    exact hk y h' hcopy _ rfl

end

/-- Reading the objects, and what follows. -/
theorem heap {k : Heap → Exec β} (hk : Leads (· = s.resume h f) (k h) B E) :
    Leads (· = s.resume h f) (Exec.heap >>= k) B E := by
  rintro _ rfl
  exact hk _ rfl

/-- Reading the bounds, and what follows. -/
theorem limits {k : Limits → Exec β} (hk : Leads (· = s.resume h f) (k s.limits) B E) :
    Leads (· = s.resume h f) (Exec.limits >>= k) B E := by
  rintro _ rfl
  exact hk _ rfl

/-- A result that was computed beforehand, and what follows. -/
theorem computed {x : Except Fault α} {k : α → Exec β} {P : State → Prop} (herror : ∀ s, P s → E s)
    (hk : ∀ a, x = .ok a → Leads P (k a) B E) : Leads P (MonadExcept.ofExcept x >>= k) B E := by
  cases x with
  | error cause => exact fails herror
  | ok a => exact hk a rfl

end Leads

/-! ## Writing a container -/

/-- A value was stored in a container at a key: an element was replaced, or the value of a key set. -/
inductive Heap.Stores (h : Heap) (container key y : Item) : Heap → Prop where
  /-- An element of a list. -/
  | list {id index : Nat} (hcontainer : container.listCell? = some id)
    (hindex : Instructions.indexIn key (h.items id).length = .ok index) :
    Stores h container key y (h.setItems id ((h.items id).set index y))
  /-- A value of a map. -/
  | map {id : Nat} (hcontainer : container = .map id) : Stores h container key y (h.mapSet id key y)

/-- The element at a key was taken out of a container. -/
inductive Heap.Removes (h : Heap) (container key : Item) : Heap → Prop where
  /-- An element of a list. -/
  | list {id index : Nat} (hcontainer : container.listCell? = some id)
    (hindex : Instructions.indexIn key (h.items id).length = .ok index) :
    Removes h container key (h.setItems id ((h.items id).eraseIdx index))
  /-- An entry of a map. -/
  | map {id : Nat} (hcontainer : container = .map id) : Removes h container key (h.mapRemove id key).2

/-- Storing a value writes the container. -/
theorem Heap.Stores.writes {container key y : Item} (hstored : h.Stores container key y h') :
    ∃ id, container.cell? = some id ∧ h.Writes h' id [key, y] := by
  cases hstored with
  | @list id index hcontainer hindex =>
    refine ⟨id, Item.cell?_of_listCell? hcontainer, Heap.writes_setItems fun x hx => ?_⟩
    refine (List.mem_or_eq_of_mem_set hx).imp_right ?_
    rintro rfl
    exact List.mem_cons_of_mem _ List.mem_cons_self
  | @map id hcontainer => exact ⟨id, hcontainer ▸ rfl, Heap.writes_mapSet h id key y⟩

/-- Taking out an element writes the container. -/
theorem Heap.Removes.writes {container key : Item} (hremoved : h.Removes container key h') :
    ∃ id, container.cell? = some id ∧ h.Writes h' id [] := by
  cases hremoved with
  | @list id index hcontainer hindex =>
    refine ⟨id, Item.cell?_of_listCell? hcontainer, Heap.writes_setItems fun x hx => ?_⟩
    exact Or.inl ((List.eraseIdx_sublist _ _).mem hx)
  | @map id hcontainer => exact ⟨id, hcontainer ▸ rfl, Heap.writes_mapRemove h id key⟩

namespace Instructions

/-- An index that was checked is inside. -/
theorem lt_of_indexIn {key : Item} {length index : Nat} (hindex : indexIn key length = .ok index) :
    index < length := by
  unfold indexIn at hindex
  split at hindex
  · cases hindex
  · split at hindex
    · cases hindex
      omega
    · cases hindex

/-- Writing a container, which is tracked if it receives a container. -/
theorem store_leads {container value : Item} {A : Unit → State → Prop}
    (hok : ∀ tracker, A () ((s.withTracker tracker).resume h' f)) :
    Leads (· = s.resume h f)
      (do
        Exec.setHeap h'
        trackNesting container value)
      A E := by
  rintro _ rfl
  rw [run_seq]
  unfold trackNesting
  cases hcompound : value.isCompound with
  | true => exact hok ((s.resume h' f).track container [container]).session.tracker
  | false => exact hok s.session.tracker

/-- An element that was replaced at a checked index. -/
theorem setAt_eq {id index : Nat} {y : Item} (hset : h.setAt id index y = .ok h') :
    h' = h.setItems id ((h.items id).set index y) := by
  unfold Heap.setAt at hset
  dsimp only at hset
  split at hset
  · cases hset
    rfl
  · cases hset

/-- What `SETITEM` leaves: a copy of the top item is stored at the key below it in the container below that. -/
inductive SetItemDone (s : State) (h : Heap) (f : Frame) : State → Prop where
  /-- The operands, the copy, and the objects after copying and after storing. -/
  | intro {x key container y : Item} {rest : Stack} {h₁ h₂ : Heap} (tracker : CycleTracker)
    (heval : f.eval = x :: key :: container :: rest) (hkey : key.isCompound = false)
    (hcopy : h.copyValue x s.limits.traversal = .ok (y, h₁)) (hstored : h₁.Stores container key y h₂) :
    SetItemDone s h f ((s.withTracker tracker).resume h₂ { f with eval := rest })

/-- **`SETITEM`**: when it fails, there may be new objects, and the old ones are the same. -/
theorem setItem_leads :
    Leads (· = s.resume h f) setItem (fun _ => SetItemDone s h f) (fun t => h.Grown t.heap) := by
  have hsame : ∀ f', h.Grown (s.resume h f').heap := fun _ => Heap.Grown.refl h
  unfold setItem
  refine Leads.limits (Leads.pop hsame fun x rest₁ hx => Leads.copyValue hsame fun y h₁ hcopy => ?_)
  have hgrown : ∀ f', h.Grown (s.resume h₁ f').heap := fun _ => Heap.grown_copyValue hcopy
  refine Leads.popKey hgrown fun key rest₂ hkey hprimitive => Leads.pop hgrown fun container rest hcontainer => ?_
  have heval : f.eval = x :: key :: container :: rest := by
    rw [hx]
    exact congrArg _ (hkey.trans (congrArg _ hcontainer))
  have hlist : ∀ id, container.listCell? = some id → Leads (· = s.resume h₁ { f with eval := rest })
      (do
        let index ← MonadExcept.ofExcept (indexIn key (h₁.items id).length)
        Exec.setHeap (← MonadExcept.ofExcept (h₁.setAt id index y))
        trackNesting container y)
      (fun _ => SetItemDone s h f) (fun t => h.Grown t.heap) := by
    intro id hid
    refine Leads.computed (fun _ ht => ht ▸ hgrown _) fun index hindex => ?_
    refine Leads.computed (fun _ ht => ht ▸ hgrown _) fun h₂ hset => store_leads fun tracker => ?_
    rw [setAt_eq hset]
    exact .intro tracker heval hprimitive hcopy (.list hid hindex)
  refine Leads.heap ?_
  dsimp only
  split
  · exact hlist _ rfl
  · exact hlist _ rfl
  · refine Leads.guarded (fun _ ht => ht ▸ hgrown _) fun _ => store_leads fun tracker => ?_
    exact .intro tracker heval hprimitive hcopy (.map rfl)
  · exact Leads.fails fun _ ht => ht ▸ hgrown _

/-- What `APPEND` leaves: a copy of the top item is the last element of the list below it. -/
inductive AppendDone (s : State) (h : Heap) (f : Frame) : State → Prop where
  /-- The operands, the copy, and the objects after copying. -/
  | intro {x container y : Item} {rest : Stack} {h₁ : Heap} {id : Nat} (tracker : CycleTracker)
    (heval : f.eval = x :: container :: rest) (hcopy : h.copyValue x s.limits.traversal = .ok (y, h₁))
    (hcontainer : container.listCell? = some id) :
    AppendDone s h f ((s.withTracker tracker).resume (h₁.append id y) { f with eval := rest })

/-- **`APPEND`**: when it fails, there may be new objects, and the old ones are the same. -/
theorem append_leads :
    Leads (· = s.resume h f) append (fun _ => AppendDone s h f) (fun t => h.Grown t.heap) := by
  have hsame : ∀ f', h.Grown (s.resume h f').heap := fun _ => Heap.Grown.refl h
  unfold append
  refine Leads.limits (Leads.pop hsame fun x rest₁ hx => Leads.copyValue hsame fun y h₁ hcopy => ?_)
  have hgrown : ∀ f', h.Grown (s.resume h₁ f').heap := fun _ => Heap.grown_copyValue hcopy
  refine Leads.pop hgrown fun container rest hcontainer => ?_
  have heval : f.eval = x :: container :: rest := hx.trans (congrArg _ hcontainer)
  split
  · exact Leads.throws fun _ ht => ht ▸ hgrown _
  · rename_i id hid
    refine Leads.heap (Leads.guarded (fun _ ht => ht ▸ hgrown _) fun _ => store_leads fun tracker => ?_)
    exact .intro tracker heval hcopy hid

/-- What `REVERSE` leaves: the elements of the list on top are reversed. -/
inductive ReverseDone (s : State) (h : Heap) (f : Frame) : State → Prop where
  /-- The operand. -/
  | intro {container : Item} {rest : Stack} {id : Nat} (heval : f.eval = container :: rest)
    (hcontainer : container.listCell? = some id) :
    ReverseDone s h f (s.resume (h.reverse id) { f with eval := rest })

/-- **`REVERSE`**: when it fails, the objects are the same. -/
theorem reverse_leads :
    Leads (· = s.resume h f) reverse (fun _ => ReverseDone s h f) (fun t => t.heap = h) := by
  unfold reverse
  refine Leads.pop (fun _ => rfl) fun container rest hcontainer => ?_
  split
  · exact Leads.throws fun _ ht => ht ▸ rfl
  · rename_i id hid
    rintro _ rfl
    exact .intro hcontainer hid

/-- What `REMOVE` leaves: the element at the key on top is taken out of the container below it. -/
inductive RemoveDone (s : State) (h : Heap) (f : Frame) : State → Prop where
  /-- The operands, and the objects afterwards. -/
  | intro {key container : Item} {rest : Stack} {h' : Heap} (heval : f.eval = key :: container :: rest)
    (hremoved : h.Removes container key h') : RemoveDone s h f (s.resume h' { f with eval := rest })

/-- **`REMOVE`**: when it fails, the objects are the same. -/
theorem remove_leads :
    Leads (· = s.resume h f) remove (fun _ => RemoveDone s h f) (fun t => t.heap = h) := by
  unfold remove
  refine Leads.popKey (fun _ => rfl) fun key rest₁ hkey _ =>
    Leads.pop (fun _ => rfl) fun container rest hcontainer => ?_
  have heval : f.eval = key :: container :: rest := hkey.trans (congrArg _ hcontainer)
  have hlist : ∀ id, container.listCell? = some id → Leads (· = s.resume h { f with eval := rest })
      (do
        let index ← MonadExcept.ofExcept (indexIn key (h.items id).length)
        let r ← MonadExcept.ofExcept (h.removeAt id index)
        Exec.setHeap r.2)
      (fun _ => RemoveDone s h f) (fun t => t.heap = h) := by
    intro id hid
    refine Leads.computed (fun _ ht => ht ▸ rfl) fun index hindex => ?_
    refine Leads.computed (fun _ ht => ht ▸ rfl) fun r hremove => ?_
    rintro _ rfl
    have hr : r.2 = h.setItems id ((h.items id).eraseIdx index) := by
      unfold Heap.removeAt at hremove
      dsimp only at hremove
      split at hremove
      · cases hremove
        rfl
      · cases hremove
    show RemoveDone s h f (s.resume r.2 { f with eval := rest })
    rw [hr]
    exact .intro heval (.list hid hindex)
  refine Leads.heap ?_
  dsimp only
  split
  · exact hlist _ rfl
  · exact hlist _ rfl
  · rintro _ rfl
    exact .intro heval (.map rfl)
  · exact Leads.throws fun _ ht => ht ▸ rfl

end Instructions

/-! ## Reading a container -/

namespace Heap

/-- The element of a list at an index, or the value of a key of a map. -/
def element? (h : Heap) (container key : Item) : Option Item :=
  match container with
  | .array id | .struct id =>
    match Instructions.indexIn key (h.items id).length with
    | .ok index => (h.items id)[index]?
    | .error _ => none
  | .map id => h.mapGet? id key
  | _ => none

/-- The elements of a list, or the values of a map. -/
def contents (h : Heap) : Item → List Item
  | .array id | .struct id => h.items id
  | .map id => h.mapValues id
  | _ => []

/-- The element of a list at a checked index. -/
theorem element?_list {container key : Item} {id index : Nat} (hid : container.listCell? = some id)
    (hindex : Instructions.indexIn key (h.items id).length = .ok index) :
    h.element? container key = (h.items id)[index]? := by
  cases container with
  | array id' | struct id' =>
    cases hid
    unfold element?
    dsimp only
    rw [hindex]
  | _ => cases hid

/-- All values of a list were copied, one after the other. -/
inductive CopiesAll (limit : Nat) : Heap → List Item → List Item → Heap → Prop where
  /-- No value. -/
  | nil {h : Heap} : CopiesAll limit h [] [] h
  /-- One value more. -/
  | cons {h h₁ h' : Heap} {x y : Item} {xs ys : List Item} (hcopy : h.copyValue x limit = .ok (y, h₁))
    (hrest : CopiesAll limit h₁ xs ys h') : CopiesAll limit h (x :: xs) (y :: ys) h'

end Heap

namespace Instructions

/-- What `PICKITEM` leaves: a copy of the element at the key on top of the container below it. -/
inductive PickItemDone (s : State) (h : Heap) (f : Frame) : State → Prop where
  /-- The operands, the element and its copy, and the objects afterwards. -/
  | intro {key container x y : Item} {rest : Stack} {h' : Heap} (heval : f.eval = key :: container :: rest)
    (helement : h.element? container key = some x) (hcopy : h.copyValue x s.limits.traversal = .ok (y, h')) :
    PickItemDone s h f (s.resume h' { f with eval := y :: rest })

/-- **`PICKITEM`**: when it fails, the objects are the same. -/
theorem pickItem_leads :
    Leads (· = s.resume h f) pickItem (fun _ => PickItemDone s h f) (fun t => t.heap = h) := by
  unfold pickItem
  refine Leads.popKey (fun _ => rfl) fun key rest₁ hkey _ =>
    Leads.pop (fun _ => rfl) fun container rest hcontainer => ?_
  have heval : f.eval = key :: container :: rest := hkey.trans (congrArg _ hcontainer)
  have hpush : ∀ x, h.element? container key = some x → Leads (· = s.resume h { f with eval := rest })
      (do Exec.push (← Exec.copyValue x)) (fun _ => PickItemDone s h f) (fun t => t.heap = h) := by
    intro x hx
    refine Leads.copyValue (fun _ => rfl) fun y h' hcopy => ?_
    rintro _ rfl
    exact .intro heval hx hcopy
  have hlist : ∀ id, container.listCell? = some id → Leads (· = s.resume h { f with eval := rest })
      (do
        let index ← MonadExcept.ofExcept (indexIn key (h.items id).length)
        Exec.push (← Exec.copyValue ((h.items id).getD index default)))
      (fun _ => PickItemDone s h f) (fun t => t.heap = h) := by
    intro id hid
    refine Leads.computed (fun _ ht => ht ▸ rfl) fun index hindex => hpush _ ?_
    have hlt := lt_of_indexIn hindex
    rw [Heap.element?_list hid hindex, List.getD_eq_getElem?_getD, List.getElem?_eq_getElem hlt]
    rfl
  refine Leads.heap ?_
  dsimp only
  split
  · exact hlist _ rfl
  · exact hlist _ rfl
  · split
    · rename_i value hvalue
      exact hpush value hvalue
    · exact Leads.fails fun _ ht => ht ▸ rfl
  · exact Leads.fails fun _ ht => ht ▸ rfl

/-- Copying values, one after the other. -/
theorem copyValues_leads (xs : List Item) :
    Leads (· = s.resume h f) (xs.mapM Exec.copyValue)
      (fun ys t => ∃ h', Heap.CopiesAll s.limits.traversal h xs ys h' ∧ t = s.resume h' f)
      (fun t => h.Grown t.heap) := by
  induction xs generalizing h with
  | nil =>
    rw [List.mapM_nil]
    exact Leads.returns fun t ht => ⟨h, .nil, ht⟩
  | cons x xs ih =>
    rw [List.mapM_cons]
    refine Leads.copyValue (fun _ => Heap.Grown.refl h) fun y h₁ hcopy => ?_
    have hgrown := Heap.grown_copyValue hcopy
    refine (ih.ends (fun _ _ ht => ht) fun t ht => hgrown.trans ht).seq fun ys => Leads.returns ?_
    rintro _ ⟨h', hrest, rfl⟩
    exact ⟨h', .cons hcopy hrest, rfl⟩

/-- What `VALUES` leaves: a new array of copies of all elements or values of the container on top. -/
inductive ValuesDone (s : State) (h : Heap) (f : Frame) : State → Prop where
  /-- The operand, the copies, and the objects before the array was made. -/
  | intro {container : Item} {rest : Stack} {ys : List Item} {h' : Heap} (heval : f.eval = container :: rest)
    (hcopies : Heap.CopiesAll s.limits.traversal h (h.contents container) ys h') :
    ValuesDone s h f (s.resume (h'.newArray ys).2 { f with eval := (h'.newArray ys).1 :: rest })

/-- **`VALUES`**: when it fails, there may be new objects, and the old ones are the same. -/
theorem values_leads :
    Leads (· = s.resume h f) values (fun _ => ValuesDone s h f) (fun t => h.Grown t.heap) := by
  unfold values
  refine Leads.pop (fun _ => Heap.Grown.refl h) fun container rest heval => Leads.heap ?_
  have hcopy : ∀ items, h.contents container = items → Leads (· = s.resume h { f with eval := rest })
      (do Exec.pushArray (← items.mapM Exec.copyValue)) (fun _ => ValuesDone s h f) (fun t => h.Grown t.heap) := by
    rintro _ rfl
    refine (copyValues_leads _).seq fun ys => ?_
    rintro _ ⟨h', hcopies, rfl⟩
    exact .intro heval hcopies
  dsimp only
  split
  · exact hcopy _ rfl
  · exact hcopy _ rfl
  · exact hcopy _ rfl
  · exact Leads.fails fun _ ht => ht ▸ Heap.Grown.refl h

end Instructions

end ScriptMachine
