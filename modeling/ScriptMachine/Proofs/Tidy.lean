import ScriptMachine.Proofs.FrameChange
import ScriptMachine.Proofs.Heap.References

/-! # Tidy machines

A machine is *tidy* when all containers that its roots and its containers refer to exist and its tracker covers
all rings of containers. An instruction takes items off a stack and works on with them; `Tidy held s` therefore
also says that the containers among the items `held` exist. Most instructions move items and make primitive
ones. For these two classes build up what an instruction does from its parts: `Moves` for computations of a
frame, and `Neat` for computations of a state.

* `Tidy`: the invariant, with `Tidy.moved`, `Tidy.extended`, `Tidy.written` and `Tidy.tracked` on its changes.
* `Moves`: computations of a frame, put together by instances.
* `Exec.onFrame_tidy`: what a computation of the innermost frame hands out.
* `Neat`: computations of a state, with instances for the instructions that neither make nor write containers.
-/

namespace ScriptMachine

/-- All containers that the machine and the given items refer to exist, and all rings are covered. -/
structure Tidy (held : List Item) (s : State) : Prop where
  /-- The containers in containers exist. -/
  closed : s.heap.Closed
  /-- The containers among the given items exist. -/
  held : ∀ x ∈ held, x.In s.heap
  /-- The containers on the stacks, and those that the host keeps hold of, exist. -/
  roots : ∀ x ∈ s.roots, x.In s.heap
  /-- The tracker covers all rings. -/
  covers : s.session.tracker.Covers s.heap

variable {α β : Type} {held : List Item} {s t : State} {h h' : Heap} {id : Nat}

/-- The items on the stacks are results, or items of a frame. -/
theorem State.mem_stackItems {x : Item} :
    x ∈ s.stackItems ↔ x ∈ s.session.results ∨ ∃ f ∈ s.frames, x ∈ f.eval ++ f.alt := by
  rw [stackItems, List.mem_append, List.mem_flatMap]

/-- The item is primitive, or it was held by the machine or next to it. -/
def Known (held : List Item) (s : State) (x : Item) : Prop :=
  x.cell? = none ∨ x ∈ held ∨ x ∈ s.stackItems

/-- Containers exist in a heap with the same cells. -/
theorem Item.In.congr {x : Item} (hx : x.In h) (hcells : h'.cells = h.cells) : x.In h' := by
  intro id hid
  rw [Heap.size, hcells]
  exact hx id hid

/-- Held items are known. -/
theorem known_of_mem_held {x : Item} (hx : x ∈ held) : Known held s x := Or.inr (Or.inl hx)

/-- The results are known. -/
theorem known_of_mem_results {x : Item} (hx : x ∈ s.session.results) : Known held s x :=
  Or.inr (Or.inr (State.mem_stackItems.2 (Or.inl hx)))

/-- The items of the frames are known. -/
theorem known_of_mem_frames {f : Frame} (hf : f ∈ s.frames) {x : Item} (hx : x ∈ f.eval ++ f.alt) :
    Known held s x := Or.inr (Or.inr (State.mem_stackItems.2 (Or.inr ⟨f, hf, hx⟩)))

namespace Tidy

/-! ## Changes of the invariant -/

/-- Items that are no longer needed. -/
theorem drop (hs : Tidy held s) {fewer : List Item} (hsub : fewer ⊆ held) : Tidy fewer s :=
  ⟨hs.closed, fun x hx => hs.held x (hsub hx), hs.roots, hs.covers⟩

/-- No item is needed any longer. -/
theorem dropAll (hs : Tidy held s) : Tidy [] s := hs.drop (List.nil_subset _)

/-- More items that exist. -/
theorem hold (hs : Tidy held s) {more : List Item} (hmore : ∀ x ∈ more, x.In s.heap) :
    Tidy (more ++ held) s := by
  refine ⟨hs.closed, fun x hx => ?_, hs.roots, hs.covers⟩
  rcases List.mem_append.1 hx with hx | hx
  · exact hmore x hx
  · exact hs.held x hx

/-- The elements of a list exist. -/
theorem elements (hs : Tidy held s) {x : Item} {items : List Item} (hitems : s.heap.elements? x = some items) :
    ∀ y ∈ items, y.In s.heap := by
  obtain ⟨id, -, rfl⟩ := Option.map_eq_some_iff.1 hitems
  exact fun y hy => hs.closed id y (Heap.mem_held_of_mem_items hy)

/-- A known item exists. -/
theorem known (hs : Tidy held s) {x : Item} (hx : Known held s x) : x.In s.heap := by
  rcases hx with hprimitive | hx | hx
  · exact Item.in_of_primitive hprimitive
  · exact hs.held x hx
  · exact hs.roots x (List.mem_append_right _ hx)

/-- **Items that only move**: all items are known, and the containers and the tracker are the same. -/
theorem moved (hs : Tidy held s) {held' : List Item} (hcells : t.heap.cells = s.heap.cells)
    (htracker : t.session.tracker = s.session.tracker) (hkept : t.kept = s.kept) (hheld : ∀ x ∈ held', Known held s x)
    (hitems : ∀ x ∈ t.stackItems, Known held s x) : Tidy held' t := by
  refine ⟨fun id x hx => ?_, fun x hx => (hs.known (hheld x hx)).congr hcells, fun x hx => ?_,
    fun ring hring => ?_⟩
  · rw [Heap.held, hcells] at hx
    exact (hs.closed id x hx).congr hcells
  · rcases List.mem_append.1 hx with hx | hx
    · rw [hkept] at hx
      exact (hs.roots x (List.mem_append_left _ hx)).congr hcells
    · exact (hs.known (hitems x hx)).congr hcells
  · rw [htracker]
    refine hs.covers ring (hring.imp fun a _ b hab => ?_)
    rw [Heap.Refers, Heap.contained, hcells] at hab
    exact hab

/-- Other frames, of known items. -/
theorem setFrames (hs : Tidy held s) (fs : List Frame) {held' : List Item}
    (hheld : ∀ x ∈ held', Known held s x) (hfs : ∀ f ∈ fs, ∀ x ∈ f.eval ++ f.alt, Known held s x) :
    Tidy held' (s.setFrames fs) := by
  refine hs.moved rfl rfl rfl hheld fun x hx => ?_
  rcases State.mem_stackItems.1 hx with hx | ⟨f, hf, hx⟩
  · exact known_of_mem_results hx
  · exact hfs f hf x hx

/-- **Containers were added.** -/
theorem extended (hs : Tidy held s) (hx : s.heap.Extends h') : Tidy held { s with heap := h' } := by
  refine ⟨hx.closed hs.closed, fun x hmem => (hs.held x hmem).mono hx.size,
    fun x hmem => (hs.roots x hmem).mono hx.size, fun ring hring => ?_⟩
  exact hs.covers ring (hx.ring hs.closed hring)

section

variable {added : List Item} (hs : Tidy held s) (hw : s.heap.Writes h' id added)
include hs hw

/-- **A container was written without nesting.** -/
theorem written (hadded : ∀ x ∈ added, x.cell? = none) : Tidy held { s with heap := h' } := by
  refine ⟨hw.closed hs.closed fun x hx => Item.in_of_primitive (hadded x hx),
    fun x hx => (hs.held x hx).mono (Nat.le_of_eq hw.size.symm),
    fun x hx => (hs.roots x hx).mono (Nat.le_of_eq hw.size.symm), fun ring hring => ?_⟩
  exact hs.covers ring (hw.ring_of_primitive hadded hring)

/-- **A container was written and is tracked now**: a new ring passes through it. -/
theorem tracked {container : Item} (hcell : container.cell? = some id) (extra : List Item)
    (hadded : ∀ x ∈ added, x.cell? = none ∨ x ∈ held) :
    Tidy held (({ s with heap := h' } : State).track container extra) := by
  have hin : ∀ x ∈ added, x.In s.heap := by
    intro x hx
    rcases hadded x hx with hprimitive | hx
    · exact Item.in_of_primitive hprimitive
    · exact hs.held x hx
  refine ⟨hw.closed hs.closed hin, fun x hx => (hs.held x hx).mono (Nat.le_of_eq hw.size.symm),
    fun x hx => (hs.roots x hx).mono (Nat.le_of_eq hw.size.symm), ?_⟩
  refine CycleTracker.Covers.track hcell _ fun ring hring => ?_
  exact (hw.ring hring).imp_right (hs.covers ring)

end

end Tidy

/-! ## Computations of a frame that move items -/

/-- The computation only moves items and makes primitive ones. -/
class Moves (m : FrameM α) : Prop where
  /-- What holds of all primitive items and of the items of the frame holds of its items afterwards. -/
  keeps : ∀ {ok : Item → Prop}, (∀ x, x.cell? = none → ok x) → ∀ f₀,
    Keeps (FrameChange ok f₀) m (fun _ => True)

/-- Frames make primitive items. -/
theorem made_of_primitive {ok : Item → Prop} (hok : ∀ x, x.cell? = none → ok x) (l : Limits) : Made ok l :=
  ⟨fun _ => hok _ rfl, fun _ => hok _ rfl, fun _ _ => hok _ rfl⟩

namespace Moves

/-- Returning a value. -/
instance returns (a : α) : Moves (pure a) := ⟨fun _ _ => Keeps.returns trivial⟩

/-- A fault. -/
instance throws (f : Fault) : Moves (throw f : FrameM α) := ⟨fun _ _ => Keeps.throws f⟩

/-- A sequence. -/
instance both {m : FrameM α} {k : α → FrameM β} [hm : Moves m] [hk : ∀ a, Moves (k a)] : Moves (m >>= k) :=
  ⟨fun hok f₀ => (hm.keeps hok f₀).seq fun a _ => (hk a).keeps hok f₀⟩

/-- A branch. -/
instance branch {c : Prop} [Decidable c] {m n : FrameM α} [hm : Moves m] [hn : Moves n] :
    Moves (if c then m else n) :=
  ⟨fun hok f₀ => Keeps.branch (fun _ => hm.keeps hok f₀) fun _ => hn.keeps hok f₀⟩

/-- Reading the frame. -/
instance reads : Moves (get : FrameM Frame) := ⟨fun _ _ => Keeps.reads.weaken fun _ _ => trivial⟩

instance (count : Nat) : Moves (Frame.readBytes count) :=
  ⟨fun _ _ => (Frame.readBytes_keeps count).weaken fun _ _ => trivial⟩

instance (width : Nat) : Moves (Frame.readNat width) := ⟨fun _ _ => Frame.readNat_keeps width⟩

instance : Moves Frame.readByte := inferInstanceAs (Moves (Frame.readNat _))

instance (max : Nat) : Moves (Frame.readVarBytes max) := ⟨fun _ _ => Frame.readVarBytes_keeps max⟩

instance : Moves Frame.pop := ⟨fun _ _ => Frame.pop_keeps.weaken fun _ _ => trivial⟩

instance (what : String) : Moves (Frame.popIndex what) := ⟨fun _ _ => Frame.popIndex_keeps what⟩

instance : Moves Frame.popBytes := ⟨fun _ _ => Frame.popBytes_keeps.weaken fun _ _ => trivial⟩

instance : Moves Frame.evalDepth := ⟨fun _ _ => Frame.evalDepth_keeps⟩

open Instructions

instance (l : Limits) (op : Integer → Integer) : Moves (unary l op) :=
  ⟨fun hok _ => unary_keeps (made_of_primitive hok l) op⟩

instance (l : Limits) (op : Integer → Integer → Except Fault Integer) : Moves (binary l op) :=
  ⟨fun hok _ => binary_keeps (made_of_primitive hok l) op⟩

instance (l : Limits) (op : Integer → Integer → Bool) : Moves (compare l op) :=
  ⟨fun hok _ => compare_keeps (made_of_primitive hok l) op⟩

instance (l : Limits) (op : Integer → Int → Integer) : Moves (shift l op) :=
  ⟨fun hok _ => shift_keeps (made_of_primitive hok l) op⟩

instance (l : Limits) : Moves (within l) := ⟨fun hok _ => within_keeps (made_of_primitive hok l)⟩

instance (l : Limits) : Moves (nonZero l) := ⟨fun hok _ => nonZero_keeps (made_of_primitive hok l)⟩

instance : Moves logicalNot := ⟨fun hok _ => logicalNot_keeps (made_of_primitive hok .default)⟩

instance (op : Bool → Bool → Bool) : Moves (logical op) :=
  ⟨fun hok _ => logical_keeps (made_of_primitive hok .default) op⟩

instance : Moves dupFromAltStack := ⟨fun _ _ => dupFromAltStack_keeps⟩

instance : Moves toAltStack := ⟨fun _ _ => toAltStack_keeps⟩

instance : Moves fromAltStack := ⟨fun _ _ => fromAltStack_keeps⟩

instance : Moves xdrop := ⟨fun _ _ => xdrop_keeps⟩

instance : Moves xswap := ⟨fun _ _ => xswap_keeps⟩

instance : Moves xtuck := ⟨fun _ _ => xtuck_keeps⟩

instance : Moves depth := ⟨fun hok _ => depth_keeps (made_of_primitive hok .default)⟩

instance : Moves Instructions.drop := ⟨fun _ _ => drop_keeps⟩

instance : Moves dup := ⟨fun _ _ => dup_keeps⟩

instance : Moves nip := ⟨fun _ _ => nip_keeps⟩

instance : Moves copySecond := ⟨fun _ _ => copySecond_keeps⟩

instance : Moves pick := ⟨fun _ _ => pick_keeps⟩

instance : Moves roll := ⟨fun _ _ => roll_keeps⟩

instance : Moves rot := ⟨fun _ _ => rot_keeps⟩

instance : Moves swap := ⟨fun _ _ => swap_keeps⟩

instance : Moves tuck := ⟨fun _ _ => tuck_keeps⟩

instance (i : Instruction) : Moves (jump i) := ⟨fun _ _ => jump_keeps i⟩

instance : Moves readHash := inferInstanceAs (Moves (Frame.readBytes _))

instance : Moves popHash := by
  unfold popHash
  infer_instance

instance : Moves popKey := ⟨fun _ _ => popKey_keeps.weaken fun _ _ => trivial⟩

end Moves

/-! ## Computations of a state -/

/-- The computation takes from tidy states to tidy states, also when it faults, and gives no containers to
what follows. -/
class Neat (m : Exec α) : Prop where
  /-- The items that are held meanwhile still exist. -/
  leads : ∀ held, Leads (Tidy held) m (fun _ => Tidy held) (Tidy [])

/-- **A computation of the innermost frame**, with the items that it hands out. -/
theorem Exec.onFrame_tidy {m : FrameM α} {Q : α → Prop} {C : α → List Item}
    (hm : ∀ ok : Item → Prop, (∀ x, x.cell? = none → ok x) → (∀ x ∈ held, ok x) → ∀ f₀,
      Keeps (FrameChange ok f₀) m (fun a => Q a ∧ ∀ x ∈ C a, ok x)) :
    Leads (Tidy held) (onFrame m) (fun a s => Q a ∧ Tidy (C a ++ held) s) (Tidy []) := by
  intro s hs
  cases hframes : s.frames with
  | nil =>
    rw [run_onFrame_nil m hframes]
    exact hs.dropAll
  | cons f rest =>
    have hknown : ∀ g ∈ f :: rest, ∀ x ∈ g.eval ++ g.alt, Known held s x :=
      fun g hg x hx => known_of_mem_frames (hframes ▸ hg) hx
    obtain ⟨hf, hrest⟩ := List.forall_mem_cons.1 hknown
    -- What holds of the known items holds of those of the frame, and of what is made of them.
    obtain ⟨hchange, hresult⟩ := hm (Known held s) (fun _ hx => Or.inl hx)
      (fun _ => known_of_mem_held) f f (FrameChange.refl (fun x hx => hf x (List.mem_append_left _ hx))
        fun x hx => hf x (List.mem_append_right _ hx))
    have hframes' : ∀ g ∈ (m.run f).2 :: rest, ∀ x ∈ g.eval ++ g.alt, Known held s x := by
      refine List.forall_mem_cons.2 ⟨fun x hx => ?_, hrest⟩
      exact (List.mem_append.1 hx).elim (hchange.eval x) (hchange.alt x)
    rw [run_onFrame_cons m hframes]
    revert hresult
    cases (m.run f).1 with
    | error cause => exact fun _ => hs.setFrames _ (fun _ hx => absurd hx List.not_mem_nil) hframes'
    | ok a =>
      intro hresult
      obtain ⟨hQ, hcarried⟩ := hresult a rfl
      refine ⟨hQ, hs.setFrames _ (fun x hx => ?_) hframes'⟩
      exact (List.mem_append.1 hx).elim (hcarried x) known_of_mem_held

namespace Neat

/-- Returning a value. -/
instance returns (a : α) : Neat (pure a) := ⟨fun _ => Leads.returns fun _ hs => hs⟩

/-- A fault. -/
instance throws (f : Fault) : Neat (throw f : Exec α) := ⟨fun _ => Leads.throws fun _ hs => hs.dropAll⟩

/-- A result that was computed beforehand. -/
instance result (x : Except Fault α) : Neat (MonadExcept.ofExcept x) := by
  cases x with
  | error f => exact throws f
  | ok a => exact returns a

/-- A sequence whose second part is looked at for every result of the first one. -/
theorem seq {m : Exec α} {k : α → Exec β} [hm : Neat m] (hk : ∀ a, Neat (k a)) : Neat (m >>= k) :=
  ⟨fun held => (hm.leads held).seq fun a => (hk a).leads held⟩

/-- A sequence. -/
instance both {m : Exec α} {k : α → Exec β} [Neat m] [hk : ∀ a, Neat (k a)] : Neat (m >>= k) := seq hk

/-- A branch. -/
instance branch {c : Prop} [Decidable c] {m n : Exec α} [hm : Neat m] [hn : Neat n] :
    Neat (if c then m else n) :=
  ⟨fun held => Leads.branch (fun _ => hm.leads held) fun _ => hn.leads held⟩

/-- A traversal. -/
instance each {k : α → Exec β} [∀ x, Neat (k x)] (xs : List α) : Neat (xs.mapM k) := by
  induction xs with
  | nil =>
    rw [List.mapM_nil]
    infer_instance
  | cons x xs ih =>
    rw [List.mapM_cons]
    infer_instance

/-- Reading the state. -/
theorem reads {k : State → Exec α} (hk : ∀ s, Neat (k s)) : Neat (get >>= k) :=
  ⟨fun held s hs => by
    rw [run_get_seq]
    exact (hk s).leads held s hs⟩

/-- A computation of the innermost frame. -/
instance onFrame (m : FrameM α) [hm : Moves m] : Neat (Exec.onFrame m) := by
  refine ⟨fun held => (Exec.onFrame_tidy (Q := fun _ => True) (C := fun _ => [])
    fun ok hok _ f₀ => ?_).ends (fun _ _ h => h.2) fun _ h => h⟩
  exact (hm.keeps hok f₀).weaken fun _ _ => ⟨trivial, fun x hx => absurd hx List.not_mem_nil⟩

end Neat

open Neat

namespace Exec

instance : Neat limits := reads inferInstance

instance : Neat heap := reads inferInstance

instance : Neat pop := inferInstanceAs (Neat (onFrame _))

/-- Pushing an item that is held. -/
theorem push_tidy {x : Item} (hx : x.cell? = none ∨ x ∈ held) :
    Leads (Tidy held) (push x) (fun _ => Tidy held) (Tidy []) := by
  refine (onFrame_tidy (Q := fun _ => True) (C := fun _ => []) fun ok hok hheld f₀ => ?_).ends
    (fun _ _ h => h.2) fun _ h => h
  refine (Frame.push_keeps ?_).weaken fun _ _ => ⟨trivial, fun x hx => absurd hx List.not_mem_nil⟩
  exact hx.elim (hok x) (hheld x)

instance (b : Bool) : Neat (pushBool b) := ⟨fun _ => push_tidy (Or.inl rfl)⟩

instance (n : Nat) : Neat (pushNat n) := ⟨fun _ => push_tidy (Or.inl rfl)⟩

instance (e : Event) : Neat (record e) :=
  ⟨fun _ => Leads.updates fun _ hs => ⟨hs.closed, hs.held, hs.roots, hs.covers⟩⟩

instance (data : Bytes) : Neat (pushBytes data) := by
  refine ⟨fun held => ?_⟩
  refine Leads.seq (A := fun h s => Tidy held s ∧ s.heap = h) (fun s hs => ⟨hs, rfl⟩) fun h => ?_
  refine Leads.seq (A := fun _ => Tidy held) (Leads.updates ?_) fun _ => push_tidy (Or.inl rfl)
  rintro s ⟨hs, rfl⟩
  exact hs.moved rfl rfl rfl (fun _ => known_of_mem_held) fun x hx => Or.inr (Or.inr hx)

instance : Neat askMessage := by
  refine reads fun s => ?_
  split <;> infer_instance

instance (message signature key : Bytes) : Neat (checkSignature message signature key) := by
  have : Neat (do return (← get).crypto.verify message signature key) := reads inferInstance
  unfold checkSignature
  infer_instance

end Exec

namespace Instructions

open Exec

/-! ## Constants, byte strings and signatures -/

instance (count : Nat) : Neat (pushOperand count) := by
  unfold pushOperand
  infer_instance

instance : Neat pushEmpty := inferInstanceAs (Neat (pushBytes _))

instance (i : Instruction) : Neat (pushDirect i) := inferInstanceAs (Neat (pushOperand _))

instance (width : Nat) : Neat (pushCounted width) := by
  unfold pushCounted
  infer_instance

instance : Neat pushMinusOne := ⟨fun _ => push_tidy (Or.inl rfl)⟩

instance (i : Instruction) : Neat (pushSmall i) := inferInstanceAs (Neat (pushNat _))

instance : Neat cat := by
  unfold cat
  infer_instance

instance : Neat substr := by
  unfold substr
  infer_instance

instance : Neat left := by
  unfold left
  infer_instance

instance : Neat right := by
  unfold right
  infer_instance

instance : Neat size := by
  refine seq fun x => seq fun h => ?_
  split <;> infer_instance

instance : Neat equal := by
  unfold equal
  infer_instance

instance (hash : CryptoSuite → Bytes → Bytes) : Neat (digest hash) :=
  seq fun _ => reads inferInstance

instance : Neat checkSig := by
  unfold checkSig
  infer_instance

instance : Neat verify := by
  unfold verify
  infer_instance

instance : Neat popByteList := by
  refine seq fun x => seq fun h => ?_
  split
  · infer_instance
  · refine seq fun value => ?_
    split <;> infer_instance

instance (count : Nat) : Neat (popCounted count) := by
  unfold popCounted
  infer_instance

instance : Neat popKeys := by
  refine seq fun r => ?_
  split <;> infer_instance

instance (keyCount : Nat) : Neat (popSignatures keyCount) := by
  refine seq fun r => ?_
  split <;> infer_instance

instance (message : Bytes) (signatures keys : List Bytes) :
    Neat (matchSignatures message signatures keys) := by
  induction keys generalizing signatures with
  | nil =>
    unfold matchSignatures
    infer_instance
  | cons key keys ih =>
    cases signatures with
    | nil =>
      unfold matchSignatures
      infer_instance
    | cons signature signatures =>
      unfold matchSignatures
      infer_instance

instance : Neat checkMultiSig := by
  unfold checkMultiSig
  infer_instance

instance (i : Instruction) : Neat (throwAlways i) := inferInstanceAs (Neat (throw _))

instance (i : Instruction) : Neat (throwIfNot i) := by
  unfold throwIfNot
  infer_instance

end Instructions

end ScriptMachine
