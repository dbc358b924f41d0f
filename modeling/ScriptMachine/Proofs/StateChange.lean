import ScriptMachine.Proofs.FrameChange
import ScriptMachine.Proofs.Integer.ByteLength

/-! # What instructions do to a state

`StateChange p s₀ s` says how a state may differ from an earlier one when instructions without calls have
run: only the innermost frame, the objects, the tracked containers and the journal differ, and all data is
such that the policy `p` allows it. In particular the limits, the gas, the status, the results, the loaded
scripts and all outer frames are the same. Every instruction that neither calls nor returns keeps it.

* `FramesChange`, `StateChange`: the two layers.
* `Exec.pushBytes_keeps`, `Exec.copyValue_keeps` and so on: the parts of instructions.
* `Instructions.setItem_keeps`, `Instructions.values_keeps`, `Instructions.checkMultiSig_keeps` and so on:
  whole instructions.
-/

namespace ScriptMachine

/-- Only the innermost frame differs, and it differs as instructions allow. -/
inductive FramesChange (p : Policy) : List Frame → List Frame → Prop where
  /-- Without a frame nothing changes. -/
  | none : FramesChange p [] []
  /-- The innermost frame changes. -/
  | top {f₀ f : Frame} {rest : List Frame} (hf : FrameChange p.AllowsItem f₀ f) :
    FramesChange p (f₀ :: rest) (f :: rest)

/-- The innermost frame comes from an earlier one, and the outer frames are the same. -/
theorem FramesChange.exists_top {p : Policy} {fs gs rest : List Frame} {f : Frame}
    (h : FramesChange p fs gs) (hgs : gs = f :: rest) :
    ∃ f₀, fs = f₀ :: rest ∧ FrameChange p.AllowsItem f₀ f := by
  cases h with
  | none => cases hgs
  | top hf =>
    cases hgs
    exact ⟨_, rfl, hf⟩

/-- How a state may differ from an earlier one when no instruction has called or returned. -/
structure StateChange (p : Policy) (s₀ s : State) : Prop where
  /-- Only the objects, the frames, the tracker and the journal differ. -/
  ambient : s = { s₀ with
    heap := s.heap
    journal := s.journal
    session := { s₀.session with
      calls := { s₀.session.calls with frames := s.frames }
      tracker := s.session.tracker } }
  /-- The objects are allowed. -/
  heap : p.AllowsHeap s.heap
  /-- Only the innermost frame differs. -/
  frames : FramesChange p s₀.frames s.frames

variable {p : Policy} {s₀ : State} {α : Type} {Q : α → Prop}

namespace StateChange

/-- A state with allowed objects and an allowed innermost frame has not changed. -/
theorem refl {s : State} (hheap : p.AllowsHeap s.heap)
    (htop : ∀ f, s.frames.head? = some f → p.AllowsItems f.eval ∧ p.AllowsItems f.alt) :
    StateChange p s s := by
  refine ⟨rfl, hheap, ?_⟩
  revert htop
  cases s.frames with
  | nil => exact fun _ => .none
  | cons f rest =>
    intro htop
    obtain ⟨heval, halt⟩ := htop f rfl
    exact .top (FrameChange.refl heval halt)

/-- Under the policy that allows everything, each state is one that has not changed. -/
theorem refl_all (s : State) : StateChange .all s s :=
  refl (Policy.all_allowsHeap _) fun _ _ => ⟨Policy.all_allowsItems _, Policy.all_allowsItems _⟩

/-- The limits are the same. -/
theorem limits {s : State} (hs : StateChange p s₀ s) : s.limits = s₀.limits := by
  rw [hs.ambient]

/-- The cryptography is the same. -/
theorem crypto {s : State} (hs : StateChange p s₀ s) : s.crypto = s₀.crypto := by
  rw [hs.ambient]

/-- Other allowed objects. -/
theorem setHeap {s : State} {h : Heap} (hs : StateChange p s₀ s) (hh : p.AllowsHeap h) :
    StateChange p s₀ { s with heap := h } := by
  refine ⟨?_, hh, hs.frames⟩
  rw [hs.ambient]
  rfl

/-- A longer journal. -/
theorem record {s : State} (hs : StateChange p s₀ s) (e : Event) :
    StateChange p s₀ (s.record e) := by
  refine ⟨?_, hs.heap, hs.frames⟩
  rw [hs.ambient]
  rfl

/-- Other tracked containers. -/
theorem track {s : State} (hs : StateChange p s₀ s) (x : Item) (extra : List Item) :
    StateChange p s₀ (s.track x extra) := by
  refine ⟨?_, hs.heap, hs.frames⟩
  rw [hs.ambient]
  rfl

/-- Another innermost frame. -/
theorem setTop {s : State} {f f' : Frame} {rest : List Frame} (hs : StateChange p s₀ s)
    (hframes : s.frames = f :: rest)
    (hf : ∀ f₀, FrameChange p.AllowsItem f₀ f → FrameChange p.AllowsItem f₀ f') :
    StateChange p s₀ (s.setFrames (f' :: rest)) := by
  refine ⟨?_, hs.heap, ?_⟩
  · rw [hs.ambient]
    rfl
  · -- The innermost frame of the earlier state is the one that has become `f`.
    obtain ⟨f₀, hfirst, hchange⟩ := hs.frames.exists_top hframes
    rw [hfirst]
    exact .top (hf f₀ hchange)

end StateChange

namespace Exec

/-- A computation of the innermost frame. -/
theorem onFrame_keeps {m : FrameM α} (hm : ∀ f₀, Keeps (FrameChange p.AllowsItem f₀) m Q) :
    Keeps (StateChange p s₀) (onFrame m) Q := by
  intro s hs
  cases hframes : s.frames with
  | nil =>
    rw [run_onFrame_nil m hframes]
    exact ⟨hs, fun a ha => by cases ha⟩
  | cons f rest =>
    rw [run_onFrame_cons m hframes]
    refine ⟨hs.setTop hframes fun f₀ hf => (hm f₀ f hf).1, fun a ha => ?_⟩
    obtain ⟨f₀, -, hchange⟩ := hs.frames.exists_top hframes
    exact (hm f₀ f hchange).2 a ha

/-- Reading the limits. -/
theorem limits_keeps : Keeps (StateChange p s₀) limits (fun l => l = s₀.limits) := by
  unfold limits
  exact Keeps.reads.seq fun s hs => Keeps.returns hs.limits

/-- Reading the objects. -/
theorem heap_keeps : Keeps (StateChange p s₀) heap p.AllowsHeap := by
  unfold heap
  exact Keeps.reads.seq fun s hs => Keeps.returns hs.heap

/-- Replacing the objects by allowed ones. -/
theorem setHeap_keeps {h : Heap} (hh : p.AllowsHeap h) :
    Keeps (StateChange p s₀) (setHeap h) (fun _ => True) :=
  Keeps.updates fun _ hs => hs.setHeap hh

/-- Popping gives an allowed item. -/
theorem pop_keeps : Keeps (StateChange p s₀) pop p.AllowsItem :=
  onFrame_keeps fun _ => Frame.pop_keeps

/-- Pushing an allowed item. -/
theorem push_keeps {x : Item} (hx : p.AllowsItem x) :
    Keeps (StateChange p s₀) (push x) (fun _ => True) :=
  onFrame_keeps fun _ => Frame.push_keeps hx

/-- Pushing a truth value. -/
theorem pushBool_keeps (b : Bool) : Keeps (StateChange p s₀) (pushBool b) (fun _ => True) :=
  push_keeps trivial

/-- Pushing a new object that is allowed in an allowed heap. -/
theorem pushNew_keeps {create : Heap → Item × Heap}
    (hc : ∀ h, p.AllowsHeap h → p.AllowsItem (create h).1 ∧ p.AllowsHeap (create h).2) :
    Keeps (StateChange p s₀) (pushNew create) (fun _ => True) := by
  unfold pushNew
  refine heap_keeps.seq fun h hh => ?_
  exact (setHeap_keeps (hc h hh).2).seq fun _ _ => push_keeps (hc h hh).1

/-- Pushing an allowed byte string. -/
theorem pushBytes_keeps {data : Bytes} (hd : p.bytes data) :
    Keeps (StateChange p s₀) (pushBytes data) (fun _ => True) :=
  pushNew_keeps fun _ hh => ⟨hd, hh⟩

/-- Pushing an array of allowed items. -/
theorem pushArray_keeps {items : List Item} (hi : p.AllowsCell (.list items)) :
    Keeps (StateChange p s₀) (pushArray items) (fun _ => True) :=
  pushNew_keeps fun _ hh => ⟨trivial, hh.alloc hi⟩

/-- Pushing a struct of allowed items. -/
theorem pushStruct_keeps {items : List Item} (hi : p.AllowsCell (.list items)) :
    Keeps (StateChange p s₀) (pushStruct items) (fun _ => True) :=
  pushNew_keeps fun _ hh => ⟨trivial, hh.alloc hi⟩

/-- Adding an entry to the journal. -/
theorem record_keeps (e : Event) : Keeps (StateChange p s₀) (record e) (fun _ => True) :=
  Keeps.updates fun _ hs => hs.record e

/-- Asking for the message. -/
theorem askMessage_keeps : Keeps (StateChange p s₀) askMessage (fun _ => True) := by
  unfold askMessage
  refine Keeps.reads.seq fun s _ => ?_
  split
  · exact Keeps.throws _
  · exact (record_keeps _).seq fun _ _ => Keeps.returns trivial

/-- Checking a signature. -/
theorem checkSignature_keeps (message signature key : Bytes) :
    Keeps (StateChange p s₀) (checkSignature message signature key) (fun _ => True) := by
  unfold checkSignature
  exact (record_keeps _).seq fun _ _ => Keeps.reads.seq fun _ _ => Keeps.returns trivial

variable (hp : p.Admits s₀.limits s₀.crypto)
include hp

/-- Pushing a count. -/
theorem pushNat_keeps (n : Nat) : Keeps (StateChange p s₀) (pushNat n) (fun _ => True) :=
  push_keeps (hp.count n)

/-- Popping a byte string gives an allowed one. -/
theorem popBytes_keeps : Keeps (StateChange p s₀) (onFrame Frame.popBytes) p.bytes := by
  refine onFrame_keeps fun _ => Frame.popBytes_keeps.weaken ?_
  rintro b ⟨x, hx, hb⟩
  exact Policy.AllowsItem.byteView hp hx hb

omit hp in
/-- Popping an index. -/
theorem popIndex_keeps (what : String) :
    Keeps (StateChange p s₀) (onFrame (Frame.popIndex what)) (fun _ => True) :=
  onFrame_keeps fun _ => Frame.popIndex_keeps what

/-- Copying an allowed item. -/
theorem copyValue_keeps {x : Item} (hx : p.AllowsItem x) :
    Keeps (StateChange p s₀) (copyValue x) p.AllowsItem := by
  unfold copyValue
  refine Keeps.reads.seq fun s hs => ?_
  refine (Keeps.result (Q := fun r => p.AllowsItem r.1 ∧ p.AllowsHeap r.2)
    fun r hr => hs.heap.copyValue hp hx hr).seq fun r hr => ?_
  exact (setHeap_keeps hr.2).seq fun _ _ => Keeps.returns hr.1

end Exec

namespace Instructions

variable (hp : p.Admits s₀.limits s₀.crypto)

/-! ## Constants -/

/-- Pushing bytes of the script. -/
theorem pushOperand_keeps {count : Nat} (hc : ∀ d : Bytes, d.size = count → p.bytes d) :
    Keeps (StateChange p s₀) (pushOperand count) (fun _ => True) := by
  unfold pushOperand
  exact (Exec.onFrame_keeps fun _ => Frame.readBytes_keeps count).seq fun b hb =>
    Exec.pushBytes_keeps (hc b hb)

include hp

/-- Pushing bytes with a counted length. -/
theorem pushCounted_keeps (width : Nat) :
    Keeps (StateChange p s₀) (pushCounted width) (fun _ => True) := by
  unfold pushCounted
  refine Exec.limits_keeps.seq fun l hl => ?_
  refine (Exec.onFrame_keeps fun _ => Frame.readNat_keeps width).seq fun length _ => ?_
  refine Keeps.guarded fun h => pushOperand_keeps fun d hd => hp.bounded d ?_
  rw [hd, ← hl]
  exact Nat.le_of_not_gt h

/-- Pushing the number that an opcode encodes. -/
theorem pushSmall_keeps (i : Instruction) :
    Keeps (StateChange p s₀) (pushSmall i) (fun _ => True) := Exec.pushNat_keeps hp _

/-! ## Byte strings -/

/-- Joining byte strings, whose length is checked. -/
theorem cat_keeps : Keeps (StateChange p s₀) cat (fun _ => True) := by
  unfold cat
  refine Exec.limits_keeps.seq fun l hl => ?_
  refine Exec.pop_keeps.seq fun second _ => Exec.pop_keeps.seq fun first _ => ?_
  refine (Keeps.result (Q := fun n => first.byteViewSize = .ok n) fun _ h => h).seq
    fun size1 hsize1 => ?_
  refine (Keeps.result (Q := fun n => second.byteViewSize = .ok n) fun _ h => h).seq
    fun size2 hsize2 => Keeps.guarded fun hmax => ?_
  refine (Keeps.result (Q := fun b => first.byteView = .ok b) fun _ h => h).seq
    fun b1 hb1 => ?_
  refine (Keeps.result (Q := fun b => second.byteView = .ok b) fun _ h => h).seq
    fun b2 hb2 => Exec.pushBytes_keeps (hp.bounded _ ?_)
  -- The check is made on sizes that are told without the bytes; they are the sizes of the bytes.
  rw [Array.size_append, ← hl]
  rw [Item.byteViewSize_eq hb1] at hsize1
  rw [Item.byteViewSize_eq hb2] at hsize2
  cases hsize1
  cases hsize2
  exact Nat.le_of_not_gt hmax

/-- Cutting out a part. -/
theorem substr_keeps : Keeps (StateChange p s₀) substr (fun _ => True) := by
  unfold substr
  refine (Exec.popIndex_keeps _).seq fun count _ => ?_
  refine (Exec.popIndex_keeps _).seq fun index _ => ?_
  refine (Exec.popBytes_keeps hp).seq fun b hb => ?_
  exact Keeps.guarded fun _ => Exec.pushBytes_keeps (hp.part _ _ _ hb)

/-- Taking leading bytes. -/
theorem left_keeps : Keeps (StateChange p s₀) left (fun _ => True) := by
  unfold left
  refine (Exec.popIndex_keeps _).seq fun count _ => ?_
  refine (Exec.popBytes_keeps hp).seq fun b hb => ?_
  exact Exec.pushBytes_keeps (hp.part _ _ _ hb)

/-- Taking trailing bytes. -/
theorem right_keeps : Keeps (StateChange p s₀) right (fun _ => True) := by
  unfold right
  refine (Exec.popIndex_keeps _).seq fun count _ => ?_
  refine (Exec.popBytes_keeps hp).seq fun b hb => ?_
  exact Keeps.guarded fun _ => Exec.pushBytes_keeps (hp.part _ _ _ hb)

/-- The size of an item. -/
theorem size_keeps : Keeps (StateChange p s₀) size (fun _ => True) := by
  unfold size
  refine Exec.pop_keeps.seq fun x _ => Exec.heap_keeps.seq fun h _ => ?_
  split
  · exact Exec.pushNat_keeps hp _
  · exact (Keeps.result fun _ _ => trivial).seq fun n (_ : True) => Exec.pushNat_keeps hp n

omit hp in
/-- Comparing two items. -/
theorem equal_keeps : Keeps (StateChange p s₀) equal (fun _ => True) := by
  unfold equal
  refine Exec.limits_keeps.seq fun l _ => ?_
  refine Exec.pop_keeps.seq fun b _ => Exec.pop_keeps.seq fun a _ => ?_
  refine Exec.heap_keeps.seq fun h _ => ?_
  exact (Keeps.result fun _ _ => trivial).seq fun r (_ : True) => Exec.pushBool_keeps r

/-! ## Digests and signatures -/

/-- Digests. -/
theorem digest_keeps {hash : CryptoSuite → Bytes → Bytes}
    (hh : ∀ data, p.bytes (hash s₀.crypto data)) :
    Keeps (StateChange p s₀) (digest hash) (fun _ => True) := by
  unfold digest
  refine (Exec.popBytes_keeps hp).seq fun data _ => ?_
  refine Keeps.reads.seq fun s hs => Exec.pushBytes_keeps ?_
  rw [hs.crypto]
  exact hh data

/-- Checking a signature of the message of the host. -/
theorem checkSig_keeps : Keeps (StateChange p s₀) checkSig (fun _ => True) := by
  unfold checkSig
  refine (Exec.popBytes_keeps hp).seq fun key _ => ?_
  refine (Exec.popBytes_keeps hp).seq fun signature _ => ?_
  refine Exec.askMessage_keeps.seq fun message _ => ?_
  exact (Exec.checkSignature_keeps _ _ _).seq fun b _ => Exec.pushBool_keeps b

/-- Checking a signature of a message from the stack. -/
theorem verify_keeps : Keeps (StateChange p s₀) verify (fun _ => True) := by
  unfold verify
  refine (Exec.popBytes_keeps hp).seq fun key _ => ?_
  refine (Exec.popBytes_keeps hp).seq fun signature _ => ?_
  refine (Exec.popBytes_keeps hp).seq fun message _ => ?_
  exact (Exec.checkSignature_keeps _ _ _).seq fun b _ => Exec.pushBool_keeps b

omit hp in
/-- Popping a list of byte strings or its length. -/
theorem popByteList_keeps : Keeps (StateChange p s₀) popByteList (fun _ => True) := by
  unfold popByteList
  refine Exec.pop_keeps.seq fun x _ => Exec.heap_keeps.seq fun h _ => ?_
  split
  · refine (Keeps.each (R := fun _ => True) fun y _ => Keeps.result fun _ _ => trivial).seq
      fun _ _ => Keeps.returns trivial
  · refine (Keeps.result fun _ _ => trivial).seq fun value (_ : True) => ?_
    split
    · exact Keeps.returns trivial
    · exact Keeps.throws _

/-- Popping as many byte strings as announced. -/
theorem popCounted_keeps (count : Nat) :
    Keeps (StateChange p s₀) (popCounted count) (fun _ => True) := by
  unfold popCounted
  refine (Keeps.each (R := fun _ => True) fun _ _ => ?_).weaken fun _ _ => trivial
  exact (Exec.popBytes_keeps hp).weaken fun _ _ => trivial

/-- Popping the keys. -/
theorem popKeys_keeps : Keeps (StateChange p s₀) popKeys (fun _ => True) := by
  unfold popKeys
  refine popByteList_keeps.seq fun r _ => ?_
  split
  · exact Keeps.throws _
  · exact Keeps.returns trivial
  · refine (Exec.onFrame_keeps fun _ => Frame.evalDepth_keeps).seq fun depth _ => ?_
    exact Keeps.guarded fun _ => popCounted_keeps hp _

/-- Popping the signatures. -/
theorem popSignatures_keeps (keyCount : Nat) :
    Keeps (StateChange p s₀) (popSignatures keyCount) (fun _ => True) := by
  unfold popSignatures
  refine popByteList_keeps.seq fun r _ => ?_
  split
  · exact Keeps.guarded fun _ => Keeps.returns trivial
  · refine (Exec.onFrame_keeps fun _ => Frame.evalDepth_keeps).seq fun depth _ => ?_
    exact Keeps.guarded fun _ => popCounted_keeps hp _

omit hp in
/-- Matching signatures with keys. -/
theorem matchSignatures_keeps (message : Bytes) (signatures keys : List Bytes) :
    Keeps (StateChange p s₀) (matchSignatures message signatures keys) (fun _ => True) := by
  -- Every key is tried once, whether the signature at hand is valid for it or not.
  induction keys generalizing signatures with
  | nil =>
    unfold matchSignatures
    exact Keeps.returns trivial
  | cons key keys ih =>
    cases signatures with
    | nil =>
      unfold matchSignatures
      exact Keeps.returns trivial
    | cons signature signatures =>
      unfold matchSignatures
      refine (Exec.checkSignature_keeps _ _ _).seq fun valid _ => ?_
      refine Keeps.branch (fun _ => Keeps.returns trivial) (fun _ => ?_)
      exact Keeps.branch (fun _ => Keeps.returns trivial) (fun _ => ih _)

/-- Checking signatures against keys. -/
theorem checkMultiSig_keeps : Keeps (StateChange p s₀) checkMultiSig (fun _ => True) := by
  unfold checkMultiSig
  refine (popKeys_keeps hp).seq fun keys _ => ?_
  refine (popSignatures_keeps hp _).seq fun signatures _ => ?_
  refine Exec.askMessage_keeps.seq fun message _ => ?_
  exact (matchSignatures_keeps _ _ _).seq fun b _ => Exec.pushBool_keeps b

/-! ## Containers -/

omit hp in
/-- Tracking a container that received a container. -/
theorem trackNesting_keeps (container value : Item) :
    Keeps (StateChange p s₀) (trackNesting container value) (fun _ => True) := by
  unfold trackNesting
  refine Keeps.branch (fun _ => ?_) (fun _ => Keeps.returns trivial)
  exact Keeps.updates fun s hs => hs.track _ _

/-- Building an array from the stack. -/
theorem pack_keeps : Keeps (StateChange p s₀) pack (fun _ => True) := by
  unfold pack
  refine Exec.limits_keeps.seq fun l hl => ?_
  refine (Exec.popIndex_keeps _).seq fun size _ => ?_
  refine (Exec.onFrame_keeps fun _ => Frame.evalDepth_keeps).seq fun depth _ => ?_
  refine Keeps.guarded fun hmax => ?_
  refine (Exec.onFrame_keeps fun _ => Frame.takeTop_keeps size).seq fun top htop => ?_
  refine Exec.pushArray_keeps ⟨hp.room _ ?_, htop.2⟩
  simp only [Bool.or_eq_true, decide_eq_true_eq, not_or, Nat.not_lt] at hmax
  rw [htop.1, ← hl]
  exact hmax.2

/-- Spreading a list on the stack. -/
theorem unpack_keeps : Keeps (StateChange p s₀) unpack (fun _ => True) := by
  unfold unpack
  refine Exec.pop_keeps.seq fun x _ => Exec.heap_keeps.seq fun h hh => ?_
  split
  · exact Keeps.throws _
  · -- The stack may become too large here, which is noticed only at the end of the step.
    rename_i items hitems
    refine (Exec.onFrame_keeps fun f₀ => Keeps.updates fun f hf => ?_).seq fun _ (_ : True) =>
      Exec.pushNat_keeps hp _
    exact hf.setEval ((hh.elements hp hitems).2.append hf.eval)

/-- The elements of a new list, whose number is checked. -/
theorem newElements_keeps (x : Item) : Keeps (StateChange p s₀) (newElements x)
    (fun items => p.AllowsCell (.list items)) := by
  unfold newElements
  refine Exec.limits_keeps.seq fun l hl => ?_
  refine (Keeps.result fun _ _ => trivial).seq fun count (_ : True) => ?_
  refine Keeps.guarded fun _ => Keeps.guarded fun hmax => Keeps.returns ⟨?_, fun y hy => ?_⟩
  · rw [List.length_replicate]
    refine hp.room _ ?_
    rw [← hl]
    exact Nat.le_of_not_gt hmax
  · rw [List.eq_of_mem_replicate hy]
    trivial

/-- New arrays. -/
theorem newArray_keeps : Keeps (StateChange p s₀) newArray (fun _ => True) := by
  unfold newArray
  refine Exec.pop_keeps.seq fun x _ => ?_
  split
  · exact Exec.push_keeps trivial
  · -- The number of elements is not checked here: the struct already has it.
    exact Exec.heap_keeps.seq fun h hh => Exec.pushArray_keeps (hh.items hp _)
  · exact (newElements_keeps hp _).seq fun items hi => Exec.pushArray_keeps hi

/-- New structs. -/
theorem newStruct_keeps : Keeps (StateChange p s₀) newStruct (fun _ => True) := by
  unfold newStruct
  refine Exec.pop_keeps.seq fun x _ => ?_
  split
  · exact Exec.push_keeps trivial
  · exact Exec.heap_keeps.seq fun h hh => Exec.pushStruct_keeps (hh.items hp _)
  · exact (newElements_keeps hp _).seq fun items hi => Exec.pushStruct_keeps hi

/-- New maps. -/
theorem newMap_keeps : Keeps (StateChange p s₀) newMap (fun _ => True) := by
  refine Exec.pushNew_keeps fun h hh => ⟨trivial, hh.alloc ?_⟩
  exact ⟨hp.room 0 (Nat.zero_le _), fun entry hentry => by cases hentry⟩

/-- Reading an element. -/
theorem pickItem_keeps : Keeps (StateChange p s₀) pickItem (fun _ => True) := by
  unfold pickItem
  refine (Exec.onFrame_keeps fun _ => popKey_keeps).seq fun key _ => ?_
  refine Exec.pop_keeps.seq fun container _ => Exec.heap_keeps.seq fun h hh => ?_
  have copied : ∀ value, p.AllowsItem value → Keeps (StateChange p s₀)
      (Exec.copyValue value >>= Exec.push) (fun _ => True) :=
    fun value hv => (Exec.copyValue_keeps hp hv).seq fun x hx => Exec.push_keeps hx
  have element : ∀ id, Keeps (StateChange p s₀) (do
      let index ← MonadExcept.ofExcept (indexIn key (h.items id).length)
      let value ← pure ((h.items id).getD index default)
      Exec.copyValue value >>= Exec.push) (fun _ => True) := by
    intro id
    refine (Keeps.result fun _ _ => trivial).seq fun index (_ : True) => ?_
    refine (Keeps.returns (Q := p.AllowsItem) ?_).seq copied
    rw [List.getD_eq_getElem?_getD]
    -- The index was checked, so that the default is never taken; it is allowed all the same.
    cases hget : (h.items id)[index]? with
    | none => trivial
    | some x => exact (hh.items hp id).2 x (List.mem_of_getElem? hget)
  dsimp only
  split
  · exact element _
  · exact element _
  · split
    · rename_i value hvalue
      exact (Keeps.returns (hh.mapGet hp hvalue)).seq copied
    · exact (Keeps.throws (Q := p.AllowsItem) _).seq copied
  · exact (Keeps.throws (Q := p.AllowsItem) _).seq copied

/-- Writing an element. -/
theorem setItem_keeps : Keeps (StateChange p s₀) setItem (fun _ => True) := by
  unfold setItem
  refine Exec.limits_keeps.seq fun l hl => Exec.pop_keeps.seq fun x hx => ?_
  refine (Exec.copyValue_keeps hp hx).seq fun value hvalue => ?_
  refine (Exec.onFrame_keeps fun _ => popKey_keeps).seq fun key hkey => ?_
  refine Exec.pop_keeps.seq fun container _ => Exec.heap_keeps.seq fun h hh => ?_
  have element : ∀ id, Keeps (StateChange p s₀) (do
      let index ← MonadExcept.ofExcept (indexIn key (h.items id).length)
      Exec.setHeap (← MonadExcept.ofExcept (h.setAt id index value))
      trackNesting container value) (fun _ => True) := by
    intro id
    refine (Keeps.result fun _ _ => trivial).seq fun index (_ : True) => ?_
    refine (Keeps.result fun h' hset => hh.setAt hp hvalue hset).seq fun h' hh' => ?_
    exact (Exec.setHeap_keeps hh').seq fun _ _ => trackNesting_keeps _ _
  dsimp only
  split
  · exact element _
  · exact element _
  · -- Only a new key needs room, and the guard has checked for it.
    refine Keeps.guarded fun hroom => (Exec.setHeap_keeps ?_).seq fun _ _ => trackNesting_keeps _ _
    refine hh.mapSet hp hkey.1 hkey.2 hvalue ?_
    rw [← hl]
    simp only [Bool.and_eq_true, Bool.not_eq_true', decide_eq_true_eq, not_and, Nat.not_le] at hroom
    exact (Bool.eq_false_or_eq_true _).imp_right hroom
  · exact (Keeps.throws (Q := fun _ => False) _).seq fun _ h => h.elim

/-- Adding an element. -/
theorem append_keeps : Keeps (StateChange p s₀) append (fun _ => True) := by
  unfold append
  refine Exec.limits_keeps.seq fun l hl => Exec.pop_keeps.seq fun x hx => ?_
  refine (Exec.copyValue_keeps hp hx).seq fun value hvalue => ?_
  refine Exec.pop_keeps.seq fun container _ => ?_
  split
  · exact Keeps.throws _
  · refine Exec.heap_keeps.seq fun h hh => Keeps.guarded fun hmax => ?_
    refine (Exec.setHeap_keeps (hh.append hp hvalue ?_)).seq fun _ _ => trackNesting_keeps _ _
    rw [← hl]
    exact Nat.lt_of_not_ge hmax

/-- Reversing a list. -/
theorem reverse_keeps : Keeps (StateChange p s₀) reverse (fun _ => True) := by
  unfold reverse
  refine Exec.pop_keeps.seq fun container _ => ?_
  split
  · exact Keeps.throws _
  · exact Exec.heap_keeps.seq fun h hh => Exec.setHeap_keeps (hh.reverse hp _)

/-- Removing an element. -/
theorem remove_keeps : Keeps (StateChange p s₀) remove (fun _ => True) := by
  unfold remove
  refine (Exec.onFrame_keeps fun _ => popKey_keeps).seq fun key _ => ?_
  refine Exec.pop_keeps.seq fun container _ => Exec.heap_keeps.seq fun h hh => ?_
  have element : ∀ id, Keeps (StateChange p s₀) (do
      let index ← MonadExcept.ofExcept (indexIn key (h.items id).length)
      let r ← MonadExcept.ofExcept (h.removeAt id index)
      Exec.setHeap r.2) (fun _ => True) := by
    intro id
    refine (Keeps.result fun _ _ => trivial).seq fun index (_ : True) => ?_
    refine (Keeps.result (Q := fun r => p.AllowsHeap r.2)
      fun r hr => hh.removeAt hp hr).seq fun r hr => ?_
    exact Exec.setHeap_keeps hr
  split
  · exact element _
  · exact element _
  · exact Exec.setHeap_keeps (hh.mapRemove hp)
  · exact Keeps.throws _

omit hp in
/-- Asking for a key. -/
theorem hasKey_keeps : Keeps (StateChange p s₀) hasKey (fun _ => True) := by
  unfold hasKey
  refine (Exec.onFrame_keeps fun _ => popKey_keeps).seq fun key _ => ?_
  refine Exec.pop_keeps.seq fun container _ => Exec.heap_keeps.seq fun h hh => ?_
  have element : ∀ id, Keeps (StateChange p s₀) (do
      let index ← MonadExcept.ofExcept key.int32
      if index < 0 then throw (.negative "HASKEY index" index)
      Exec.pushBool (index.toNat < (h.items id).length)) (fun _ => True) := by
    intro id
    refine (Keeps.result fun _ _ => trivial).seq fun index (_ : True) => ?_
    exact Keeps.guarded fun _ => Exec.pushBool_keeps _
  split
  · exact element _
  · exact element _
  · exact Exec.pushBool_keeps _
  · exact Keeps.throws _

/-- The keys of a map. -/
theorem keys_keeps : Keeps (StateChange p s₀) keys (fun _ => True) := by
  unfold keys
  refine Exec.pop_keeps.seq fun x _ => ?_
  split
  · exact Exec.heap_keeps.seq fun h hh => Exec.pushArray_keeps (hh.keysValues hp _).1
  · exact Keeps.throws _

/-- The values of a container. -/
theorem values_keeps : Keeps (StateChange p s₀) values (fun _ => True) := by
  unfold values
  refine Exec.pop_keeps.seq fun container _ => Exec.heap_keeps.seq fun h hh => ?_
  have copied : ∀ items, p.AllowsCell (.list items) →
      Keeps (StateChange p s₀) (items.mapM Exec.copyValue >>= Exec.pushArray) (fun _ => True) := by
    intro items hi
    -- Copies are as many as their sources, so that their number needs no check.
    refine (Keeps.each fun x hx => Exec.copyValue_keeps hp (hi.2 x hx)).seq fun ys hys => ?_
    refine Exec.pushArray_keeps ⟨?_, hys.2⟩
    rw [hys.1]
    exact hi.1
  dsimp only
  split
  · exact (Keeps.returns (Q := fun items => p.AllowsCell (.list items)) (hh.items hp _)).seq copied
  · exact (Keeps.returns (Q := fun items => p.AllowsCell (.list items)) (hh.items hp _)).seq copied
  · exact (Keeps.returns (Q := fun items => p.AllowsCell (.list items))
      (hh.keysValues hp _).2).seq copied
  · exact (Keeps.throws (Q := fun items => p.AllowsCell (.list items)) _).seq copied

/-! ## Requested faults -/

omit hp in
/-- Faulting on a false item. -/
theorem throwIfNot_keeps (i : Instruction) :
    Keeps (StateChange p s₀) (throwIfNot i) (fun _ => True) := by
  unfold throwIfNot
  refine Exec.pop_keeps.seq fun x _ => ?_
  exact Keeps.branch (fun _ => Keeps.throws _) (fun _ => Keeps.returns trivial)

end Instructions

end ScriptMachine
