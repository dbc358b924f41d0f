import ScriptMachine.Instructions.Container
import ScriptMachine.Instructions.Control
import ScriptMachine.Instructions.Push
import ScriptMachine.Instructions.Signature
import ScriptMachine.Instructions.Splice
import ScriptMachine.Proofs.Renaming.Heaps
import ScriptMachine.Proofs.Renaming.Matching

/-! # Instructions on two machines side by side

Two states are the same under a matching if their objects are, and all else is equal but for the objects and scripts
that correspond. Every instruction does the same to both, and returns the same.

* `Matching.SameData`, `Matching.SameState`: states of two machines.
* `Matching.onFrame`, `Matching.pushNew`, `Matching.copyValue` and so on: the parts of instructions.
* `Matching.setItem`, `Matching.values`, `Matching.checkMultiSig` and so on: whole instructions.
* `Matching.call`, `Matching.callIsolated`, `Matching.ret`, `Matching.moveArguments`: frames.
-/

namespace ScriptMachine

namespace Matching

open Matches

/-- The states of two machines are the same but for their objects. -/
structure SameData (M : Matching) (s t : State) : Prop where
  /-- The bounds are the same. -/
  limits : t.limits = s.limits
  /-- The cryptography is the same. -/
  crypto : t.crypto = s.crypto
  /-- The message to sign is the same. -/
  message : t.message = s.message
  /-- The new entries of the journal are the same. -/
  journal : ∃ events, s.journal = events ++ M.past ∧ t.journal = events ++ M.past'
  /-- The host keeps hold of the same items under the same names. -/
  kept : List.Forall₂ (fun entry entry' => entry'.1 = entry.1 ∧ M.SameItem entry.2 entry'.2) s.kept t.kept
  /-- The status is the same. -/
  status : t.session.status = s.session.status
  /-- The number of the execution is the same. -/
  iteration : t.session.iteration = s.session.iteration
  /-- The consumed gas is the same. -/
  gasConsumed : t.session.gasConsumed = s.session.gasConsumed
  /-- The gas limit is the same. -/
  gasLimit : t.session.gasLimit = s.session.gasLimit
  /-- The greatest number of frames is the same. -/
  maxDepth : t.session.calls.maxDepth = s.session.calls.maxDepth
  /-- The loaded scripts correspond. -/
  scripts : List.Forall₂ M.script s.session.scripts.toList t.session.scripts.toList
  /-- The frames are the same. -/
  frames : List.Forall₂ M.SameFrame s.frames t.frames
  /-- The results are the same. -/
  results : M.SameItems s.session.results t.session.results
  /-- The same containers are tracked. -/
  tracker : M.SameTracker s.session.tracker t.session.tracker

/-- **The states of two machines are the same**, with the same objects. -/
structure SameState (M : Matching) (s t : State) : Prop extends M.SameData s t where
  /-- The objects are the same. -/
  heap : M.SameHeap s.heap t.heap

variable {M : Matching} {α β : Type} {Q : α → β → Prop} {x y x' y' : Item} {xs ys : List Item} {s t : State}

/-! ## Views -/

namespace SameData

/-- The items on the stacks are the same. -/
theorem stackItems (h : M.SameData s t) : M.SameItems s.stackItems t.stackItems :=
  List.rel_append h.results (List.rel_flatMap h.frames fun _ _ hf => List.rel_append hf.eval hf.alt)

/-- Everything that is held outside of containers is the same. -/
theorem roots (h : M.SameData s t) : M.SameItems s.roots t.roots :=
  List.rel_append (List.rel_map (fun _ _ hentry => hentry.2) h.kept) h.stackItems

/-- The number of items is the same. -/
theorem itemCount (h : M.SameData s t) : t.itemCount = s.itemCount := by
  unfold State.itemCount
  rw [← h.results.length_eq]
  have hframes := h.frames
  revert hframes
  generalize s.frames = fs
  generalize t.frames = gs
  intro hframes
  induction hframes with
  | nil => rfl
  | cons hf _ ih => rw [List.foldr_cons, List.foldr_cons, ih, hf.eval.length_eq, hf.alt.length_eq]

end SameData

namespace SameState

/-- The same entry in the journal. -/
theorem record (h : M.SameState s t) (e : Event) : M.SameState (s.record e) (t.record e) := by
  obtain ⟨events, hs, ht⟩ := h.journal
  exact { h with journal := ⟨e :: events, congrArg (e :: ·) hs, congrArg (e :: ·) ht⟩ }

/-- Other frames. -/
theorem setFrames {fs gs : List Frame} (h : M.SameState s t) (hframes : List.Forall₂ M.SameFrame fs gs) :
    M.SameState (s.setFrames fs) (t.setFrames gs) := { h with frames := hframes }

/-- Other objects. -/
theorem setHeap {h k : Heap} (hs : M.SameState s t) (hheap : M.SameHeap h k) :
    M.SameState { s with heap := h } { t with heap := k } := { hs with heap := hheap }

/-- The same status. -/
theorem setStatus (h : M.SameState s t) (status : Status) : M.SameState (s.setStatus status) (t.setStatus status) :=
  { h with status := rfl }

/-- The same container is remembered. -/
theorem track {zs zs' : List Item} (h : M.SameState s t) (hx : M.SameItem x y) (hzs : M.SameItems zs zs') :
    M.SameState (s.track x zs) (t.track y zs') :=
  { h with tracker := h.heap.track h.tracker (List.rel_append hzs h.roots) hx }

end SameState

/-! ## Parts of instructions -/

/-- Two computations of a state, run side by side. -/
abbrev OnState (M : Matching) (m : Exec α) (n : Exec β) (Q : α → β → Prop) : Prop :=
  Matches M.faults M.SameState m n Q

/-- A computation of the innermost frame. -/
theorem onFrame {m : FrameM α} {n : FrameM β} (hm : M.OnFrame m n Q) :
    M.OnState (Exec.onFrame m) (Exec.onFrame n) Q := by
  intro s t h
  have hframes := h.frames
  cases hs : s.frames with
  | nil =>
    rw [hs] at hframes
    cases ht : t.frames with
    | nil =>
      rw [Exec.run_onFrame_nil m hs, Exec.run_onFrame_nil n ht]
      exact fun _ => ⟨t, rfl, h⟩
    | cons g rest' =>
      rw [ht] at hframes
      cases hframes
  | cons f rest =>
    rw [hs] at hframes
    cases ht : t.frames with
    | nil =>
      rw [ht] at hframes
      cases hframes
    | cons g rest' =>
      rw [ht] at hframes
      obtain _ | ⟨hf, hrest⟩ := hframes
      have hrun := hm f g hf
      rw [Exec.run_onFrame_cons m hs, Exec.run_onFrame_cons n ht]
      revert hrun
      rcases m.run f with ⟨cause | a, f'⟩
      · intro hrun hfaults
        obtain ⟨g', hn, hf'⟩ := hrun hfaults
        rw [hn]
        exact ⟨_, rfl, h.setFrames (.cons hf' hrest)⟩
      · rintro ⟨b, g', hn, hab, hf'⟩
        dsimp only
        rw [hn]
        exact ⟨b, _, rfl, hab, h.setFrames (.cons hf' hrest)⟩

/-- Reading the bounds. -/
theorem limits : M.OnState Exec.limits Exec.limits Eq := reads fun _ _ h => returns h.limits.symm

/-- Reading the objects. -/
theorem heap : M.OnState Exec.heap Exec.heap M.SameHeap := reads fun _ _ h => returns h.heap

/-- Replacing the objects. -/
theorem setHeap {h k : Heap} (hheap : M.SameHeap h k) : M.OnState (Exec.setHeap h) (Exec.setHeap k) Eq :=
  updates fun _ _ hs => hs.setHeap hheap

/-- Popping the same item. -/
theorem popItem : M.OnState Exec.pop Exec.pop M.SameItem := onFrame pop

/-- Pushing the same item. -/
theorem pushItem (hx : M.SameItem x y) : M.OnState (Exec.push x) (Exec.push y) Eq := onFrame (push hx)

/-- Pushing a truth value. -/
theorem pushBool (b : Bool) : M.OnState (Exec.pushBool b) (Exec.pushBool b) Eq := pushItem (.boolean b)

/-- Pushing a count. -/
theorem pushNat (n : Nat) : M.OnState (Exec.pushNat n) (Exec.pushNat n) Eq := pushItem (.integer _)

/-- Pushing a new object. -/
theorem pushNew {create create' : Heap → Item × Heap}
    (hnew : ∀ h k, M.SameHeap h k → M.SameItem (create h).1 (create' k).1 ∧ M.SameHeap (create h).2 (create' k).2) :
    M.OnState (Exec.pushNew create) (Exec.pushNew create') Eq :=
  heap.seq fun h k hheap => (setHeap (hnew h k hheap).2).seqEq fun _ => pushItem (hnew h k hheap).1

/-- Pushing a new byte string. -/
theorem pushBytes (data : Bytes) : M.OnState (Exec.pushBytes data) (Exec.pushBytes data) Eq :=
  pushNew fun _ _ h => h.newBytes data

/-- Pushing a new array. -/
theorem pushArray (hxs : M.SameItems xs ys) : M.OnState (Exec.pushArray xs) (Exec.pushArray ys) Eq :=
  pushNew fun _ _ h => h.newArray hxs

/-- Pushing a new struct. -/
theorem pushStruct (hxs : M.SameItems xs ys) : M.OnState (Exec.pushStruct xs) (Exec.pushStruct ys) Eq :=
  pushNew fun _ _ h => h.newStruct hxs

/-- Copying the same item. -/
theorem copyValue (hx : M.SameItem x y) : M.OnState (Exec.copyValue x) (Exec.copyValue y) M.SameItem := by
  refine reads fun s t h => ?_
  rw [h.limits]
  exact (result (h.heap.copyValue hx _)).seq fun _ _ hr => (setHeap hr.2).seqEq fun _ => returns hr.1

/-- Adding an entry to the journal. -/
theorem record (e : Event) : M.OnState (Exec.record e) (Exec.record e) Eq := updates fun _ _ h => h.record e

/-- Asking for the message. -/
theorem askMessage : M.OnState Exec.askMessage Exec.askMessage Eq := by
  refine reads fun s t h => ?_
  rw [h.message, h.iteration]
  split
  · exact throws _
  · exact (record _).seqEq fun _ => returns rfl

/-- Checking a signature. -/
theorem checkSignature (message signature key : Bytes) :
    M.OnState (Exec.checkSignature message signature key) (Exec.checkSignature message signature key) Eq :=
  (record _).seqEq fun _ => reads fun s t h => by
    rw [h.crypto]
    exact returns rfl

/-! ## Constants and byte strings -/

/-- Pushing bytes of the script. -/
theorem pushOperand (count : Nat) : M.OnState (Instructions.pushOperand count) (Instructions.pushOperand count) Eq :=
  (onFrame (readBytes count)).seqEq fun _ => pushBytes _

/-- Pushing the empty byte string. -/
theorem pushEmpty : M.OnState Instructions.pushEmpty Instructions.pushEmpty Eq := pushBytes _

/-- Pushing bytes whose number the opcode tells. -/
theorem pushDirect (i : Instruction) : M.OnState (Instructions.pushDirect i) (Instructions.pushDirect i) Eq :=
  pushOperand _

/-- Pushing -1. -/
theorem pushMinusOne : M.OnState Instructions.pushMinusOne Instructions.pushMinusOne Eq := pushItem (.integer _)

/-- Pushing the number that an opcode encodes. -/
theorem pushSmall (i : Instruction) : M.OnState (Instructions.pushSmall i) (Instructions.pushSmall i) Eq := pushNat _

/-- Pushing bytes with a counted length. -/
theorem pushCounted (width : Nat) : M.OnState (Instructions.pushCounted width) (Instructions.pushCounted width) Eq :=
  limits.seqEq fun _ => (onFrame (readNat width)).seqEq fun _ => guarded (pushOperand _)

/-- Joining byte strings. -/
theorem cat : M.OnState Instructions.cat Instructions.cat Eq := by
  refine limits.seqEq fun l => popItem.seq fun x y hx => popItem.seq fun x' y' hx' => ?_
  refine (resultEq hx'.byteViewSize).seqEq fun size1 => (resultEq hx.byteViewSize).seqEq fun size2 => guarded ?_
  exact (resultEq hx'.byteView).seqEq fun b1 => (resultEq hx.byteView).seqEq fun b2 => pushBytes _

/-- Cutting out a part. -/
theorem substr : M.OnState Instructions.substr Instructions.substr Eq :=
  (onFrame (popIndex _)).seqEq fun _ => (onFrame (popIndex _)).seqEq fun _ => (onFrame popBytes).seqEq fun _ =>
    guarded (pushBytes _)

/-- Taking leading bytes. -/
theorem left : M.OnState Instructions.left Instructions.left Eq :=
  (onFrame (popIndex _)).seqEq fun _ => (onFrame popBytes).seqEq fun _ => pushBytes _

/-- Taking trailing bytes. -/
theorem right : M.OnState Instructions.right Instructions.right Eq :=
  (onFrame (popIndex _)).seqEq fun _ => (onFrame popBytes).seqEq fun _ => guarded (pushBytes _)

/-- The size of an item. -/
theorem size : M.OnState Instructions.size Instructions.size Eq := by
  refine popItem.seq fun x y hx => heap.seq fun h k hheap => ?_
  rw [hheap.length? hx, hx.byteViewSize]
  split
  · exact pushNat _
  · exact (resultEq rfl).seqEq fun _ => pushNat _

/-- Comparing two items. -/
theorem equal : M.OnState Instructions.equal Instructions.equal Eq :=
  limits.seqEq fun _ => popItem.seq fun _ _ hx => popItem.seq fun _ _ hx' => heap.seq fun _ _ hheap =>
    (resultEq (hheap.equalsWithin hx' hx _)).seqEq fun _ => pushBool _

/-! ## Digests and signatures -/

/-- Digests. -/
theorem digest (hash : CryptoSuite → Bytes → Bytes) :
    M.OnState (Instructions.digest hash) (Instructions.digest hash) Eq := by
  refine (onFrame popBytes).seqEq fun data => reads fun s t h => ?_
  rw [h.crypto]
  exact pushBytes _

/-- Checking a signature of the message of the host. -/
theorem checkSig : M.OnState Instructions.checkSig Instructions.checkSig Eq :=
  (onFrame popBytes).seqEq fun _ => (onFrame popBytes).seqEq fun _ => askMessage.seqEq fun _ =>
    (checkSignature _ _ _).seqEq fun _ => pushBool _

/-- Checking a signature of a message from the stack. -/
theorem verify : M.OnState Instructions.verify Instructions.verify Eq :=
  (onFrame popBytes).seqEq fun _ => (onFrame popBytes).seqEq fun _ => (onFrame popBytes).seqEq fun _ =>
    (checkSignature _ _ _).seqEq fun _ => pushBool _

/-- Popping a list of byte strings or its length. -/
theorem popByteList : M.OnState Instructions.popByteList Instructions.popByteList Eq := by
  refine popItem.seq fun x y hx => heap.seq fun h k hheap => ?_
  have hrel := hheap.elements? hx
  rw [hx.integerValue]
  revert hrel
  rcases h.elements? x with _ | xs <;> rcases k.elements? y with _ | ys <;> rintro ⟨⟩
  · refine (resultEq rfl).seqEq fun value => ?_
    split
    · exact returns rfl
    · exact throws _
  · rename_i hxs
    refine (each (R := Eq) hxs fun _ _ hx => resultEq hx.byteView).seq fun bs bs' hbs => returns ?_
    rw [List.forall₂_eq_eq_eq] at hbs
    exact congrArg Sum.inl hbs

/-- Popping as many byte strings as announced. -/
theorem popCounted (count : Nat) : M.OnState (Instructions.popCounted count) (Instructions.popCounted count) Eq := by
  refine (each (Q := Eq) (R := Eq) ?_ fun _ _ _ => onFrame popBytes).weaken fun bs bs' hbs => ?_
  · rw [List.forall₂_eq_eq_eq]
  · rw [List.forall₂_eq_eq_eq] at hbs
    exact hbs

/-- Popping the keys. -/
theorem popKeys : M.OnState Instructions.popKeys Instructions.popKeys Eq := by
  refine popByteList.seqEq fun r => ?_
  split
  · exact throws _
  · exact returns rfl
  · exact (onFrame evalDepth).seqEq fun depth => guarded (popCounted _)

/-- Popping the signatures. -/
theorem popSignatures (keyCount : Nat) :
    M.OnState (Instructions.popSignatures keyCount) (Instructions.popSignatures keyCount) Eq := by
  refine popByteList.seqEq fun r => ?_
  split
  · exact guarded (returns rfl)
  · exact (onFrame evalDepth).seqEq fun depth => guarded (popCounted _)

/-- Matching signatures with keys. -/
theorem matchSignatures (message : Bytes) (signatures keys : List Bytes) :
    M.OnState (Instructions.matchSignatures message signatures keys)
      (Instructions.matchSignatures message signatures keys) Eq := by
  -- Every key is tried once, whether the signature at hand is valid for it or not.
  induction keys generalizing signatures with
  | nil =>
    unfold Instructions.matchSignatures
    exact returns rfl
  | cons key keys ih =>
    cases signatures with
    | nil =>
      unfold Instructions.matchSignatures
      exact returns rfl
    | cons signature signatures =>
      unfold Instructions.matchSignatures
      refine (checkSignature _ _ _).seqEq fun valid => branch (fun _ => returns rfl) fun _ => ?_
      exact branch (fun _ => returns rfl) fun _ => ih _

/-- Checking signatures against keys. -/
theorem checkMultiSig : M.OnState Instructions.checkMultiSig Instructions.checkMultiSig Eq :=
  popKeys.seqEq fun _ => (popSignatures _).seqEq fun _ => askMessage.seqEq fun _ =>
    (matchSignatures _ _ _).seqEq fun _ => pushBool _

/-! ## Containers -/

/-- Remembering a container that received a container. -/
theorem trackNesting (hx : M.SameItem x y) (hx' : M.SameItem x' y') :
    M.OnState (Instructions.trackNesting x x') (Instructions.trackNesting y y') Eq := by
  unfold Instructions.trackNesting
  rw [hx'.isCompound]
  exact branch (fun _ => updates fun _ _ h => h.track hx (.cons hx .nil)) fun _ => returns rfl

/-- A key as an index is the same. -/
theorem indexIn_same (hx : M.SameItem x y) {length length' : Nat} (hlength : length = length') :
    Instructions.indexIn y length' = Instructions.indexIn x length := by
  unfold Instructions.indexIn
  rw [hx.int32, hlength]

/-- Building an array from the stack. -/
theorem pack : M.OnState Instructions.pack Instructions.pack Eq :=
  limits.seqEq fun _ => (onFrame (popIndex _)).seqEq fun _ => (onFrame evalDepth).seqEq fun _ =>
    guarded ((onFrame (takeTop _)).seq fun _ _ hxs => pushArray hxs)

/-- Spreading a list on the stack. -/
theorem unpack : M.OnState Instructions.unpack Instructions.unpack Eq := by
  refine popItem.seq fun x y hx => heap.seq fun h k hheap => ?_
  have hrel := hheap.elements? hx
  rw [hx.kind]
  revert hrel
  rcases h.elements? x with _ | xs <;> rcases k.elements? y with _ | ys <;> rintro ⟨⟩
  · exact throws _
  · rename_i hxs
    dsimp only
    rw [hxs.length_eq]
    exact (onFrame (updates fun _ _ h => h.setEval (List.rel_append hxs h.eval))).seqEq fun _ => pushNat _

/-- The elements of a new list. -/
theorem newElements (hx : M.SameItem x y) :
    M.OnState (Instructions.newElements x) (Instructions.newElements y) M.SameItems := by
  refine limits.seqEq fun l => (resultEq hx.int32).seqEq fun count => guarded (guarded (returns ?_))
  exact List.forall₂_same.2 fun x hx => by
    rw [List.eq_of_mem_replicate hx]
    exact .boolean false

/-- New arrays. -/
theorem newArray : M.OnState Instructions.newArray Instructions.newArray Eq := by
  refine popItem.seq fun x y hx => ?_
  have hx' := hx
  cases hx with
  | array hab => exact pushItem (.array hab)
  | struct hab => exact heap.seq fun h k hheap => pushArray (hheap.items hab)
  | _ => exact (newElements hx').seq fun _ _ hxs => pushArray hxs

/-- New structs. -/
theorem newStruct : M.OnState Instructions.newStruct Instructions.newStruct Eq := by
  refine popItem.seq fun x y hx => ?_
  have hx' := hx
  cases hx with
  | struct hab => exact pushItem (.struct hab)
  | array hab => exact heap.seq fun h k hheap => pushStruct (hheap.items hab)
  | _ => exact (newElements hx').seq fun _ _ hxs => pushStruct hxs

/-- New maps. -/
theorem newMap : M.OnState Instructions.newMap Instructions.newMap Eq := pushNew fun _ _ h => h.newMap

/-- Reading an element. -/
theorem pickItem : M.OnState Instructions.pickItem Instructions.pickItem Eq := by
  refine (onFrame popKey).seq fun key key' hkey => popItem.seq fun x y hx => heap.seq fun h k hheap => ?_
  have copied : ∀ value value', M.SameItem value value' →
      M.OnState (Exec.copyValue value >>= Exec.push) (Exec.copyValue value' >>= Exec.push) Eq :=
    fun _ _ hv => (copyValue hv).seq fun _ _ hx => pushItem hx
  have element : ∀ a b, M.cell a b → M.OnState (do
      let index ← MonadExcept.ofExcept (Instructions.indexIn key (h.items a).length)
      let value ← pure ((h.items a).getD index default)
      Exec.copyValue value >>= Exec.push) (do
      let index ← MonadExcept.ofExcept (Instructions.indexIn key' (k.items b).length)
      let value ← pure ((k.items b).getD index default)
      Exec.copyValue value >>= Exec.push) Eq := by
    intro a b hab
    refine (resultEq (indexIn_same hkey (hheap.items hab).length_eq)).seqEq fun index => ?_
    refine (returns (Q := M.SameItem) ?_).seq copied
    rw [List.getD_eq_getElem?_getD, List.getD_eq_getElem?_getD]
    have hget := forall₂_getElem? (hheap.items hab) index
    revert hget
    rcases (h.items a)[index]? with _ | x <;> rcases (k.items b)[index]? with _ | y <;> rintro ⟨⟩
    · exact .boolean false
    · assumption
  cases hx with
  | array hab | struct hab => exact element _ _ hab
  | map hab =>
    have hget := hheap.mapGet? hab hkey
    dsimp only
    revert hget
    rcases h.mapGet? _ key with _ | x <;> rcases k.mapGet? _ key' with _ | y <;> rintro ⟨⟩
    · exact (throws (Q := M.SameItem) _).seq copied
    · exact (returns (by assumption)).seq copied
  | _ => exact (throws (Q := M.SameItem) _).seq copied

/-- Writing an element. -/
theorem setItem : M.OnState Instructions.setItem Instructions.setItem Eq := by
  refine limits.seqEq fun l => popItem.seq fun x y hx => (copyValue hx).seq fun value value' hvalue => ?_
  refine (onFrame popKey).seq fun key key' hkey => popItem.seq fun x y hx => heap.seq fun h k hheap => ?_
  have hcontainer := hx
  cases hx with
  | array hab | struct hab =>
    refine (resultEq (indexIn_same hkey (hheap.items hab).length_eq)).seqEq fun index => ?_
    refine (result (hheap.setAt hab index hvalue)).seq fun h' k' hheap' => ?_
    exact (setHeap hheap').seqEq fun _ => trackNesting hcontainer hvalue
  | map hab =>
    dsimp only
    rw [hheap.mapHas hab hkey, (hheap.entries hab).length_eq]
    exact guarded ((setHeap (hheap.mapSet hab hkey hvalue)).seqEq fun _ => trackNesting hcontainer hvalue)
  | _ => exact (throws (Q := fun _ _ => False) _).seq fun _ _ h => h.elim

/-- Adding an element. -/
theorem append : M.OnState Instructions.append Instructions.append Eq := by
  refine limits.seqEq fun l => popItem.seq fun x y hx => (copyValue hx).seq fun value value' hvalue => ?_
  refine popItem.seq fun x y hx => ?_
  have hcell := hx.listCell?
  rw [hx.kind]
  revert hcell
  rcases x.listCell? with _ | a <;> rcases y.listCell? with _ | b <;> rintro ⟨⟩
  · exact throws _
  · rename_i hab
    refine heap.seq fun h k hheap => ?_
    dsimp only
    rw [(hheap.items hab).length_eq]
    exact guarded ((setHeap (hheap.append hab hvalue)).seqEq fun _ => trackNesting hx hvalue)

/-- Reversing a list. -/
theorem reverse : M.OnState Instructions.reverse Instructions.reverse Eq := by
  refine popItem.seq fun x y hx => ?_
  have hcell := hx.listCell?
  rw [hx.kind]
  revert hcell
  rcases x.listCell? with _ | a <;> rcases y.listCell? with _ | b <;> rintro ⟨⟩
  · exact throws _
  · exact heap.seq fun h k hheap => setHeap (hheap.reverse (by assumption))

/-- Removing an element. -/
theorem removeItem : M.OnState Instructions.remove Instructions.remove Eq := by
  refine (onFrame popKey).seq fun key key' hkey => popItem.seq fun x y hx => heap.seq fun h k hheap => ?_
  cases hx with
  | array hab | struct hab =>
    refine (resultEq (indexIn_same hkey (hheap.items hab).length_eq)).seqEq fun index => ?_
    exact (result (hheap.removeAt hab index)).seq fun r r' hr => setHeap hr.2
  | map hab => exact setHeap (hheap.mapRemove hab hkey)
  | _ => exact throws _

/-- Asking for a key. -/
theorem hasKey : M.OnState Instructions.hasKey Instructions.hasKey Eq := by
  refine (onFrame popKey).seq fun key key' hkey => popItem.seq fun x y hx => heap.seq fun h k hheap => ?_
  cases hx with
  | array hab | struct hab =>
    refine (resultEq hkey.int32).seqEq fun index => ?_
    rw [(hheap.items hab).length_eq]
    exact guarded (pushBool _)
  | map hab =>
    dsimp only
    rw [hheap.mapHas hab hkey]
    exact pushBool _
  | _ => exact throws _

/-- The keys of a map. -/
theorem keys : M.OnState Instructions.keys Instructions.keys Eq := by
  refine popItem.seq fun x y hx => ?_
  cases hx with
  | map hab => exact heap.seq fun h k hheap => pushArray (hheap.mapKeys hab)
  | _ => exact throws _

/-- The values of a container. -/
theorem values : M.OnState Instructions.values Instructions.values Eq := by
  refine popItem.seq fun x y hx => heap.seq fun h k hheap => ?_
  have copied : ∀ xs ys, M.SameItems xs ys → M.OnState (xs.mapM Exec.copyValue >>= Exec.pushArray)
      (ys.mapM Exec.copyValue >>= Exec.pushArray) Eq :=
    fun _ _ hxs => (each hxs fun _ _ hx => copyValue hx).seq fun _ _ hys => pushArray hys
  cases hx with
  | array hab | struct hab => exact (returns (hheap.items hab)).seq copied
  | map hab => exact (returns (hheap.mapValues hab)).seq copied
  | _ => exact (throws (Q := M.SameItems) _).seq copied

/-! ## Frames -/

/-- Pushing the same frame. -/
theorem pushFrame {f g : Frame} (hf : M.SameFrame f g) :
    M.OnState (Instructions.pushFrame f) (Instructions.pushFrame g) Eq := by
  refine reads fun s t h => ?_
  unfold CallStack.push
  have hlength : t.session.calls.frames.length = s.session.calls.frames.length := h.frames.length_eq.symm
  rw [hlength, h.maxDepth]
  by_cases hroom : s.session.calls.frames.length < s.session.calls.maxDepth
  · rw [if_pos hroom, if_pos hroom]
    refine (returns (Q := fun c c' => M.SameState { s with session := { s.session with calls := c } }
      { t with session := { t.session with calls := c' } }) ?_).seq fun _ _ h => writes h
    exact { h with frames := .cons hf h.frames, maxDepth := rfl }
  · rw [if_neg hroom, if_neg hroom]
    exact (throws (Q := fun _ _ => False) _).seq fun _ _ h => h.elim

/-- Calling a routine of the same script. -/
theorem call (i : Instruction) : M.OnState (Instructions.call i) (Instructions.call i) Eq := by
  refine (onFrame (Q := M.SameFrame) ?_).seq fun f g hf => (pushFrame hf).seqEq fun _ => onFrame (jump i)
  refine (setCursor _).seqEq fun _ => evalDepth.seqEq fun depth => (takeTop depth).seq fun xs ys hxs => ?_
  exact reads fun f g hf => returns ⟨hf.script, rfl, rfl, hxs, .nil⟩

/-- Calling a routine with announced counts. -/
theorem callIsolated (i : Instruction) : M.OnState (Instructions.callIsolated i) (Instructions.callIsolated i) Eq := by
  refine (onFrame (Q := M.SameFrame) ?_).seq fun f g hf => pushFrame hf
  refine (readNat 1).seqEq fun returnCount => (readNat 1).seqEq fun parameterCount => ?_
  refine (readTarget _).seqEq fun target => (takeTop parameterCount).seq fun xs ys hxs => ?_
  exact reads fun f g hf => returns ⟨hf.script, rfl, rfl, hxs, .nil⟩

/-- The check of a frame before it returns ends alike. -/
theorem checkReturn_same {f g : Frame} (hf : M.SameFrame f g) :
    Instructions.checkReturn g = Instructions.checkReturn f := by
  unfold Instructions.checkReturn
  rw [hf.returnCount, hf.eval.length_eq]

/-- Returning. -/
theorem ret : M.OnState Instructions.ret Instructions.ret Eq := by
  refine reads fun s t h => ?_
  have hframes := h.frames
  revert hframes
  rcases s.frames with _ | ⟨f, rest⟩ <;> rcases t.frames with _ | ⟨g, rest'⟩ <;> rintro (_ | ⟨hf, hrest⟩)
  · exact throws _
  · refine (writes (h.setFrames hrest)).seqEq fun _ => (resultEq (checkReturn_same hf)).seqEq fun _ => ?_
    cases hrest with
    | nil =>
      refine writes (SameState.setStatus ?_ .halted)
      exact { h.setFrames .nil with results := List.rel_append hf.eval h.results }
    | @cons caller caller' outer outer' hcaller houter =>
      refine writes (h.setFrames (.cons ?_ houter))
      rw [hf.returnCount]
      refine ⟨hcaller.script, hcaller.cursor, hcaller.returnCount, List.rel_append hf.eval hcaller.eval, ?_⟩
      dsimp only
      split
      · exact List.rel_append hf.alt hcaller.alt
      · exact hcaller.alt

/-- Moving arguments. -/
theorem moveArguments (count : Option Nat) :
    M.OnState (Instructions.moveArguments count) (Instructions.moveArguments count) Eq := by
  refine reads fun s t h => ?_
  have hframes := h.frames
  revert hframes
  rcases s.frames with _ | ⟨f, _ | ⟨caller, rest⟩⟩ <;> rcases t.frames with _ | ⟨g, _ | ⟨caller', rest'⟩⟩ <;>
    rintro (_ | ⟨hf, _ | ⟨hcaller, hrest⟩⟩)
  · exact throws _
  · exact throws _
  · dsimp only
    rw [hcaller.eval.length_eq]
    refine (result (Stack.sameResult_split hcaller.eval _)).seq fun r r' hr => ?_
    exact writes (h.setFrames (.cons (hf.setEval (List.rel_append hr.1 hf.eval)) (.cons (hcaller.setEval hr.2) hrest)))

/-- Taking out the frame of a tail call. -/
theorem dropCaller : M.OnState Instructions.dropCaller Instructions.dropCaller Eq :=
  updates fun _ _ h => { h with frames := forall₂_eraseIdx h.frames 1 }

/-! ## Requested faults -/

/-- Faulting. -/
theorem throwAlways (i : Instruction) : M.OnState (Instructions.throwAlways i) (Instructions.throwAlways i) Eq :=
  throws _

/-- Faulting on a false item. -/
theorem throwIfNot (i : Instruction) : M.OnState (Instructions.throwIfNot i) (Instructions.throwIfNot i) Eq := by
  refine popItem.seq fun x y hx => ?_
  rw [hx.truth]
  exact branch (fun _ => throws _) fun _ => returns rfl

end Matching

end ScriptMachine
