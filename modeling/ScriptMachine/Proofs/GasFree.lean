import ScriptMachine.Proofs.Keeps

/-! # Computations without gas

Gas is charged between instructions and not by them: none of them reads or writes the gas limit, or ends the
execution for lack of gas. The former is a statement on two runs, from states that differ in the limit, and
both follow the text of an instruction. Together they are therefore a class: its instances for sequences,
branches and traversals and for the parts of instructions put together the instance of each instruction, and
what is left to a proof are the alternatives of a `match`.

* `GasFree`: under another limit the computation returns the same and does the same.
* `GasFree.seq`, `GasFree.reads`, `GasFree.updates`: rules.
* Instances for all instructions of `Exec`.
-/

namespace ScriptMachine

variable {α β : Type}

/-- The frames under another limit. -/
@[simp] theorem State.frames_setGasLimit (s : State) (g : Nat) : (s.setGasLimit g).frames = s.frames := rfl

/-- The computation has nothing to do with gas. -/
class GasFree (m : Exec α) : Prop where
  /-- The limit can be set before or after the run. -/
  run_setGasLimit : ∀ s g, m.run (s.setGasLimit g) = ((m.run s).1, (m.run s).2.setGasLimit g)
  /-- The run does not end for lack of gas. -/
  status_ne : ∀ s, s.session.status ≠ .outOfGas → (m.run s).2.session.status ≠ .outOfGas

namespace GasFree

/-! ## Rules -/

/-- Returning a value. -/
instance returns (a : α) : GasFree (pure a) := ⟨fun _ _ => rfl, fun _ h => h⟩

/-- A fault. -/
instance throws (f : Fault) : GasFree (throw f : Exec α) := ⟨fun _ _ => rfl, fun _ h => h⟩

/-- A result that was computed beforehand. -/
instance result (x : Except Fault α) : GasFree (MonadExcept.ofExcept x) := by
  cases x with
  | error f => exact throws f
  | ok a => exact returns a

/-- A sequence whose second part is looked at for every result of the first one. -/
theorem seq {m : Exec α} {k : α → Exec β} [hm : GasFree m] (hk : ∀ a, GasFree (k a)) :
    GasFree (m >>= k) := by
  refine ⟨fun s g => ?_, fun s hs => ?_⟩
  · rw [run_seq, run_seq, hm.run_setGasLimit s g]
    rcases m.run s with ⟨_ | a, t⟩
    · rfl
    · exact (hk a).run_setGasLimit t g
  · have hfirst := hm.status_ne s hs
    rw [run_seq]
    revert hfirst
    rcases m.run s with ⟨_ | a, t⟩
    · exact id
    · exact (hk a).status_ne t

/-- A sequence. -/
instance both {m : Exec α} {k : α → Exec β} [GasFree m] [hk : ∀ a, GasFree (k a)] :
    GasFree (m >>= k) := seq hk

/-- A branch. -/
instance branch {c : Prop} [Decidable c] {m n : Exec α} [hm : GasFree m] [hn : GasFree n] :
    GasFree (if c then m else n) := by
  by_cases h : c
  · rw [if_pos h]
    exact hm
  · rw [if_neg h]
    exact hn

/-- A traversal. -/
instance each {k : α → Exec β} [∀ x, GasFree (k x)] (xs : List α) : GasFree (xs.mapM k) := by
  induction xs with
  | nil =>
    rw [List.mapM_nil]
    infer_instance
  | cons x xs ih =>
    rw [List.mapM_cons]
    infer_instance

/-- Reading the state, when what follows does not depend on the limit that was read. -/
theorem reads {k : State → Exec α} (hk : ∀ s, GasFree (k s))
    (hlimit : ∀ s g, k (s.setGasLimit g) = k s) : GasFree (get >>= k) := by
  refine ⟨fun s g => ?_, fun s hs => (hk s).status_ne s hs⟩
  rw [run_get_seq, run_get_seq, hlimit]
  exact (hk s).run_setGasLimit s g

/-- Changing the state by a function that leaves the limit and the status alone. -/
theorem updates {f : State → State} (hf : ∀ s g, f (s.setGasLimit g) = (f s).setGasLimit g)
    (hstatus : ∀ s, (f s).session.status = s.session.status) : GasFree (modify f) := by
  refine ⟨fun s g => ?_, fun s hs => ?_⟩
  · show (Except.ok (), f (s.setGasLimit g)) = _
    rw [hf]
    rfl
  · show (f s).session.status ≠ .outOfGas
    rw [hstatus]
    exact hs

end GasFree

open GasFree

/-! ## Parts of instructions -/

namespace Exec

/-- The innermost frame knows nothing of gas. -/
instance (m : FrameM α) : GasFree (onFrame m) := by
  refine ⟨fun s g => ?_, fun s hs => ?_⟩
  · cases hframes : s.frames with
    | nil => rw [run_onFrame_nil m hframes, run_onFrame_nil m (s := s.setGasLimit g) hframes]
    | cons f rest =>
      rw [run_onFrame_cons m hframes, run_onFrame_cons m (s := s.setGasLimit g) hframes]
      rfl
  · cases hframes : s.frames with
    | nil =>
      rw [run_onFrame_nil m hframes]
      exact hs
    | cons f rest =>
      rw [run_onFrame_cons m hframes]
      exact hs

instance : GasFree limits := reads inferInstance fun _ _ => rfl

instance : GasFree heap := reads inferInstance fun _ _ => rfl

instance (h : Heap) : GasFree (setHeap h) := updates (fun _ _ => rfl) fun _ => rfl

instance (e : Event) : GasFree (record e) := updates (fun _ _ => rfl) fun _ => rfl

instance : GasFree pop := inferInstanceAs (GasFree (onFrame _))

instance (x : Item) : GasFree (push x) := inferInstanceAs (GasFree (onFrame _))

instance (b : Bool) : GasFree (pushBool b) := inferInstanceAs (GasFree (push _))

instance (n : Nat) : GasFree (pushNat n) := inferInstanceAs (GasFree (push _))

instance (create : Heap → Item × Heap) : GasFree (pushNew create) := by
  unfold pushNew
  infer_instance

instance (data : Bytes) : GasFree (pushBytes data) := inferInstanceAs (GasFree (pushNew _))

instance (items : List Item) : GasFree (pushArray items) :=
  inferInstanceAs (GasFree (pushNew _))

instance (items : List Item) : GasFree (pushStruct items) :=
  inferInstanceAs (GasFree (pushNew _))

instance (x : Item) : GasFree (copyValue x) := reads inferInstance fun _ _ => rfl

instance : GasFree askMessage := by
  refine reads (fun s => ?_) fun _ _ => rfl
  split <;> infer_instance

instance (message signature key : Bytes) : GasFree (checkSignature message signature key) := by
  have : GasFree (do return (← get).crypto.verify message signature key) :=
    reads inferInstance fun _ _ => rfl
  unfold checkSignature
  infer_instance

end Exec

namespace Instructions

/-! ## Constants and byte strings -/

instance (count : Nat) : GasFree (pushOperand count) := by
  unfold pushOperand
  infer_instance

instance : GasFree pushEmpty := inferInstanceAs (GasFree (Exec.pushBytes _))

instance (i : Instruction) : GasFree (pushDirect i) := inferInstanceAs (GasFree (pushOperand _))

instance (width : Nat) : GasFree (pushCounted width) := by
  unfold pushCounted
  infer_instance

instance : GasFree pushMinusOne := inferInstanceAs (GasFree (Exec.push _))

instance (i : Instruction) : GasFree (pushSmall i) := inferInstanceAs (GasFree (Exec.pushNat _))

instance : GasFree cat := by
  unfold cat
  infer_instance

instance : GasFree substr := by
  unfold substr
  infer_instance

instance : GasFree left := by
  unfold left
  infer_instance

instance : GasFree right := by
  unfold right
  infer_instance

instance : GasFree size := by
  refine seq fun x => seq fun h => ?_
  split <;> infer_instance

instance : GasFree equal := by
  unfold equal
  infer_instance

/-! ## Digests and signatures -/

instance (hash : CryptoSuite → Bytes → Bytes) : GasFree (digest hash) :=
  seq fun _ => reads inferInstance fun _ _ => rfl

instance : GasFree checkSig := by
  unfold checkSig
  infer_instance

instance : GasFree verify := by
  unfold verify
  infer_instance

instance : GasFree popByteList := by
  refine seq fun x => seq fun h => ?_
  split
  · infer_instance
  · refine seq fun value => ?_
    split <;> infer_instance

instance (count : Nat) : GasFree (popCounted count) := by
  unfold popCounted
  infer_instance

instance : GasFree popKeys := by
  refine seq fun r => ?_
  split <;> infer_instance

instance (keyCount : Nat) : GasFree (popSignatures keyCount) := by
  refine seq fun r => ?_
  split <;> infer_instance

/-- Every key is tried once, whether the signature at hand is valid for it or not. -/
instance (message : Bytes) (signatures keys : List Bytes) :
    GasFree (matchSignatures message signatures keys) := by
  induction keys generalizing signatures with
  | nil =>
    unfold matchSignatures
    infer_instance
  | cons key keys ih =>
    cases signatures with
    | nil =>
      unfold matchSignatures
      infer_instance
    | cons signature signatures =>
      unfold matchSignatures
      infer_instance

instance : GasFree checkMultiSig := by
  unfold checkMultiSig
  infer_instance

/-! ## Containers -/

instance (container value : Item) : GasFree (trackNesting container value) := by
  have : GasFree (modify (·.track container [container])) := updates (fun _ _ => rfl) fun _ => rfl
  unfold trackNesting
  infer_instance

instance : GasFree pack := by
  unfold pack
  infer_instance

instance : GasFree unpack := by
  refine seq fun x => seq fun h => ?_
  split <;> infer_instance

instance (x : Item) : GasFree (newElements x) := by
  unfold newElements
  infer_instance

instance : GasFree newArray := by
  refine seq fun x => ?_
  split <;> infer_instance

instance : GasFree newStruct := by
  refine seq fun x => ?_
  split <;> infer_instance

instance : GasFree newMap := inferInstanceAs (GasFree (Exec.pushNew _))

instance : GasFree pickItem := by
  refine seq fun key => seq fun container => seq fun h => ?_
  dsimp only
  split
  · infer_instance
  · infer_instance
  · split <;> infer_instance
  · infer_instance

instance : GasFree setItem := by
  refine seq fun l => seq fun x => seq fun value => seq fun key => seq fun container => seq fun h => ?_
  dsimp only
  split <;> infer_instance

instance : GasFree append := by
  refine seq fun l => seq fun x => seq fun value => seq fun container => ?_
  split <;> infer_instance

instance : GasFree reverse := by
  refine seq fun container => ?_
  split <;> infer_instance

instance : GasFree remove := by
  refine seq fun key => seq fun container => seq fun h => ?_
  split <;> infer_instance

instance : GasFree hasKey := by
  refine seq fun key => seq fun container => seq fun h => ?_
  split <;> infer_instance

instance : GasFree keys := by
  refine seq fun x => ?_
  split <;> infer_instance

instance : GasFree values := by
  refine seq fun container => seq fun h => ?_
  dsimp only
  split <;> infer_instance

/-! ## Control flow -/


instance (f : Frame) : GasFree (pushFrame f) := by
  refine ⟨fun s g => ?_, fun s hs => ?_⟩
  · have hcalls : (s.setGasLimit g).session.calls = s.session.calls := rfl
    unfold pushFrame
    rw [run_get_seq, run_get_seq, hcalls]
    cases s.session.calls.push f <;> rfl
  · unfold pushFrame
    rw [run_get_seq]
    cases s.session.calls.push f <;> exact hs

instance (i : Instruction) : GasFree (call i) := by
  unfold call
  infer_instance

instance (i : Instruction) : GasFree (callIsolated i) := by
  unfold callIsolated
  infer_instance

/-- The last return ends the execution, but not for lack of gas. -/
instance : GasFree ret := by
  refine ⟨fun s g => ?_, fun s hs => ?_⟩
  · unfold ret
    rw [run_get_seq, run_get_seq, s.frames_setGasLimit g]
    cases s.frames with
    | nil => rfl
    | cons f rest =>
      dsimp only
      rw [run_seq, run_seq]
      cases checkReturn f with
      | error cause => rfl
      | ok _ => cases rest <;> rfl
  · unfold ret
    rw [run_get_seq]
    cases s.frames with
    | nil => exact hs
    | cons f rest =>
      dsimp only
      rw [run_seq]
      cases checkReturn f with
      | error cause => exact hs
      | ok _ =>
        cases rest with
        | nil => exact (by decide : Status.halted ≠ .outOfGas)
        | cons caller outer => exact hs

instance (count : Option Nat) : GasFree (moveArguments count) := by
  refine ⟨fun s g => ?_, fun s hs => ?_⟩
  · unfold moveArguments
    rw [run_get_seq, run_get_seq, s.frames_setGasLimit g]
    rcases s.frames with _ | ⟨callee, _ | ⟨caller, rest⟩⟩
    · rfl
    · rfl
    · dsimp only
      cases caller.eval.split (count.getD caller.eval.length) <;> rfl
  · unfold moveArguments
    rw [run_get_seq]
    rcases s.frames with _ | ⟨callee, _ | ⟨caller, rest⟩⟩
    · exact hs
    · exact hs
    · dsimp only
      cases caller.eval.split (count.getD caller.eval.length) <;> exact hs

instance : GasFree dropCaller := updates (fun _ _ => rfl) fun _ => rfl

instance (i : Instruction) : GasFree (throwAlways i) := inferInstanceAs (GasFree (throw _))

instance (i : Instruction) : GasFree (throwIfNot i) := by
  unfold throwIfNot
  infer_instance

end Instructions

end ScriptMachine
