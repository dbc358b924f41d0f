import ScriptMachine.Proofs.Gas
import ScriptMachine.Proofs.Resume

/-! # What instructions write

Most instructions leave all existing containers alone: they move items, or add containers. Four instructions write
the container that they pop. So each container keeps its content during a step, unless the next instruction writes
it, or asks the host for a service.

* `Adds`: computations of a state that leave all existing containers alone, put together by instances.
* `Engine.perform_grown`: all instructions that write nothing.
* `OpCode.target?`, `Engine.perform_has`: an instruction keeps the content of all containers but that one.
* `Engine.next?`, `Engine.Spares`, `Engine.Keeping.step`, `Engine.Keeping.steps`: steps that leave a container alone.
-/

namespace ScriptMachine

variable {α β : Type} {c : Nat} {cell : Cell} {h h' : Heap} {s : State}

/-- The container exists and has the content. -/
def State.Has (c : Nat) (cell : Cell) (s : State) : Prop := s.heap.cells[c]? = some cell

/-- A container with a content exists. -/
theorem State.Has.lt_size (hs : s.Has c cell) : c < s.heap.size := (Array.getElem?_eq_some_iff.1 hs).1

/-- The computation leaves all existing containers alone, also when it faults. -/
class Adds (m : Exec α) : Prop where
  /-- There may be new containers. -/
  grown : ∀ h : Heap, Keeps (fun s => h.Grown s.heap) m fun _ => True

namespace Adds

/-! ## Parts of instructions -/

/-- Returning a value. -/
instance returns (a : α) : Adds (pure a) := ⟨fun _ => Keeps.returns trivial⟩

/-- A fault. -/
instance throws (f : Fault) : Adds (throw f : Exec α) := ⟨fun _ => Keeps.throws f⟩

/-- A result that was computed beforehand. -/
instance result (x : Except Fault α) : Adds (MonadExcept.ofExcept x) :=
  ⟨fun _ => Keeps.result fun _ _ => trivial⟩

/-- A sequence whose second part is looked at for every result of the first one. -/
theorem seq {m : Exec α} {k : α → Exec β} [hm : Adds m] (hk : ∀ a, Adds (k a)) : Adds (m >>= k) :=
  ⟨fun h => (hm.grown h).seq fun a _ => (hk a).grown h⟩

/-- A sequence. -/
instance both {m : Exec α} {k : α → Exec β} [Adds m] [hk : ∀ a, Adds (k a)] : Adds (m >>= k) := seq hk

/-- A branch. -/
instance branch {p : Prop} [Decidable p] {m n : Exec α} [hm : Adds m] [hn : Adds n] :
    Adds (if p then m else n) :=
  ⟨fun h => Keeps.branch (fun _ => hm.grown h) fun _ => hn.grown h⟩

/-- A traversal. -/
instance each {k : α → Exec β} [hk : ∀ x, Adds (k x)] (xs : List α) : Adds (xs.mapM k) :=
  ⟨fun h => (Keeps.each fun x _ => (hk x).grown h).weaken fun _ _ => trivial⟩

/-- Reading the state. -/
theorem reads {k : State → Exec α} (hk : ∀ s, Adds (k s)) : Adds (get >>= k) :=
  ⟨fun h => Keeps.reads.seq fun s _ => (hk s).grown h⟩

/-- A change of the state that leaves the objects alone. -/
theorem updates {f : State → State} (hf : ∀ s, (f s).heap = s.heap) : Adds (modify f : Exec PUnit) := by
  refine ⟨fun h => Keeps.updates fun s hs => ?_⟩
  rw [hf]
  exact hs

/-- What changes the frames only. -/
theorem onlyCalls {m : Exec α} (hm : ∀ s₀, Keeps (OnlyCalls s₀) m fun _ => True) : Adds m := by
  refine ⟨fun h s hs => ⟨?_, fun _ _ => trivial⟩⟩
  rw [(hm s s rfl).1]
  exact hs

/-- A computation of the innermost frame. -/
instance onFrame (m : FrameM α) : Adds (Exec.onFrame m) := onlyCalls fun _ => Exec.onFrame_onlyCalls m

end Adds

open Adds

namespace Exec

instance : Adds limits := reads inferInstance

instance : Adds heap := reads inferInstance

instance : Adds pop := inferInstanceAs (Adds (onFrame _))

instance (x : Item) : Adds (push x) := inferInstanceAs (Adds (onFrame _))

instance (b : Bool) : Adds (pushBool b) := inferInstanceAs (Adds (push _))

instance (n : Nat) : Adds (pushNat n) := inferInstanceAs (Adds (push _))

instance (e : Event) : Adds (record e) := updates fun _ => rfl

instance : Adds askMessage := by
  refine reads fun s => ?_
  split <;> infer_instance

instance (message signature key : Bytes) : Adds (checkSignature message signature key) := by
  have : Adds (do return (← get).crypto.verify message signature key) := reads inferInstance
  unfold checkSignature
  infer_instance

/-- Going on with objects among which the earlier ones are the same. -/
theorem setHeap_grown (hgrown : h.Grown h') : Keeps (fun s => h.Grown s.heap) (setHeap h') fun _ => True :=
  Keeps.updates fun _ _ => hgrown

/-- Pushing a new object. -/
theorem pushNew_adds {create : Heap → Item × Heap} (hcreate : ∀ h : Heap, h.Grown (create h).2) :
    Adds (pushNew create) := by
  have hpush : ∀ x, Adds (push x) := inferInstance
  refine ⟨fun h => ?_⟩
  unfold pushNew heap
  refine Keeps.seq (Q := fun h₁ => h.Grown h₁) (Keeps.reads.seq fun s hs => Keeps.returns hs) fun h₁ hh₁ => ?_
  exact (setHeap_grown (hh₁.trans (hcreate h₁))).seq fun _ _ => (hpush _).grown h

instance (data : Bytes) : Adds (pushBytes data) :=
  pushNew_adds fun _ => ⟨Nat.le_refl _, fun _ _ => rfl⟩

instance (items : List Item) : Adds (pushArray items) := pushNew_adds fun h => Heap.grown_alloc h _

instance (items : List Item) : Adds (pushStruct items) := pushNew_adds fun h => Heap.grown_alloc h _

instance (x : Item) : Adds (copyValue x) := by
  refine ⟨fun h => Keeps.reads.seq fun s hs => ?_⟩
  refine Keeps.seq (Q := fun r => h.Grown r.2) (Keeps.result fun r hr => hs.trans (Heap.grown_copyValue hr)) ?_
  exact fun r hr => (setHeap_grown hr).seq fun _ _ => Keeps.returns trivial

end Exec

namespace Instructions

open Exec

/-! ## Instructions that write nothing -/

instance (count : Nat) : Adds (pushOperand count) := by
  unfold pushOperand
  infer_instance

instance : Adds pushEmpty := inferInstanceAs (Adds (pushBytes _))

instance (i : Instruction) : Adds (pushDirect i) := inferInstanceAs (Adds (pushOperand _))

instance (width : Nat) : Adds (pushCounted width) := by
  unfold pushCounted
  infer_instance

instance : Adds pushMinusOne := inferInstanceAs (Adds (push _))

instance (i : Instruction) : Adds (pushSmall i) := inferInstanceAs (Adds (pushNat _))

instance : Adds cat := by
  unfold cat
  infer_instance

instance : Adds substr := by
  unfold substr
  infer_instance

instance : Adds left := by
  unfold left
  infer_instance

instance : Adds right := by
  unfold right
  infer_instance

instance : Adds size := by
  refine seq fun x => seq fun h => ?_
  split <;> infer_instance

instance : Adds equal := by
  unfold equal
  infer_instance

instance (hash : CryptoSuite → Bytes → Bytes) : Adds (digest hash) := seq fun _ => reads inferInstance

instance : Adds checkSig := by
  unfold checkSig
  infer_instance

instance : Adds verify := by
  unfold verify
  infer_instance

instance : Adds popByteList := by
  refine seq fun x => seq fun h => ?_
  split
  · infer_instance
  · refine seq fun value => ?_
    split <;> infer_instance

instance (count : Nat) : Adds (popCounted count) := by
  unfold popCounted
  infer_instance

instance : Adds popKeys := by
  refine seq fun r => ?_
  split <;> infer_instance

instance (keyCount : Nat) : Adds (popSignatures keyCount) := by
  refine seq fun r => ?_
  split <;> infer_instance

instance (message : Bytes) (signatures keys : List Bytes) : Adds (matchSignatures message signatures keys) := by
  induction keys generalizing signatures with
  | nil =>
    unfold matchSignatures
    infer_instance
  | cons key keys ih =>
    cases signatures with
    | nil =>
      unfold matchSignatures
      infer_instance
    | cons signature signatures =>
      unfold matchSignatures
      infer_instance

instance : Adds checkMultiSig := by
  unfold checkMultiSig
  infer_instance

instance (i : Instruction) : Adds (throwAlways i) := inferInstanceAs (Adds (throw _))

instance (i : Instruction) : Adds (throwIfNot i) := by
  unfold throwIfNot
  infer_instance

instance : Adds pack := by
  unfold pack
  infer_instance

instance : Adds unpack := by
  refine seq fun x => seq fun h => ?_
  split <;> infer_instance

instance (x : Item) : Adds (newElements x) := by
  unfold newElements
  infer_instance

instance : Adds newArray := by
  refine seq fun x => ?_
  split <;> infer_instance

instance : Adds newStruct := by
  refine seq fun x => ?_
  split <;> infer_instance

instance : Adds newMap := pushNew_adds fun h => Heap.grown_alloc h _

instance : Adds pickItem := by
  refine seq fun key => seq fun container => seq fun h => ?_
  dsimp only
  split
  · infer_instance
  · infer_instance
  · split <;> infer_instance
  · infer_instance

instance : Adds hasKey := by
  refine seq fun key => seq fun container => seq fun h => ?_
  split <;> infer_instance

instance : Adds keys := by
  refine seq fun x => ?_
  split <;> infer_instance

instance : Adds values := by
  refine seq fun container => seq fun h => ?_
  dsimp only
  split <;> infer_instance

instance (i : Instruction) : Adds (call i) := onlyCalls fun _ => call_onlyCalls i

instance (i : Instruction) : Adds (callIsolated i) := onlyCalls fun _ => callIsolated_onlyCalls i

instance (count : Option Nat) : Adds (moveArguments count) := onlyCalls fun _ => moveArguments_onlyCalls count

instance : Adds dropCaller := onlyCalls fun _ => dropCaller_onlyCalls

instance : Adds ret := by
  refine ⟨fun h => Keeps.reads.seq fun s hs => ?_⟩
  split
  · exact Keeps.throws _
  · rename_i f outer _
    have hset : ∀ t : State, t.heap = s.heap → Keeps (fun s : State => h.Grown s.heap) (set t) fun _ => True :=
      fun t ht => Keeps.writes (I := fun s : State => h.Grown s.heap) (ht ▸ hs)
    refine (hset (s.setFrames outer) rfl).seq fun _ _ =>
      (Keeps.result fun _ _ => trivial).seq fun _ (_ : True) => ?_
    split
    · exact hset _ rfl
    · exact hset _ rfl

end Instructions

/-- The instruction writes the container that it pops. -/
def OpCode.Writes : OpCode → Prop
  | .setItem | .append | .reverse | .remove => True
  | _ => False

/-- What an instruction writes, if it writes a container: the item below its other operands. -/
def OpCode.target? : OpCode → Stack → Option Item
  | .setItem, eval => eval[2]?
  | .append, eval | .remove, eval => eval[1]?
  | .reverse, eval => eval[0]?
  | _, _ => none

namespace Engine

variable {e : Engine} {nested : Engine → Engine} {op : OpCode} {f : Frame} {outer : List Frame}

/-- A computation of the state, run on an engine. -/
theorem onState_grown (m : Exec α) [hm : Adds m] :
    Keeps (e.StateIn fun s => h.Grown s.heap) (onState m) (fun _ => True) := by
  rintro _ ⟨s, rfl, hs⟩
  rw [run_onState]
  exact ⟨⟨_, rfl, (hm.grown h s hs).1⟩, fun _ _ => trivial⟩

/-- A computation of the innermost frame that depends on the bounds, run on an engine. -/
theorem onFrameWithin_grown (m : Limits → FrameM α) :
    Keeps (e.StateIn fun s => h.Grown s.heap) (onFrameWithin m) (fun _ => True) :=
  Keeps.reads.seq fun _ _ => onState_grown _

/-- **An instruction that writes nothing and asks for no service** leaves all existing containers alone, if loading a
script does. Before a script is loaded, only the state has changed; what is said of the machine afterwards is `J`. -/
theorem perform_adds {J : Engine → Prop} (hstart : ∀ e', e.StateIn (fun s => h.Grown s.heap) e' → J e')
    (hkeeps : ∀ (m : Exec Unit) [Adds m], Keeps J (onState m) (fun _ => True)) (hop : ¬ op.Writes)
    (hload : ∀ hash dynamic returnCount, Leads (e.StateIn fun s => h.Grown s.heap)
      (loadByHash nested hash dynamic returnCount) (fun _ => J) J)
    (hservice : op ≠ .sysCall) (i : Instruction) :
    Leads (e.StateIn fun s => h.Grown s.heap) (perform nested op i) (fun _ => J) J := by
  have hbefore : ∀ {α : Type} (m : Exec α) [Adds m],
      Leads (e.StateIn fun s => h.Grown s.heap) (onState m) (fun _ => e.StateIn fun s => h.Grown s.heap) J :=
    fun m => (onState_grown m).leads_self.ends (fun _ _ ht => ht) hstart
  have hstate : ∀ (m : Exec Unit) [Adds m],
      Leads (e.StateIn fun s => h.Grown s.heap) (onState m) (fun _ => J) J :=
    fun m => (hbefore m).ends (fun _ => hstart) fun _ ht => ht
  have hwithin : ∀ m : Limits → FrameM Unit,
      Leads (e.StateIn fun s => h.Grown s.heap) (onFrameWithin m) (fun _ => J) J :=
    fun m => (onFrameWithin_grown m).leads_self.ends (fun _ => hstart) hstart
  have hafter : ∀ (m : Exec Unit) [Adds m], Leads J (onState m) (fun _ => J) J :=
    fun m => (hkeeps m).leads_self
  have htail : ∀ {c : Prop} [Decidable c],
      Leads J (if c then onState Instructions.dropCaller else pure ()) (fun _ => J) J :=
    Leads.branch (fun _ => hafter _) fun _ => Leads.returns fun _ ht => ht
  unfold perform
  cases op with
  | nop => exact Leads.returns hstart
  | sysCall => exact absurd rfl hservice
  | setItem | append | reverse | remove => exact absurd trivial hop
  | appCall | tailCall =>
    exact (hbefore _).seq fun r => (hload _ _ _).seq fun _ => (hafter _).seq fun _ => htail
  | callE | callED | callET | callEDT =>
    unfold callExternal
    dsimp only
    exact (hbefore _).seq fun r => (hload _ _ _).seq fun _ => (hafter _).seq fun _ => htail
  | invert | and | or | xor | inc | dec | sign | negate | abs | nz => exact hwithin _
  | add | sub | mul | div | mod | shl | shr | min | max | within => exact hwithin _
  | numEqual | numNotEqual | lt | gt | lte | gte => exact hwithin _
  | _ => exact hstate _

/-- An instruction that writes nothing and asks for no service changes only the state, and leaves all existing
containers alone, if the loader only loads scripts. -/
theorem perform_grown (hloader : e.LoaderLoadsOnly) (nested : Engine → Engine) (hop : ¬ op.Writes)
    (hservice : op ≠ .sysCall) (i : Instruction) :
    Leads (e.StateIn fun s => h.Grown s.heap) (perform nested op i) (fun _ => e.StateIn fun s => h.Grown s.heap)
      (e.StateIn fun s => h.Grown s.heap) := by
  refine perform_adds (fun _ ht => ht) (fun m => onState_grown m) hop (fun hash dynamic returnCount => ?_) hservice i
  refine (loadByHash_keeps hloader (fun s t hload hs => ?_) nested hash dynamic returnCount).leads_self
  obtain ⟨pushed, ht, -⟩ := hload
  rw [ht]
  exact hs

/-- The other containers are the same after a container was written. -/
theorem cells_of_writes {container : Item} {added : List Item}
    (hwrites : ∃ id, container.cell? = some id ∧ h.Writes h' id added) (hne : container.cell? ≠ some c) :
    h'.cells[c]? = h.cells[c]? := by
  obtain ⟨id, hid, hw⟩ := hwrites
  refine hw.others c fun heq => hne ?_
  rw [hid, heq]

/-- An instruction that writes a container, when all that it leaves has the content. -/
theorem onState_has {m : Exec Unit} {done fault : State → Prop} (hframes : e.state.frames = f :: outer)
    (hm : Leads (· = e.state.resume e.state.heap f) m (fun _ => done) fault)
    (hdone : ∀ t, done t → t.Has c cell) (hfault : ∀ t, fault t → t.Has c cell) :
    e.StateIn (State.Has c cell) ((onState m).run e).2 := by
  have hrun := hm e.state (State.resume_self hframes).symm
  rw [run_onState]
  refine ⟨_, rfl, ?_⟩
  revert hrun
  rcases m.run e.state with ⟨_ | _, t⟩
  · exact hfault t
  · exact hdone t

/-- **An instruction keeps the content of each container but the one that it writes**, also when it faults. -/
theorem perform_has (hloader : e.LoaderLoadsOnly) (nested : Engine → Engine) (hframes : e.state.frames = f :: outer)
    (hservice : op ≠ .sysCall) (htarget : (op.target? f.eval).bind Item.cell? ≠ some c)
    (hhas : e.state.Has c cell) (i : Instruction) :
    e.StateIn (State.Has c cell) ((perform nested op i).run e).2 := by
  have hgrown : ∀ t : State, e.state.heap.Grown t.heap → t.Has c cell :=
    fun t ht => (ht.old c hhas.lt_size).trans hhas
  by_cases hop : op.Writes
  swap
  · obtain ⟨t, ht, hg⟩ := (perform_grown hloader nested hop hservice i).ended ⟨e.state, rfl, Heap.Grown.refl _⟩
    exact ⟨t, ht, hgrown t hg⟩
  have hsame : ∀ t : State, t.heap = e.state.heap → t.Has c cell := fun t ht => hgrown t (ht ▸ Heap.Grown.refl _)
  unfold perform
  cases op with
  | setItem =>
    refine onState_has hframes Instructions.setItem_leads (fun t ht => ?_) hgrown
    obtain ⟨tracker, heval, -, hcopy, hstored⟩ := ht
    rw [heval] at htarget
    exact (cells_of_writes hstored.writes htarget).trans (hgrown (e.state.resume _ f) (Heap.grown_copyValue hcopy))
  | append =>
    refine onState_has hframes Instructions.append_leads (fun t ht => ?_) hgrown
    obtain ⟨tracker, heval, hcopy, hid⟩ := ht
    rw [heval] at htarget
    refine (cells_of_writes ⟨_, Item.cell?_of_listCell? hid, Heap.writes_append _ _ _⟩ htarget).trans ?_
    exact hgrown (e.state.resume _ f) (Heap.grown_copyValue hcopy)
  | reverse =>
    refine onState_has hframes Instructions.reverse_leads (fun t ht => ?_) hsame
    obtain ⟨heval, hid⟩ := ht
    rw [heval] at htarget
    exact (cells_of_writes ⟨_, Item.cell?_of_listCell? hid, Heap.writes_reverse _ _⟩ htarget).trans hhas
  | remove =>
    refine onState_has hframes Instructions.remove_leads (fun t ht => ?_) hsame
    obtain ⟨heval, hremoved⟩ := ht
    rw [heval] at htarget
    exact (cells_of_writes hremoved.writes htarget).trans hhas
  | _ => exact hop.elim

/-! ## Steps -/

/-- The next instruction, and the evaluation stack on which it works. -/
def next? (e : Engine) : Option (OpCode × Stack) :=
  match e.state.frames with
  | [] => none
  | f :: _ => (fetch f).toOption.map fun op => (op, f.eval)

/-- The next instruction of the innermost frame. -/
theorem next?_eq (hframes : e.state.frames = f :: outer) (hfetch : fetch f = .ok op) :
    e.next? = some (op, f.eval) := by
  unfold next?
  rw [hframes]
  dsimp only
  rw [hfetch]
  rfl

/-- Where the next instruction stands. -/
theorem exists_of_next? {eval : Stack} (hnext : e.next? = some (op, eval)) :
    ∃ f outer, e.state.frames = f :: outer ∧ fetch f = .ok op ∧ f.eval = eval := by
  unfold next? at hnext
  cases hframes : e.state.frames with
  | nil =>
    rw [hframes] at hnext
    cases hnext
  | cons f outer =>
    rw [hframes] at hnext
    refine ⟨f, outer, rfl, ?_⟩
    dsimp only at hnext
    cases hfetch : fetch f with
    | error byte =>
      rw [hfetch] at hnext
      cases hnext
    | ok op =>
      rw [hfetch] at hnext
      cases hnext
      exact ⟨rfl, rfl⟩

/-- The next instruction asks for no service and does not write the container. -/
def Spares (e : Engine) (c : Nat) : Prop :=
  ∀ next ∈ e.next?, next.1 ≠ .sysCall ∧ (next.1.target? next.2).bind Item.cell? ≠ some c

/-- A machine with the standard instructions, whose loader only loads scripts, and with a content of a container. -/
structure Keeping (c : Nat) (cell : Cell) (e : Engine) : Prop where
  /-- Every opcode has its own behaviour. -/
  table : e.table = .standard
  /-- The loader only loads scripts. -/
  loader : e.LoaderLoadsOnly
  /-- The content. -/
  has : e.state.Has c cell

namespace Keeping

/-- Another state with the content. -/
theorem setState (he : e.Keeping c cell) (hs : s.Has c cell) : ({ e with state := s } : Engine).Keeping c cell :=
  ⟨he.table, he.loader, hs⟩

/-- What is said at the end of a step changes no container. -/
theorem sameData (he : e.Keeping c cell) (hs : SameData e.state s) :
    ({ e with state := s } : Engine).Keeping c cell := by
  refine he.setState ?_
  rw [hs]
  exact he.has

/-- **A step keeps the content of each container that its instruction does not write.** -/
theorem step (he : e.Keeping c cell) (hspares : e.Spares c) (nested : Engine → Engine) :
    (stepWith nested e).Keeping c cell := by
  by_cases hrun : e.status = .running
  swap
  · rw [stepWith_final nested hrun]
    exact he
  cases hframes : e.state.frames with
  | nil =>
    rw [stepWith_nil nested hrun hframes]
    exact he.setState he.has
  | cons f outer =>
    have hnext : (executeNext nested e).2.Keeping c cell := by
      obtain ⟨event, hrefused⟩ | ⟨price, total, -, -, -, hpaid⟩ := executeNext_cases nested hframes
      · rw [hrefused]
        exact he.setState he.has
      · have hcharged : ({ e with state := e.state.charge total f outer } : Engine).Keeping c cell :=
          he.setState he.has
        rw [hpaid]
        cases hfetch : fetch f with
        | error byte => exact hcharged
        | ok op =>
          obtain ⟨hservice, htarget⟩ := hspares _ (next?_eq hframes hfetch)
          have hperformed := perform_has hcharged.loader nested rfl hservice htarget hcharged.has ⟨op, f.cursor⟩
          rw [← run_dispatch nested ⟨op, f.cursor⟩ hcharged.table] at hperformed
          dsimp only [carryOut]
          revert hperformed
          rcases (dispatch nested ⟨op, f.cursor⟩).run { e with state := e.state.charge total f outer } with
            ⟨_ | _, e'⟩
          · rintro ⟨t, rfl, ht⟩
            exact hcharged.setState ht
          · rintro ⟨t, rfl, ht⟩
            exact hcharged.setState ht
    rw [stepWith_cons nested hrun hframes]
    revert hnext
    rcases executeNext nested e with ⟨cause | _, e'⟩
    · exact fun hnext => hnext.sameData (fail_sameData _ cause)
    · exact fun hnext => hnext.sameData (settle_sameData _)

/-- **Steps keep the content of each container that none of their instructions writes.** -/
theorem steps (he : e.Keeping c cell) {n : Nat} (hspares : ∀ k < n, (steps k e).Spares c) :
    (Engine.steps n e).Keeping c cell := by
  induction n with
  | zero => exact he
  | succ n ih =>
    rw [steps_succ]
    exact (ih fun k hk => hspares k (Nat.lt_succ_of_lt hk)).step (hspares n (Nat.lt_succ_self n)) _

end Keeping

end Engine

end ScriptMachine
