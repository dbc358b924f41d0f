import ScriptMachine.Proofs.Steps

/-! # Invariants under hosts with callbacks

A service handler and a script loader can make requests, step the machine and put in further handlers. What a step
keeps is therefore proved for all levels of nesting at once: an invariant of states that survives every instruction,
the bookkeeping of a step and every request of a given kind is kept by a step with all its callbacks, if these make
no other requests.

* `OnlyCalls`: calls change the frames and nothing else.
* `Engine.perform_changes`: what opcodes do that do not transfer control.
* `StepInvariant`: what an invariant has to survive.
* `Engine.Hosted`: a machine with the invariant, under a host that makes only requests of the given kind.
* `StepInvariant.stepAt`: what a step with all its callbacks keeps.
-/

namespace ScriptMachine

/-! ## Calls -/

/-- Only the frames differ. -/
def OnlyCalls (s₀ s : State) : Prop :=
  s = { s₀ with session := { s₀.session with calls := s.session.calls } }

/-- Other frames. -/
theorem OnlyCalls.setCalls {s₀ s : State} (h : OnlyCalls s₀ s) (calls : CallStack) :
    OnlyCalls s₀ { s with session := { s.session with calls } } := by
  rw [h]
  rfl

/-- A computation of the innermost frame changes that frame only. -/
theorem Exec.onFrame_onlyCalls {s₀ : State} {α : Type} (m : FrameM α) :
    Keeps (OnlyCalls s₀) (Exec.onFrame m) (fun _ => True) := by
  intro s hs
  cases hframes : s.frames with
  | nil =>
    rw [Exec.run_onFrame_nil m hframes]
    exact ⟨hs, fun _ _ => trivial⟩
  | cons f rest =>
    rw [Exec.run_onFrame_cons m hframes]
    exact ⟨hs.setCalls _, fun _ _ => trivial⟩

namespace Instructions

variable {s₀ : State}

/-- Pushing a frame. -/
theorem pushFrame_onlyCalls (f : Frame) : Keeps (OnlyCalls s₀) (pushFrame f) (fun _ => True) := by
  unfold pushFrame
  refine Keeps.reads.seq fun s hs => (Keeps.result fun _ _ => trivial).seq fun calls (_ : True) => ?_
  exact Keeps.writes (hs.setCalls calls)

/-- A call inside a script changes the frames only. -/
theorem call_onlyCalls (i : Instruction) : Keeps (OnlyCalls s₀) (call i) (fun _ => True) := by
  unfold call
  refine (Exec.onFrame_onlyCalls _).seq fun callee _ => (pushFrame_onlyCalls callee).seq fun _ _ => ?_
  exact Exec.onFrame_onlyCalls _

/-- A call with announced counts changes the frames only. -/
theorem callIsolated_onlyCalls (i : Instruction) :
    Keeps (OnlyCalls s₀) (callIsolated i) (fun _ => True) := by
  unfold callIsolated
  exact (Exec.onFrame_onlyCalls _).seq fun callee _ => pushFrame_onlyCalls callee

/-- Moving arguments changes the frames only. -/
theorem moveArguments_onlyCalls (count : Option Nat) :
    Keeps (OnlyCalls s₀) (moveArguments count) (fun _ => True) := by
  unfold moveArguments
  refine Keeps.reads.seq fun s hs => ?_
  split
  · exact (Keeps.result fun _ _ => trivial).seq fun r (_ : True) => Keeps.writes (hs.setCalls _)
  · exact Keeps.throws _

/-- Taking out a frame. -/
theorem dropCaller_onlyCalls : Keeps (OnlyCalls s₀) dropCaller (fun _ => True) :=
  Keeps.updates fun _ hs => hs.setCalls _

end Instructions

/-! ## What an invariant has to survive -/

/-- An invariant of states that survives the instructions, the bookkeeping of a step, and all requests of the given
kind. -/
structure StepInvariant (allowed : HostCall → Prop) (I : State → Prop) : Prop where
  /-- A request. -/
  request : ∀ call s, allowed call → I s → I (call.perform s).2
  /-- An instruction that does not transfer control. -/
  change : ∀ s t, StateChange .all s t → I s → I t
  /-- A frame for a loaded script. -/
  loadCached : ∀ s index returnCount, I s → I (s.loadCached index returnCount).2
  /-- A call inside a script. -/
  call : ∀ i, Keeps I (Instructions.call i) fun _ => True
  /-- A call with announced counts. -/
  callIsolated : ∀ i, Keeps I (Instructions.callIsolated i) fun _ => True
  /-- A return. -/
  ret : Keeps I Instructions.ret fun _ => True
  /-- Handing over the arguments of a call. -/
  moveArguments : ∀ count, Keeps I (Instructions.moveArguments count) fun _ => True
  /-- Taking out the frame of a tail call. -/
  dropCaller : Keeps I Instructions.dropCaller fun _ => True
  /-- Paying for the next instruction and reading its opcode. -/
  charge : ∀ s f outer price total, s.frames = f :: outer → 1 ≤ price →
    total = Nat.min (s.session.gasConsumed + price) maxUInt64 → total ≤ s.session.gasLimit → I s →
    I (s.charge total f outer)
  /-- Another status, or another entry in the journal. -/
  sameData : ∀ s t, Engine.SameData s t → I s → I t

namespace Engine

variable {e : Engine} {nested : Engine → Engine} {op : OpCode}

/-- An opcode that does not transfer control leaves the host alone, and changes the machine no more than a
computation of the innermost frame and the objects. What else is said of the data holds under the policy that
allows all of it. -/
theorem perform_changes (nested : Engine → Engine) (hop : ¬ op.Transfers) (i : Instruction) (e : Engine) :
    ∃ t, ((perform nested op i).run e).2 = { e with state := t } ∧ StateChange .all e.state t := by
  have hkeeps : Keeps (e.StateIn (StateChange .all e.state)) (perform nested op i) (fun _ => True) :=
    perform_keeps (Policy.all_admits _ _) hop fun _ _ _ _ => trivial
  exact (hkeeps e ⟨e.state, rfl, StateChange.refl_all e.state⟩).1

/-- A machine with the invariant, the given table, and a host whose callbacks make only requests of the given kind. -/
structure Hosted (allowed : HostCall → Prop) (I : State → Prop) (table : OpCode → Behaviour) (e : Engine) : Prop where
  /-- The invariant. -/
  state : I e.state
  /-- The service handler. -/
  interop : ∀ handler, e.interop = some handler → ∀ name, (handler name).Makes allowed True
  /-- The script loader. -/
  loader : ∀ loader, e.loader = some loader →
    ∀ hash dynamic returnCount, (loader hash dynamic returnCount).Makes allowed True
  /-- The behaviours of opcodes. -/
  table : e.table = table

variable {allowed : HostCall → Prop} {I : State → Prop} {table : OpCode → Behaviour}

namespace Hosted

/-- Another state with the invariant. -/
theorem setState {s : State} (he : e.Hosted allowed I table) (hs : I s) :
    ({ e with state := s } : Engine).Hosted allowed I table := ⟨hs, he.interop, he.loader, he.table⟩

/-- Another service handler. -/
theorem setInterop (he : e.Hosted allowed I table) {handler : Option InteropHandler}
    (hhandler : ∀ program, handler = some program → ∀ name, (program name).Makes allowed True) :
    ({ e with interop := handler } : Engine).Hosted allowed I table := ⟨he.state, hhandler, he.loader, he.table⟩

/-- Another script loader. -/
theorem setLoader (he : e.Hosted allowed I table) {loader : Option ScriptLoader}
    (hloader : ∀ load, loader = some load → ∀ hash dynamic returnCount, (load hash dynamic returnCount).Makes allowed True) :
    ({ e with loader } : Engine).Hosted allowed I table := ⟨he.state, he.interop, hloader, he.table⟩

end Hosted

/-- A computation of the state, run on an engine. -/
theorem onState_hosted {α : Type} {m : Exec α} (hm : Keeps I m fun _ => True) :
    Keeps (Hosted allowed I table) (onState m) fun _ => True := by
  intro e he
  rw [run_onState]
  exact ⟨he.setState (hm e.state he.state).1, fun _ _ => trivial⟩

end Engine

namespace StepInvariant

open Engine

variable {allowed : HostCall → Prop} {I : State → Prop} (hI : StepInvariant allowed I) {e : Engine}
  {nested : Engine → Engine} {table : OpCode → Behaviour} {op : OpCode}
include hI

/-- A computation of the innermost frame that moves inside of its script. -/
theorem onFrame {α : Type} {m : FrameM α} (hm : ∀ f₀, Keeps (FrameChange Policy.all.AllowsItem f₀) m fun _ => True) :
    Keeps I (Exec.onFrame m) fun _ => True := by
  intro s hs
  refine ⟨hI.change s _ ?_ hs, fun _ _ => trivial⟩
  exact (Exec.onFrame_keeps hm s (StateChange.refl_all s)).1

/-- The end of a step keeps the invariant, whether the instruction failed or not. -/
theorem finish {f : Frame} {outer : List Frame} (hrun : e.status = .running) (hframes : e.state.frames = f :: outer)
    (hnext : (executeNext nested e).2.Hosted allowed I table) : (stepWith nested e).Hosted allowed I table := by
  rw [stepWith_cons nested hrun hframes]
  revert hnext
  rcases executeNext nested e with ⟨cause | _, e'⟩
  · exact fun hnext => hnext.setState (hI.sameData e'.state _ (fail_sameData _ cause) hnext.state)
  · exact fun hnext => hnext.setState (hI.sameData e'.state _ (settle_sameData _) hnext.state)

section

variable (hnested : ∀ e, Hosted allowed I table e → Hosted allowed I table (nested e))
include hnested

/-- **A callback keeps the invariant**, also when it steps the machine. -/
theorem runProgram {program : HostProgram} (hp : program.Makes allowed True) (he : e.Hosted allowed I table) :
    (Engine.runProgram nested program e).2.Hosted allowed I table := by
  refine runProgram_keeps ?_ (fun _ => hnested) ?_ hp he
  · exact fun call e hcall he => he.setState (hI.request call e.state hcall he.state)
  · intro _ handler e hhandler he
    refine he.setInterop ?_
    rintro _ ⟨⟩
    exact hhandler

/-- Asking for a service. -/
theorem invokeInterop (name : Bytes) :
    Keeps (Hosted allowed I table) (Engine.invokeInterop nested name) fun _ => True := by
  unfold Engine.invokeInterop
  refine Keeps.reads.seq fun e he => ?_
  split
  · exact Keeps.throws _
  · rename_i handler hsome
    -- The handler is out of its place while it runs; afterwards it or another one is there.
    have hout : ({ e with interop := none } : Engine).Hosted allowed I table := he.setInterop fun _ h => by cases h
    have hrun := hI.runProgram hnested (he.interop handler hsome name) hout
    revert hrun
    rcases Engine.runProgram nested (handler name) { e with interop := none } with ⟨ok, e'⟩
    intro hrun
    refine (Keeps.writes ?_).seq fun _ _ =>
      Keeps.branch (fun _ => Keeps.throws _) (fun _ => Keeps.returns trivial)
    split
    · refine hrun.setInterop ?_
      rintro _ ⟨⟩
      exact he.interop handler hsome
    · exact hrun

/-- Pushing a frame for a script by its hash. -/
theorem loadByHash (hash : Bytes) (dynamic : Bool) (returnCount : Int) :
    Keeps (Hosted allowed I table) (Engine.loadByHash nested hash dynamic returnCount) fun _ => True := by
  unfold Engine.loadByHash
  refine Keeps.reads.seq fun e he => ?_
  split
  · rename_i index _
    have hload := hI.loadCached e.state index returnCount he.state
    revert hload
    rcases e.state.loadCached index returnCount with ⟨r, t⟩
    intro hload
    exact (Keeps.writes (he.setState hload)).seq fun _ _ => Keeps.result fun _ _ => trivial
  · split
    · exact Keeps.throws _
    · rename_i loader hsome
      have hout : ({ e with loader := none } : Engine).Hosted allowed I table := he.setLoader fun _ h => by cases h
      have hrun := hI.runProgram hnested (he.loader loader hsome hash dynamic returnCount) hout
      revert hrun
      rcases Engine.runProgram nested (loader hash dynamic returnCount) { e with loader := none } with
        ⟨ok, e'⟩
      intro hrun
      refine (Keeps.writes ?_).seq fun _ _ => Keeps.guarded fun _ =>
        Keeps.branch (fun _ => Keeps.throws _) (fun _ => Keeps.returns trivial)
      split
      · refine hrun.setLoader ?_
        rintro _ ⟨⟩
        exact he.loader loader hsome
      · exact hrun

/-- **Every opcode keeps the invariant.** -/
theorem perform (op : OpCode) (i : Instruction) :
    Keeps (Hosted allowed I table) (Engine.perform nested op i) fun _ => True := by
  have hload := fun hash dynamic returnCount => hI.loadByHash hnested hash dynamic returnCount
  have hmove : ∀ count, Keeps (Hosted allowed I table) (onState (Instructions.moveArguments count)) fun _ => True :=
    fun count => onState_hosted (hI.moveArguments count)
  have htail : ∀ {c : Prop} [Decidable c], Keeps (Hosted allowed I table)
      (if c then onState Instructions.dropCaller else pure ()) fun _ => True :=
    Keeps.branch (fun _ => onState_hosted hI.dropCaller) fun _ => Keeps.returns trivial
  by_cases hop : op.Transfers
  · unfold Engine.perform
    cases op with
    | call => exact onState_hosted (hI.call i)
    | ret => exact onState_hosted hI.ret
    | callI => exact onState_hosted (hI.callIsolated i)
    | appCall | tailCall =>
      refine (onState_hosted (hI.onFrame fun _ => ?_)).seq fun r (_ : True) => (hload _ _ _).seq fun _ _ => ?_
      · exact callOperands_keeps
      · exact (hmove none).seq fun _ _ => htail
    | sysCall =>
      refine (Keeps.reads.seq fun e he => ?_).seq fun name (_ : True) => hI.invokeInterop hnested name
      exact onState_hosted (hI.onFrame fun _ => (Frame.readVarBytes_keeps _).weaken fun _ _ => trivial)
    | callE | callED | callET | callEDT =>
      refine (onState_hosted (hI.onFrame fun _ => ?_)).seq fun r (_ : True) => (hload _ _ _).seq fun _ _ => ?_
      · exact externalOperands_keeps _ _
      · exact (hmove _).seq fun _ _ => htail
    | _ => exact hop.elim
  · intro e he
    obtain ⟨t, ht, hchange⟩ := perform_changes nested hop i e
    refine ⟨?_, fun _ _ => trivial⟩
    rw [ht]
    exact he.setState (hI.change e.state t hchange he.state)

variable (htable : ∀ op run, table op = .custom run → ∀ i, Keeps I (run i) fun _ => True)
include htable

/-- The behaviours that the table gives to opcodes keep the invariant, also those of the host. -/
theorem dispatch (i : Instruction) : Keeps (Hosted allowed I table) (Engine.dispatch nested i) fun _ => True := by
  unfold Engine.dispatch
  refine Keeps.reads.seq fun e he => ?_
  split
  · exact hI.perform hnested _ i
  · exact Keeps.throws _
  · rename_i run hcustom
    rw [he.table] at hcustom
    exact onState_hosted (htable _ run hcustom i)

/-- Carrying out an instruction. -/
theorem carryOut (i : Instruction) (he : e.Hosted allowed I table) :
    (Engine.carryOut nested i e).2.Hosted allowed I table := by
  have hrun := (hI.dispatch hnested htable i e he).1
  unfold Engine.carryOut
  revert hrun
  rcases (Engine.dispatch nested i).run e with ⟨_ | _, e'⟩
  · exact fun hrun => hrun.setState (hI.sameData e'.state _ rfl hrun.state)
  · exact id

/-- A step keeps the invariant, if the steps that its callbacks make do. -/
theorem stepWith (he : e.Hosted allowed I table) : (Engine.stepWith nested e).Hosted allowed I table := by
  by_cases hrun : e.status = .running
  swap
  · rw [stepWith_final nested hrun]
    exact he
  cases hframes : e.state.frames with
  | nil =>
    rw [stepWith_nil nested hrun hframes]
    exact he.setState (hI.sameData e.state _ rfl he.state)
  | cons f outer =>
    refine hI.finish hrun hframes ?_
    obtain ⟨event, hrefused⟩ | ⟨price, total, hprice, htotal, hlimit, hpaid⟩ := executeNext_cases nested hframes
    · rw [hrefused]
      exact he.setState (hI.sameData e.state _ rfl he.state)
    · have hcharged : ({ e with state := e.state.charge total f outer } : Engine).Hosted allowed I table :=
        he.setState (hI.charge e.state f outer price total hframes hprice htotal hlimit he.state)
      rw [hpaid]
      split
      · exact hcharged
      · exact hI.carryOut hnested htable _ hcharged

end

/-- **A step keeps the invariant however deep its callbacks are nested.** -/
theorem stepAt (htable : ∀ op run, table op = .custom run → ∀ i, Keeps I (run i) fun _ => True) (level : Nat)
    (he : e.Hosted allowed I table) : (Engine.stepAt level e).Hosted allowed I table := by
  -- A callback of a step makes steps one level further down.
  induction level generalizing e with
  | zero => exact hI.stepWith (fun _ h => h) htable he
  | succ level ih => exact hI.stepWith (fun _ h => ih h) htable he

end StepInvariant

end ScriptMachine
