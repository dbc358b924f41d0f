import ScriptMachine.Proofs.Gas

/-! # Gas exhaustion is never masked

Gas is asked for by the machine, before every instruction, and by the callbacks of the host, which may ignore the
answer, fail, let the machine make steps or do anything else afterwards. Once it was refused, the machine is out of
gas for the rest of the session, and nothing else puts it out of gas. That is a statement on everything that happens
during a session, also in the middle of an instruction, so that sessions are told moment by moment here.

* `Moment`, `Engine.momentsAt`, `Engine.sessionMoments`: what happens during a step and during a session.
* `Engine.callback?`, `Engine.perform_runs`: the one callback that an instruction may run.
* `Latched`: the moments tell of a machine that is out of gas from the first refusal on.
* `Engine.momentsAt_latched`: the moments of a step, however deep its callbacks are nested.
* `Engine.gas_exhaustion_lasts`: the moments of every session.
-/

namespace ScriptMachine

/-- The machine has run out of gas. -/
def State.OutOfGas (s : State) : Prop := s.session.status = .outOfGas

/-! ## Moments -/

/-- Something that happens during a session. -/
inductive Moment where
  /-- Gas was asked for, by the machine or by a callback. -/
  | gas (granted : Bool) (after : State)
  /-- The behaviour of an instruction starts. -/
  | starts (i : Instruction) (before : State)
  /-- A request of a callback, an instruction or a step was carried out. -/
  | passes (after : State)

namespace Moment

/-- The state of the machine at the moment. -/
def state : Moment → State
  | gas _ after => after
  | starts _ before => before
  | passes after => after

/-- Gas is refused. -/
def Refuses : Moment → Prop
  | gas granted _ => granted = false
  | _ => False

instance : DecidablePred Refuses
  | gas granted _ => inferInstanceAs (Decidable (granted = false))
  | starts _ _ => .isFalse id
  | passes _ => .isFalse id

/-- An instruction starts. -/
def Starts : Moment → Prop
  | starts _ _ => True
  | _ => False

/-- A request of a callback was answered. -/
def ofReply : HostReply → State → Moment
  | .granted ok, after => gas ok after
  | _, after => passes after

/-- The moment after a request has the state after the request. -/
@[simp] theorem ofReply_state (reply : HostReply) (s : State) : (ofReply reply s).state = s := by
  cases reply <;> rfl

/-- No instruction starts with the answer to a request. -/
theorem not_starts_ofReply (reply : HostReply) (s : State) : ¬ (ofReply reply s).Starts := by
  cases reply <;> exact id

end Moment

/-- The moments of a callback. The steps that it asks for are made by `nested` and told by `watch`. -/
def HostProgram.moments (nested : Engine → Engine) (watch : Engine → List Moment) :
    HostProgram → Engine → List Moment
  | .answer _, _ => []
  | .request call next, e =>
    let (reply, state) := call.perform e.state
    Moment.ofReply reply state :: (next reply).moments nested watch { e with state }
  | .inspect next, e => (next e.state).moments nested watch e
  | .step next, e => watch e ++ (next (nested e).state.session.status).moments nested watch (nested e)
  | .setInterop handler next, e => next.moments nested watch { e with interop := some handler }

namespace Engine

/-- The callback for a service, out of its place, with the machine from which it runs. -/
def serviceCallback? (name : Bytes) (e : Engine) : Option (HostProgram × Engine) :=
  e.interop.map fun handler => (handler name, { e with interop := none })

/-- The callback for a script that is not loaded yet. -/
def loaderCallback? (hash : Bytes) (dynamic : Bool) (returnCount : Int) (e : Engine) :
    Option (HostProgram × Engine) :=
  match e.state.scriptIndex? hash with
  | some _ => none
  | none => e.loader.map fun loader => (loader hash dynamic returnCount, { e with loader := none })

/-- The callback to which a computation leads, if it returns a value. -/
def callbackAfter {α : Type} (m : Run α) (callback? : α → Engine → Option (HostProgram × Engine))
    (e : Engine) : Option (HostProgram × Engine) :=
  match m.run e with
  | (.ok a, e) => callback? a e
  | (.error _, _) => none

/-- The callback that an opcode runs, if it gets that far. -/
def callback? (op : OpCode) (i : Instruction) : Engine → Option (HostProgram × Engine) :=
  match op with
  | .sysCall =>
    callbackAfter (onFrameWithin fun limits => Frame.readVarBytes limits.maxSyscallNameSize) serviceCallback?
  | .appCall | .tailCall =>
    callbackAfter (onFrame callOperands) fun (hash, dynamic) => loaderCallback? hash dynamic returnAll
  | .callE | .callED | .callET | .callEDT =>
    let dynamic := i.op = .callED || i.op = .callEDT
    let tail := i.op = .callET || i.op = .callEDT
    callbackAfter (onFrame (externalOperands dynamic tail)) fun (hash, returnCount, _) =>
      loaderCallback? hash dynamic returnCount
  | _ => fun _ => none

/-- The callback that an instruction runs by the table. -/
def tableCallback? (i : Instruction) (e : Engine) : Option (HostProgram × Engine) :=
  match e.table i.op with
  | .standard op => callback? op i e
  | _ => none

section

variable (nested : Engine → Engine) (watch : Engine → List Moment)

/-- The moments of an instruction: its start, those of its callback, and its end. -/
def instructionMoments (i : Instruction) (e : Engine) : List Moment :=
  .starts i e.state ::
    ((tableCallback? i e).elim [] (fun (program, start) => program.moments nested watch start) ++
      [.passes ((dispatch nested i).run e).2.state])

/-- The moments of the next instruction: the gas for it, and its own. -/
def nextMoments (e : Engine) : List Moment :=
  match e.state.frames with
  | [] => []
  | f :: outer =>
    match e.state.consumeGas (e.state.nextPrice f) with
    | (false, paid) => [.gas false paid]
    | (true, paid) =>
      .gas true paid ::
        match fetch f with
        | .error _ => []
        | .ok op =>
          instructionMoments nested watch ⟨op, f.cursor⟩ { e with state := paid.setFrames (f.advance :: outer) }

/-- The moments of a step: those of the next instruction, and the end. -/
def momentsWith (e : Engine) : List Moment :=
  if e.status.isFinal then [] else nextMoments nested watch e ++ [.passes (stepWith nested e).state]

end

/-- The moments of a step from within `level` nested callbacks. -/
def momentsAt : (level : Nat) → Engine → List Moment
  | 0 => momentsWith id fun _ => []
  | level + 1 => momentsWith (stepAt level) (momentsAt level)

/-- The moments of `n` steps. -/
def stepsMoments : Nat → Engine → List Moment
  | 0, _ => []
  | n + 1, e => momentsAt nestingLimit e ++ stepsMoments n (step e)

end Engine

/-- What drives a machine through a session. -/
inductive Drive where
  /-- Make one step. -/
  | step
  /-- Run with a budget of gas. -/
  | execute (gasLimit : Nat)
  deriving DecidableEq, Repr

namespace Drive

/-- The machine afterwards. -/
def run : Drive → Engine → Engine
  | step, e => e.step
  | execute gasLimit, e => e.execute gasLimit

/-- The moments in between. A run makes all the steps of its budget, of which those after its end do nothing. -/
def moments : Drive → Engine → List Moment
  | step, e => Engine.momentsAt Engine.nestingLimit e
  | execute gasLimit, e =>
    let e := e.modifyState (·.setGasLimit gasLimit)
    Engine.stepsMoments e.stepBudget e

end Drive

namespace Engine

/-- The machine after a session. -/
def session (e : Engine) (drives : List Drive) : Engine := drives.foldl (fun e drive => drive.run e) e

/-- The moments of a session. -/
def sessionMoments (e : Engine) : List Drive → List Moment
  | [] => []
  | drive :: drives => drive.moments e ++ sessionMoments (drive.run e) drives

end Engine

/-! ## Latched gas -/

/-- The moments tell of a machine that is out of gas in the beginning if `out`: it is out of gas as soon as gas was
refused and only then, and no instruction starts any more; in the end it is out of gas if `final`. -/
def Latched (out : Prop) : List Moment → Prop → Prop
  | [], final => final ↔ out
  | m :: ms, final =>
    (m.state.OutOfGas ↔ out ∨ m.Refuses) ∧ (m.Starts → ¬ out) ∧ Latched m.state.OutOfGas ms final

namespace Latched

variable {out middle final : Prop} {ms ns : List Moment} {s : State}

/-- The moments of one thing after the other. -/
theorem append (h : Latched out ms middle) (h' : Latched middle ns final) :
    Latched out (ms ++ ns) final := by
  induction ms generalizing out with
  | nil =>
    obtain rfl := propext (h : middle ↔ out)
    exact h'
  | cons m ms ih => exact ⟨h.1, h.2.1, ih h.2.2⟩

/-- A change that has nothing to do with gas. -/
theorem passes (h : s.OutOfGas ↔ out) : Latched out [.passes s] s.OutOfGas :=
  ⟨h.trans (or_iff_left id).symm, False.elim, Iff.rfl⟩

/-- **At every moment the machine is out of gas if gas was refused up to then**, and when an instruction starts, gas
was never refused before. -/
theorem at_every_moment (h : Latched out ms final) {before after : List Moment} {m : Moment}
    (hms : ms = before ++ m :: after) :
    (m.state.OutOfGas ↔ out ∨ ∃ r ∈ before ++ [m], r.Refuses) ∧
      (m.Starts → ¬ out ∧ ∀ r ∈ before, ¬ r.Refuses) := by
  induction before generalizing out ms with
  | nil =>
    obtain rfl : ms = m :: after := hms
    simpa using And.intro h.1 h.2.1
  | cons first before ih =>
    obtain rfl : ms = first :: (before ++ m :: after) := hms
    obtain ⟨hfirst, -, hlater⟩ := h
    obtain ⟨hstate, hstarts⟩ := ih hlater rfl
    rw [hfirst] at hstate hstarts
    refine ⟨?_, fun hm => ?_⟩
    · rw [hstate]
      simp [or_assoc]
    · obtain ⟨hnot, hbefore⟩ := hstarts hm
      rw [not_or] at hnot
      exact ⟨hnot.1, List.forall_mem_cons.2 ⟨hnot.2, hbefore⟩⟩

/-- In the end the machine is out of gas if gas was refused. -/
theorem at_the_end (h : Latched out ms final) : final ↔ out ∨ ∃ r ∈ ms, r.Refuses := by
  induction ms generalizing out with
  | nil =>
    have hfinal : final ↔ out := h
    simpa using hfinal
  | cons m ms ih =>
    rw [ih h.2.2, h.1]
    simp [or_assoc]

end Latched

/-! ## Requests -/

/-- A request for anything but gas is not answered by a refusal. -/
theorem HostCall.not_refuses {call : HostCall} (hgas : ∀ amount, call ≠ .consumeGas amount) (s : State) :
    ¬ (Moment.ofReply (call.perform s).1 (call.perform s).2).Refuses := by
  cases call with
  | consumeGas amount => exact absurd rfl (hgas amount)
  | loadScript body returnCount =>
    dsimp only [perform]
    rcases s.loadScript body returnCount with ⟨_ | _, t⟩ <;> exact id
  | loadCached index returnCount =>
    dsimp only [perform]
    rcases s.loadCached index returnCount with ⟨_ | _, t⟩ <;> exact id
  | push x =>
    dsimp only [perform]
    cases s.frames <;> exact id
  | pop =>
    dsimp only [perform]
    cases s.frames with
    | nil => exact id
    | cons f rest =>
      dsimp only
      rcases f.eval.pop with _ | ⟨x, eval⟩ <;> exact id
  | append container x =>
    dsimp only [perform]
    cases container.listCell? <;> exact id
  | _ => exact id

/-- **A request that does not start over** puts the machine out of gas if it asks for gas that is refused, and leaves
it as it is otherwise. -/
theorem HostCall.perform_outOfGas {call : HostCall} (hcall : call.GoesOn) (s : State) :
    (call.perform s).2.OutOfGas ↔
      s.OutOfGas ∨ (Moment.ofReply (call.perform s).1 (call.perform s).2).Refuses := by
  by_cases hgas : ∃ amount, call = .consumeGas amount
  · obtain ⟨amount, rfl⟩ := hgas
    dsimp only [perform]
    obtain ⟨event, hpay⟩ | ⟨total, -, -, hpay⟩ := s.consumeGas_cases amount
    · rw [hpay]
      exact iff_of_true rfl (Or.inr rfl)
    · rw [hpay]
      exact (or_iff_left Bool.noConfusion).symm
  · have hgas : ∀ amount, call ≠ .consumeGas amount := fun amount h => hgas ⟨amount, h⟩
    rw [or_iff_left (not_refuses hgas s), State.OutOfGas, (perform_sameGas hgas hcall s).status]
    rfl

/-- A return halts the machine or leaves it running. -/
theorem Instructions.ret_keepsGas : Keeps (fun s => ¬ s.OutOfGas) ret (fun _ => True) := by
  unfold ret
  refine Keeps.reads.seq fun s hs => ?_
  split
  · exact Keeps.throws _
  · rename_i f rest _
    have hset : ¬ (s.setFrames rest).OutOfGas := hs
    refine (Keeps.writes (I := fun s => ¬ State.OutOfGas s) hset).seq fun _ _ =>
      (Keeps.result fun _ _ => trivial).seq fun _ (_ : True) => ?_
    split
    · exact Keeps.writes Status.noConfusion
    · exact Keeps.writes hs

namespace Engine

/-! ## Hosts -/

/-- No callback of the host starts the execution over, and every opcode has a behaviour of the machine. -/
structure NeverStartsOver (e : Engine) : Prop where
  /-- The service handler. -/
  interop : ∀ handler, e.interop = some handler → ∀ name, (handler name).KeepsGas
  /-- The script loader. -/
  loader : ∀ loader, e.loader = some loader →
    ∀ hash dynamic returnCount, (loader hash dynamic returnCount).KeepsGas
  /-- The table has no behaviour of the host. -/
  table : ∀ op run, e.table op ≠ .custom run

variable {e : Engine} {nested : Engine → Engine} {watch : Engine → List Moment}

/-- Another state. -/
theorem NeverStartsOver.setState (h : e.NeverStartsOver) (s : State) :
    NeverStartsOver { e with state := s } := ⟨h.interop, h.loader, h.table⟩

/-- The steps of callbacks are told moment by moment, and leave the host as it should be. -/
structure Tells (nested : Engine → Engine) (watch : Engine → List Moment) : Prop where
  /-- The moments. -/
  latched : ∀ e, e.NeverStartsOver → Latched e.state.OutOfGas (watch e) (nested e).state.OutOfGas
  /-- The host. -/
  host : ∀ e, e.NeverStartsOver → (nested e).NeverStartsOver

/-- **The moments of a callback.** -/
theorem runProgram_latched (htells : Tells nested watch) {program : HostProgram} (hp : program.KeepsGas)
    (he : e.NeverStartsOver) :
    Latched e.state.OutOfGas (program.moments nested watch e) (runProgram nested program e).2.state.OutOfGas ∧
      (runProgram nested program e).2.NeverStartsOver := by
  induction program generalizing e with
  | answer ok => exact ⟨Iff.rfl, he⟩
  | request call next ih =>
    obtain ⟨hcall, hnext⟩ := hp
    obtain ⟨hlatched, hhost⟩ := ih _ (hnext _) (he.setState (call.perform e.state).2)
    refine ⟨⟨?_, fun h => absurd h (Moment.not_starts_ofReply _ _), ?_⟩, hhost⟩
    · rw [Moment.ofReply_state]
      exact HostCall.perform_outOfGas hcall e.state
    · rw [Moment.ofReply_state]
      exact hlatched
  | inspect next ih => exact ih _ (hp _) he
  | step next ih =>
    obtain ⟨-, hnext⟩ := hp
    obtain ⟨hlatched, hhost⟩ := ih _ (hnext _) (htells.host e he)
    exact ⟨(htells.latched e he).append hlatched, hhost⟩
  | setInterop handler next _ ih =>
    obtain ⟨-, hmakes, hnext⟩ := hp
    have hput : NeverStartsOver { e with interop := some handler } := by
      refine ⟨?_, he.loader, he.table⟩
      rintro _ ⟨⟩
      exact hmakes
    exact ih hnext hput

/-! ## Instructions -/

/-- The end of a callback with the machine that it leaves, or the machine itself if there is no callback. -/
def callbackEnd (nested : Engine → Engine) (e : Engine) : Option (HostProgram × Engine) → Bool × Engine
  | none => (true, e)
  | some (program, start) => runProgram nested program start

variable {α β : Type}

/-- A computation that changes the frames of a machine only. -/
def Reframes (e : Engine) (m : Run α) : Prop := Keeps (e.StateIn (OnlyCalls e.state)) m fun _ => True

namespace Reframes

/-- The machine afterwards. -/
theorem run {m : Run α} (h : Reframes e m) : e.StateIn (OnlyCalls e.state) (m.run e).2 := (h e ⟨e.state, rfl, rfl⟩).1

/-- A computation of the state. -/
theorem onState {m : Exec α} (hm : ∀ s₀, Keeps (OnlyCalls s₀) m fun _ => True) : Reframes e (onState m) := by
  rintro _ ⟨s, rfl, hs⟩
  rw [run_onState]
  exact ⟨⟨_, rfl, (hm e.state s hs).1⟩, fun _ _ => trivial⟩

/-- A computation of the innermost frame. -/
theorem onFrame (m : FrameM α) : Reframes e (onFrame m) := onState fun _ => Exec.onFrame_onlyCalls m

/-- A computation of the innermost frame that depends on the bounds. -/
theorem onFrameWithin (m : Limits → FrameM α) : Reframes e (onFrameWithin m) :=
  Keeps.reads.seq fun _ _ => onFrame _

end Reframes

/-- The machine `t` has the gas and the table of `r`; its callbacks are those of `r` or were put back from `e`. -/
structure Resumes (e r t : Engine) : Prop where
  /-- The gas. -/
  outOfGas : t.state.OutOfGas ↔ r.state.OutOfGas
  /-- The service handler. -/
  interop : t.interop = r.interop ∨ t.interop = e.interop
  /-- The script loader. -/
  loader : t.loader = r.loader ∨ t.loader = e.loader
  /-- The table. -/
  table : t.table = r.table

variable {r t : Engine}

/-- Nothing has happened. -/
theorem Resumes.refl (e r : Engine) : Resumes e r r := ⟨Iff.rfl, Or.inl rfl, Or.inl rfl, rfl⟩

/-- What changes the frames only. -/
theorem Resumes.onlyCalls (h : Resumes e r t) {s : State} (hs : OnlyCalls t.state s) :
    Resumes e r { t with state := s } := by
  refine ⟨?_, h.interop, h.loader, h.table⟩
  rw [hs]
  exact h.outOfGas

/-- The host after a callback. -/
theorem Resumes.neverStartsOver (h : Resumes e r t) (he : e.NeverStartsOver) (hr : r.NeverStartsOver) :
    t.NeverStartsOver := by
  refine ⟨fun handler hhandler => ?_, fun loader hloader => ?_, ?_⟩
  · rcases h.interop with hfrom | hfrom <;> rw [hfrom] at hhandler
    · exact hr.interop handler hhandler
    · exact he.interop handler hhandler
  · rcases h.loader with hfrom | hfrom <;> rw [hfrom] at hloader
    · exact hr.loader loader hloader
    · exact he.loader loader hloader
  · rw [h.table]
    exact hr.table

/-- **A computation runs one callback at most**: the steps that callbacks may ask for matter to it only through the
end of the callback `c`, which it resumes. -/
structure Runs (m : (Engine → Engine) → Run α) (e : Engine) (c : Option (HostProgram × Engine)) : Prop where
  /-- The result is made from the end of the callback. -/
  factors : ∃ k : Bool × Engine → Except Fault α × Engine, ∀ nested, (m nested).run e = k (callbackEnd nested e c)
  /-- The machine goes on from there. -/
  resumes : ∀ nested, Resumes e (callbackEnd nested e c).2 ((m nested).run e).2

namespace Runs

variable {m : (Engine → Engine) → Run α} {c : Option (HostProgram × Engine)}

/-- A computation that runs no callback. -/
theorem of_none {r : Except Fault α × Engine} (h : ∀ nested, (m nested).run e = r)
    (hr : Resumes e e r.2) : Runs m e none :=
  ⟨⟨fun _ => r, h⟩, fun nested => by rw [h]; exact hr⟩

/-- A computation that makes its result from the end of a callback. -/
theorem of_some {program : HostProgram} {start : Engine} {k : Bool × Engine → Except Fault α × Engine}
    (h : ∀ nested, (m nested).run e = k (runProgram nested program start))
    (hk : ∀ r, Resumes e r.2 (k r).2) : Runs m e (some (program, start)) :=
  ⟨⟨k, h⟩, fun nested => by rw [h]; exact hk _⟩

/-- A computation that changes the frames only. -/
theorem reframes {n : Run α} (h : Reframes e n) : Runs (fun _ => n) e none := by
  obtain ⟨s, hs, hcalls⟩ := h.run
  refine of_none (fun _ => rfl) ?_
  rw [hs]
  exact (Resumes.refl e e).onlyCalls hcalls

/-- What changes the frames only afterwards. -/
theorem seq (h : Runs m e c) {k : α → Run β} (hk : ∀ a e, Reframes e (k a)) :
    Runs (fun nested => m nested >>= k) e c := by
  obtain ⟨⟨result, hresult⟩, hresumes⟩ := h
  refine ⟨⟨fun r => ((ExceptT.mk fun _ => result r : Run α) >>= k).run e, fun nested => ?_⟩, fun nested => ?_⟩
  · dsimp only
    rw [run_seq, run_seq, hresult]
    rfl
  · have hafter := hresumes nested
    rw [run_seq]
    revert hafter
    rcases (m nested).run e with ⟨f | a, t⟩
    · exact id
    · intro hafter
      obtain ⟨s, hs, hcalls⟩ := (hk a t).run
      dsimp only
      rw [hs]
      exact hafter.onlyCalls hcalls

/-- What reads operands from the innermost frame first. -/
theorem after {p : Run β} {m : β → (Engine → Engine) → Run α}
    {callback? : β → Engine → Option (HostProgram × Engine)}
    (hp : Reframes e p)
    (hm : ∀ b e, Runs (m b) e (callback? b e)) :
    Runs (fun nested => p >>= fun b => m b nested) e (callbackAfter p callback? e) := by
  obtain ⟨s, he, hs⟩ := hp.run
  have hread : Resumes e e { e with state := s } := (Resumes.refl e e).onlyCalls hs
  rcases hrun : p.run e with ⟨f | b, t⟩ <;> rw [hrun] at he <;> obtain rfl : t = { e with state := s } := he
  · have hcallback : callbackAfter p callback? e = none := by rw [callbackAfter, hrun]
    have hend : ∀ nested, (p >>= fun b => m b nested).run e = (.error f, { e with state := s }) :=
      fun nested => by rw [run_seq, hrun]
    rw [hcallback]
    exact of_none hend hread
  · have hcallback : callbackAfter p callback? e = callback? b { e with state := s } := by
      rw [callbackAfter, hrun]
    have hrest : ∀ nested, (p >>= fun b => m b nested).run e = (m b nested).run { e with state := s } :=
      fun nested => by rw [run_seq, hrun]
    obtain ⟨⟨k, hk⟩, hresumes⟩ := hm b { e with state := s }
    rw [hcallback]
    cases hc : callback? b { e with state := s } with
    | none =>
      -- Without a callback the machine has gone on from where the operands were read.
      rw [hc] at hk hresumes
      have h := hresumes id
      rw [hk] at h
      refine of_none (r := k (true, { e with state := s })) (fun nested => (hrest nested).trans (hk nested)) ?_
      exact ⟨h.outOfGas.trans hread.outOfGas, h.interop, h.loader, h.table⟩
    | some c =>
      rw [hc] at hk hresumes
      refine ⟨⟨k, fun nested => (hrest nested).trans (hk nested)⟩, fun nested => ?_⟩
      rw [hrest]
      have h := hresumes nested
      exact ⟨h.outOfGas, h.interop, h.loader, h.table⟩

end Runs

/-- What asking for a service makes of the end of the handler, which is put back unless there is another one. -/
def serviceResult (name : Bytes) (handler : InteropHandler) (r : Bool × Engine) : Except Fault Unit × Engine :=
  (if !r.1 then .error (.serviceFailed (Utf8.lossyText name)) else .ok (),
    if r.2.interop.isNone then { r.2 with interop := some handler } else r.2)

/-- **Asking for a service** runs the handler for it. -/
theorem invokeInterop_runs (name : Bytes) (e : Engine) :
    Runs (invokeInterop · name) e (serviceCallback? name e) := by
  cases hinterop : e.interop with
  | none =>
    have hend : ∀ nested, (invokeInterop nested name).run e = (.error (.noInterop (Utf8.lossyText name)), e) := by
      intro nested
      unfold invokeInterop
      rw [run_get_seq, hinterop]
      rfl
    rw [serviceCallback?, hinterop]
    exact .of_none hend (Resumes.refl e e)
  | some handler =>
    have hend : ∀ nested, (invokeInterop nested name).run e =
        serviceResult name handler (runProgram nested (handler name) { e with interop := none }) := by
      intro nested
      unfold invokeInterop serviceResult
      rw [run_get_seq, hinterop]
      dsimp only
      rcases runProgram nested (handler name) { e with interop := none } with ⟨_ | _, t⟩ <;> rfl
    rw [serviceCallback?, hinterop]
    refine .of_some hend fun r => ?_
    unfold serviceResult
    dsimp only
    split
    · exact ⟨Iff.rfl, Or.inr hinterop.symm, Or.inl rfl, rfl⟩
    · exact Resumes.refl e _

/-- What pushing a frame for a script makes of the end of the loader, which has to leave `depth + 1` frames. -/
def loaderResult (hash : Bytes) (depth : Nat) (loader : ScriptLoader) (r : Bool × Engine) :
    Except Fault Unit × Engine :=
  let after := r.2.state.frames.length
  (if !r.1 then .error (.notLoaded hash)
    else if after != depth + 1 then .error (.loadedFrames hash ((after : Int) - depth))
    else .ok (),
    if r.2.loader.isNone then { r.2 with loader := some loader } else r.2)

/-- **Pushing a frame for a script** runs the loader if the script is not loaded. -/
theorem loadByHash_runs (hash : Bytes) (dynamic : Bool) (returnCount : Int) (e : Engine) :
    Runs (loadByHash · hash dynamic returnCount) e (loaderCallback? hash dynamic returnCount e) := by
  cases hindex : e.state.scriptIndex? hash with
  | some index =>
    have hend : ∀ nested, (loadByHash nested hash dynamic returnCount).run e =
        ((e.state.loadCached index returnCount).1,
          { e with state := (e.state.loadCached index returnCount).2 }) := by
      intro nested
      unfold loadByHash
      rw [run_get_seq, hindex]
      dsimp only
      rcases e.state.loadCached index returnCount with ⟨_ | _, t⟩ <;> rfl
    have hsame := ((WithFrames.refl e.state).loaded.loadCached index returnCount).sameGas
    rw [loaderCallback?, hindex]
    refine .of_none hend ⟨?_, Or.inl rfl, Or.inl rfl, rfl⟩
    rw [State.OutOfGas, hsame.status]
    rfl
  | none =>
    cases hloader : e.loader with
    | none =>
      have hend : ∀ nested, (loadByHash nested hash dynamic returnCount).run e = (.error .noLoader, e) := by
        intro nested
        unfold loadByHash
        rw [run_get_seq, hindex, hloader]
        rfl
      rw [loaderCallback?, hindex, hloader]
      exact .of_none hend (Resumes.refl e e)
    | some loader =>
      have hend : ∀ nested, (loadByHash nested hash dynamic returnCount).run e =
          loaderResult hash e.state.frames.length loader
            (runProgram nested (loader hash dynamic returnCount) { e with loader := none }) := by
        intro nested
        unfold loadByHash loaderResult
        rw [run_get_seq, hindex, hloader]
        dsimp only
        rcases runProgram nested (loader hash dynamic returnCount) { e with loader := none } with ⟨_ | _, t⟩
        · rfl
        · -- The frames are counted after the loader was put back.
          show (ExceptT.run (if t.state.frames.length != e.state.frames.length + 1 then _ else _ : Run Unit) _) = _
          dsimp only
          cases (t.state.frames.length != e.state.frames.length + 1) <;> rfl
      rw [loaderCallback?, hindex, hloader]
      refine .of_some hend fun r => ?_
      unfold loaderResult
      dsimp only
      split
      · exact ⟨Iff.rfl, Or.inl rfl, Or.inr hloader.symm, rfl⟩
      · exact Resumes.refl e _

/-- The end of a call by hash: arguments are moved, and a tail call takes out its caller. -/
theorem moveArguments_reframes (count : Option Nat) (tail : Prop) [Decidable tail] (e : Engine) :
    Reframes e (do
      onState (Instructions.moveArguments count)
      if tail then onState Instructions.dropCaller) := by
  refine Keeps.seq (Reframes.onState fun _ => Instructions.moveArguments_onlyCalls count) fun _ _ => ?_
  exact Keeps.branch (fun _ => Reframes.onState fun _ => Instructions.dropCaller_onlyCalls)
    fun _ => Keeps.returns trivial

/-- A call by hash runs the loader, if the script is not loaded. -/
theorem appCall_runs (i : Instruction) (e : Engine) :
    Runs (appCall · i) e
      (callbackAfter (onFrame callOperands) (fun (hash, dynamic) => loaderCallback? hash dynamic returnAll) e) := by
  unfold appCall
  refine Runs.after (Reframes.onFrame callOperands) fun (hash, dynamic) e => ?_
  exact (loadByHash_runs hash dynamic returnAll e).seq fun _ => moveArguments_reframes none _

/-- A call by hash with announced counts runs the loader, if the script is not loaded. -/
theorem callExternal_runs (i : Instruction) (e : Engine) :
    let dynamic := i.op = .callED || i.op = .callEDT
    let tail := i.op = .callET || i.op = .callEDT
    Runs (callExternal · i) e (callbackAfter (onFrame (externalOperands dynamic tail))
      (fun (hash, returnCount, _) => loaderCallback? hash dynamic returnCount) e) := by
  intro dynamic tail
  unfold callExternal
  refine Runs.after (Reframes.onFrame (externalOperands dynamic tail)) fun (hash, returnCount, parameterCount) e => ?_
  exact (loadByHash_runs hash dynamic returnCount e).seq fun _ => moveArguments_reframes (some parameterCount) _

/-- **An opcode runs one callback at most**, the one that `callback?` tells, and does nothing else to the gas. -/
theorem perform_runs (hrun : e.status = .running) (op : OpCode) (i : Instruction) :
    Runs (perform · op i) e (callback? op i e) := by
  by_cases hop : op.Transfers
  swap
  · -- An opcode that does not transfer control changes the objects, the frames and the journal.
    obtain ⟨t, ht, hchange⟩ := perform_changes id hop i e
    have hfixed : ∀ nested, (perform nested op i).run e = (perform id op i).run e := by
      intro nested
      cases op <;> first | exact absurd trivial hop | rfl
    have hnone : callback? op i e = none := by
      cases op <;> first | exact absurd trivial hop | rfl
    rw [hnone]
    refine .of_none hfixed ?_
    rw [ht]
    refine ⟨?_, Or.inl rfl, Or.inl rfl, rfl⟩
    rw [State.OutOfGas, hchange.ambient]
    rfl
  · cases op with
    | call => exact .reframes (Reframes.onState fun _ => Instructions.call_onlyCalls i)
    | callI => exact .reframes (Reframes.onState fun _ => Instructions.callIsolated_onlyCalls i)
    | ret =>
      have hnot : ¬ e.state.OutOfGas := fun h => by cases hrun.symm.trans h
      have hret : Runs (fun _ => onState Instructions.ret) e none := by
        refine .of_none (fun _ => run_onState _ e) ⟨iff_of_false ?_ hnot, Or.inl rfl, Or.inl rfl, rfl⟩
        exact (Instructions.ret_keepsGas e.state hnot).1
      exact hret
    | appCall | tailCall => exact appCall_runs i e
    | sysCall => exact Runs.after (Reframes.onFrameWithin _) invokeInterop_runs
    | callE | callED | callET | callEDT => exact callExternal_runs i e
    | _ => exact hop.elim

/-- **An instruction runs one callback at most**, by the behaviour that the table gives to its opcode. -/
theorem dispatch_runs (he : e.NeverStartsOver) (hrun : e.status = .running) (i : Instruction) :
    Runs (dispatch · i) e (tableCallback? i e) := by
  unfold tableCallback?
  cases hbehaviour : e.table i.op with
  | standard op =>
    have hdispatch : ∀ nested, (dispatch nested i).run e = (perform nested op i).run e := by
      intro nested
      unfold dispatch
      rw [run_get_seq, hbehaviour]
    obtain ⟨⟨k, hk⟩, hresumes⟩ := perform_runs hrun op i
    refine ⟨⟨k, fun nested => (hdispatch nested).trans (hk nested)⟩, fun nested => ?_⟩
    rw [hdispatch]
    exact hresumes nested
  | invalid =>
    have hdispatch : ∀ nested, (dispatch nested i).run e = (.error (.unhandledOpcode i.op i.position), e) := by
      intro nested
      unfold dispatch
      rw [run_get_seq, hbehaviour]
      rfl
    exact .of_none hdispatch (Resumes.refl e e)
  | custom run => exact absurd hbehaviour (he.table i.op run)

/-- A callback of the host, with a machine from which it may run: the host is as it should be, and the gas is that of
the machine `e`. -/
structure Hosts (e : Engine) (c : HostProgram × Engine) : Prop where
  /-- The callback does not start the execution over. -/
  program : c.1.KeepsGas
  /-- The host. -/
  host : c.2.NeverStartsOver
  /-- The gas. -/
  outOfGas : c.2.state.OutOfGas ↔ e.state.OutOfGas

/-- The handler of a service. -/
theorem serviceCallback?_hosts (he : e.NeverStartsOver) {name : Bytes} {c : HostProgram × Engine}
    (h : serviceCallback? name e = some c) : Hosts e c := by
  obtain ⟨handler, hhandler, rfl⟩ := Option.map_eq_some_iff.1 h
  exact ⟨he.interop handler hhandler name, ⟨fun _ h => (by cases h), he.loader, he.table⟩, Iff.rfl⟩

/-- The loader of a script. -/
theorem loaderCallback?_hosts (he : e.NeverStartsOver) {hash : Bytes} {dynamic : Bool} {returnCount : Int}
    {c : HostProgram × Engine} (h : loaderCallback? hash dynamic returnCount e = some c) : Hosts e c := by
  unfold loaderCallback? at h
  split at h
  · cases h
  · obtain ⟨loader, hloader, rfl⟩ := Option.map_eq_some_iff.1 h
    exact ⟨he.loader loader hloader hash dynamic returnCount, ⟨he.interop, fun _ h => (by cases h), he.table⟩,
      Iff.rfl⟩

/-- A callback after operands were read. -/
theorem callbackAfter_hosts (he : e.NeverStartsOver) {m : Run α} (hm : Reframes e m)
    {next : α → Engine → Option (HostProgram × Engine)}
    (hnext : ∀ a e, e.NeverStartsOver → ∀ c, next a e = some c → Hosts e c)
    {c : HostProgram × Engine} (h : callbackAfter m next e = some c) : Hosts e c := by
  obtain ⟨s, hs, hcalls⟩ := hm.run
  unfold callbackAfter at h
  revert hs h
  rcases m.run e with ⟨_ | a, t⟩
  · exact fun h _ => by cases h
  · rintro h rfl
    obtain ⟨hprogram, hhost, hgas⟩ := hnext a _ (he.setState s) c h
    refine ⟨hprogram, hhost, hgas.trans ?_⟩
    rw [hcalls]
    rfl

/-- **The callback of an instruction is one of the host**, and starts from the gas with which the instruction
starts. -/
theorem tableCallback?_hosts (he : e.NeverStartsOver) {i : Instruction} {c : HostProgram × Engine}
    (h : tableCallback? i e = some c) : Hosts e c := by
  unfold tableCallback? at h
  split at h
  · rename_i op _
    unfold callback? at h
    cases op with
    | sysCall =>
      exact callbackAfter_hosts he (Reframes.onFrameWithin _) (fun _ _ he _ => serviceCallback?_hosts he) h
    | appCall | tailCall | callE | callED | callET | callEDT =>
      exact callbackAfter_hosts he (Reframes.onFrame _) (fun _ _ he _ => loaderCallback?_hosts he) h
    | _ => cases h
  · cases h

/-- **The moments of an instruction.** -/
theorem instructionMoments_latched (htells : Tells nested watch) (he : e.NeverStartsOver)
    (hrun : e.status = .running) (i : Instruction) :
    Latched e.state.OutOfGas (instructionMoments nested watch i e)
        ((dispatch nested i).run e).2.state.OutOfGas ∧
      ((dispatch nested i).run e).2.NeverStartsOver := by
  have hnot : ¬ e.state.OutOfGas := fun h => by cases hrun.symm.trans h
  have hresumes := (dispatch_runs he hrun i).resumes nested
  -- The moments of the callback lead to the gas with which the instruction goes on.
  have hcallback : Latched e.state.OutOfGas
      ((tableCallback? i e).elim [] fun (program, start) => program.moments nested watch start)
      (callbackEnd nested e (tableCallback? i e)).2.state.OutOfGas ∧
      (callbackEnd nested e (tableCallback? i e)).2.NeverStartsOver := by
    cases hc : tableCallback? i e with
    | none => exact ⟨Iff.rfl, he⟩
    | some c =>
      obtain ⟨hprogram, hhost, hgas⟩ := tableCallback?_hosts he hc
      have h := runProgram_latched htells hprogram hhost
      rw [propext hgas] at h
      exact h
  refine ⟨⟨(or_iff_left id).symm, fun _ => hnot, ?_⟩, hresumes.neverStartsOver he hcallback.2⟩
  exact hcallback.1.append (.passes hresumes.outOfGas)

/-! ## Steps -/

/-- The checks at the end of a step have nothing to do with gas. -/
theorem settle_outOfGas (s : State) : (settle s).OutOfGas ↔ s.OutOfGas := by
  unfold settle
  by_cases hrun : s.session.status.isRunning = true
  · rw [if_pos hrun]
    have hnot : ¬ s.OutOfGas := fun h => by
      rw [show s.session.status = .outOfGas from h] at hrun
      cases hrun
    dsimp only
    split
    · exact iff_of_false Status.noConfusion hnot
    · split
      · exact iff_of_false Status.noConfusion hnot
      · exact Iff.rfl
  · rw [if_neg hrun]

/-- A failed step leaves a machine out of gas if it was. -/
theorem fail_outOfGas (s : State) (cause : Fault) : (fail s cause).OutOfGas ↔ s.OutOfGas := by
  unfold State.OutOfGas
  rw [fail_status]
  split
  · rename_i hrun
    rw [hrun]
    exact iff_of_false Status.noConfusion Status.noConfusion
  · rfl

/-- **The moments of the next instruction.** -/
theorem nextMoments_latched (htells : Tells nested watch) (he : e.NeverStartsOver) (hrun : e.status = .running) :
    Latched e.state.OutOfGas (nextMoments nested watch e) (executeNext nested e).2.state.OutOfGas ∧
      (executeNext nested e).2.NeverStartsOver := by
  have hnot : ¬ e.state.OutOfGas := fun h => by cases hrun.symm.trans h
  unfold nextMoments
  cases hframes : e.state.frames with
  | nil =>
    have hnone : executeNext nested e = (.error .noCurrentFrame, e) := by
      unfold executeNext
      rw [hframes]
    rw [hnone]
    exact ⟨Iff.rfl, he⟩
  | cons f outer =>
    rw [executeNext_cons nested hframes]
    dsimp only
    obtain ⟨event, hpay⟩ | ⟨total, -, -, hpay⟩ := e.state.consumeGas_cases (e.state.nextPrice f)
    · -- The price is refused.
      rw [hpay]
      exact ⟨⟨iff_of_true rfl (Or.inr rfl), False.elim, Iff.rfl⟩, he.setState _⟩
    · rw [hpay]
      dsimp only
      have hgranted : ({ e.state with session := { e.state.session with gasConsumed := total } } : State).OutOfGas ↔
          e.state.OutOfGas ∨ (Moment.gas true e.state).Refuses := (or_iff_left Bool.noConfusion).symm
      cases hfetch : fetch f with
      | error byte => exact ⟨⟨hgranted, False.elim, Iff.rfl⟩, he.setState _⟩
      | ok op =>
        dsimp only
        obtain ⟨hlatched, hhost⟩ := instructionMoments_latched (i := ⟨op, f.cursor⟩) htells
          (he.setState (({ e.state with session := { e.state.session with gasConsumed := total } } : State).setFrames
            (f.advance :: outer))) hrun
        unfold carryOut
        revert hlatched hhost
        rcases (dispatch nested ⟨op, f.cursor⟩).run _ with ⟨_ | _, t⟩
        · exact fun hlatched hhost => ⟨⟨hgranted, False.elim, hlatched⟩, hhost.setState _⟩
        · exact fun hlatched hhost => ⟨⟨hgranted, False.elim, hlatched⟩, hhost⟩

/-- **The moments of a step.** -/
theorem momentsWith_latched (htells : Tells nested watch) : Tells (stepWith nested) (momentsWith nested watch) := by
  have hboth : ∀ e, e.NeverStartsOver →
      Latched e.state.OutOfGas (momentsWith nested watch e) (stepWith nested e).state.OutOfGas ∧
        (stepWith nested e).NeverStartsOver := by
    intro e he
    unfold momentsWith
    by_cases hrun : e.status = .running
    swap
    · have hfinal : e.status.isFinal = true := by
        cases hstatus : e.status <;> first | exact absurd hstatus hrun | rfl
      rw [stepWith_final nested hrun, if_pos hfinal]
      exact ⟨Iff.rfl, he⟩
    rw [if_neg (by rw [hrun]; decide)]
    obtain ⟨hlatched, hhost⟩ := nextMoments_latched htells he hrun
    cases hframes : e.state.frames with
    | nil =>
      have hnot : ¬ e.state.OutOfGas := fun h => by cases hrun.symm.trans h
      have hnone : nextMoments nested watch e = [] := by rw [nextMoments, hframes]
      rw [stepWith_nil nested hrun hframes, hnone]
      exact ⟨.passes (iff_of_false Status.noConfusion hnot), he.setState _⟩
    | cons f outer =>
      rw [stepWith_cons nested hrun hframes]
      revert hlatched hhost
      rcases executeNext nested e with ⟨cause | _, t⟩
      · exact fun hlatched hhost => ⟨hlatched.append (.passes (fail_outOfGas t.state cause)), hhost.setState _⟩
      · exact fun hlatched hhost => ⟨hlatched.append (.passes (settle_outOfGas t.state)), hhost.setState _⟩
  exact ⟨fun e he => (hboth e he).1, fun e he => (hboth e he).2⟩

/-- **The moments of a step, however deep its callbacks are nested.** -/
theorem momentsAt_latched (level : Nat) : Tells (stepAt level) (momentsAt level) := by
  induction level with
  | zero => exact momentsWith_latched ⟨fun _ _ => Iff.rfl, fun _ h => h⟩
  | succ level ih => exact momentsWith_latched ih

/-! ## Sessions -/

/-- The moments of many steps. -/
theorem stepsMoments_latched (he : e.NeverStartsOver) (n : Nat) :
    Latched e.state.OutOfGas (stepsMoments n e) (steps n e).state.OutOfGas ∧ (steps n e).NeverStartsOver := by
  have htells := momentsAt_latched nestingLimit
  induction n generalizing e with
  | zero => exact ⟨Iff.rfl, he⟩
  | succ n ih =>
    obtain ⟨hlatched, hhost⟩ := ih (htells.host e he)
    exact ⟨(htells.latched e he).append hlatched, hhost⟩

/-- The moments of a session. -/
theorem sessionMoments_latched (he : e.NeverStartsOver) (drives : List Drive) :
    Latched e.state.OutOfGas (e.sessionMoments drives) (e.session drives).state.OutOfGas := by
  induction drives generalizing e with
  | nil => exact Iff.rfl
  | cons drive drives ih =>
    have hdrive : Latched e.state.OutOfGas (drive.moments e) (drive.run e).state.OutOfGas ∧
        (drive.run e).NeverStartsOver := by
      cases drive with
      | step =>
        have htells := momentsAt_latched nestingLimit
        exact ⟨htells.latched e he, htells.host e he⟩
      | execute gasLimit =>
        have hrun : e.execute gasLimit = steps _ (e.modifyState (·.setGasLimit gasLimit)) :=
          stepWhile_true _ _
        show Latched _ _ (e.execute gasLimit).state.OutOfGas ∧ (e.execute gasLimit).NeverStartsOver
        rw [hrun]
        exact stepsMoments_latched (he.setState (e.state.setGasLimit gasLimit)) _
    exact hdrive.1.append (ih hdrive.2)

/-- **Gas exhaustion is never masked.** In a session of steps and runs, with a host whose callbacks do not start the
execution over, the machine is out of gas at a moment if and only if gas was refused at that moment or before, to
the machine or to a callback at any depth; and an instruction starts only if gas was never refused before. The same
is true of the machine that the session leaves. -/
theorem gas_exhaustion_lasts (hhost : e.NeverStartsOver) (hstart : e.status ≠ .outOfGas) (drives : List Drive) :
    (∀ before m after, e.sessionMoments drives = before ++ m :: after →
      (m.state.session.status = .outOfGas ↔ ∃ r ∈ before ++ [m], r.Refuses) ∧
      (m.Starts → ∀ r ∈ before, ¬ r.Refuses)) ∧
    ((e.session drives).status = .outOfGas ↔ ∃ r ∈ e.sessionMoments drives, r.Refuses) := by
  have hlatched := sessionMoments_latched hhost drives
  have hnot : ¬ e.state.OutOfGas := hstart
  refine ⟨fun before m after hms => ?_, hlatched.at_the_end.trans (or_iff_right hnot)⟩
  obtain ⟨hstate, hstarts⟩ := hlatched.at_every_moment hms
  exact ⟨hstate.trans (or_iff_right hnot), fun hm => (hstarts hm).2⟩

/-- A handler that asks for too much gas, ignores the refusal, lets the machine make a step and reports success. -/
theorem gas_exhaustion_lasts_ignored :
    let digests : CryptoSuite :=
      { sha1 := fun _ => #[], sha256 := fun _ => #[], hash160 := fun _ => #[], hash256 := fun _ => #[]
        verify := fun _ _ _ => false }
    let e : Engine :=
      { state := ((State.new .default digests).loadScript #[0x68, 1, 0x61, 0x51] returnAll).2
        interop := some fun _ => .request (.consumeGas 100) fun _ => .step fun _ => .answer true }
    let drives : List Drive := [.execute 50, .step]
    (e.NeverStartsOver ∧ e.status ≠ .outOfGas ∧ ∃ r ∈ e.sessionMoments drives, r.Refuses) ∧
    (e.session drives).status = .outOfGas ∧
    ∀ before m after, e.sessionMoments drives = before ++ m :: after → m.Starts → ∀ r ∈ before, ¬ r.Refuses := by
  intro digests e drives
  have hhost : e.NeverStartsOver := by
    refine ⟨?_, fun _ h => (by cases h), fun _ _ h => (by cases h)⟩
    rintro _ ⟨⟩ name
    exact ⟨fun _ h => (by cases h), fun _ => ⟨trivial, fun _ => trivial⟩⟩
  have hstart : e.status ≠ .outOfGas := by decide +kernel
  have hrefused : ∃ r ∈ e.sessionMoments drives, r.Refuses := by decide +kernel
  obtain ⟨hmoments, hend⟩ := gas_exhaustion_lasts hhost hstart drives
  exact ⟨⟨hhost, hstart, hrefused⟩, hend.2 hrefused, fun before m after hms => (hmoments before m after hms).2⟩

end Engine

end ScriptMachine
