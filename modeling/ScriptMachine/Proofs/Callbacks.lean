import ScriptMachine.Proofs.Keeps

/-! # Callbacks that make only some requests

What a host does to a machine is bounded by the requests that its callbacks make. `HostProgram.Makes` says
of a callback which these are, along every path of answers; what each of them keeps, the whole callback
keeps.

* `HostProgram.Makes`: the requests of a callback.
* `HostCall.IsLoad`, `HostProgram.LoadsOnly`: callbacks that only load scripts.
* `Engine.runProgram_keeps`: an invariant of a callback, by induction on its paths.
-/

namespace ScriptMachine

/-- The callback makes only requests of the given kind. If it is `free`, it may also step the machine
and put in handlers that again make only such requests. -/
def HostProgram.Makes (allowed : HostCall → Prop) (free : Prop) : HostProgram → Prop
  | .answer _ => True
  | .request call next => allowed call ∧ ∀ reply, (next reply).Makes allowed free
  | .inspect next => ∀ s, (next s).Makes allowed free
  | .step next => free ∧ ∀ status, (next status).Makes allowed free
  | .setInterop handler next =>
    free ∧ (∀ name, (handler name).Makes allowed free) ∧ next.Makes allowed free

/-- The requests of a script loader. Notes in the journal are no business of the machine. -/
def HostCall.IsLoad : HostCall → Prop
  | .loadScript _ _ => True
  | .note _ => True
  | _ => False

/-- The request does not end the execution. -/
def HostCall.GoesOn (call : HostCall) : Prop := ∀ iteration, call ≠ .clean iteration

/-- The callback only loads scripts. -/
def HostProgram.LoadsOnly (program : HostProgram) : Prop := program.Makes HostCall.IsLoad False

/-- The loader of the engine, if there is one, only loads scripts. -/
def Engine.LoaderLoadsOnly (e : Engine) : Prop :=
  ∀ loader, e.loader = some loader →
    ∀ hash dynamic returnCount, (loader hash dynamic returnCount).LoadsOnly

/-- **A callback keeps what each of its requests keeps.** -/
theorem Engine.runProgram_keeps {allowed : HostCall → Prop} {free : Prop} {I : Engine → Prop}
    {nested : Engine → Engine}
    (hcall : ∀ call e, allowed call → I e → I { e with state := (call.perform e.state).2 })
    (hstep : free → ∀ e, I e → I (nested e))
    (hhandler : free → ∀ (handler : InteropHandler) e,
      (∀ name, (handler name).Makes allowed free) → I e → I { e with interop := some handler })
    {program : HostProgram} (hp : program.Makes allowed free) {e : Engine} (he : I e) :
    I (runProgram nested program e).2 := by
  -- The engine changes with every request, and the rest of the callback goes on from there.
  induction program generalizing e with
  | answer ok => exact he
  | request call next ih =>
    obtain ⟨hallowed, hnext⟩ := hp
    exact ih _ (hnext _) (hcall call e hallowed he)
  | inspect next ih => exact ih _ (hp _) he
  | step next ih =>
    obtain ⟨hfree, hnext⟩ := hp
    exact ih _ (hnext _) (hstep hfree e he)
  | setInterop handler next _ ih =>
    obtain ⟨hfree, hmakes, hnext⟩ := hp
    exact ih hnext (hhandler hfree handler e hmakes he)

end ScriptMachine
