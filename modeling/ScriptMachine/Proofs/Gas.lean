import ScriptMachine.Proofs.Hosted

/-! # Gas bounds every run

Scripts jump backwards and call themselves, so that nothing in them bounds a run. Gas does: every step that
leaves the machine running has paid at least one unit, the consumed gas never decreases and never exceeds
the limit, and the gas that is left is a measure of the steps that remain.

* `GasFrom`: the limit, and the gas consumed since some moment.
* `Engine.CallbacksKeepGas`: hosts that neither start over nor lower the consumed gas.
* `GasFrom.stepInvariant`: instructions take no gas of their own.
* `Engine.stepAt_gasKept`: what a step with all its callbacks keeps.
* `Engine.step_pays`: a step that leaves the machine running has paid.
* `Engine.gas_bounds_runs`: runs end within the budget.
-/

namespace ScriptMachine

/-- The gas limit is the budget, at least `start` gas was consumed, and not more than the budget if `start`
was not. -/
structure GasFrom (budget start : Nat) (s : State) : Prop where
  /-- The limit. -/
  limit : s.session.gasLimit = budget
  /-- The consumed gas has not decreased. -/
  since : start ≤ s.session.gasConsumed
  /-- The consumed gas has not exceeded the budget. -/
  within : start ≤ budget → s.session.gasConsumed ≤ budget

variable {budget start : Nat} {s : State}

/-- A state with the same gas. -/
theorem GasFrom.congr {t : State} (h : GasFrom budget start s)
    (hlimit : t.session.gasLimit = s.session.gasLimit)
    (hconsumed : t.session.gasConsumed = s.session.gasConsumed) : GasFrom budget start t := by
  refine ⟨hlimit.trans h.limit, ?_, fun hle => ?_⟩
  · rw [hconsumed]
    exact h.since
  · rw [hconsumed]
    exact h.within hle

/-- A sum that is within a budget below the greatest number was not cut off there. -/
theorem min_maxUInt64_eq {total : Nat} (hle : Nat.min total maxUInt64 ≤ budget)
    (hbudget : budget < maxUInt64) : Nat.min total maxUInt64 = total := by
  have hle' : min total maxUInt64 ≤ budget := hle
  show min total maxUInt64 = total
  omega

/-- Consuming gas, granted or refused. -/
theorem GasFrom.consumeGas (hbudget : budget < maxUInt64) (h : GasFrom budget start s) (amount : Nat) :
    GasFrom budget start (s.consumeGas amount).2 := by
  obtain ⟨event, hpay⟩ | ⟨total, rfl, hle, hpay⟩ := s.consumeGas_cases amount
  · rw [hpay]
    exact h.congr rfl rfl
  · -- Consumed gas stops at the greatest number, which only a greatest limit would let pass.
    rw [h.limit] at hle
    rw [hpay, min_maxUInt64_eq hle hbudget]
    rw [min_maxUInt64_eq hle hbudget] at hle
    exact ⟨h.limit, Nat.le_trans h.since (Nat.le_add_right _ _), fun _ => hle⟩

/-! ## Hosts -/

/-- The callback never starts the execution over. Consumed gas is lowered by nothing else. -/
def HostProgram.KeepsGas (program : HostProgram) : Prop := program.Makes HostCall.GoesOn True

/-- No callback starts the execution over, and the behaviours that the host supplies only consume gas,
within the limit. -/
structure Engine.CallbacksKeepGas (e : Engine) : Prop where
  /-- The service handler. -/
  interop : ∀ handler, e.interop = some handler → ∀ name, (handler name).KeepsGas
  /-- The script loader. -/
  loader : ∀ loader, e.loader = some loader →
    ∀ hash dynamic returnCount, (loader hash dynamic returnCount).KeepsGas
  /-- The behaviours of opcodes. -/
  table : ∀ op run, e.table op = .custom run →
    ∀ i budget start, budget < maxUInt64 → Keeps (GasFrom budget start) (run i) (fun _ => True)

/-- The status and the gas are the same. -/
structure SameGas (s t : State) : Prop where
  /-- The status. -/
  status : t.session.status = s.session.status
  /-- The limit. -/
  limit : t.session.gasLimit = s.session.gasLimit
  /-- The consumed gas. -/
  consumed : t.session.gasConsumed = s.session.gasConsumed

/-- Loading a script takes no gas. -/
theorem Loaded.sameGas {s₀ : State} {fs : List Frame} (h : Loaded s₀ fs s) : SameGas s₀ s := by
  obtain ⟨pushed, hs, -⟩ := h
  rw [hs]
  exact ⟨rfl, rfl, rfl⟩

/-- **A request that neither asks for gas nor starts over** leaves the status and the gas alone. -/
theorem HostCall.perform_sameGas {call : HostCall} (hgas : ∀ amount, call ≠ .consumeGas amount)
    (hcall : call.GoesOn) (s : State) : SameGas s (call.perform s).2 := by
  have hsame : SameGas s s := ⟨rfl, rfl, rfl⟩
  cases call with
  | consumeGas amount => exact absurd rfl (hgas amount)
  | loadScript body returnCount =>
    rw [perform_loadScript]
    exact ((WithFrames.refl s).loaded.loadScript body returnCount).sameGas
  | loadCached index returnCount =>
    rw [perform_loadCached]
    exact ((WithFrames.refl s).loaded.loadCached index returnCount).sameGas
  | push x =>
    dsimp only [perform]
    cases s.frames <;> exact ⟨rfl, rfl, rfl⟩
  | pop =>
    dsimp only [perform]
    cases s.frames with
    | nil => exact hsame
    | cons f rest =>
      dsimp only
      rcases f.eval.pop with _ | ⟨x, eval⟩ <;> exact ⟨rfl, rfl, rfl⟩
  | append container x =>
    dsimp only [perform]
    cases container.listCell? <;> exact ⟨rfl, rfl, rfl⟩
  | clean iteration => exact absurd rfl (hcall iteration)
  | _ => exact ⟨rfl, rfl, rfl⟩

/-- **A request that does not start over keeps the gas.** -/
theorem HostCall.perform_gasFrom (hbudget : budget < maxUInt64) {call : HostCall} (hcall : call.GoesOn)
    (h : GasFrom budget start s) : GasFrom budget start (call.perform s).2 := by
  by_cases hgas : ∃ amount, call = .consumeGas amount
  · obtain ⟨amount, rfl⟩ := hgas
    exact h.consumeGas hbudget amount
  · have hsame := perform_sameGas (fun amount h => hgas ⟨amount, h⟩) hcall s
    exact h.congr hsame.limit hsame.consumed

/-! ## Instructions -/

/-- What changes the frames only takes no gas. -/
theorem Keeps.gasFrom {α : Type} {m : Exec α} (hm : ∀ s₀, Keeps (OnlyCalls s₀) m (fun _ => True)) :
    Keeps (GasFrom budget start) m (fun _ => True) := by
  intro s hs
  rw [(hm s s rfl).1]
  exact ⟨hs.congr rfl rfl, fun _ _ => trivial⟩

/-- A return takes no gas of its own. -/
theorem Instructions.ret_gasFrom : Keeps (GasFrom budget start) ret (fun _ => True) := by
  unfold ret
  refine Keeps.reads.seq fun s hs => ?_
  split
  · exact Keeps.throws _
  · rename_i f rest _
    have hset : ∀ frames, GasFrom budget start (s.setFrames frames) := fun _ => hs.congr rfl rfl
    refine (Keeps.writes (hset rest)).seq fun _ _ =>
      (Keeps.result fun _ _ => trivial).seq fun _ (_ : True) => ?_
    split
    · exact Keeps.writes (hs.congr rfl rfl)
    · exact Keeps.writes (hs.congr rfl rfl)

/-- **The gas is kept by every instruction and every request that does not start over.** -/
theorem GasFrom.stepInvariant (hbudget : budget < maxUInt64) :
    StepInvariant HostCall.GoesOn (GasFrom budget start) where
  request call s hcall hs := HostCall.perform_gasFrom hbudget hcall hs
  change s t hchange hs := by
    rw [hchange.ambient]
    exact hs.congr rfl rfl
  loadCached s index returnCount hs := by
    have hsame := ((WithFrames.refl s).loaded.loadCached index returnCount).sameGas
    exact hs.congr hsame.limit hsame.consumed
  call i := Keeps.gasFrom fun _ => Instructions.call_onlyCalls i
  callIsolated i := Keeps.gasFrom fun _ => Instructions.callIsolated_onlyCalls i
  ret := Instructions.ret_gasFrom
  moveArguments count := Keeps.gasFrom fun _ => Instructions.moveArguments_onlyCalls count
  dropCaller := Keeps.gasFrom fun _ => Instructions.dropCaller_onlyCalls
  charge s f outer price total _ _ htotal hle hs := by
    subst htotal
    rw [hs.limit] at hle
    have hexact := min_maxUInt64_eq hle hbudget
    rw [hexact] at hle ⊢
    exact ⟨hs.limit, Nat.le_trans hs.since (Nat.le_add_right _ _), fun _ => hle⟩
  sameData s t hst hs := by
    rw [hst]
    exact hs.congr rfl rfl

/-! ## Steps and their callbacks -/

namespace Engine

/-- The gas of the engine, under a host whose callbacks keep it. -/
structure GasKept (budget start : Nat) (e : Engine) : Prop where
  /-- The gas. -/
  gas : GasFrom budget start e.state
  /-- The host. -/
  host : e.CallbacksKeepGas

variable {e : Engine}

/-- The host as one that makes only requests that do not start over. -/
theorem CallbacksKeepGas.hosted (hhost : e.CallbacksKeepGas) (hgas : GasFrom budget start e.state) :
    e.Hosted HostCall.GoesOn (GasFrom budget start) e.table := ⟨hgas, hhost.interop, hhost.loader, rfl⟩

/-- **A step keeps the gas however deep its callbacks are nested.** -/
theorem stepAt_gasKept (hbudget : budget < maxUInt64) (level : Nat) (he : GasKept budget start e) :
    GasKept budget start (stepAt level e) := by
  have hkept := (GasFrom.stepInvariant hbudget).stepAt
    (fun op run hcustom i => he.host.table op run hcustom i budget start hbudget) level (he.host.hosted he.gas)
  refine ⟨hkept.state, hkept.interop, hkept.loader, ?_⟩
  rw [hkept.table]
  exact he.host.table

/-- **An instruction is paid for**: either its price is refused and the machine is out of gas, or the price,
which is at least one, has been added within the budget. -/
theorem executeNext_gasFrom (hbudget : budget < maxUInt64) (level : Nat) {f : Frame} {outer : List Frame}
    (hframes : e.state.frames = f :: outer) (hlimit : e.state.session.gasLimit = budget)
    (hhost : e.CallbacksKeepGas) (hstart : start ≤ e.state.session.gasConsumed + 1) :
    (∃ event, executeNext (stepAt level) e =
      (.ok (), { e with state := (e.state.record event).setStatus .outOfGas })) ∨
    e.state.session.gasConsumed < budget ∧
      (executeNext (stepAt level) e).2.Hosted HostCall.GoesOn (GasFrom budget start) e.table := by
  obtain hrefused | ⟨price, total, hprice, rfl, hle, hnext⟩ := executeNext_cases (stepAt level) hframes
  · exact Or.inl hrefused
  · rw [hlimit] at hle
    have hexact := min_maxUInt64_eq hle hbudget
    rw [hexact] at hle hnext
    refine Or.inr ⟨by omega, ?_⟩
    have hcharged : ({ e with state := e.state.charge (e.state.session.gasConsumed + price) f outer } :
        Engine).Hosted HostCall.GoesOn (GasFrom budget start) e.table := by
      refine ⟨⟨hlimit, ?_, fun _ => hle⟩, hhost.interop, hhost.loader, rfl⟩
      exact Nat.le_trans hstart (Nat.add_le_add_left hprice _)
    have hgas : StepInvariant HostCall.GoesOn (GasFrom budget start) := GasFrom.stepInvariant hbudget
    have htable : ∀ op run, e.table op = .custom run → ∀ i, Keeps (GasFrom budget start) (run i) fun _ => True :=
      fun op run hcustom i => hhost.table op run hcustom i budget start hbudget
    rw [hnext]
    split
    · exact hcharged
    · exact hgas.carryOut (fun _ h => hgas.stepAt htable level h) htable _ hcharged

/-- **A step that leaves the machine running has paid**: there was gas left, and at least one unit of it was
consumed. -/
theorem step_pays (hbudget : budget < maxUInt64) (hlimit : e.state.session.gasLimit = budget)
    (hhost : e.CallbacksKeepGas) (hrun : e.step.status = .running) :
    e.state.session.gasConsumed < budget ∧
      e.state.session.gasConsumed + 1 ≤ e.step.state.session.gasConsumed := by
  have hbefore := running_of_step hrun
  have hstep : e.step = stepWith (stepAt 15) e := rfl
  rw [hstep] at hrun ⊢
  cases hframes : e.state.frames with
  | nil =>
    rw [stepWith_nil _ hbefore hframes] at hrun
    cases hrun
  | cons f outer =>
    obtain ⟨event, hrefused⟩ | ⟨hleft, hkept⟩ :=
      executeNext_gasFrom hbudget 15 hframes hlimit hhost (Nat.le_refl _)
    · rw [stepWith_cons _ hbefore hframes, hrefused] at hrun
      cases hrun
    · exact ⟨hleft, ((GasFrom.stepInvariant hbudget).finish hbefore hframes hkept).state.since⟩

/-! ## Runs -/

/-- Steps keep the gas. -/
theorem steps_gasKept (hbudget : budget < maxUInt64) (he : GasKept budget start e) (n : Nat) :
    GasKept budget start (steps n e) :=
  steps_keeps (fun _ h => stepAt_gasKept hbudget _ h) he n

/-- A machine that still runs after many steps has consumed as much gas. -/
theorem steps_pay (hbudget : budget < maxUInt64) (he : GasKept budget start e) {n : Nat}
    (hrun : (steps n e).status = .running) :
    e.state.session.gasConsumed + n ≤ (steps n e).state.session.gasConsumed := by
  induction n with
  | zero => exact Nat.le_refl _
  | succ n ih =>
    have hkept := steps_gasKept hbudget he n
    rw [steps_succ] at hrun ⊢
    -- The machine has run all along, so that every one of the earlier steps has paid as well.
    obtain ⟨-, hpaid⟩ := step_pays hbudget hkept.gas.limit hkept.host hrun
    have := ih (running_of_step hrun)
    omega

/-- **Gas bounds every run.** Under a budget below the greatest number and with a host whose callbacks keep
the gas, every step that leaves the machine running consumes at least one unit; the consumed gas never
decreases, and stays within the budget if it was; and a run ends, with a final status, after at most as
many steps as there is gas left, and one more. -/
theorem gas_bounds_runs {e : Engine} (hhost : e.CallbacksKeepGas) {g : Nat} (hg : g < maxUInt64) :
    let start := e.modifyState (·.setGasLimit g)
    (∀ n, (steps (n + 1) start).status = .running →
      (steps n start).state.session.gasConsumed + 1 ≤ (steps (n + 1) start).state.session.gasConsumed) ∧
    (∀ n, (steps n start).state.session.gasConsumed ≤ (steps (n + 1) start).state.session.gasConsumed) ∧
    (e.state.session.gasConsumed ≤ g → ∀ n, (steps n start).state.session.gasConsumed ≤ g) ∧
    ∃ n ≤ g - e.state.session.gasConsumed + 1, e.execute g = steps n start ∧
      (e.execute g).status ≠ .running ∧ ∀ m < n, (steps m start).status = .running := by
  intro start
  have hstart : GasKept g e.state.session.gasConsumed start :=
    ⟨⟨rfl, Nat.le_refl _, id⟩, hhost.interop, hhost.loader, hhost.table⟩
  have hkept := fun n => steps_gasKept hg hstart n
  refine ⟨fun n hrun => ?_, fun n => ?_, fun hle n => (hkept n).gas.within hle, ?_⟩
  · rw [steps_succ] at hrun ⊢
    exact (step_pays hg (hkept n).gas.limit (hkept n).host hrun).2
  · rw [steps_succ]
    -- The gas since the moment before the step, not since the start.
    have hself : GasKept g (steps n start).state.session.gasConsumed (steps n start) :=
      ⟨⟨(hkept n).gas.limit, Nat.le_refl _, id⟩, (hkept n).host⟩
    exact (stepAt_gasKept hg _ hself).gas.since
  · have hfuel : start.stepBudget = g - e.state.session.gasConsumed + 1 := if_pos hg
    obtain ⟨n, hn, heq, hbefore, hend⟩ := stepWhile_cases start.stepBudget start
    rw [hfuel] at hn
    have hexecute : e.execute g = steps n start := heq
    refine ⟨n, hn, hexecute, ?_, hbefore⟩
    rw [hexecute]
    intro hrun
    -- A run that used up all its steps would have consumed all the gas before its last step.
    obtain rfl : n = g - e.state.session.gasConsumed + 1 := by
      rw [← hfuel]
      exact hend.resolve_right fun h => h hrun
    have hlast := hbefore _ (Nat.lt_succ_self _)
    have hpaid : e.state.session.gasConsumed + _ ≤ _ := steps_pay hg hstart hlast
    rw [steps_succ] at hrun
    obtain ⟨hleft, -⟩ := step_pays hg (hkept _).gas.limit (hkept _).host hrun
    omega

/-- A script that asks for a service for ever, with a handler that charges for it. -/
theorem gas_bounds_runs_loop :
    let digests : CryptoSuite :=
      { sha1 := fun _ => #[], sha256 := fun _ => #[], hash160 := fun _ => #[], hash256 := fun _ => #[]
        verify := fun _ _ _ => false }
    let e : Engine :=
      { state := ((State.new .default digests).loadScript #[0x68, 1, 0x61, 0x62, 0xFD, 0xFF] returnAll).2
        interop := some fun _ => .request (.consumeGas 1) fun _ => .answer true }
    let start := e.modifyState (·.setGasLimit 5)
    (e.CallbacksKeepGas ∧ 5 < maxUInt64 ∧ e.state.session.gasConsumed = 0 ∧
      (steps 3 start).status = .running ∧ (steps 3 start).state.session.gasConsumed = 5) ∧
    (steps 2 start).state.session.gasConsumed + 1 ≤ (steps 3 start).state.session.gasConsumed ∧
    (∀ n, (steps n start).state.session.gasConsumed ≤ 5) ∧
    ∃ n ≤ 6, e.execute 5 = steps n start ∧ (e.execute 5).status ≠ .running := by
  intro digests e start
  have hhost : e.CallbacksKeepGas := by
    refine ⟨?_, (fun _ h => by cases h), (fun _ _ h => by cases h)⟩
    rintro _ ⟨⟩ name
    exact ⟨(fun _ h => by cases h), fun _ => trivial⟩
  have hbudget : 5 < maxUInt64 := by decide
  have hfresh : e.state.session.gasConsumed = 0 := by decide +kernel
  have hrun : (steps 3 start).status = .running ∧ (steps 3 start).state.session.gasConsumed = 5 := by
    decide +kernel
  obtain ⟨hpays, -, hwithin, hends⟩ := gas_bounds_runs hhost hbudget
  rw [hfresh] at hwithin hends
  obtain ⟨n, hn, hexecute, hfinal, -⟩ := hends
  exact ⟨⟨hhost, hbudget, hfresh, hrun⟩, hpays 2 hrun.1, hwithin (Nat.zero_le 5), n, hn, hexecute,
    hfinal⟩

end Engine

end ScriptMachine
