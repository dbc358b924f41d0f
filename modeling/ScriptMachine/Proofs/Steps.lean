import ScriptMachine.Engine.Step
import ScriptMachine.Proofs.Perform

/-! # What one step can do

A step charges the next instruction, carries it out and settles. `StepOutcome` lists all that it can do to
a machine whose host only loads scripts: the instruction could not be paid for, it succeeded, or it failed.
Invariants of runs are proved by cases on it.

* `Frame.advance`, `State.charge`: the machine when the instruction starts.
* `State.nextPrice`, `Engine.executeNext_cons`: what it costs, and when it is charged.
* `Engine.SameData`: settling and failing change the status and the journal only.
* `Engine.stepWith_outcome`: the cases of a step.
* `Engine.step_standard`, `Engine.step_unpaid`: a step at a given opcode, and one that cannot be paid for.
* `Engine.steps_keeps`, `Engine.steps_succ`, `Engine.steps_add`, `Engine.running_of_steps`: runs.
* `Engine.stepWhile_stops`: where a loop of steps with a condition stops.
-/

namespace ScriptMachine

/-- The frame after its next opcode was read; past the end of the script nothing is read. -/
def Frame.advance (f : Frame) : Frame :=
  { f with cursor := if f.currentByte?.isSome then f.cursor + 1 else f.cursor }

/-- Reading an opcode does not leave the script. -/
theorem Frame.advance_cursor_le {f : Frame} (h : f.cursor ≤ f.script.length) :
    f.advance.cursor ≤ f.advance.script.length := by
  unfold Frame.advance
  dsimp only
  split
  · -- A byte was read, so that the cursor was inside of the script.
    rename_i hbyte
    obtain ⟨b, hb⟩ := Option.isSome_iff_exists.1 hbyte
    exact (Array.getElem?_eq_some_iff.1 hb).1
  · exact h

/-- The state in which an instruction starts: its price is paid and its opcode is read. -/
def State.charge (s : State) (gasConsumed : Nat) (f : Frame) (outer : List Frame) : State :=
  { s with session := { s.session with gasConsumed } }.setFrames (f.advance :: outer)

/-- The price of the instruction at the cursor of a frame; a byte that is no opcode costs one unit. -/
def State.nextPrice (s : State) (f : Frame) : Nat :=
  match Engine.fetch f with
  | .ok op => s.price op
  | .error _ => 1

/-- Gas is either refused, which ends the execution, or granted within the limit. -/
theorem State.consumeGas_cases (s : State) (amount : Nat) :
    (∃ event, s.consumeGas amount = (false, (s.record event).setStatus .outOfGas)) ∨
    ∃ total, total = Nat.min (s.session.gasConsumed + amount) maxUInt64 ∧
      total ≤ s.session.gasLimit ∧
      s.consumeGas amount = (true, { s with session := { s.session with gasConsumed := total } }) := by
  unfold State.consumeGas
  dsimp only
  split
  · exact Or.inl ⟨_, rfl⟩
  · rename_i h
    exact Or.inr ⟨_, rfl, Nat.le_of_not_gt h, rfl⟩

/-- A state that has paid differs from the one before in the consumed gas only. -/
theorem State.eq_of_paid {s paid : State} {amount : Nat} (h : s.consumeGas amount = (true, paid)) :
    ∃ total, paid = { s with session := { s.session with gasConsumed := total } } := by
  obtain ⟨event, hrefused⟩ | ⟨total, -, -, hgranted⟩ := s.consumeGas_cases amount
  · rw [hrefused] at h
    cases h
  · rw [hgranted] at h
    cases h
    exact ⟨total, rfl⟩

/-- The state that has paid, if the gas is granted. -/
theorem State.paid_of_granted (s : State) (amount : Nat) (h : (s.consumeGas amount).1 = true) :
    s.consumeGas amount = (true, (s.consumeGas amount).2) := Prod.ext h rfl

namespace Engine

/-- Only the status and the journal differ. -/
def SameData (s t : State) : Prop :=
  t = { s with journal := t.journal, session := { s.session with status := t.session.status } }

/-! ## The end of a step -/

/-- The checks at the end of a step change the status and the journal only. -/
theorem settle_sameData (s : State) : SameData s (settle s) := by
  unfold settle SameData
  split
  · dsimp only
    split
    · rfl
    · split
      · rfl
      · rfl
  · rfl

/-- A failed step changes the status and the journal only. -/
theorem fail_sameData (s : State) (cause : Fault) : SameData s (fail s cause) := by
  unfold fail SameData
  dsimp only
  split
  · rfl
  · rfl

/-- A machine that still runs after the checks has passed them. -/
theorem settle_running {s : State} (h : (settle s).session.status = .running) :
    s.session.status = .running ∧ settle s = s ∧ s.itemCount ≤ s.limits.maxStackSize := by
  unfold settle at h ⊢
  by_cases hrun : s.session.status.isRunning = true
  · rw [if_pos hrun] at h ⊢
    dsimp only at h ⊢
    by_cases hcount : s.itemCount > s.limits.maxStackSize
    · rw [if_pos hcount] at h
      cases h
    · rw [if_neg hcount] at h ⊢
      by_cases hempty : s.frames.isEmpty = true
      · rw [if_pos hempty] at h
        cases h
      · rw [if_neg hempty]
        exact ⟨eq_of_beq hrun, rfl, Nat.le_of_not_gt hcount⟩
  · -- A machine that has ended is left alone: if it runs now, it ran before.
    rw [if_neg hrun] at h
    exact absurd (h ▸ rfl) hrun

/-- A machine that has halted after the checks had halted before, or has passed the check of its items. -/
theorem settle_halted {s : State} (h : (settle s).session.status = .halted) :
    s.session.status = .halted ∨ s.itemCount ≤ s.limits.maxStackSize := by
  unfold settle at h
  by_cases hrun : s.session.status.isRunning = true
  · rw [if_pos hrun] at h
    dsimp only at h
    by_cases hcount : s.itemCount > s.limits.maxStackSize
    · rw [if_pos hcount] at h
      cases h
    · exact Or.inr (Nat.le_of_not_gt hcount)
  · rw [if_neg hrun] at h
    exact Or.inl h

/-- A failed step ends the execution; a status that was final stays. -/
theorem fail_status (s : State) (cause : Fault) :
    (fail s cause).session.status =
      if s.session.status = .running then .faulted else s.session.status := by
  unfold fail
  cases h : s.session.status <;> simp [State.record, State.setStatus, h, Status.isRunning]

/-- The end of a failed step records its fault. -/
theorem fail_journal (s : State) (cause : Fault) : (fail s cause).journal = .fault cause :: s.journal := by
  unfold fail
  dsimp only
  split <;> rfl

end Engine

/-! ## The cases of a step -/

/-- All that a step in frame `f` can do. -/
inductive StepOutcome (p : Policy) (s : State) (f : Frame) (outer : List Frame) : State → Prop where
  /-- The price could not be paid. -/
  | unpaid (event : Event) : StepOutcome p s f outer ((s.record event).setStatus .outOfGas)
  /-- The instruction succeeded. -/
  | done {gas : Nat} {t : State} (h : Outcome p (s.charge gas f outer) f.advance outer true t)
    (hcall : ∀ op, Engine.fetch f = .ok op → op.Calls →
      Enters op (s.charge gas f outer) f.advance outer t) :
    StepOutcome p s f outer (Engine.settle t)
  /-- The instruction failed. -/
  | failed {gas : Nat} {t : State} (cause : Fault)
    (h : Outcome p (s.charge gas f outer) f.advance outer false t) :
    StepOutcome p s f outer (Engine.fail t cause)

/-- A failed instruction is recorded. -/
theorem Outcome.record {p : Policy} {s₀ s : State} {f₀ : Frame} {outer : List Frame}
    (h : Outcome p s₀ f₀ outer false s) (event : Event) :
    Outcome p s₀ f₀ outer false (s.record event) := by
  cases h with
  | inside h =>
    exact .inside ⟨h.limits, h.crypto, h.maxDepth, h.status, h.results, h.heap, h.frames, h.depth⟩
  | refused h =>
    refine .refused ?_
    unfold WithFrames
    rw [h]
    rfl

namespace Engine

variable {p : Policy} {e : Engine} {f : Frame} {outer : List Frame}

/-- The checks at the end of a step leave a machine alone that has ended. -/
theorem settle_final {s : State} (h : s.session.status.isRunning = false) : settle s = s := by
  unfold settle
  rw [h, if_neg Bool.false_ne_true]

/-- Every instruction has a price. -/
theorem one_le_price (s : State) (op : OpCode) : 1 ≤ s.price op := by
  -- A check of many signatures costs by the number of keys, but never less than one unit.
  have hkeys : ∀ keys : Int, 1 ≤ if keys < 1 then 1 else Nat.min (keys.toNat * 100) maxUInt64 := by
    intro keys
    split
    · exact Nat.le_refl 1
    · exact Nat.le_min.2 ⟨by omega, by decide⟩
  have hmulti : 1 ≤ s.multiSigPrice := by
    unfold State.multiSigPrice
    split
    · exact Nat.le_refl 1
    · split
      · exact Nat.le_refl 1
      · exact hkeys _
  unfold State.price
  split <;> first | exact hmulti | decide

/-- A byte that is no opcode has a price as well. -/
theorem one_le_nextPrice (s : State) (f : Frame) : 1 ≤ s.nextPrice f := by
  unfold State.nextPrice
  split
  · exact one_le_price s _
  · exact Nat.le_refl 1

/-- The price of an opcode that was fetched. -/
theorem nextPrice_of_fetch {op : OpCode} (s : State) (hfetch : fetch f = .ok op) : s.nextPrice f = s.price op := by
  rw [State.nextPrice, hfetch]

/-- The next instruction of a frame: its price is asked for, and if it is granted, the instruction is carried
out. -/
theorem executeNext_cons (nested : Engine → Engine) (hframes : e.state.frames = f :: outer) :
    executeNext nested e =
      match e.state.consumeGas (e.state.nextPrice f) with
      | (false, state) => (.ok (), { e with state })
      | (true, state) =>
        match fetch f with
        | .error byte =>
          (.error (.unassignedByte byte f.cursor),
            { e with state := state.setFrames (f.advance :: outer) })
        | .ok op =>
          carryOut nested ⟨op, f.cursor⟩ { e with state := state.setFrames (f.advance :: outer) } := by
  unfold executeNext State.nextPrice
  rw [hframes]
  dsimp only
  cases fetch f <;> rfl

/-- **An instruction is charged before it is carried out**: if the gas is refused, nothing else happens. -/
theorem executeNext_cases (nested : Engine → Engine) (hframes : e.state.frames = f :: outer) :
    (∃ event, executeNext nested e =
      (.ok (), { e with state := (e.state.record event).setStatus .outOfGas })) ∨
    ∃ price total, 1 ≤ price ∧ total = Nat.min (e.state.session.gasConsumed + price) maxUInt64 ∧
      total ≤ e.state.session.gasLimit ∧
      executeNext nested e =
        match fetch f with
        | .error byte =>
          (.error (.unassignedByte byte f.cursor), { e with state := e.state.charge total f outer })
        | .ok op => carryOut nested ⟨op, f.cursor⟩ { e with state := e.state.charge total f outer } := by
  rw [executeNext_cons nested hframes]
  obtain ⟨event, hpay⟩ | ⟨total, htotal, hlimit, hpay⟩ :=
    e.state.consumeGas_cases (e.state.nextPrice f)
  · rw [hpay]
    exact Or.inl ⟨event, rfl⟩
  · rw [hpay]
    exact Or.inr ⟨_, total, one_le_nextPrice _ f, htotal, hlimit, rfl⟩

/-- A machine that has ended stays as it is. -/
theorem stepWith_final (nested : Engine → Engine) (h : e.status ≠ .running) : stepWith nested e = e := by
  have hfinal : e.status.isFinal = true := by
    cases hstatus : e.status <;> first | exact absurd hstatus h | rfl
  exact if_pos hfinal

/-- A machine without frames halts. -/
theorem stepWith_nil (nested : Engine → Engine) (hrun : e.status = .running)
    (hframes : e.state.frames = []) : stepWith nested e = e.modifyState (·.setStatus .halted) := by
  unfold stepWith
  rw [if_neg (by rw [hrun]; decide), if_pos (by rw [hframes]; rfl)]

/-- A machine with a frame carries out its next instruction. -/
theorem stepWith_cons (nested : Engine → Engine) (hrun : e.status = .running)
    (hframes : e.state.frames = f :: outer) :
    stepWith nested e =
      match executeNext nested e with
      | (.error cause, e) => e.modifyState (fail · cause)
      | (.ok (), e) => e.modifyState settle := by
  have hgoes : ¬ e.status.isFinal = true := by rw [hrun]; decide
  have hframe : ¬ e.state.frames.isEmpty = true := by rw [hframes]; exact Bool.false_ne_true
  unfold stepWith
  rcases executeNext nested e with ⟨_ | _, _⟩ <;> exact (if_neg hgoes).trans (if_neg hframe)

/-- **A step that leaves the machine running has carried out its instruction**: the opcode was fetched and
paid for, its behaviour succeeded, and the checks at the end found nothing. -/
theorem stepWith_carriedOut (nested : Engine → Engine) (hframes : e.state.frames = f :: outer)
    (hrun : (stepWith nested e).status = .running) :
    ∃ op total, fetch f = .ok op ∧
      (dispatch nested ⟨op, f.cursor⟩).run { e with state := e.state.charge total f outer } =
        (.ok (), stepWith nested e) := by
  have hbefore : e.status = .running := by
    by_contra hfinal
    rw [stepWith_final nested hfinal] at hrun
    exact hfinal hrun
  -- A failed instruction leaves a final status behind.
  have hfailed : ∀ (t : State) (cause : Fault), (fail t cause).session.status ≠ .running := by
    intro t cause h
    rw [fail_status] at h
    split at h
    · cases h
    · exact absurd h (by assumption)
  rw [stepWith_cons nested hbefore hframes] at hrun ⊢
  obtain ⟨event, hnext⟩ | ⟨price, total, -, -, -, hnext⟩ := executeNext_cases nested hframes
  · rw [hnext] at hrun
    cases hrun
  rw [hnext] at hrun ⊢
  cases hfetch : fetch f with
  | error byte =>
    rw [hfetch] at hrun
    exact absurd hrun (hfailed _ _)
  | ok op =>
    refine ⟨op, total, rfl, ?_⟩
    rw [hfetch] at hrun
    dsimp only [carryOut] at hrun ⊢
    revert hrun
    rcases (dispatch nested ⟨op, f.cursor⟩).run
      { e with state := e.state.charge total f outer } with ⟨cause | _, e'⟩
    · exact fun hrun => absurd hrun (hfailed _ _)
    · intro hrun
      have hsame : settle e'.state = e'.state := (settle_running hrun).2.1
      dsimp only [modifyState]
      rw [hsame]

/-- **The cases of a step** of a running machine whose host only loads scripts. -/
theorem stepWith_outcome (nested : Engine → Engine) (hhost : e.HostOnlyLoads)
    (hrun : e.status = .running) (hp : p.Admits e.state.limits e.state.crypto)
    (hframes : e.state.frames = f :: outer) (hheap : p.AllowsHeap e.state.heap)
    (heval : p.AllowsItems f.eval) (halt : p.AllowsItems f.alt) :
    e.StateIn (StepOutcome p e.state f outer) (stepWith nested e) := by
  rw [stepWith_cons nested hrun hframes]
  obtain ⟨event, hnext⟩ | ⟨price, total, -, -, -, hnext⟩ := executeNext_cases nested hframes
  · rw [hnext]
    refine ⟨_, rfl, ?_⟩
    dsimp only
    rw [settle_final rfl]
    exact .unpaid event
  · rw [hnext]
    -- The instruction starts from the charged state, to which its outcome refers.
    have hhost' : ({ e with state := e.state.charge total f outer } : Engine).HostOnlyLoads :=
      ⟨hhost.table, hhost.interop, hhost.loader⟩
    have hcharged : (e.state.charge total f outer).frames = f.advance :: outer := rfl
    cases hfetch : fetch f with
    | error byte =>
      have hinside : Inside p (e.state.charge total f outer) f.advance outer
          (e.state.charge total f outer) :=
        WithFrames.failed (WithFrames.refl _) hcharged hheap ⟨heval, halt, fun h => h⟩
      exact ⟨_, rfl, .failed _ (.inside hinside)⟩
    | ok op =>
      have hleads := dispatch_leads (i := ⟨op, f.cursor⟩) hhost' hp hcharged hheap heval halt nested
        _ rfl
      dsimp only
      unfold carryOut
      revert hleads
      rcases (dispatch nested ⟨op, f.cursor⟩).run
        { e with state := e.state.charge total f outer } with ⟨cause | _, e'⟩
      · rintro ⟨t, rfl, ht⟩
        exact ⟨_, rfl, .failed cause (ht.record _)⟩
      · rintro ⟨t, rfl, ht, hcall⟩
        -- What the opcode tells about calls is told of the opcode that was fetched.
        refine ⟨_, rfl, .done ht ?_⟩
        intro op' hop' hcalls
        rw [hfetch] at hop'
        cases hop'
        exact hcall hcalls

/-! ## Runs -/

/-- A machine that has ended stays as it is. -/
theorem step_final (h : e.status ≠ .running) : e.step = e := stepWith_final _ h

/-- **A step that leaves the machine running has carried out the standard behaviour of its opcode**, from the
charged state. -/
theorem step_performed (htable : e.table = .standard) (hframes : e.state.frames = f :: outer)
    (hrun : e.step.status = .running) :
    ∃ op total, fetch f = .ok op ∧ (perform (stepAt 15) op ⟨op, f.cursor⟩).run
      { e with state := e.state.charge total f outer } = (.ok (), e.step) := by
  obtain ⟨op, total, hfetch, hdispatch⟩ := stepWith_carriedOut (stepAt 15) hframes hrun
  have hcharged : ({ e with state := e.state.charge total f outer } : Engine).table = .standard := htable
  rw [run_dispatch _ _ hcharged] at hdispatch
  exact ⟨op, total, hfetch, hdispatch⟩

/-- **A paid step at an opcode with its standard behaviour**: the opcode is read, the behaviour is carried out, and its
end is settled. -/
theorem step_standard {op : OpCode} {paid : State} (htable : e.table op = .standard op) (hrun : e.status = .running)
    (hframes : e.state.frames = f :: outer) (hfetch : fetch f = .ok op)
    (hpaid : e.state.consumeGas (e.state.price op) = (true, paid)) :
    e.step =
      match (perform (stepAt 15) op ⟨op, f.cursor⟩).run { e with state := paid.setFrames (f.advance :: outer) } with
      | (.ok (), e') => e'.modifyState settle
      | (.error cause, e') => e'.modifyState fun s => fail (s.record (.failed op f.cursor)) cause := by
  have hstep : e.step = stepWith (stepAt 15) e := rfl
  have hdispatch : (dispatch (stepAt 15) ⟨op, f.cursor⟩).run { e with state := paid.setFrames (f.advance :: outer) } =
      (perform (stepAt 15) op ⟨op, f.cursor⟩).run { e with state := paid.setFrames (f.advance :: outer) } := by
    unfold dispatch
    rw [run_get_seq]
    dsimp only
    rw [htable]
  rw [hstep, stepWith_cons _ hrun hframes, executeNext_cons _ hframes, nextPrice_of_fetch _ hfetch, hpaid, hfetch]
  dsimp only [carryOut]
  rw [hdispatch]
  rcases (perform (stepAt 15) op ⟨op, f.cursor⟩).run { e with state := paid.setFrames (f.advance :: outer) } with
    ⟨_ | _, e'⟩ <;> rfl

/-- A step that cannot be paid for carries out nothing. -/
theorem step_unpaid {op : OpCode} {refused : State} (hrun : e.status = .running) (hframes : e.state.frames = f :: outer)
    (hfetch : fetch f = .ok op) (hrefused : e.state.consumeGas (e.state.price op) = (false, refused)) :
    e.step = { e with state := refused } := by
  have hstep : e.step = stepWith (stepAt 15) e := rfl
  have hfinal : refused.session.status.isRunning = false := by
    obtain ⟨event, hpay⟩ | ⟨total, -, -, hpay⟩ := e.state.consumeGas_cases (e.state.price op)
    · rw [hpay] at hrefused
      cases hrefused
      rfl
    · rw [hpay] at hrefused
      cases hrefused
  rw [hstep, stepWith_cons _ hrun hframes, executeNext_cons _ hframes, nextPrice_of_fetch _ hfetch, hrefused]
  dsimp only [modifyState]
  rw [settle_final hfinal]

/-- A paid step at an opcode that works on the state. -/
theorem step_onState {op : OpCode} {m : Instruction → Exec Unit} {paid : State}
    (hperform : ∀ nested i, perform nested op i = onState (m i)) (htable : e.table op = .standard op)
    (hrun : e.status = .running) (hframes : e.state.frames = f :: outer) (hfetch : fetch f = .ok op)
    (hpaid : e.state.consumeGas (e.state.price op) = (true, paid)) :
    e.step =
      match (m ⟨op, f.cursor⟩).run (paid.setFrames (f.advance :: outer)) with
      | (.ok (), s) => { e with state := settle s }
      | (.error cause, s) => { e with state := fail (s.record (.failed op f.cursor)) cause } := by
  rw [step_standard htable hrun hframes hfetch hpaid, hperform, run_onState]
  dsimp only
  rcases (m ⟨op, f.cursor⟩).run (paid.setFrames (f.advance :: outer)) with ⟨_ | _, s⟩ <;> rfl

/-- A machine that runs after a step has run before it. -/
theorem running_of_step (h : e.step.status = .running) : e.status = .running := by
  by_contra hfinal
  rw [step_final hfinal] at h
  exact hfinal h

/-- **What every step keeps, every run keeps.** -/
theorem steps_keeps {P : Engine → Prop} (hstep : ∀ e, P e → P e.step) (he : P e) (n : Nat) :
    P (steps n e) := by
  induction n generalizing e with
  | zero => exact he
  | succ n ih => exact ih (hstep e he)

/-- The last one of many steps. -/
theorem steps_succ (n : Nat) (e : Engine) : steps (n + 1) e = (steps n e).step := by
  induction n generalizing e with
  | zero => rfl
  | succ n ih => exact ih e.step

/-- Steps after steps. -/
theorem steps_add (m n : Nat) (e : Engine) : steps (m + n) e = steps n (steps m e) := by
  induction n with
  | zero => rfl
  | succ n ih => rw [← Nat.add_assoc, steps_succ, ih, ← steps_succ]

/-- A machine that has ended stays as it is for ever. -/
theorem steps_ended (h : e.status ≠ .running) (n : Nat) : steps n e = e := by
  induction n with
  | zero => rfl
  | succ n ih => rw [steps_succ, ih, step_final h]

/-- A machine that runs after many steps has run all along. -/
theorem running_of_steps {n m : Nat} (hm : m ≤ n) (h : (steps n e).status = .running) :
    (steps m e).status = .running := by
  induction n with
  | zero =>
    obtain rfl : m = 0 := Nat.le_zero.1 hm
    exact h
  | succ n ih =>
    rcases Nat.lt_or_eq_of_le hm with hlt | rfl
    · rw [steps_succ] at h
      exact ih (Nat.le_of_lt_succ hlt) (running_of_step h)
    · exact h

/-- **A loop with a condition** makes the steps of the run as long as the machine runs and the condition holds,
unless it has made all the steps it may make. -/
theorem stepWhile_stops (condition : Engine → Bool) (fuel : Nat) (e : Engine) :
    ∃ n ≤ fuel, stepWhile condition fuel e = steps n e ∧
      (∀ m < n, (steps m e).status = .running ∧ condition (steps m e) = true) ∧
      (n = fuel ∨ (steps n e).status ≠ .running ∨ condition (steps n e) = false) := by
  induction fuel generalizing e with
  | zero => exact ⟨0, Nat.le_refl 0, rfl, fun m hm => absurd hm (Nat.not_lt_zero m), Or.inl rfl⟩
  | succ fuel ih =>
    by_cases hgoes : (e.status.isRunning && condition e) = true
    · obtain ⟨n, hn, heq, hbefore, hend⟩ := ih e.step
      refine ⟨n + 1, Nat.succ_le_succ hn, ?_, ?_, hend.imp (congrArg (· + 1)) id⟩
      · unfold stepWhile
        rw [if_pos hgoes]
        exact heq
      · rintro (_ | m) hm
        · rw [Bool.and_eq_true] at hgoes
          exact ⟨eq_of_beq hgoes.1, hgoes.2⟩
        · exact hbefore m (Nat.lt_of_succ_lt_succ hm)
    · refine ⟨0, Nat.zero_le _, ?_, fun m hm => absurd hm (Nat.not_lt_zero m), Or.inr ?_⟩
      · unfold stepWhile
        rw [if_neg hgoes]
        rfl
      · rw [Bool.and_eq_true, not_and_or, Bool.not_eq_true (condition e)] at hgoes
        refine hgoes.imp_left fun hrun hstatus => hrun ?_
        rw [show e.status = .running from hstatus]
        rfl

/-- A loop without a condition makes all the steps it may make, because a machine that has ended makes none. -/
theorem stepWhile_true (fuel : Nat) (e : Engine) : stepWhile (fun _ => true) fuel e = steps fuel e := by
  obtain ⟨n, hn, heq, -, rfl | hended | hnot⟩ := stepWhile_stops (fun _ => true) fuel e
  · exact heq
  · obtain ⟨k, rfl⟩ := Nat.exists_eq_add_of_le hn
    rw [heq, steps_add, steps_ended hended]
  · cases hnot

/-- A loop without a condition stops when the machine has ended, or when it has made all the steps it may make. -/
theorem stepWhile_cases (fuel : Nat) (e : Engine) :
    ∃ n ≤ fuel, stepWhile (fun _ => true) fuel e = steps n e ∧
      (∀ m < n, (steps m e).status = .running) ∧ (n = fuel ∨ (steps n e).status ≠ .running) := by
  simpa using stepWhile_stops (fun _ => true) fuel e

end Engine

end ScriptMachine
