import ScriptMachine.Proofs.Steps

/-! # Calls do not disturb their callers

A call divides the evaluation stack of the calling frame between that frame and the new one. From then on
the calling frame and all frames outside of it stay exactly as they are, through nested calls and tail
calls, until a step takes the last frame inside of them off; and the step by which that frame returns adds
its items to the caller and changes nothing else.

* `Engine.Above`: there are frames inside of the given ones.
* `Engine.step_frames`, `Engine.Above.step`: what one step does to the frames.
* `Engine.Above.steps`: what many steps leave alone.
* `Engine.call_frames_isolated`: a call, what follows and the return.
-/

namespace ScriptMachine

namespace Engine

variable {e : Engine} {f : Frame} {outer base : List Frame}

/-! ## One step -/

/-- The cases of a step, whatever data there is. -/
theorem step_outcome (hhost : e.HostOnlyLoads) (hrun : e.status = .running)
    (hframes : e.state.frames = f :: outer) :
    e.StateIn (StepOutcome .all e.state f outer) e.step :=
  stepWith_outcome _ hhost hrun (Policy.all_admits _ _) hframes (Policy.all_allowsHeap _)
    (Policy.all_allowsItems _) (Policy.all_allowsItems _)

/-- **What a step does to the frames**: it leaves the outer frames alone, or it ends the execution and leaves
the outer frames behind, or it returns to the next frame. -/
theorem step_frames (hhost : e.HostOnlyLoads) (hrun : e.status = .running)
    (hframes : e.state.frames = f :: outer) :
    (∃ inner, inner ≠ [] ∧ e.step.state.frames = inner ++ outer) ∨
    (e.step.status ≠ .running ∧ e.step.state.frames = outer) ∨
    ∃ caller rest, outer = caller :: rest ∧ e.step.state.frames = f.resume caller :: rest := by
  obtain ⟨s, hs, hcases⟩ := step_outcome hhost hrun hframes
  rw [hs]
  cases hcases with
  | unpaid event => exact Or.inl ⟨[f], List.cons_ne_nil _ _, hframes⟩
  | @done gas t h _ =>
    have hsame : (settle t).frames = t.frames := by rw [settle_sameData t]; rfl
    cases h with
    | inside h =>
      obtain ⟨inner, hne, hinner, -⟩ := h.frames
      exact Or.inl ⟨inner, hne, hsame.trans hinner⟩
    | resumed houter => exact Or.inr (Or.inr ⟨_, _, houter, hsame⟩)
    | finished houter =>
      -- The last return has halted the machine, which the end of the step does not change.
      refine Or.inr (Or.inl ⟨?_, ?_⟩)
      · exact fun h => by cases (settle_running h).1
      · rw [houter]
        exact hsame
  | @failed gas t cause h =>
    have hsame : (fail t cause).frames = t.frames := by rw [fail_sameData t cause]; rfl
    cases h with
    | inside h =>
      obtain ⟨inner, hne, hinner, -⟩ := h.frames
      exact Or.inl ⟨inner, hne, hsame.trans hinner⟩
    | refused h =>
      refine Or.inr (Or.inl ⟨?_, hsame.trans h.frames⟩)
      show (fail t cause).session.status ≠ .running
      rw [fail_status]
      split
      · exact fun h => by cases h
      · assumption

/-- A step leaves the host alone: only the state changes. -/
theorem step_eq_setState (hhost : e.HostOnlyLoads) : e.step = { e with state := e.step.state } := by
  by_cases hrun : e.status = .running
  · cases hframes : e.state.frames with
    | nil =>
      have hstep : e.step = e.modifyState (·.setStatus .halted) := stepWith_nil _ hrun hframes
      rw [hstep]
      rfl
    | cons f outer =>
      obtain ⟨s, hs, -⟩ := step_outcome hhost hrun hframes
      rw [hs]
  · rw [step_final hrun]

/-- A host that only loads scripts is the same after a step. -/
theorem HostOnlyLoads.step (hhost : e.HostOnlyLoads) : e.step.HostOnlyLoads := by
  rw [step_eq_setState hhost]
  exact ⟨hhost.table, hhost.interop, hhost.loader⟩

/-! ## Frames inside of others -/

/-- There are frames inside of the given ones. -/
def Above (base : List Frame) (e : Engine) : Prop :=
  ∃ inner, inner ≠ [] ∧ e.state.frames = inner ++ base

/-- There are more frames than the given ones. -/
theorem Above.depth (h : Above base e) : base.length + 1 ≤ e.depth := by
  obtain ⟨inner, hne, hframes⟩ := h
  have hpos : 1 ≤ inner.length := List.length_pos_iff.2 hne
  have hdepth : e.depth = (inner ++ base).length := congrArg List.length hframes
  rw [hdepth, List.length_append]
  omega

/-- **One step above given frames** stays above them, or ends the execution on them, or returns to the first
one of them. -/
theorem Above.step (hhost : e.HostOnlyLoads) (h : Above base e) :
    Above base e.step ∨
    (e.step.status ≠ .running ∧ e.step.depth = base.length) ∨
    ∃ returned caller rest, base = caller :: rest ∧ e.state.frames = returned :: base ∧
      e.step.state.frames = returned.resume caller :: rest := by
  by_cases hrun : e.status = .running
  swap
  · rw [step_final hrun]
    exact Or.inl h
  -- The step happens in the innermost frame `g`; what is outside of it is `inner ++ base`.
  obtain ⟨inner, hne, hframes⟩ := h
  obtain ⟨g, inner, rfl⟩ := List.exists_cons_of_ne_nil hne
  rw [List.cons_append] at hframes
  obtain ⟨inner', hne', hinner'⟩ | ⟨hstatus, hbelow⟩ | ⟨caller, rest, houter, hresumed⟩ :=
    step_frames hhost hrun hframes
  · exact Or.inl ⟨inner' ++ inner, by simp [hne'], by rw [hinner', List.append_assoc]⟩
  · -- The execution has ended: on the given frames, or still above them.
    cases inner with
    | nil => exact Or.inr (Or.inl ⟨hstatus, congrArg List.length hbelow⟩)
    | cons h inner => exact Or.inl ⟨h :: inner, List.cons_ne_nil _ _, hbelow⟩
  · cases inner with
    | nil => exact Or.inr (Or.inr ⟨g, caller, rest, houter, hframes, hresumed⟩)
    | cons h inner =>
      rw [List.cons_append] at houter
      cases houter
      exact Or.inl ⟨_ :: inner, List.cons_ne_nil _ _, hresumed⟩

/-! ## Runs -/

/-- Steps leave the host alone. -/
theorem HostOnlyLoads.steps (hhost : e.HostOnlyLoads) (n : Nat) : (steps n e).HostOnlyLoads :=
  steps_keeps (fun _ h => h.step) hhost n

/-- **Frames stay as they are as long as there are frames inside of them.** -/
theorem Above.steps (hhost : e.HostOnlyLoads) (h : Above base e) {n : Nat}
    (hdepth : ∀ m ≤ n, base.length + 1 ≤ (steps m e).depth) : Above base (steps n e) := by
  induction n with
  | zero => exact h
  | succ n ih =>
    have hn := ih fun m hm => hdepth m (Nat.le_succ_of_le hm)
    have hlast := hdepth (n + 1) (Nat.le_refl _)
    rw [steps_succ] at hlast ⊢
    -- A step that takes the last inner frame off would leave too few frames.
    obtain habove | ⟨-, hend⟩ | ⟨_, caller, rest, rfl, -, hframes⟩ := hn.step (hhost.steps n)
    · exact habove
    · omega
    · have : (Engine.steps n e).step.depth = rest.length + 1 := congrArg List.length hframes
      rw [List.length_cons] at hlast
      omega

/-- While the machine runs, the first step that ends on given frames returns to them: before it there are
frames inside of them. -/
theorem Above.steps_of_first (hhost : e.HostOnlyLoads) (h : Above base e) {n : Nat}
    (hrun : (Engine.steps n e).status = .running)
    (hfirst : ∀ m ≤ n, (Engine.steps m e).status = .running → (Engine.steps m e).depth ≠ base.length) :
    Above base (Engine.steps n e) := by
  induction n with
  | zero => exact h
  | succ n ih =>
    have hbefore := running_of_steps (Nat.le_succ n) hrun
    have hn := ih hbefore fun m hm => hfirst m (Nat.le_succ_of_le hm)
    have hlast := hfirst (n + 1) (Nat.le_refl _) hrun
    rw [steps_succ] at hrun hlast ⊢
    obtain habove | ⟨hend, -⟩ | ⟨_, caller, rest, rfl, -, hframes⟩ := hn.step (hhost.steps n)
    · exact habove
    · exact absurd hrun hend
    · exact absurd (congrArg List.length hframes) hlast

/-! ## Calls -/

/-- A step that calls and still runs has pushed a frame and divided the items. -/
theorem step_enters (hhost : e.HostOnlyLoads) (hframes : e.state.frames = f :: outer) {op : OpCode}
    (hfetch : fetch f = .ok op) (hop : op.Calls) (hrun : e.step.status = .running) :
    ∃ s₀, Enters op s₀ f.advance outer e.step.state := by
  obtain ⟨s, hs, hcases⟩ := step_outcome hhost (running_of_step hrun) hframes
  rw [hs] at hrun ⊢
  cases hcases with
  | unpaid event => cases hrun
  | @done gas t h hcall =>
    obtain ⟨-, heq, -⟩ := settle_running hrun
    rw [heq]
    exact ⟨_, hcall op hfetch hop⟩
  | @failed gas t cause h =>
    have hfail : (fail t cause).session.status = .running := hrun
    rw [fail_status] at hfail
    split at hfail
    · cases hfail
    · exact absurd hfail (by assumption)

/-- **A call does not disturb its caller.** When a step calls from frame `f` and the machine still runs, then
the items of `f`, less a hash that was popped, are divided in their order between the new frame and what is
left of `f`: the new frame has as many as the call announces, or else all. However many steps follow, as
long as they leave frames inside of the caller, the caller and all frames outside of it are the same. And
the first later step with which the machine runs on in the caller is the return of a frame: it adds all
items of that frame on top of those of the caller, in their order, and its alternative stack if it returns
all, and changes nothing else. -/
theorem call_frames_isolated {e : Engine} (hhost : e.HostOnlyLoads) {f : Frame} {outer : List Frame}
    (hframes : e.state.frames = f :: outer) {op : OpCode} (hfetch : fetch f = .ok op) (hop : op.Calls)
    (hrun : e.step.status = .running) :
    ∃ callee caller, e.step.state.frames = callee :: caller :: outer ∧
      (caller.script = f.script ∧ caller.returnCount = f.returnCount ∧ caller.alt = f.alt ∧
        callee.eval ++ caller.eval = f.eval.drop (f.advance.popsFor op) ∧
        match f.advance.announces? op with
        | some n => callee.eval.length = n
        | none => caller.eval = []) ∧
      (∀ n, (∀ m ≤ n, e.depth + 1 ≤ (steps m e.step).depth) →
        ∃ inner, inner ≠ [] ∧ (steps n e.step).state.frames = inner ++ caller :: outer) ∧
      ∀ n, (steps (n + 1) e.step).status = .running → (steps (n + 1) e.step).depth = e.depth →
        (∀ m ≤ n, (steps m e.step).status = .running → (steps m e.step).depth ≠ e.depth) →
        ∃ returned, (steps n e.step).state.frames = returned :: caller :: outer ∧
          (steps (n + 1) e.step).state.frames =
            { caller with
              eval := returned.eval ++ caller.eval
              alt := if returned.returnCount = returnAll then returned.alt ++ caller.alt
                else caller.alt } :: outer := by
  obtain ⟨s₀, callee, caller, hentered, hmoved⟩ := step_enters hhost hframes hfetch hop hrun
  have hbase : e.depth = (caller :: outer).length :=
    (congrArg List.length hframes : e.depth = (f :: outer).length)
  have habove : Above (caller :: outer) e.step :=
    ⟨[callee], List.cons_ne_nil _ _, hentered.frames.frames⟩
  refine ⟨callee, caller, hentered.frames.frames,
    ⟨hentered.script, hentered.returnCount, hentered.callerAlt, hentered.eval, hmoved⟩, ?_, ?_⟩
  · intro n hn
    rw [hbase] at hn
    exact habove.steps hhost.step hn
  · intro n hlast hback hfirst
    rw [hbase] at hback hfirst
    rw [steps_succ] at hlast hback ⊢
    have hn := habove.steps_of_first hhost.step (running_of_step hlast) hfirst
    obtain hstill | ⟨hend, -⟩ | ⟨returned, _, _, hcaller, hbefore, hafter⟩ :=
      hn.step (hhost.step.steps n)
    · have := hstill.depth
      omega
    · exact absurd hlast hend
    · cases hcaller
      refine ⟨returned, hbefore, ?_⟩
      rw [hafter]
      simp only [Frame.resume, Stack.pushAll, beq_iff_eq]

/-- A call that announces one of two items, from its start to its return. -/
theorem call_frames_isolated_callI :
    let digests : CryptoSuite :=
      { sha1 := fun _ => #[], sha256 := fun _ => #[], hash160 := fun _ => #[], hash256 := fun _ => #[]
        verify := fun _ _ _ => false }
    let e := ((Engine.new .default digests).modifyState fun s =>
      (s.loadScript #[0x51, 0x52, 0xE0, 1, 1, 3, 0, 0x66] returnAll).2).step.step
    (e.status = .running ∧ e.step.status = .running ∧ (steps 1 e.step).status = .running ∧
      (steps 1 e.step).depth = e.depth ∧ e.step.depth ≠ e.depth) ∧
    ∃ callee caller, e.step.state.frames = [callee, caller] ∧
      callee.eval ++ caller.eval = [.integer (.small 2), .integer (.small 1)] ∧
      callee.eval.length = 1 ∧
      ∃ returned, (steps 0 e.step).state.frames = [returned, caller] ∧
        (steps 1 e.step).state.frames =
          [{ caller with
            eval := returned.eval ++ caller.eval
            alt := if returned.returnCount = returnAll then returned.alt ++ caller.alt
              else caller.alt }] := by
  intro digests e
  have hhost : e.HostOnlyLoads := by
    have hnew : (((Engine.new .default digests).modifyState fun s =>
        (s.loadScript #[0x51, 0x52, 0xE0, 1, 1, 3, 0, 0x66] returnAll).2)).HostOnlyLoads :=
      ⟨rfl, rfl, fun _ h => by cases h⟩
    exact hnew.step.step
  have hrun : e.step.status = .running := by decide +kernel
  have hback : (steps 1 e.step).status = .running ∧ (steps 1 e.step).depth = e.depth ∧
      e.step.depth ≠ e.depth := by decide +kernel
  have hframes : e.state.frames = [{
      script := ⟨#[0x51, 0x52, 0xE0, 1, 1, 3, 0, 0x66], #[]⟩
      cursor := 2
      eval := [.integer (.small 2), .integer (.small 1)] }] := by decide +kernel
  obtain ⟨callee, caller, hcall, ⟨-, -, -, heval, hcount⟩, -, hreturn⟩ :=
    call_frames_isolated hhost hframes (show fetch _ = .ok .callI by decide +kernel) trivial hrun
  refine ⟨⟨by decide +kernel, hrun, hback⟩, callee, caller, hcall, heval, hcount, ?_⟩
  refine hreturn 0 hback.1 hback.2.1 fun m hm _ => ?_
  obtain rfl : m = 0 := Nat.le_zero.1 hm
  exact hback.2.2

end Engine

end ScriptMachine
