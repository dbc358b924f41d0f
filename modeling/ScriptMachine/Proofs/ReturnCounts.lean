import ScriptMachine.Proofs.CallFrames

/-! # Declared return counts

A call with announced counts declares how many items its callee returns. The count is kept in the frame of
the callee, which may be replaced before it returns: by a tail call with announced counts, which has to
announce the same number, or by a tail call without counts, which returns all that there is. The declared
number is returned unless the latter happens.

* `Engine.LoaderKeepsCounts`: loaders that load scripts with the return count they are asked for.
* `Engine.callExternal_counts`, `Engine.ret_counts`: where the count is set and where it is checked.
* `Engine.Owes`: the frame inside of the given ones has to return a number of items.
* `Engine.step_counts`, `Engine.Owes.steps`: what one step and many steps do to it.
* `Engine.isolated_call_returns_count`, `Engine.tail_call_returns_more`: the contract and its exception.
-/

namespace ScriptMachine

/-- The request loads a script with the given return count, or takes a note. -/
def HostCall.LoadsWith (returnCount : Int) : HostCall → Prop
  | .loadScript _ count => count = returnCount
  | .note _ => True
  | _ => False

/-- The loader of the engine, if there is one, only loads scripts, with the return count it is asked for. -/
def Engine.LoaderKeepsCounts (e : Engine) : Prop :=
  ∀ loader, e.loader = some loader → ∀ hash dynamic returnCount,
    (loader hash dynamic returnCount).Makes (HostCall.LoadsWith returnCount) False

/-- The calls that announce counts and leave their frame in place. -/
def OpCode.Isolates : OpCode → Prop
  | .callI | .callE | .callED => True
  | _ => False

/-! ## Loaded frames -/

/-- Frames with the given return count were pushed on `fs`. -/
def Pushed (returnCount : Int) (fs : List Frame) (s : State) : Prop :=
  ∃ pushed, s.frames = pushed ++ fs ∧ ∀ g ∈ pushed, g.returnCount = returnCount

variable {s : State} {fs outer base : List Frame} {f f₀ : Frame} {returnCount : Int}

/-- A frame for a loaded script has the return count that is asked for. -/
theorem Pushed.loadCached (h : Pushed returnCount fs s) (index : Nat) :
    Pushed returnCount fs (s.loadCached index returnCount).2 := by
  obtain ⟨g, -, hg, -, hload⟩ | ⟨cause, hload⟩ := s.loadCached_cases index returnCount
  · obtain ⟨pushed, hframes, hcounts⟩ := h
    have hpushed : (s.setFrames (g :: s.frames)).frames = g :: pushed ++ fs := by
      rw [List.cons_append, ← hframes]
      rfl
    rw [hload]
    exact ⟨g :: pushed, hpushed, List.forall_mem_cons.2 ⟨hg, hcounts⟩⟩
  · rw [hload]
    exact h

/-- A request of a loader that keeps counts. -/
theorem Pushed.perform {call : HostCall} (hcall : call.LoadsWith returnCount)
    (h : Pushed returnCount fs s) : Pushed returnCount fs (call.perform s).2 := by
  cases call with
  | loadScript body count =>
    obtain rfl : count = returnCount := hcall
    obtain ⟨scripts, index, hload⟩ := s.loadScript_state body count
    have hscripts : Pushed count fs { s with session := { s.session with scripts } } := h
    rw [HostCall.perform_loadScript, hload]
    exact hscripts.loadCached index
  | note text => exact h
  | _ => exact hcall.elim

namespace Engine

variable {e e₀ : Engine} {nested : Engine → Engine}

/-- **A frame that is pushed for a hash has the return count that is asked for**, whether its script was
loaded before or comes from the loader. -/
theorem loadByHash_counts (hloader : e₀.LoaderKeepsCounts) (fs : List Frame) (hash : Bytes)
    (dynamic : Bool) :
    Leads (e₀.StateIn (·.frames = fs)) (loadByHash nested hash dynamic returnCount)
      (fun _ e => ∃ g : Frame, g.returnCount = returnCount ∧ e.state.frames = g :: fs)
      (fun _ => True) := by
  -- Exactly one frame is pushed, and all pushed frames have the return count.
  have hsingle : ∀ t : State, Pushed returnCount fs t → t.frames.length = fs.length + 1 →
      ∃ g : Frame, g.returnCount = returnCount ∧ t.frames = g :: fs := by
    rintro t ⟨pushed, hframes, hcounts⟩ hlength
    rw [hframes, List.length_append] at hlength
    obtain ⟨g, rfl⟩ := List.length_eq_one_iff.1 (by omega : pushed.length = 1)
    exact ⟨g, hcounts g List.mem_cons_self, hframes⟩
  unfold loadByHash
  refine Leads.reads ?_
  rintro e ⟨s, rfl, hs⟩
  have hnone : Pushed returnCount fs s := ⟨[], hs, fun _ hg => absurd hg List.not_mem_nil⟩
  dsimp only
  split
  · rename_i index _
    obtain ⟨g, -, hg, -, hload⟩ | ⟨cause, hload⟩ := s.loadCached_cases index returnCount
    · rw [hload]
      rintro e rfl
      exact ⟨g, hg, by rw [← hs]; rfl⟩
    · rw [hload]
      exact fun _ _ => trivial
  · split
    · exact Leads.throws fun _ _ => trivial
    · rename_i loader hsome
      have hrun : Pushed returnCount fs (runProgram nested (loader hash dynamic returnCount)
          { e₀ with state := s, loader := none }).2.state :=
        runProgram_keeps (I := fun e => Pushed returnCount fs e.state)
          (fun call e hcall he => Pushed.perform hcall he) False.elim False.elim
          (hloader loader hsome hash dynamic returnCount) hnone
      revert hrun
      rcases runProgram nested (loader hash dynamic returnCount)
        { e₀ with state := s, loader := none } with ⟨ok, e'⟩
      intro hrun
      refine (Leads.writes (A := fun _ e => e.state = e'.state) fun _ _ => ?_).seq fun _ => ?_
      · dsimp only
        split <;> rfl
      refine Leads.guarded (fun _ _ => trivial) fun _ => ?_
      refine Leads.branch (fun _ => Leads.throws fun _ _ => trivial) fun hcount => Leads.returns ?_
      intro e he
      rw [he]
      exact hsingle _ hrun (by rw [← hs]; simpa using hcount)

/-! ## Calls and returns -/

/-- A computation of the innermost frame, run on an engine, as far as it returns. -/
theorem onFrame_returns (e₀ : Engine) (outer : List Frame) {α : Type} {m : FrameM α}
    {A : α → Frame → Prop} {E : Frame → Prop} (hm : Leads (· = f₀) m A E) :
    Leads (e₀.StateIn (·.frames = f₀ :: outer)) (onFrame m)
      (fun a => e₀.StateIn fun s => ∃ f, A a f ∧ s.frames = f :: outer) (fun _ => True) := by
  rintro e ⟨s, rfl, hs⟩
  have hrun := hm f₀ rfl
  unfold onFrame
  rw [run_onState, Exec.run_onFrame_cons m hs]
  revert hrun
  rcases m.run f₀ with ⟨_ | a, f⟩
  · exact fun _ => trivial
  · exact fun ha => ⟨_, rfl, f, ha, rfl⟩

/-- Moving arguments changes the evaluation stacks of the two innermost frames only. -/
theorem moveArguments_counts (callee caller : Frame) (outer : List Frame) (count : Option Nat) :
    Leads (fun e : Engine => e.state.frames = callee :: caller :: outer)
      (onState (Instructions.moveArguments count))
      (fun _ e => ∃ top rest, e.state.frames = { callee with eval := top } ::
        { caller with eval := rest } :: outer) (fun _ => True) := by
  intro e he
  have hstart : WithFrames e.state (callee :: caller :: outer) e.state := he ▸ WithFrames.refl e.state
  have hrun := Instructions.moveArguments_leads count e.state hstart
  rw [run_onState]
  revert hrun
  rcases (Instructions.moveArguments count).run e.state with ⟨_ | _, t⟩
  · exact fun _ => trivial
  · rintro ⟨top, rest, -, -, ht⟩
    exact ⟨_, _, ht.frames⟩

/-- **A call by hash with announced counts** pushes a frame with the announced return count. Its tail form
takes the place of a frame that had the same count. -/
theorem callExternal_counts (hloader : e₀.LoaderKeepsCounts) (hframes : e₀.state.frames = f₀ :: outer)
    (i : Instruction) :
    Leads (· = e₀) (callExternal nested i)
      (fun _ e => ∃ (r : UInt8) (callee : Frame), f₀.script.byte? f₀.cursor = some r ∧
        callee.returnCount = r.toNat ∧
        if (i.op = .callET || i.op = .callEDT) = true then
          f₀.returnCount = r.toNat ∧ e.state.frames = callee :: outer
        else ∃ caller, caller.returnCount = f₀.returnCount ∧ e.state.frames = callee :: caller :: outer)
      (fun _ => True) := by
  unfold callExternal
  generalize (decide (i.op = .callED) || decide (i.op = .callEDT)) = dynamic
  generalize (decide (i.op = .callET) || decide (i.op = .callEDT)) = tail
  have hoperands := @externalOperands_leads f₀ dynamic tail
  refine ((onFrame_returns e₀ outer hoperands).starts ?_).seq ?_
  · rintro e rfl
    exact ⟨e.state, rfl, hframes⟩
  rintro ⟨hash, _, parameterCount⟩
  refine Leads.each ?_
  rintro e ⟨s, rfl, f, ⟨hf, ⟨r, hr, rfl, htail⟩, -⟩, hs⟩
  refine ((loadByHash_counts hloader (f :: outer) hash dynamic).starts ?_).seq fun _ => Leads.each ?_
  · rintro e rfl
    exact ⟨s, rfl, hs⟩
  rintro e ⟨callee, hcallee, hpushed⟩
  refine ((moveArguments_counts callee f outer (some parameterCount)).starts ?_).seq fun _ => Leads.each ?_
  · rintro e rfl
    exact hpushed
  rintro e ⟨top, rest, hmoved⟩
  refine Leads.branch (fun h => ?_) (fun h => ?_)
  · -- The frame below the new one is taken out, and with it the count that was compared.
    rintro e rfl
    rw [run_onState]
    refine ⟨r, { callee with eval := top }, hr, hcallee, ?_⟩
    rw [if_pos h]
    refine ⟨htail h, ?_⟩
    show e.state.frames.eraseIdx 1 = _
    rw [hmoved]
    rfl
  · refine Leads.returns ?_
    rintro e rfl
    refine ⟨r, { callee with eval := top }, hr, hcallee, ?_⟩
    rw [if_neg h]
    exact ⟨{ f with eval := rest }, hf.returnCount, hmoved⟩

/-- **A return that succeeds has been checked**, and resumes the caller. -/
theorem ret_counts {caller : Frame} {rest : List Frame} (hframes : s.frames = f :: caller :: rest) :
    Leads (· = s) Instructions.ret
      (fun _ t => Instructions.checkReturn f = .ok () ∧ t.frames = f.resume caller :: rest)
      (fun _ => True) := by
  unfold Instructions.ret
  refine Leads.reads ?_
  rintro s rfl
  rw [hframes]
  refine (Leads.writes (A := fun _ _ => True) fun _ _ => trivial).seq fun _ => ?_
  refine (Leads.result (A := fun _ _ => Instructions.checkReturn f = .ok ()) ?_ fun _ _ => trivial).seq
    fun _ => ?_
  · exact fun _ hcheck _ _ => hcheck
  · exact Leads.writes fun _ hcheck => ⟨hcheck, rfl⟩

/-! ## One step -/

/-- The frame inside of the given ones, below all frames that it has called, has to return a number of
items. -/
def Owes (count : Int) (base : List Frame) (e : Engine) : Prop :=
  ∃ inner g, e.state.frames = inner ++ g :: base ∧ g.returnCount = count

section

variable {caller : Frame} {rest : List Frame} {i : Instruction} (hhost : e₀.HostOnlyLoads)
  (hloader : e₀.LoaderKeepsCounts) (hframes : e₀.state.frames = f₀ :: caller :: rest)
include hhost hloader hframes

/-- **What an opcode does to the return count of its frame**: the frame, or the one that takes its place,
still has it, or it was checked and the frame is gone. The tail call without counts is left out. -/
theorem perform_counts {op : OpCode} (hi : i.op = op) (htail : op ≠ .tailCall) :
    Leads (· = e₀) (perform nested op i)
      (fun _ e => Owes f₀.returnCount (caller :: rest) e ∨
        Instructions.checkReturn f₀ = .ok () ∧ e.state.frames = f₀.resume caller :: rest)
      (fun _ => True) := by
  have hheap := Policy.all_allowsHeap e₀.state.heap
  have heval := Policy.all_allowsItems f₀.eval
  have halt := Policy.all_allowsItems f₀.alt
  have hstart : ∀ e, e = e₀ → e₀.StateIn (WithFrames e₀.state (f₀ :: caller :: rest)) e := by
    rintro e rfl
    exact ⟨e.state, rfl, hframes ▸ WithFrames.refl e.state⟩
  have hnothing : ∀ e, e₀.StateIn (Inside .all e₀.state f₀ (caller :: rest)) e → True :=
    fun _ _ => trivial
  -- A call leaves its own frame below the new one; any other opcode changes its frame at most.
  have hentered : ∀ {k : Nat} {callee left : Frame} {s : State},
      Entered e₀.state f₀ (caller :: rest) k callee left s →
      Owes f₀.returnCount (caller :: rest) { e₀ with state := s } :=
    fun h => ⟨[_], _, h.frames.frames, h.returnCount⟩
  have hchanged : ∀ {s : State}, StateChange .all e₀.state s →
      Owes f₀.returnCount (caller :: rest) { e₀ with state := s } := by
    intro s hs
    have hchange := hs.frames
    rw [hframes] at hchange
    generalize hfs : s.frames = fs at hchange
    cases hchange with
    | top hf => exact ⟨[], _, hfs, hf.returnCount⟩
  have hkept : ∀ {m : Run Unit}, Keeps (e₀.StateIn (StateChange .all e₀.state)) m (fun _ => True) →
      Leads (· = e₀) m (fun _ e => Owes f₀.returnCount (caller :: rest) e ∨
        Instructions.checkReturn f₀ = .ok () ∧ e.state.frames = f₀.resume caller :: rest)
        (fun _ => True) := by
    intro m hm
    have hrefl : StateChange .all e₀.state e₀.state :=
      StateChange.refl hheap fun _ _ => ⟨Policy.all_allowsItems _, Policy.all_allowsItems _⟩
    refine (hm.leads ⟨_, rfl, hrefl⟩).ends ?_ (fun _ _ => trivial)
    rintro _ e ⟨⟨s, rfl, hs⟩, -⟩
    exact Or.inl (hchanged hs)
  by_cases hop : op.Transfers
  · unfold perform
    cases op with
    | call =>
      refine ((Instructions.call_leads hframes hheap heval halt hi).onState e₀).weaken hstart ?_ hnothing
      rintro _ e ⟨s, rfl, callee, left, h, -⟩
      exact Or.inl (hentered h)
    | ret =>
      refine ((ret_counts hframes).onState e₀).weaken ?_ ?_ fun _ _ => trivial
      · rintro e rfl
        exact ⟨e.state, rfl, rfl⟩
      · rintro _ e ⟨s, rfl, hchecked⟩
        exact Or.inr hchecked
    | callI =>
      refine ((Instructions.callIsolated_leads hframes hheap heval halt i).onState e₀).weaken hstart ?_
        hnothing
      rintro _ e ⟨s, rfl, callee, left, h, -⟩
      exact Or.inl (hentered h)
    | appCall =>
      refine (appCall_leads hhost.loader hframes hheap heval halt nested i).weaken hstart ?_ hnothing
      rintro _ e ⟨s, rfl, -, h⟩
      obtain ⟨callee, left, h, -⟩ := h (by rw [hi]; decide)
      exact Or.inl (hentered h)
    | tailCall => exact absurd rfl htail
    | sysCall => exact hkept (sysCall_keeps hhost.interop)
    | callE | callED =>
      refine (callExternal_leads hhost.loader hframes hheap heval halt nested i).weaken hstart ?_ hnothing
      rintro _ e ⟨s, rfl, -, h⟩
      obtain ⟨callee, left, h, -⟩ := h (by rw [hi]; decide)
      exact Or.inl (hentered h)
    | callET | callEDT =>
      refine (callExternal_counts hloader hframes i).ends ?_ fun _ h => h
      rintro _ e ⟨r, callee, -, hcallee, h⟩
      rw [if_pos (by rw [hi]; decide)] at h
      exact Or.inl ⟨[], callee, h.2, hcallee.trans h.1.symm⟩
    | _ => exact hop.elim
  · exact hkept (perform_keeps (Policy.all_admits _ _) hop fun _ _ _ _ => trivial)

/-- **What a step does to the return count of its frame**, if it leaves the machine running and does not
carry out a tail call without counts. -/
theorem step_counts (hrun : e₀.step.status = .running) (htail : fetch f₀ ≠ .ok .tailCall) :
    Owes f₀.returnCount (caller :: rest) e₀.step ∨
      Instructions.checkReturn f₀ = .ok () ∧ e₀.step.state.frames = f₀.resume caller :: rest := by
  obtain ⟨op, total, hfetch, hperform⟩ := step_performed hhost.table hframes hrun
  have hop : op ≠ .tailCall := fun h => htail (h ▸ hfetch)
  -- The instruction starts in the charged state, whose frame has the same return count and items.
  have hcharged : ({ e₀ with state := e₀.state.charge total f₀ (caller :: rest) } : Engine).HostOnlyLoads :=
    ⟨hhost.table, hhost.interop, hhost.loader⟩
  exact (perform_counts hcharged hloader rfl (i := ⟨op, f₀.cursor⟩) rfl hop).returned rfl hperform

end

/-- **One step of a callee** leaves its return count owed, or was its return. -/
theorem Owes.step {caller : Frame} {rest : List Frame} {count : Int} (hhost : e.HostOnlyLoads)
    (hloader : e.LoaderKeepsCounts) (h : Owes count (caller :: rest) e)
    (hrun : e.step.status = .running)
    (htail : ∀ g, e.state.frames = g :: caller :: rest → fetch g ≠ .ok .tailCall) :
    Owes count (caller :: rest) e.step ∨
    ∃ returned, e.state.frames = returned :: caller :: rest ∧ returned.returnCount = count ∧
      Instructions.checkReturn returned = .ok () ∧
      e.step.state.frames = returned.resume caller :: rest := by
  obtain ⟨inner, g, hframes, rfl⟩ := h
  cases inner with
  | nil =>
    obtain howes | ⟨hcheck, hresumed⟩ := step_counts hhost hloader hframes hrun (htail g hframes)
    · exact Or.inl howes
    · exact Or.inr ⟨g, hframes, rfl, hcheck, hresumed⟩
  | cons top inner =>
    -- The step happens in a frame further inside, and `g` is one of the frames outside of it.
    left
    rw [List.cons_append] at hframes
    obtain ⟨inner', -, hinner'⟩ | ⟨hend, -⟩ | ⟨next, rest', houter, hresumed⟩ :=
      step_frames hhost (running_of_step hrun) hframes
    · exact ⟨inner' ++ inner, g, by rw [hinner', List.append_assoc], rfl⟩
    · exact absurd hrun hend
    · cases inner with
      | nil =>
        cases houter
        exact ⟨[], _, hresumed, rfl⟩
      | cons next inner =>
        rw [List.cons_append] at houter
        cases houter
        exact ⟨_ :: inner, g, hresumed, rfl⟩

/-! ## Runs -/

/-- A step leaves the loader alone. -/
theorem LoaderKeepsCounts.step (hhost : e.HostOnlyLoads) (hloader : e.LoaderKeepsCounts) :
    e.step.LoaderKeepsCounts := by
  rw [step_eq_setState hhost]
  exact hloader

/-- Steps leave the loader alone. -/
theorem LoaderKeepsCounts.steps (hhost : e.HostOnlyLoads) (hloader : e.LoaderKeepsCounts) (n : Nat) :
    (Engine.steps n e).LoaderKeepsCounts :=
  (steps_keeps (P := fun e => e.HostOnlyLoads ∧ e.LoaderKeepsCounts)
    (fun _ h => ⟨h.1.step, h.2.step h.1⟩) ⟨hhost, hloader⟩ n).2

/-- **A run of a callee leaves its return count owed** until it is back in the caller. -/
theorem Owes.steps {caller : Frame} {rest : List Frame} {count : Int} (hhost : e.HostOnlyLoads)
    (hloader : e.LoaderKeepsCounts) (h : Owes count (caller :: rest) e) {n : Nat}
    (hrun : (Engine.steps n e).status = .running)
    (hfirst : ∀ m ≤ n, (Engine.steps m e).status = .running →
      (Engine.steps m e).depth ≠ rest.length + 1)
    (htail : ∀ m < n, ∀ g, (Engine.steps m e).state.frames = g :: caller :: rest →
      fetch g ≠ .ok .tailCall) :
    Owes count (caller :: rest) (Engine.steps n e) := by
  induction n with
  | zero => exact h
  | succ n ih =>
    have hbefore := running_of_steps (Nat.le_succ n) hrun
    have hn := ih hbefore (fun m hm => hfirst m (Nat.le_succ_of_le hm))
      fun m hm => htail m (Nat.lt_succ_of_lt hm)
    have hlast := hfirst (n + 1) (Nat.le_refl _) hrun
    rw [steps_succ] at hrun hlast ⊢
    obtain howes | ⟨_, -, -, -, hresumed⟩ := hn.step (hhost.steps n) (hloader.steps hhost n) hrun
      (htail n (Nat.lt_succ_self n))
    · exact howes
    · exact absurd (congrArg List.length hresumed) hlast

/-! ## The contract -/

/-- A step that calls with announced counts and still runs has pushed a frame that has to return as many
items as the first count byte says. -/
theorem step_isolates (hhost : e.HostOnlyLoads) (hloader : e.LoaderKeepsCounts)
    (hframes : e.state.frames = f :: outer) {op : OpCode} (hfetch : fetch f = .ok op)
    (hop : op.Isolates) (hrun : e.step.status = .running) :
    ∃ (r : UInt8) (callee caller : Frame), f.script.byte? (f.cursor + 1) = some r ∧
      callee.returnCount = r.toNat ∧ e.step.state.frames = callee :: caller :: outer := by
  obtain ⟨op', total, hfetch', hperform⟩ := step_performed hhost.table hframes hrun
  obtain rfl : op = op' := Except.ok.inj (hfetch.symm.trans hfetch')
  -- An opcode that calls stands in the script, so that its operands follow it.
  have hcursor : f.advance.cursor = f.cursor + 1 := by
    unfold Frame.advance
    refine if_pos ?_
    unfold fetch at hfetch
    cases hbyte : f.currentByte? with
    | none =>
      rw [hbyte] at hfetch
      cases hfetch
      exact hop.elim
    | some byte => rfl
  rw [← hcursor]
  show ∃ (r : UInt8) (callee caller : Frame), f.advance.script.byte? f.advance.cursor = some r ∧ _
  have hcharged : (e.state.charge total f outer).frames = f.advance :: outer := rfl
  unfold perform at hperform
  cases op with
  | callI =>
    have hcall := Instructions.callIsolated_leads hcharged (Policy.all_allowsHeap _)
      (Policy.all_allowsItems _) (Policy.all_allowsItems _) ⟨.callI, f.cursor⟩
    obtain ⟨s, hs, callee, caller, hentered, ⟨r, hr, hcallee⟩, -⟩ :=
      (hcall.onState { e with state := e.state.charge total f outer }).returned
        ⟨_, rfl, WithFrames.refl _⟩ hperform
    rw [hs]
    exact ⟨r, callee, caller, hr, hcallee, hentered.frames.frames⟩
  | callE | callED =>
    have hcounts : ({ e with state := e.state.charge total f outer } : Engine).LoaderKeepsCounts := hloader
    obtain ⟨r, callee, hr, hcallee, hplace⟩ := (callExternal_counts hcounts hcharged _).returned rfl hperform
    rw [if_neg (by simp)] at hplace
    obtain ⟨caller, -, hplace⟩ := hplace
    exact ⟨r, callee, caller, hr, hcallee, hplace⟩
  | _ => exact hop.elim

/-- A frame that has passed the check of its return has as many items as it declares. -/
theorem checkReturn_length {n : Nat} (hcount : f.returnCount = n)
    (hcheck : Instructions.checkReturn f = .ok ()) : f.eval.length = n := by
  unfold Instructions.checkReturn at hcheck
  rw [hcount, if_neg, if_neg] at hcheck
  · by_contra hne
    rw [if_pos] at hcheck
    · cases hcheck
    · simpa using hne
  · omega
  · rw [beq_iff_eq, returnAll]
    omega

/-- **A call with announced counts returns as many items as it declares**, unless a tail call without counts
takes the place of its callee. When a step calls from frame `f` with announced counts and the machine still
runs, then at the first later step with which the machine runs on in the caller, after any run of the callee
with nested calls and tail calls, the caller has exactly its items after the call and the declared number on
top of them, its alternative stack is the same, and so is all else of it. -/
theorem isolated_call_returns_count {e : Engine} (hhost : e.HostOnlyLoads)
    (hloader : e.LoaderKeepsCounts) {f : Frame} {outer : List Frame}
    (hframes : e.state.frames = f :: outer) {op : OpCode} (hfetch : fetch f = .ok op)
    (hop : op.Isolates) (hrun : e.step.status = .running) :
    ∃ (rv : UInt8) (callee caller : Frame), f.script.byte? (f.cursor + 1) = some rv ∧
      e.step.state.frames = callee :: caller :: outer ∧
      ∀ n, (steps (n + 1) e.step).status = .running → (steps (n + 1) e.step).depth = e.depth →
        (∀ m ≤ n, (steps m e.step).status = .running → (steps m e.step).depth ≠ e.depth) →
        (∀ m ≤ n, ∀ g, (steps m e.step).state.frames = g :: caller :: outer →
          fetch g ≠ .ok .tailCall) →
        ∃ items : Stack, items.length = rv.toNat ∧
          (steps (n + 1) e.step).state.frames = { caller with eval := items ++ caller.eval } :: outer := by
  obtain ⟨rv, callee, caller, hbyte, hcallee, hcalled⟩ :=
    step_isolates hhost hloader hframes hfetch hop hrun
  refine ⟨rv, callee, caller, hbyte, hcalled, fun n hlast hback hfirst htail => ?_⟩
  have hdepth : e.depth = outer.length + 1 := congrArg List.length hframes
  rw [hdepth] at hback hfirst
  rw [steps_succ] at hlast hback ⊢
  have hhost' := hhost.step.steps n
  have hloader' := (hloader.step hhost).steps hhost.step n
  have howes : Owes rv.toNat (caller :: outer) e.step := ⟨[], callee, hcalled, hcallee⟩
  have hn := howes.steps hhost.step (hloader.step hhost) (running_of_step hlast) hfirst
    fun m hm => htail m (Nat.le_of_lt hm)
  obtain ⟨inner, g, hstill, -⟩ | ⟨returned, hbefore, hcount, hcheck, hafter⟩ :=
    hn.step hhost' hloader' hlast (htail n (Nat.le_refl n))
  · -- The callee has not returned, so that there are too many frames.
    have hlength : (steps n e.step).step.depth = (inner ++ g :: caller :: outer).length :=
      congrArg List.length hstill
    rw [List.length_append, List.length_cons, List.length_cons] at hlength
    omega
  · refine ⟨returned.eval, checkReturn_length hcount hcheck, ?_⟩
    have hkeepsAlt : ¬ (returned.returnCount == returnAll) = true := by
      rw [hcount, beq_iff_eq, returnAll]
      omega
    rw [hafter, Frame.resume, if_neg hkeepsAlt]
    rfl

/-- A call that declares one item, from its start to its return. -/
theorem isolated_call_returns_count_one :
    let digests : CryptoSuite :=
      { sha1 := fun _ => #[], sha256 := fun _ => #[], hash160 := fun _ => #[], hash256 := fun _ => #[]
        verify := fun _ _ _ => false }
    let e := ((Engine.new .default digests).modifyState fun s =>
      (s.loadScript #[0x51, 0x52, 0xE0, 1, 1, 3, 0, 0x66] returnAll).2).step.step
    (e.status = .running ∧ e.step.status = .running ∧ (steps 1 e.step).status = .running ∧
      (steps 1 e.step).depth = e.depth ∧ e.step.depth ≠ e.depth) ∧
    ∃ (callee caller : Frame), e.step.state.frames = [callee, caller] ∧
      ∃ items : Stack, items.length = 1 ∧
        (steps 1 e.step).state.frames = [{ caller with eval := items ++ caller.eval }] := by
  intro digests e
  have hnew : ((Engine.new .default digests).modifyState fun s =>
      (s.loadScript #[0x51, 0x52, 0xE0, 1, 1, 3, 0, 0x66] returnAll).2).HostOnlyLoads :=
    ⟨rfl, rfl, fun _ h => by cases h⟩
  have hhost : e.HostOnlyLoads := hnew.step.step
  have hloader : e.LoaderKeepsCounts := by
    refine LoaderKeepsCounts.step hnew.step (LoaderKeepsCounts.step hnew ?_)
    exact fun _ h => by cases h
  have hrun : e.step.status = .running := by decide +kernel
  have hback : (steps 1 e.step).status = .running ∧ (steps 1 e.step).depth = e.depth ∧
      e.step.depth ≠ e.depth := by decide +kernel
  have hframes : e.state.frames = [{
      script := ⟨#[0x51, 0x52, 0xE0, 1, 1, 3, 0, 0x66], #[]⟩
      cursor := 2
      eval := [.integer (.small 2), .integer (.small 1)] }] := by decide +kernel
  obtain ⟨rv, callee, caller, hrv, hcall, hreturn⟩ := isolated_call_returns_count hhost hloader hframes
    (show fetch _ = .ok .callI by decide +kernel) trivial hrun
  obtain rfl : 1 = rv := Option.some.inj hrv
  refine ⟨⟨by decide +kernel, hrun, hback⟩, callee, caller, hcall, ?_⟩
  refine hreturn 0 hback.1 hback.2.1 (fun m hm _ => ?_) fun m hm g hg => ?_
  · obtain rfl : m = 0 := Nat.le_zero.1 hm
    exact hback.2.2
  · -- The callee stands at the end of the script, where a return is fetched.
    obtain rfl : m = 0 := Nat.le_zero.1 hm
    have hret : (e.step.state.frames.head?.map fun g => fetch g) = some (.ok .ret) := by decide +kernel
    have hg' : e.step.state.frames = _ := hg
    rw [hg'] at hret
    intro h
    rw [List.head?_cons, Option.map_some, h] at hret
    cases hret

/-- **A tail call without counts does not honour the count of the frame it replaces.** A call declares that it
returns nothing; its callee makes a tail call to a script that leaves one item on each stack, and both come
back to the caller. -/
theorem tail_call_returns_more :
    let digests : CryptoSuite :=
      { sha1 := fun _ => #[], sha256 := fun _ => #[], hash256 := fun _ => #[]
        hash160 := fun data => Array.replicate 20 (UInt8.ofNat data.size)
        verify := fun _ _ _ => false }
    let e : Engine :=
      { state := ((State.new .default digests).loadScript
          (#[0xE0, 0, 0, 4, 0, 0x66, 0x69] ++ Array.replicate 20 3) returnAll).2
        loader := some fun _ _ returnCount =>
          .request (.loadScript #[0x51, 0x52, 0x6B] returnCount) fun _ => .answer true }
    e.HostOnlyLoads ∧ e.LoaderKeepsCounts ∧
    (e.state.frames.map fun f => (fetch f, f.script.byte? (f.cursor + 1))) = [(.ok .callI, some 0)] ∧
    e.step.status = .running ∧
    (e.step.state.frames.tail.map fun f => (f.eval, f.alt)) = [([], [])] ∧
    (∀ m ≤ 4, (steps m e.step).depth ≠ e.depth) ∧
    (steps 5 e.step).status = .running ∧ (steps 5 e.step).depth = e.depth ∧
    ((steps 5 e.step).state.frames.map fun f => (f.eval, f.alt)) =
      [([.integer (.small 1)], [.integer (.small 2)])] := by
  intro digests e
  refine ⟨⟨rfl, rfl, ?_⟩, ?_, ?_⟩
  · rintro _ ⟨⟩ hash dynamic returnCount
    exact ⟨trivial, fun _ => trivial⟩
  · rintro _ ⟨⟩ hash dynamic returnCount
    exact ⟨rfl, fun _ => trivial⟩
  · decide +kernel

end Engine

end ScriptMachine
