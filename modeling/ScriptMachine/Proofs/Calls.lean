import ScriptMachine.Proofs.Callbacks
import ScriptMachine.Proofs.Operands
import ScriptMachine.Proofs.StateChange

/-! # What calls and returns do to the frames

A call pushes a frame, moves arguments to it, and in its tail form takes out the calling frame; a return
takes off the innermost frame and hands its items over. None of them looks further than one frame below
the innermost one.

* `WithFrames`: only the frames, the loaded scripts and the journal differ.
* `Inside`, `Outcome`: what one instruction may do to the frames. The frames outside of the one that runs
  stay as they are, except that a return resumes the next one.
* `Entered`: a call that succeeded, with the items that it moved.
* `Instructions.call_leads`, `Engine.loadByHash_leads`, `Engine.callExternal_leads` and so on: the calls.
-/

namespace ScriptMachine

/-- Only the frames, which are `fs`, the loaded scripts and the journal may differ from `s₀`. -/
def WithFrames (s₀ : State) (fs : List Frame) (s : State) : Prop :=
  s = { s₀ with
    journal := s.journal
    session := { s₀.session with
      calls := { s₀.session.calls with frames := fs }
      scripts := s.session.scripts } }

namespace WithFrames

variable {s₀ s : State} {fs gs : List Frame}

/-- A state differs from itself in nothing. -/
theorem refl (s : State) : WithFrames s s.frames s := rfl

/-- The frames. -/
theorem frames (h : WithFrames s₀ fs s) : s.frames = fs := by
  rw [h]
  rfl

/-- The greatest number of frames is the same. -/
theorem maxDepth (h : WithFrames s₀ fs s) :
    s.session.calls.maxDepth = s₀.session.calls.maxDepth := by
  rw [h]

/-- Other frames. -/
theorem setFrames (h : WithFrames s₀ fs s) (gs : List Frame) :
    WithFrames s₀ gs (s.setFrames gs) := by
  unfold WithFrames
  rw [h]
  rfl

end WithFrames

/-! ## Outcomes of instructions -/

/-- A frame that an instruction in `f₀` may leave or push: its stacks hold allowed items, and its cursor
is inside of its script if the one of `f₀` was. -/
structure FrameAfter (p : Policy) (f₀ g : Frame) : Prop where
  /-- The evaluation stack holds allowed items. -/
  eval : p.AllowsItems g.eval
  /-- The alternative stack holds allowed items. -/
  alt : p.AllowsItems g.alt
  /-- The cursor is inside of the script. -/
  cursor : f₀.cursor ≤ f₀.script.length → g.cursor ≤ g.script.length

/-- The instruction in frame `f₀` left the outer frames alone: there are frames inside of them, and of the
rest of the state only objects, scripts, tracked containers and the journal may differ. -/
structure Inside (p : Policy) (s₀ : State) (f₀ : Frame) (outer : List Frame) (s : State) : Prop where
  /-- The bounds are the same. -/
  limits : s.limits = s₀.limits
  /-- The cryptography is the same. -/
  crypto : s.crypto = s₀.crypto
  /-- The greatest number of frames is the same. -/
  maxDepth : s.session.calls.maxDepth = s₀.session.calls.maxDepth
  /-- The status is the same. -/
  status : s.session.status = s₀.session.status
  /-- The results are the same. -/
  results : s.session.results = s₀.session.results
  /-- The objects are allowed. -/
  heap : p.AllowsHeap s.heap
  /-- The outer frames are the same, and the frames inside of them are allowed. -/
  frames : ∃ inner, inner ≠ [] ∧ s.frames = inner ++ outer ∧ ∀ g ∈ inner, FrameAfter p f₀ g
  /-- There is room for the frames. -/
  depth : s₀.frames.length ≤ s₀.session.calls.maxDepth →
    s.frames.length ≤ s₀.session.calls.maxDepth

/-- The caller after `f` has returned to it. -/
def Frame.resume (f caller : Frame) : Frame :=
  { caller with
    eval := caller.eval.pushAll f.eval
    alt := if f.returnCount == returnAll then caller.alt.pushAll f.alt else caller.alt }

/-- The hash that stands in the script at the cursor. -/
def Frame.operandHash (f : Frame) : Bytes :=
  f.script.body.extract f.cursor (f.cursor + Script.hashSize)

/-- The opcodes that push a frame on their own one. -/
def OpCode.Calls : OpCode → Prop
  | .call | .callI | .callE | .callED | .appCall => True
  | _ => False

/-- How many items a call pops before it moves arguments: the hash, if that comes from the stack. The
cursor is at the operands of the call. -/
def Frame.popsFor (f : Frame) : OpCode → Nat
  | .callED => 1
  | .appCall => if f.operandHash.anyNonZero then 0 else 1
  | _ => 0

/-- How many items a call moves, if its operands say so. -/
def Frame.announces? (f : Frame) : OpCode → Option Nat
  | .callI | .callE | .callED => (f.script.byte? (f.cursor + 1)).map UInt8.toNat
  | _ => none

/-- All that an instruction in frame `f₀` can do to the frames; the flag says whether it succeeded. -/
inductive Outcome (p : Policy) (s₀ : State) (f₀ : Frame) (outer : List Frame) :
    Bool → State → Prop where
  /-- The outer frames are left alone. -/
  | inside {ok : Bool} {s : State} (h : Inside p s₀ f₀ outer s) : Outcome p s₀ f₀ outer ok s
  /-- A frame that must not return is gone. -/
  | refused {s : State} (h : WithFrames s₀ outer s) : Outcome p s₀ f₀ outer false s
  /-- The frame has returned to its caller. -/
  | resumed {caller : Frame} {rest : List Frame} (houter : outer = caller :: rest) :
    Outcome p s₀ f₀ outer true (s₀.setFrames (f₀.resume caller :: rest))
  /-- The last frame has returned. -/
  | finished (houter : outer = []) :
    Outcome p s₀ f₀ outer true
      ({ s₀.setFrames [] with
        session := { (s₀.setFrames []).session with
          results := s₀.session.results.pushAll f₀.eval } }.setStatus .halted)

variable {p : Policy} {s₀ s : State} {f₀ g : Frame} {outer : List Frame} {k : Nat}

/-- Frames that calls put inside of the outer ones. -/
theorem WithFrames.inside (inner : List Frame) (h : WithFrames s₀ (inner ++ outer) s)
    (hheap : p.AllowsHeap s₀.heap) (hne : inner ≠ []) (hinner : ∀ g ∈ inner, FrameAfter p f₀ g)
    (hdepth : s₀.frames.length ≤ s₀.session.calls.maxDepth →
      (inner ++ outer).length ≤ s₀.session.calls.maxDepth) : Inside p s₀ f₀ outer s := by
  have hframes := h.frames
  rw [h] at hframes ⊢
  exact ⟨rfl, rfl, rfl, rfl, rfl, hheap, ⟨inner, hne, hframes, hinner⟩, by rw [hframes]; exact hdepth⟩

/-- An instruction that neither calls nor returns leaves the outer frames alone. -/
theorem StateChange.inside (h : StateChange p s₀ s) (hframes : s₀.frames = f₀ :: outer) :
    Inside p s₀ f₀ outer s := by
  have hchange := h.frames
  rw [hframes] at hchange
  -- There is an innermost frame, so that the change of the frames is one of it.
  generalize hfs : s.frames = fs at hchange
  cases hchange with
  | top hf =>
    rename_i f
    have hafter : FrameAfter p f₀ f := ⟨hf.eval, hf.alt, fun hc => hf.script ▸ hf.cursor hc⟩
    refine ⟨by rw [h.ambient], by rw [h.ambient], by rw [h.ambient], by rw [h.ambient],
      by rw [h.ambient], h.heap, ⟨[f], List.cons_ne_nil _ _, hfs, ?_⟩, ?_⟩
    · simpa using hafter
    · rw [hfs, hframes]
      exact id

/-! ## Calls that succeeded -/

/-- A frame that was just pushed for a script. -/
structure Frame.Fresh (f : Frame) : Prop where
  /-- It starts at the beginning. -/
  cursor : f.cursor = 0
  /-- Its evaluation stack is empty. -/
  eval : f.eval = []
  /-- Its alternative stack is empty. -/
  alt : f.alt = []

/-- A call from frame `f₀` has pushed `callee` on what is left of `f₀`, the `caller`. The top `popped`
items of `f₀` are gone, and the others are divided among the two frames in their order. -/
structure Entered (s₀ : State) (f₀ : Frame) (outer : List Frame) (popped : Nat)
    (callee caller : Frame) (s : State) : Prop where
  /-- The two frames are inside of the outer ones. -/
  frames : WithFrames s₀ (callee :: caller :: outer) s
  /-- There was room for one more frame. -/
  room : outer.length + 2 ≤ s₀.session.calls.maxDepth
  /-- The caller runs the same script. -/
  script : caller.script = f₀.script
  /-- The caller returns as many items as before. -/
  returnCount : caller.returnCount = f₀.returnCount
  /-- The caller has its alternative stack, -/
  callerAlt : caller.alt = f₀.alt
  /-- and the callee has an empty one. -/
  calleeAlt : callee.alt = []
  /-- The items are divided. -/
  eval : callee.eval ++ caller.eval = f₀.eval.drop popped
  /-- The cursor of the caller is inside of its script. -/
  callerCursor : f₀.cursor ≤ f₀.script.length → caller.cursor ≤ caller.script.length
  /-- The cursor of the callee is inside of its script. -/
  calleeCursor : callee.cursor ≤ callee.script.length

/-- A call by the given opcode has pushed a frame and moved the items that it announces, or else all. -/
def Enters (op : OpCode) (s₀ : State) (f₀ : Frame) (outer : List Frame) (s : State) : Prop :=
  ∃ callee caller, Entered s₀ f₀ outer (f₀.popsFor op) callee caller s ∧
    match f₀.announces? op with
    | some n => callee.eval.length = n
    | none => caller.eval = []

/-- The items of the two frames of a call were allowed before. -/
theorem Entered.after {callee caller : Frame} (h : Entered s₀ f₀ outer k callee caller s)
    (heval : p.AllowsItems f₀.eval) (halt : p.AllowsItems f₀.alt) :
    FrameAfter p f₀ callee ∧ FrameAfter p f₀ caller := by
  have hboth : p.AllowsItems (callee.eval ++ caller.eval) := by
    rw [h.eval]
    exact heval.sublist (List.drop_sublist _ _)
  refine ⟨⟨hboth.sublist (List.sublist_append_left _ _), ?_, fun _ => h.calleeCursor⟩,
    ⟨hboth.sublist (List.sublist_append_right _ _), ?_, h.callerCursor⟩⟩
  · rw [h.calleeAlt]
    exact Policy.allowsItems_nil
  · rw [h.callerAlt]
    exact halt

/-- A call leaves the outer frames alone. -/
theorem Entered.inside {callee caller : Frame} (h : Entered s₀ f₀ outer k callee caller s)
    (hheap : p.AllowsHeap s₀.heap) (heval : p.AllowsItems f₀.eval) (halt : p.AllowsItems f₀.alt) :
    Inside p s₀ f₀ outer s := by
  obtain ⟨hcallee, hcaller⟩ := h.after heval halt
  refine WithFrames.inside [callee, caller] h.frames hheap (List.cons_ne_nil _ _) ?_ ?_
  · simp [hcallee, hcaller]
  · intro _
    simpa [Nat.add_assoc] using h.room

/-! ## Frames of a state -/

/-- A computation of the innermost frame, and what follows it from each frame that it may lead to. -/
theorem Leads.onFrame {α β : Type} {m : FrameM α} {next : α → Exec β} {A : α → Frame → Prop}
    {B : β → State → Prop} {E : Frame → Prop} {E' : State → Prop} (hm : Leads (· = g) m A E)
    (hfail : ∀ f s, E f → WithFrames s₀ (f :: outer) s → E' s)
    (hnext : ∀ a f, A a f → Leads (WithFrames s₀ (f :: outer)) (next a) B E') :
    Leads (WithFrames s₀ (g :: outer)) (Exec.onFrame m >>= next) B E' := by
  intro s hs
  have hrun := hm g rfl
  rw [run_seq, Exec.run_onFrame_cons m hs.frames]
  revert hrun
  rcases m.run g with ⟨_ | a, f⟩
  · exact fun hE => hfail f _ hE (hs.setFrames _)
  · exact fun hA => hnext a f hA _ (hs.setFrames _)

/-- What is left of the frame of an instruction that failed before it called. -/
theorem WithFrames.failed (h : WithFrames s₀ (g :: outer) s) (hframes : s₀.frames = f₀ :: outer)
    (hheap : p.AllowsHeap s₀.heap) (hg : FrameAfter p f₀ g) : Inside p s₀ f₀ outer s := by
  refine WithFrames.inside [g] h hheap (List.cons_ne_nil _ _) ?_ ?_
  · simpa using hg
  · rw [hframes]
    exact id

/-- A frame that consumed items is one that an instruction may leave. -/
theorem Consumed.after (h : Consumed k f₀ g) (heval : p.AllowsItems f₀.eval)
    (halt : p.AllowsItems f₀.alt) : FrameAfter p f₀ g := by
  have hg := h.frameChange heval halt
  exact ⟨hg.eval, hg.alt, fun hc => hg.script ▸ hg.cursor hc⟩

/-- Pushing a frame, if there is room. -/
theorem Instructions.pushFrame_leads (f : Frame) {fs : List Frame} :
    Leads (WithFrames s₀ fs) (pushFrame f)
      (fun _ s => WithFrames s₀ (f :: fs) s ∧ fs.length + 1 ≤ s₀.session.calls.maxDepth)
      (WithFrames s₀ fs) := by
  unfold pushFrame
  refine Leads.reads fun s hs => ?_
  have hfs : s.session.calls.frames = fs := hs.frames
  unfold CallStack.push
  split
  · rename_i hroom
    rintro t rfl
    refine ⟨?_, ?_⟩
    · show WithFrames s₀ (f :: fs) (t.setFrames (f :: t.session.calls.frames))
      rw [hfs]
      exact hs.setFrames _
    · rw [hfs, hs.maxDepth] at hroom
      exact hroom
  · rintro t rfl
    exact hs

/-! ## Calls inside a script -/

namespace Instructions

section

variable (hframes : s₀.frames = f₀ :: outer) (hheap : p.AllowsHeap s₀.heap)
  (heval : p.AllowsItems f₀.eval) (halt : p.AllowsItems f₀.alt)
include hframes hheap heval halt

/-- **A call inside a script** moves the whole evaluation stack to the callee. -/
theorem call_leads {i : Instruction} (hi : i.op = .call) :
    Leads (WithFrames s₀ (f₀ :: outer)) (call i)
      (fun _ s => ∃ callee caller, Entered s₀ f₀ outer 0 callee caller s ∧ caller.eval = [])
      (Inside p s₀ f₀ outer) := by
  have hprepare : Leads (· = f₀) (do
      Frame.setCursor (i.position + 3)
      let eval ← Frame.takeTop (← Frame.evalDepth)
      return { script := (← get).script, cursor := i.position + 1, eval : Frame })
      (fun callee f => i.position + 3 ≤ f₀.script.length ∧
        callee = { script := f₀.script, cursor := i.position + 1, eval := f₀.eval } ∧
        f = { f₀ with cursor := i.position + 3, eval := [] })
      (fun f => ∃ n, Consumed n f₀ f) := by
    refine ((Frame.setCursor_leads f₀ (i.position + 3)).ends (fun _ _ h => h) ?_).seq fun _ => ?_
    · rintro f rfl
      exact ⟨0, Consumed.refl f⟩
    refine Leads.each ?_
    rintro f ⟨hroom, rfl⟩
    refine (Frame.evalDepth_leads _).seq fun n => Leads.each ?_
    rintro f ⟨rfl, rfl⟩
    refine ((Frame.takeTop_leads _ f₀.eval.length).ends (fun _ _ h => h) ?_).seq fun top =>
      Leads.reads ?_
    · rintro f rfl
      exact ⟨0, (Consumed.refl f₀).setCursor hroom⟩
    · rintro f ⟨hlength, htop, hf⟩
      -- All items were taken, so that none is left.
      obtain ⟨rfl, hempty⟩ := List.append_inj (htop.trans (List.append_nil _).symm) hlength
      rw [hempty] at hf
      refine Leads.returns ?_
      rintro g rfl
      rw [hf]
      exact ⟨hroom, rfl, rfl⟩
  unfold call
  refine Leads.onFrame hprepare ?_ ?_
  · rintro f s ⟨n, hf⟩ hs
    exact hs.failed hframes hheap (hf.after heval halt)
  rintro _ _ ⟨hroom, rfl, rfl⟩
  have hcaller : FrameAfter p f₀ { f₀ with cursor := i.position + 3, eval := [] } :=
    ⟨Policy.allowsItems_nil, halt, fun _ => hroom⟩
  refine ((pushFrame_leads _).ends (fun _ _ h => h) ?_).seq fun _ => Leads.knowing fun hdepth => ?_
  · exact fun s hs => hs.failed hframes hheap hcaller
  -- The jump moves only the cursor of the callee, so that it fails, if at all, in an entered call.
  have hentered : ∀ callee s,
      Consumed 0 { script := f₀.script, cursor := i.position + 1, eval := f₀.eval } callee →
      WithFrames s₀ (callee :: { f₀ with cursor := i.position + 3, eval := [] } :: outer) s →
      Entered s₀ f₀ outer 0 callee { f₀ with cursor := i.position + 3, eval := [] } s := by
    intro callee s hcallee hs
    refine ⟨hs, hdepth, rfl, rfl, rfl, hcallee.alt, ?_, fun _ => hroom, ?_⟩
    · rw [hcallee.eval]
      exact List.append_nil _
    · rw [hcallee.script]
      exact hcallee.cursor (by dsimp only; omega)
  rw [← bind_pure (Exec.onFrame (jump i))]
  refine Leads.onFrame ((jump_consumed hi).leads (Consumed.refl _)) ?_ ?_
  · exact fun callee s hcallee hs => (hentered callee s hcallee hs).inside hheap heval halt
  · rintro _ callee ⟨hcallee, -⟩
    exact Leads.returns fun s hs => ⟨_, _, hentered callee s hcallee hs, rfl⟩

/-- **A call with announced counts** moves as many items to the callee as the second count byte says; the
callee has to return as many as the first one says. -/
theorem callIsolated_leads (i : Instruction) :
    Leads (WithFrames s₀ (f₀ :: outer)) (callIsolated i)
      (fun _ s => ∃ callee caller, Entered s₀ f₀ outer 0 callee caller s ∧
        (∃ r, f₀.script.byte? f₀.cursor = some r ∧ callee.returnCount = r.toNat) ∧
        ∃ b, f₀.script.byte? (f₀.cursor + 1) = some b ∧ callee.eval.length = b.toNat)
      (Inside p s₀ f₀ outer) := by
  have hprepare : Leads (· = f₀) (do
      let returnCount ← Frame.readByte
      let parameterCount ← Frame.readByte
      let target ← readTarget (i.position + 2)
      let eval ← Frame.takeTop parameterCount
      return { script := (← get).script, cursor := target, returnCount, eval : Frame })
      (fun callee f => ((∃ r, f₀.script.byte? f₀.cursor = some r ∧ callee.returnCount = r.toNat) ∧
          ∃ b, f₀.script.byte? (f₀.cursor + 1) = some b ∧ callee.eval.length = b.toNat) ∧
        callee.eval ++ f.eval = f₀.eval ∧ callee.alt = [] ∧ callee.cursor ≤ callee.script.length ∧
        ∃ h, Consumed 0 f₀ h ∧ f = { h with eval := f.eval })
      (fun f => ∃ n, Consumed n f₀ f) := by
    refine Frame.readCounts_leads fun r b hr hb hread => ?_
    refine (((readTarget_consumed (i.position + 2)).leads hread).ends (fun _ _ h => h)
      fun f hf => ⟨0, hf⟩).seq fun target => Leads.each ?_
    rintro h ⟨hh, htarget⟩
    refine ((Frame.takeTop_leads h b.toNat).ends (fun _ _ h => h) ?_).seq fun top => Leads.reads ?_
    · rintro f rfl
      exact ⟨0, hh⟩
    rintro f ⟨hlength, htop, hf⟩
    refine Leads.returns ?_
    rintro g rfl
    refine ⟨⟨⟨r, hr, rfl⟩, b, hb, hlength⟩, ?_, rfl, ?_, h, hh, hf⟩
    · rw [htop, hh.eval]
      rfl
    · rw [hf]
      dsimp only
      rw [hh.script]
      exact htarget
  unfold callIsolated
  refine Leads.onFrame hprepare ?_ ?_
  · rintro f s ⟨n, hf⟩ hs
    exact hs.failed hframes hheap (hf.after heval halt)
  rintro callee caller ⟨hcount, hdivided, hcalleeAlt, hcalleeCursor, h, hh, hcaller⟩
  have hscript : caller.script = f₀.script := by rw [hcaller]; exact hh.script
  have hcallerAlt : caller.alt = f₀.alt := by rw [hcaller]; exact hh.alt
  have hcursor : f₀.cursor ≤ f₀.script.length → caller.cursor ≤ caller.script.length := by
    intro hc
    rw [hscript, hcaller]
    exact hh.cursor hc
  have hrest : p.AllowsItems caller.eval :=
    (hdivided ▸ heval).sublist (List.sublist_append_right callee.eval _)
  refine (pushFrame_leads callee).ends ?_ ?_
  · rintro _ s ⟨hs, hdepth⟩
    refine ⟨callee, caller, ⟨hs, hdepth, hscript, ?_, hcallerAlt, hcalleeAlt, hdivided, hcursor,
      hcalleeCursor⟩, hcount⟩
    rw [hcaller]
    exact hh.returnCount
  · exact fun s hs => hs.failed hframes hheap ⟨hrest, hcallerAlt ▸ halt, hcursor⟩

end

end Instructions

/-! ## Loading scripts -/

/-- Fresh frames were pushed on `fs`, for as many of which there was room. -/
def Loaded (s₀ : State) (fs : List Frame) (s : State) : Prop :=
  ∃ pushed, WithFrames s₀ (pushed ++ fs) s ∧ (∀ g ∈ pushed, g.Fresh) ∧
    (pushed = [] ∨ pushed.length + fs.length ≤ s₀.session.calls.maxDepth)

section

variable {fs : List Frame}

/-- Nothing was loaded. -/
theorem WithFrames.loaded (h : WithFrames s₀ fs s) : Loaded s₀ fs s :=
  ⟨[], h, fun _ hg => absurd hg List.not_mem_nil, Or.inl rfl⟩

/-- One more frame is pushed, as far as there is room. -/
theorem Loaded.push (h : Loaded s₀ fs s) (hg : g.Fresh)
    (hroom : s.frames.length < s.session.calls.maxDepth) :
    Loaded s₀ fs (s.setFrames (g :: s.frames)) := by
  obtain ⟨pushed, hs, hfresh, -⟩ := h
  refine ⟨g :: pushed, ?_, List.forall_mem_cons.2 ⟨hg, hfresh⟩, Or.inr ?_⟩
  · rw [hs.frames]
    exact hs.setFrames _
  · rw [hs.frames, hs.maxDepth, List.length_append] at hroom
    rw [List.length_cons]
    omega

/-- The scripts that are loaded do not matter. -/
theorem Loaded.setScripts (h : Loaded s₀ fs s) (scripts : Array Script) :
    Loaded s₀ fs { s with session := { s.session with scripts } } := by
  obtain ⟨pushed, hs, hfresh⟩ := h
  refine ⟨pushed, ?_, hfresh⟩
  unfold WithFrames
  rw [hs]

/-- A frame for a loaded script is pushed, or nothing happens. -/
theorem State.loadCached_exact (s : State) (index : Nat) (returnCount : Int) :
    (∃ script, s.session.scripts[index]? = some script ∧ s.frames.length < s.session.calls.maxDepth ∧
      s.loadCached index returnCount = (.ok (), s.setFrames ({ script, returnCount } :: s.frames))) ∨
    ∃ cause, s.loadCached index returnCount = (.error cause, s) := by
  unfold State.loadCached
  split
  · exact Or.inr ⟨_, rfl⟩
  · rename_i script hscript
    unfold CallStack.push
    by_cases hroom : s.session.calls.frames.length < s.session.calls.maxDepth
    · rw [if_pos hroom]
      exact Or.inl ⟨script, hscript, hroom, rfl⟩
    · rw [if_neg hroom]
      exact Or.inr ⟨_, rfl⟩

/-- A loaded script gets a fresh frame, or nothing changes. -/
theorem State.loadCached_cases (s : State) (index : Nat) (returnCount : Int) :
    (∃ g : Frame, g.Fresh ∧ g.returnCount = returnCount ∧
      s.frames.length < s.session.calls.maxDepth ∧
      s.loadCached index returnCount = (.ok (), s.setFrames (g :: s.frames))) ∨
    ∃ f, s.loadCached index returnCount = (.error f, s) := by
  refine (s.loadCached_exact index returnCount).imp_left ?_
  rintro ⟨script, -, hroom, hload⟩
  exact ⟨{ script, returnCount }, ⟨rfl, rfl, rfl⟩, rfl, hroom, hload⟩

/-- Pushing a frame for a loaded script. -/
theorem Loaded.loadCached (h : Loaded s₀ fs s) (index : Nat) (returnCount : Int) :
    Loaded s₀ fs (s.loadCached index returnCount).2 := by
  obtain ⟨g, hg, -, hroom, hload⟩ | ⟨f, hload⟩ := s.loadCached_cases index returnCount
  · rw [hload]
    exact h.push hg hroom
  · rw [hload]
    exact h

/-- Loading a script is pushing a frame for a loaded one, with the script among the loaded ones. -/
theorem State.loadScript_state (s : State) (body : Bytes) (returnCount : Int) :
    ∃ scripts index, (s.loadScript body returnCount).2 =
      (({ s with session := { s.session with scripts } } : State).loadCached index returnCount).2 := by
  unfold State.loadScript
  dsimp only
  cases s.scriptIndex? (Script.of s.crypto body).hash with
  | some index =>
    refine ⟨s.session.scripts, index, ?_⟩
    show _ = (s.loadCached index returnCount).2
    dsimp only
    rcases s.loadCached index returnCount with ⟨_ | _, t⟩ <;> rfl
  | none =>
    refine ⟨s.session.scripts.push (Script.of s.crypto body), s.session.scripts.size, ?_⟩
    dsimp only
    rcases State.loadCached _ _ returnCount with ⟨_ | _, t⟩ <;> rfl

/-- Loading a script. -/
theorem Loaded.loadScript (h : Loaded s₀ fs s) (body : Bytes) (returnCount : Int) :
    Loaded s₀ fs (s.loadScript body returnCount).2 := by
  obtain ⟨scripts, index, hload⟩ := s.loadScript_state body returnCount
  rw [hload]
  exact (h.setScripts scripts).loadCached index returnCount

/-- The request to load a script does what loading it does. -/
theorem HostCall.perform_loadScript (s : State) (body : Bytes) (returnCount : Int) :
    ((HostCall.loadScript body returnCount).perform s).2 = (s.loadScript body returnCount).2 := by
  dsimp only [HostCall.perform]
  rcases s.loadScript body returnCount with ⟨_ | _, t⟩ <;> rfl

/-- The request for a frame of a loaded script does what pushing that frame does. -/
theorem HostCall.perform_loadCached (s : State) (index : Nat) (returnCount : Int) :
    ((HostCall.loadCached index returnCount).perform s).2 = (s.loadCached index returnCount).2 := by
  dsimp only [HostCall.perform]
  rcases s.loadCached index returnCount with ⟨_ | _, t⟩ <;> rfl

/-- **A callback that only loads scripts pushes fresh frames and does nothing else.** -/
theorem Engine.runProgram_loaded (e₀ : Engine) {e : Engine} {nested : Engine → Engine}
    {program : HostProgram} (hp : program.LoadsOnly) (he : e₀.StateIn (Loaded s₀ fs) e) :
    e₀.StateIn (Loaded s₀ fs) (runProgram nested program e).2 := by
  refine runProgram_keeps (fun call e hcall he => ?_) False.elim False.elim hp he
  obtain ⟨s, rfl, hs⟩ := he
  cases call with
  | loadScript body returnCount =>
    refine ⟨_, rfl, ?_⟩
    rw [HostCall.perform_loadScript]
    exact hs.loadScript body returnCount
  | note text =>
    obtain ⟨pushed, hs, hfresh⟩ := hs
    refine ⟨_, rfl, pushed, ?_, hfresh⟩
    unfold WithFrames
    dsimp only [HostCall.perform]
    rw [hs]
    rfl
  | _ => exact hcall.elim

/-- A single fresh frame, when as many were pushed as are asked for. -/
theorem Loaded.single (h : Loaded s₀ fs s) (hlength : s.frames.length = fs.length + 1) :
    ∃ g : Frame, g.Fresh ∧ WithFrames s₀ (g :: fs) s ∧
      fs.length + 1 ≤ s₀.session.calls.maxDepth := by
  obtain ⟨pushed, hs, hfresh, hroom⟩ := h
  rw [hs.frames, List.length_append] at hlength
  obtain ⟨g, rfl⟩ := List.length_eq_one_iff.1 (by omega : pushed.length = 1)
  refine ⟨g, hfresh g List.mem_cons_self, hs, ?_⟩
  have := hroom.resolve_left (List.cons_ne_nil _ _)
  rw [List.length_singleton] at this
  omega

/-- **Pushing a frame for a script by its hash** succeeds with exactly one fresh frame. -/
theorem Engine.loadByHash_leads {e₀ : Engine} (hloader : e₀.LoaderLoadsOnly)
    (nested : Engine → Engine) (hash : Bytes) (dynamic : Bool) (returnCount : Int) :
    Leads (e₀.StateIn (WithFrames s₀ fs)) (loadByHash nested hash dynamic returnCount)
      (fun _ => e₀.StateIn fun s => ∃ g : Frame, g.Fresh ∧ WithFrames s₀ (g :: fs) s ∧
        fs.length + 1 ≤ s₀.session.calls.maxDepth)
      (e₀.StateIn (Loaded s₀ fs)) := by
  unfold loadByHash
  refine Leads.reads ?_
  rintro e ⟨s, rfl, hs⟩
  dsimp only
  split
  · rename_i index _
    obtain ⟨g, hg, -, hroom, hload⟩ | ⟨f, hload⟩ := s.loadCached_cases index returnCount
    · rw [hload]
      rintro e rfl
      have hpushed := hs.loaded.push hg hroom
      refine ⟨_, rfl, hpushed.single ?_⟩
      rw [← hs.frames]
      rfl
    · rw [hload]
      rintro e rfl
      exact ⟨s, rfl, hs.loaded⟩
  · split
    · rintro e rfl
      exact ⟨s, rfl, hs.loaded⟩
    · rename_i loader hsome
      -- The loader is out of its place while it runs, and comes back.
      have hrun : StateIn { e₀ with loader := none } (Loaded s₀ fs)
          (runProgram nested (loader hash dynamic returnCount)
            { e₀ with state := s, loader := none }).2 :=
        runProgram_loaded _ (hloader loader hsome hash dynamic returnCount) ⟨s, rfl, hs.loaded⟩
      revert hrun
      rcases runProgram nested (loader hash dynamic returnCount)
        { e₀ with state := s, loader := none } with ⟨ok, e⟩
      rintro ⟨t, rfl, ht⟩
      have hback : ({ e₀ with state := t, loader := some loader } : Engine) = { e₀ with state := t } := by
        rw [← hsome]
      have hfail : ∀ e, e = { e₀ with state := t, loader := some loader } →
          e₀.StateIn (Loaded s₀ fs) e := by
        rintro e rfl
        exact ⟨t, hback, ht⟩
      dsimp only [Option.isNone_none]
      -- A loader that only loads has not put another one in its place.
      rw [if_pos rfl]
      refine (Leads.writes (A := fun _ e => e = _) fun _ _ => rfl).seq fun _ => ?_
      refine Leads.guarded hfail fun _ => ?_
      refine Leads.branch (fun _ => Leads.throws hfail) fun hcount => Leads.returns ?_
      rintro e rfl
      refine ⟨t, hback, ht.single ?_⟩
      rw [← hs.frames]
      simpa using hcount

/-- Pushing a frame for a script by its hash keeps what loading scripts keeps. -/
theorem Engine.loadByHash_keeps {e₀ : Engine} (hloader : e₀.LoaderLoadsOnly) {P : State → Prop}
    (hloaded : ∀ s t, Loaded s s.frames t → P s → P t) (nested : Engine → Engine) (hash : Bytes) (dynamic : Bool)
    (returnCount : Int) :
    Keeps (e₀.StateIn P) (loadByHash nested hash dynamic returnCount) (fun _ => True) := by
  rintro _ ⟨s, rfl, hs⟩
  refine ⟨?_, fun _ _ => trivial⟩
  have hrun := loadByHash_leads hloader nested hash dynamic returnCount _ ⟨s, rfl, WithFrames.refl s⟩
  revert hrun
  rcases (loadByHash nested hash dynamic returnCount).run { e₀ with state := s } with ⟨_ | _, e⟩
  · rintro ⟨t, rfl, ht⟩
    exact ⟨t, rfl, hloaded s t ht hs⟩
  · rintro ⟨t, rfl, g, hg, ht, hroom⟩
    refine ⟨t, rfl, hloaded s t ⟨[g], ht, List.forall_mem_singleton.2 hg, Or.inr ?_⟩ hs⟩
    rw [List.length_singleton]
    omega

end

/-! ## Handing over arguments -/

/-- **Moving arguments** divides the items of the caller. -/
theorem Instructions.moveArguments_leads {callee caller : Frame} (count : Option Nat) :
    Leads (WithFrames s₀ (callee :: caller :: outer)) (moveArguments count)
      (fun _ s => ∃ top rest, top ++ rest = caller.eval ∧
        top.length = count.getD caller.eval.length ∧
        WithFrames s₀
          ({ callee with eval := callee.eval.pushAll top } :: { caller with eval := rest } :: outer) s)
      (WithFrames s₀ (callee :: caller :: outer)) := by
  unfold moveArguments
  refine Leads.reads fun s hs => ?_
  rw [hs.frames]
  dsimp only
  unfold Stack.split
  split
  · rename_i hcount
    rintro t rfl
    exact ⟨_, _, List.take_append_drop _ _, List.length_take_of_le hcount, hs.setFrames _⟩
  · rintro t rfl
    exact hs

/-- Taking out the frame below the innermost one. -/
theorem Instructions.dropCaller_leads {callee caller : Frame} {E : State → Prop} :
    Leads (WithFrames s₀ (callee :: caller :: outer)) dropCaller
      (fun _ => WithFrames s₀ (callee :: outer)) E := by
  refine Leads.updates fun s hs => ?_
  -- Positions count from the innermost frame, so that the frame below it is at position one.
  have hset := hs.setFrames (s.frames.eraseIdx 1)
  have hframes : s.frames.eraseIdx 1 = callee :: outer := by rw [hs.frames]; rfl
  rw [hframes] at hset
  rw [← hframes] at hset ⊢
  exact hset

namespace Engine

/-- A computation of the innermost frame on an engine, and what follows it. -/
theorem onFrame_leads {α β : Type} {e₀ : Engine} {m : FrameM α} {next : α → Run β}
    {A : α → Frame → Prop} {B : β → Engine → Prop} {E : Frame → Prop} {E' : State → Prop}
    (hm : Leads (· = g) m A E)
    (hfail : ∀ f s, E f → WithFrames s₀ (f :: outer) s → E' s)
    (hnext : ∀ a f, A a f →
      Leads (e₀.StateIn (WithFrames s₀ (f :: outer))) (next a) B (e₀.StateIn E')) :
    Leads (e₀.StateIn (WithFrames s₀ (g :: outer))) (onFrame m >>= next) B (e₀.StateIn E') := by
  rintro e ⟨s, rfl, hs⟩
  have hrun := hm g rfl
  unfold onFrame
  rw [run_seq, run_onState, Exec.run_onFrame_cons m hs.frames]
  revert hrun
  rcases m.run g with ⟨_ | a, f⟩
  · exact fun hE => ⟨_, rfl, hfail f _ hE (hs.setFrames _)⟩
  · exact fun hA => hnext a f hA _ ⟨_, rfl, hs.setFrames _⟩

section

variable {e₀ : Engine} (hloader : e₀.LoaderLoadsOnly) (hframes : s₀.frames = f₀ :: outer)
  (hheap : p.AllowsHeap s₀.heap) (heval : p.AllowsItems f₀.eval) (halt : p.AllowsItems f₀.alt)
include hframes hheap heval halt

/-- Frames that were loaded on top of the calling one, for a call that then failed. -/
theorem inside_of_loaded (hg : Consumed k f₀ g) (h : Loaded s₀ (g :: outer) s) :
    Inside p s₀ f₀ outer s := by
  obtain ⟨pushed, hs, hfresh, hroom⟩ := h
  have hinner : ∀ f ∈ pushed ++ [g], FrameAfter p f₀ f := by
    intro f hf
    rcases List.mem_append.1 hf with hf | hf
    · obtain ⟨hcursor, heval', halt'⟩ := hfresh f hf
      refine ⟨heval' ▸ Policy.allowsItems_nil, halt' ▸ Policy.allowsItems_nil, fun _ => ?_⟩
      rw [hcursor]
      exact Nat.zero_le _
    · rw [List.mem_singleton.1 hf]
      exact hg.after heval halt
  refine WithFrames.inside (pushed ++ [g]) ?_ hheap (by simp) hinner ?_
  · rw [List.append_assoc]
    exact hs
  · intro hdepth
    rw [hframes] at hdepth
    simp only [List.length_append, List.length_cons, List.length_nil] at hdepth hroom ⊢
    rcases hroom with rfl | hroom
    · simp only [List.length_nil]
      omega
    · omega

include hloader

/-- **A call between scripts**: the script is loaded into one fresh frame, to which the announced number of
items is moved; what follows starts from there. -/
theorem enter_leads (nested : Engine → Engine) (hash : Bytes) (dynamic : Bool) (returnCount : Int)
    (count : Option Nat) (hg : Consumed k f₀ g) {next : Run Unit} {B : Unit → Engine → Prop}
    (hnext : Leads (e₀.StateIn fun s => ∃ callee caller, Entered s₀ f₀ outer k callee caller s ∧
        callee.eval.length = count.getD g.eval.length) next B
      (e₀.StateIn (Inside p s₀ f₀ outer))) :
    Leads (e₀.StateIn (WithFrames s₀ (g :: outer)))
      (do
        loadByHash nested hash dynamic returnCount
        onState (Instructions.moveArguments count)
        next) B
      (e₀.StateIn (Inside p s₀ f₀ outer)) := by
  have hinside := fun s => inside_of_loaded (p := p) (s := s) hframes hheap heval halt hg
  -- Whatever fails on the way, the frames that were loaded stay on top of the calling one.
  refine ((loadByHash_leads hloader nested hash dynamic returnCount).ends (fun _ _ h => h) ?_).seq
    fun _ => ?_
  · rintro e ⟨s, rfl, hs⟩
    exact ⟨s, rfl, hinside s hs⟩
  refine Leads.each ?_
  rintro e ⟨s, rfl, callee, hfresh, hs, hroom⟩
  have hmove : Leads (WithFrames s₀ (callee :: g :: outer)) (Instructions.moveArguments count) _ _ :=
    Instructions.moveArguments_leads count
  refine ((hmove.onState e₀).weaken ?_ (fun _ _ h => h) ?_).seq fun _ => ?_
  · rintro e rfl
    exact ⟨s, rfl, hs⟩
  · rintro e ⟨t, rfl, ht⟩
    refine ⟨t, rfl, hinside t ⟨[callee], ht, ?_, Or.inr ?_⟩⟩
    · simpa using hfresh
    · simpa [Nat.add_comm] using hroom
  · refine hnext.weaken ?_ (fun _ _ h => h) fun _ h => h
    rintro e ⟨t, rfl, top, rest, hdivided, hlength, ht⟩
    refine ⟨t, rfl, _, _, ⟨ht, hroom, hg.script, hg.returnCount, hg.alt, hfresh.alt, ?_, ?_, ?_⟩, ?_⟩
    · rw [hfresh.eval, ← hg.eval, ← hdivided]
      simp [Stack.pushAll]
    · intro hc
      exact hg.script ▸ hg.cursor hc
    · show callee.cursor ≤ callee.script.length
      rw [hfresh.cursor]
      exact Nat.zero_le _
    · rw [hfresh.eval, ← hlength]
      simp [Stack.pushAll]

omit hloader in
/-- A tail call takes out the calling frame; any other call leaves both frames. -/
theorem dropCaller_leads {tail : Prop} [Decidable tail] {n : Nat} :
    Leads (e₀.StateIn fun s => ∃ callee caller, Entered s₀ f₀ outer k callee caller s ∧
        callee.eval.length = n)
      (if tail then onState Instructions.dropCaller else pure ())
      (fun _ => e₀.StateIn fun s => Inside p s₀ f₀ outer s ∧ (¬ tail → ∃ callee caller,
        Entered s₀ f₀ outer k callee caller s ∧ callee.eval.length = n))
      (e₀.StateIn (Inside p s₀ f₀ outer)) := by
  refine Leads.each ?_
  rintro e ⟨s, rfl, callee, caller, hentered, hlength⟩
  refine Leads.branch (fun htail => ?_) (fun _ => ?_)
  · have hdrop : Leads (WithFrames s₀ (callee :: caller :: outer)) Instructions.dropCaller _
        (Inside p s₀ f₀ outer) := Instructions.dropCaller_leads
    refine (hdrop.onState e₀).weaken ?_ ?_ (fun _ h => h)
    · rintro e rfl
      exact ⟨s, rfl, hentered.frames⟩
    · rintro _ e ⟨t, rfl, ht⟩
      exact ⟨t, rfl, ht.failed hframes hheap (hentered.after heval halt).1, fun h => absurd htail h⟩
  · refine Leads.returns ?_
    rintro e rfl
    exact ⟨s, rfl, hentered.inside hheap heval halt, fun _ => ⟨callee, caller, hentered, hlength⟩⟩

/-- **A call by hash** moves all items that are left to the callee. Twenty zero bytes in the script stand
for a hash from the stack. -/
theorem appCall_leads (nested : Engine → Engine) (i : Instruction) :
    Leads (e₀.StateIn (WithFrames s₀ (f₀ :: outer))) (appCall nested i)
      (fun _ => e₀.StateIn fun s => Inside p s₀ f₀ outer s ∧ (¬ i.op = .tailCall →
        ∃ callee caller, Entered s₀ f₀ outer (if f₀.operandHash.anyNonZero then 0 else 1) callee caller s ∧
          caller.eval = []))
      (e₀.StateIn (Inside p s₀ f₀ outer)) := by
  have hprepare : Leads (· = f₀) (do
      let hash ← Instructions.readHash
      if hash.anyNonZero then return (hash, false) else return (← Instructions.popHash, true))
      (fun _ f => Consumed (if f₀.operandHash.anyNonZero then 0 else 1) f₀ f)
      (fun f => ∃ n, Consumed n f₀ f) := by
    refine ((Instructions.readHash_leads f₀).ends (fun _ _ h => h) ?_).seq fun hash => Leads.each ?_
    · rintro f rfl
      exact ⟨0, Consumed.refl f⟩
    rintro f ⟨rfl, hf⟩
    refine Leads.branch (fun h => ?_) (fun h => ?_)
    · refine Leads.returns ?_
      rintro g rfl
      rw [Frame.operandHash, if_pos h]
      exact hf
    · rw [Frame.operandHash, if_neg h]
      refine (Instructions.popHash_leads.weaken ?_ (fun _ _ h => h) fun _ h => h).seq fun _ =>
        Leads.returns fun _ h => h
      rintro g rfl
      exact hf
  unfold appCall
  refine onFrame_leads hprepare ?_ ?_
  · rintro f s ⟨n, hf⟩ hs
    exact hs.failed hframes hheap (hf.after heval halt)
  rintro ⟨hash, dynamic⟩ f hf
  refine enter_leads hloader hframes hheap heval halt nested hash dynamic returnAll none hf ?_
  refine (dropCaller_leads hframes hheap heval halt).ends ?_ (fun _ h => h)
  rintro _ e ⟨s, rfl, hinside, hentered⟩
  refine ⟨s, rfl, hinside, fun h => ?_⟩
  obtain ⟨callee, caller, hboth, hlength⟩ := hentered h
  refine ⟨callee, caller, hboth, ?_⟩
  -- The callee has as many items as there were, so that the caller has none.
  have htotal := congrArg List.length hboth.eval
  rw [List.length_append, ← hf.eval, hlength] at htotal
  exact List.length_eq_zero_iff.1 (by simpa using htotal)

omit hloader hframes hheap heval halt in
/-- **The operands of a call by hash with announced counts**: the two counts are the bytes at the cursor, a
hash from the stack costs an item, and the tail form has found that its frame has the announced return
count. -/
theorem externalOperands_leads (dynamic tail : Bool) :
    Leads (· = f₀) (do
      let returnCount ← Frame.readByte
      let parameterCount ← Frame.readByte
      let needed := parameterCount + if dynamic then 1 else 0
      let f ← get
      if f.eval.length < needed then throw (.underflow needed f.eval.length)
      if tail && f.returnCount != returnCount then
        throw (.tailReturnCount f.returnCount returnCount)
      let hash ← if dynamic then Instructions.popHash else Instructions.readHash
      return (hash, returnCount, parameterCount))
      (fun result f => Consumed (if dynamic then 1 else 0) f₀ f ∧
        (∃ r, f₀.script.byte? f₀.cursor = some r ∧ result.2.1 = r.toNat ∧
          (tail = true → f₀.returnCount = r.toNat)) ∧
        ∃ b, f₀.script.byte? (f₀.cursor + 1) = some b ∧ result.2.2 = b.toNat)
      (fun f => ∃ n, Consumed n f₀ f) := by
  refine Frame.readCounts_leads fun r b hr hb hread => Leads.reads ?_
  rintro _ rfl
  refine Leads.guarded (by rintro _ rfl; exact ⟨0, hread⟩) fun _ => ?_
  refine Leads.guarded (by rintro _ rfl; exact ⟨0, hread⟩) fun hsame => ?_
  have htail : tail = true → f₀.returnCount = r.toNat := by
    rintro rfl
    simpa using hsame
  -- Only a hash from the stack costs an item.
  cases dynamic with
  | true =>
    refine (Instructions.popHash_leads.weaken ?_ (fun _ _ h => h) fun _ h => h).seq fun _ =>
      Leads.returns fun f hf => ⟨hf, ⟨r, hr, rfl, htail⟩, b, hb, rfl⟩
    rintro _ rfl
    exact hread
  | false =>
    refine ((Frame.readBytes_consumed _).leads hread).ends (fun _ _ h => h) (fun f hf => ⟨0, hf⟩)
      |>.seq fun _ => Leads.returns fun f hf => ⟨hf.1, ⟨r, hr, rfl, htail⟩, b, hb, rfl⟩

/-- **A call by hash with announced counts** moves as many items to the callee as the second count byte
says, below the hash if that comes from the stack. -/
theorem callExternal_leads (nested : Engine → Engine) (i : Instruction) :
    Leads (e₀.StateIn (WithFrames s₀ (f₀ :: outer))) (callExternal nested i)
      (fun _ => e₀.StateIn fun s => Inside p s₀ f₀ outer s ∧
        (¬ (i.op = .callET || i.op = .callEDT) = true → ∃ callee caller,
          Entered s₀ f₀ outer (if (i.op = .callED || i.op = .callEDT) then 1 else 0) callee caller s ∧
          ∃ b, f₀.script.byte? (f₀.cursor + 1) = some b ∧ callee.eval.length = b.toNat))
      (e₀.StateIn (Inside p s₀ f₀ outer)) := by
  unfold callExternal
  -- The four opcodes differ in two flags, and nothing else of the instruction matters.
  generalize (decide (i.op = .callED) || decide (i.op = .callEDT)) = dynamic
  generalize (decide (i.op = .callET) || decide (i.op = .callEDT)) = tail
  refine onFrame_leads (externalOperands_leads dynamic tail) ?_ ?_
  · rintro f s ⟨n, hf⟩ hs
    exact hs.failed hframes hheap (hf.after heval halt)
  rintro ⟨hash, rc, pc⟩ f ⟨hf, -, b, hb, rfl⟩
  refine enter_leads hloader hframes hheap heval halt nested hash dynamic rc (some b.toNat) hf ?_
  refine (dropCaller_leads hframes hheap heval halt).ends ?_ (fun _ h => h)
  rintro _ e ⟨s, rfl, hinside, hentered⟩
  refine ⟨s, rfl, hinside, fun h => ?_⟩
  obtain ⟨callee, caller, hboth, hlength⟩ := hentered h
  exact ⟨callee, caller, hboth, b, hb, hlength⟩

end

end Engine

/-! ## Returns -/

/-- **A return** hands the items over to the caller, or to the results of the machine when it was the last
frame; a frame that must not return is gone all the same. -/
theorem Instructions.ret_leads (hframes : s₀.frames = f₀ :: outer) :
    Leads (· = s₀) ret (fun _ => Outcome p s₀ f₀ outer true) (Outcome p s₀ f₀ outer false) := by
  unfold ret
  refine Leads.reads ?_
  rintro s rfl
  rw [hframes]
  dsimp only
  refine (Leads.writes (A := fun _ t => t = s.setFrames outer) fun _ _ => rfl).seq fun _ => ?_
  -- The frame is taken off before its return count is checked.
  refine (Leads.result (A := fun _ t => t = s.setFrames outer) (fun _ _ t ht => ht) ?_).seq fun _ => ?_
  · rintro t rfl
    exact .refused ((WithFrames.refl s).setFrames outer)
  cases outer with
  | nil =>
    rintro t rfl
    exact .finished rfl
  | cons caller rest =>
    rintro t rfl
    exact .resumed rfl

end ScriptMachine
