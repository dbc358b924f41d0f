import ScriptMachine.Proofs.CallFrames
import ScriptMachine.Proofs.Renaming.Steps
import ScriptMachine.Proofs.ResourceBounds
import ScriptMachine.Proofs.ScriptCache

/-! # The end of a script

A machine whose cursor has come to the end of a script returns, as if an explicit return stood there. So a script can be
followed by a return and by anything else: operands, jump targets and return addresses of a run that does not fail are
all within the script, and what stands behind its end is never looked at.

* `Engine.executes?`: the instruction that the next step carries out.
* `Engine.steps_loaderFree`: runs that call no script by its hash have no need of a loader.
* `Engine.step_faulted`, `Engine.step_bounded`: failed steps, and cursors.
* `State.withScript`: a machine that runs another script in the same way.
* `Matching.returning`: a script beside the longer one, with `Matching.executeNext_returning` on its end.
* `Engine.runs_off_end`: the two runs.
-/

namespace ScriptMachine

namespace Engine

variable {e d : Engine} {nested : Engine → Engine} {op : OpCode} {f g : Frame} {outer : List Frame}

/-! ## Executed instructions -/

/-- The opcode of the instruction that the next step carries out: the machine runs, the opcode is fetched, and its price
is granted. -/
def executes? (e : Engine) : Option OpCode :=
  if e.status.isRunning then
    match e.state.frames with
    | [] => none
    | f :: _ =>
      match fetch f with
      | .ok op => if (e.state.consumeGas (e.state.price op)).1 then some op else none
      | .error _ => none
  else none

/-- A machine that has ended carries out nothing. -/
theorem executes?_ended (h : e.status ≠ .running) : e.executes? = none := by
  have hstatus : e.status.isRunning = false := by
    cases hstatus : e.status <;> first | exact absurd hstatus h | rfl
  unfold executes?
  rw [hstatus]
  rfl

/-- An instruction is carried out before the machine has ended. -/
theorem lt_of_executes? {k n : Nat} (hend : (steps k e).status ≠ .running) (hop : (steps n e).executes? = some op) :
    n < k := by
  by_contra hle
  obtain ⟨d, rfl⟩ := Nat.exists_eq_add_of_le (Nat.le_of_not_lt hle)
  rw [steps_add, steps_ended hend, executes?_ended hend] at hop
  cases hop

/-- What is fetched and paid for is carried out. -/
theorem executes?_paid {t : State} (hrun : e.status = .running) (hframes : e.state.frames = f :: outer)
    (hfetch : fetch f = .ok op) (hpay : e.state.consumeGas (e.state.nextPrice f) = (true, t)) :
    e.executes? = some op := by
  rw [nextPrice_of_fetch _ hfetch] at hpay
  unfold executes?
  rw [hrun, hframes]
  dsimp only
  rw [hfetch]
  dsimp only
  rw [hpay]
  rfl

/-! ## Runs without calls by a hash -/

/-- A computation of the innermost frame that depends on the bounds does not look at the loader. -/
theorem LoaderFree.onFrameWithin {α : Type} (m : Limits → FrameM α) : LoaderFree (Engine.onFrameWithin m) e :=
  fun loader => LoaderFree.onState (Exec.onFrame (m e.state.limits)) loader

/-- Without a service handler, a request for a service fails at once. -/
theorem run_invokeInterop_none (nested : Engine → Engine) (name : Bytes) (hinterop : e.interop = none) :
    (invokeInterop nested name).run e = (.error (.noInterop (Utf8.lossyText name)), e) := by
  unfold invokeInterop
  rw [run_get_seq, hinterop]
  rfl

/-- An opcode that does not call by a hash does not look at the loader. -/
theorem loaderFree_perform (nested : Engine → Engine) (hinterop : e.interop = none) (hop : ¬ op.CallsByHash)
    (i : Instruction) : LoaderFree (perform nested op i) e := by
  unfold perform
  cases op with
  | appCall | tailCall | callE | callED | callET | callEDT => exact absurd trivial hop
  | nop => exact fun _ => rfl
  | sysCall =>
    refine (LoaderFree.onFrameWithin _).seq fun name e' hrun loader => ?_
    have hnone : e'.interop = none :=
      (congrArg (fun r => r.2.interop) ((run_onState _ e).symm.trans hrun)).symm.trans hinterop
    rw [run_invokeInterop_none nested name hnone]
    exact run_invokeInterop_none (e := { e' with loader }) nested name hnone
  | invert | and | or | xor | inc | dec | sign | negate | abs | nz | add | sub | mul | div | mod | shl | shr | numEqual
  | numNotEqual | lt | gt | lte | gte | min | max | within => exact LoaderFree.onFrameWithin _
  | _ => exact LoaderFree.onState _

/-- With the standard table, an instruction that does not call by a hash does not look at the loader. -/
theorem loaderFree_dispatch (nested : Engine → Engine) (htable : e.table = .standard) (hinterop : e.interop = none)
    {i : Instruction} (hop : ¬ i.op.CallsByHash) : LoaderFree (dispatch nested i) e := by
  intro loader
  have hother : ({ e with loader } : Engine).table = .standard := htable
  rw [run_dispatch nested i hother, run_dispatch nested i htable]
  exact loaderFree_perform nested hinterop hop i loader

/-- Carrying out an instruction does not look at the loader, if its behaviour does not. -/
theorem LoaderFree.carryOut {i : Instruction} (hfree : LoaderFree (dispatch nested i) e)
    (loader : Option ScriptLoader) :
    Engine.carryOut nested i { e with loader } =
      ((Engine.carryOut nested i e).1, { (Engine.carryOut nested i e).2 with loader }) := by
  unfold Engine.carryOut
  rw [hfree]
  rcases (dispatch nested i).run e with ⟨_ | _, d⟩ <;> rfl

/-- **A step that does not call by a hash** does the same with any loader. -/
theorem step_loaderFree (htable : e.table = .standard) (hinterop : e.interop = none)
    (hcalls : ∀ op, e.executes? = some op → ¬ op.CallsByHash) (loader : Option ScriptLoader) :
    ({ e with loader } : Engine).step = { e.step with loader } := by
  by_cases hrun : e.status = .running
  swap
  · rw [step_final hrun]
    exact step_final (e := { e with loader }) hrun
  cases hframes : e.state.frames with
  | nil =>
    have hself : e.step = e.modifyState (·.setStatus .halted) := stepWith_nil (stepAt 15) hrun hframes
    rw [hself]
    exact stepWith_nil (e := { e with loader }) (stepAt 15) hrun hframes
  | cons f outer =>
    have hnext : executeNext (stepAt 15) { e with loader } =
        ((executeNext (stepAt 15) e).1, { (executeNext (stepAt 15) e).2 with loader }) := by
      have hcons := executeNext_cons (e := { e with loader }) (stepAt 15) hframes
      rw [hcons, executeNext_cons (stepAt 15) hframes]
      dsimp only
      rcases hpay : e.state.consumeGas (e.state.nextPrice f) with ⟨_ | _, s⟩
      · rfl
      cases hfetch : fetch f with
      | error byte => rfl
      | ok op =>
        have hfree := loaderFree_dispatch (e := { e with state := s.setFrames (f.advance :: outer) }) (stepAt 15) htable
          hinterop (i := ⟨op, f.cursor⟩) (hcalls op (executes?_paid hrun hframes hfetch hpay))
        exact hfree.carryOut loader
    have hself : e.step = _ := stepWith_cons (stepAt 15) hrun hframes
    have hother : ({ e with loader } : Engine).step = _ :=
      stepWith_cons (e := { e with loader }) (stepAt 15) hrun hframes
    rw [hother, hself, hnext]
    rcases executeNext (stepAt 15) e with ⟨_ | _, d⟩ <;> rfl

/-- **A run that does not call by a hash** does the same with any loader. -/
theorem steps_loaderFree (htable : e.table = .standard) (hinterop : e.interop = none)
    (hcalls : ∀ n op, (steps n e).executes? = some op → ¬ op.CallsByHash) (loader : Option ScriptLoader) (n : Nat) :
    steps n { e with loader } = { steps n e with loader } := by
  -- Without a loader, the host is one that only loads scripts, which leaves the table and the handler alone.
  have hquiet : ∀ n loader, steps n { e with loader } = { steps n e with loader } ∧ (steps n e).table = .standard ∧
      (steps n e).interop = none := by
    intro n
    induction n with
    | zero => exact fun _ => ⟨rfl, htable, hinterop⟩
    | succ n ih =>
      intro loader
      obtain ⟨-, htable', hinterop'⟩ := ih loader
      have hstep := step_loaderFree htable' hinterop' (hcalls n)
      have hhost : ({ steps n e with loader := none } : Engine).HostOnlyLoads :=
        ⟨htable', hinterop', fun _ h => by cases h⟩
      have hafter := hhost.step
      rw [hstep none] at hafter
      rw [steps_succ, steps_succ, (ih loader).1, hstep loader]
      exact ⟨rfl, hafter.table, hafter.interop⟩
  exact (hquiet n loader).1

/-! ## Failed steps and cursors -/

/-- An instruction that failed has left the status as it was. -/
theorem failed_status {p : Policy} {s₀ s : State} (h : Outcome p s₀ f outer false s) :
    s.session.status = s₀.session.status := by
  cases h with
  | inside h => exact h.status
  | refused h => rw [h]

/-- **A step whose instruction fails** ends in a fault. -/
theorem step_faulted (hhost : e.HostOnlyLoads) (hrun : e.status = .running) (hframes : e.state.frames = f :: outer)
    {cause : Fault} (hfailed : executeNext (stepAt 15) e = (.error cause, d)) : e.step.status = .faulted := by
  have hstatus : d.status = .running := by
    obtain ⟨event, hnext⟩ | ⟨price, total, -, -, -, hnext⟩ := executeNext_cases (stepAt 15) hframes
    · rw [hnext] at hfailed
      cases hfailed
    rw [hnext] at hfailed
    cases hfetch : fetch f with
    | error byte =>
      rw [hfetch] at hfailed
      cases hfailed
      exact hrun
    | ok op =>
      have hhost' : ({ e with state := e.state.charge total f outer } : Engine).HostOnlyLoads :=
        ⟨hhost.table, hhost.interop, hhost.loader⟩
      have hleads := dispatch_leads (i := ⟨op, f.cursor⟩) hhost' (Policy.all_admits _ _) rfl
        (Policy.all_allowsHeap _) (Policy.all_allowsItems _) (Policy.all_allowsItems _) (stepAt 15) _ rfl
      rw [hfetch] at hfailed
      dsimp only [carryOut] at hfailed
      revert hfailed hleads
      rcases (dispatch (stepAt 15) ⟨op, f.cursor⟩).run { e with state := e.state.charge total f outer } with
        ⟨_ | _, e'⟩
      · rintro hfailed ⟨t, rfl, ht⟩
        cases hfailed
        exact (failed_status ht).trans hrun
      · rintro ⟨⟩
  have hstep : e.step = _ := stepWith_cons (stepAt 15) hrun hframes
  rw [hstep, hfailed]
  exact (fail_status d.state cause).trans (if_pos hstatus)

/-- A step leaves the cursors inside of their scripts. -/
theorem step_bounded (hhost : e.HostOnlyLoads) (hbounded : e.state.Bounded .all) : e.step.state.Bounded .all := by
  by_cases hrun : e.status = .running
  swap
  · rw [step_final hrun]
    exact hbounded
  cases hframes : e.state.frames with
  | nil =>
    have hstep : e.step = e.modifyState (·.setStatus .halted) := stepWith_nil _ hrun hframes
    rw [hstep]
    exact ⟨hbounded.heap, hbounded.frames, hbounded.results, hbounded.depth⟩
  | cons f outer =>
    obtain ⟨s, hs, hcases⟩ := step_outcome hhost hrun hframes
    rw [hs]
    cases hcases with
    | unpaid event => exact ⟨hbounded.heap, hbounded.frames, hbounded.results, hbounded.depth⟩
    | done h _ => exact (settle_sameData _).bounded (h.bounded (bounded_charge hbounded hframes _) rfl)
    | failed cause h => exact (fail_sameData _ cause).bounded (h.bounded (bounded_charge hbounded hframes _) rfl)

end Engine

/-! ## Another script -/

/-- The same state with another script in all frames and in the table. -/
def State.withScript (s : State) (script : Script) : State :=
  { s with session := { s.session with
      scripts := s.session.scripts.map fun _ => script
      calls := { s.session.calls with frames := s.frames.map fun f => { f with script } } } }

/-- The same machine with another script in all frames and in the table. -/
def Engine.withScript (e : Engine) (script : Script) : Engine := { e with state := e.state.withScript script }

/-- A script beside the script with a return and more behind it. -/
def Matching.returning (crypto : CryptoSuite) (body tail : Bytes) : Matching where
  toRenaming := .identity
  script a b := a = Script.of crypto body ∧ b = Script.of crypto (body ++ #[0x66] ++ tail)
  faults := False
  script_prefix := by
    rintro _ _ ⟨rfl, rfl⟩
    exact ⟨#[0x66] ++ tail, Array.append_assoc⟩
  script_exact := False.elim

namespace Matching

open Engine

variable {crypto : CryptoSuite} {body tail : Bytes} {e e' : Engine} {s t : State} {f g : Frame} {outer : List Frame}
  {nested : Engine → Engine}

/-- **Two states that are the same beside each other** differ in their scripts only. -/
theorem eq_withScript (h : (returning crypto body tail).SameState s t) :
    t = s.withScript (Script.of crypto (body ++ #[0x66] ++ tail)) := by
  have hframes := eq_map_of_forall₂ (F := fun f => { f with script := Script.of crypto (body ++ #[0x66] ++ tail) })
    h.frames fun f g hf => by
      obtain ⟨script, cursor, returnCount, eval, alt⟩ := g
      obtain ⟨⟨-, rfl⟩, rfl, rfl, heval, halt⟩ := hf
      rw [Renaming.sameItems_identity.1 heval, Renaming.sameItems_identity.1 halt]
  have hscripts := eq_map_of_forall₂ (F := fun _ => Script.of crypto (body ++ #[0x66] ++ tail)) h.scripts
    fun _ _ hscript => hscript.2.symm
  rw [← Array.toList_map, Array.toList_inj] at hscripts
  have hkept := eq_map_of_forall₂ (F := id) h.kept fun entry entry' hentry =>
    Prod.ext hentry.1.symm (Renaming.sameItem_identity.1 hentry.2)
  rw [List.map_id] at hkept
  have hheap := Renaming.sameHeap_identity.1 h.heap
  have hresults := Renaming.sameItems_identity.1 h.results
  have htracker := Renaming.sameTracker_identity.1 h.tracker
  have hjournal : t.journal = s.journal := by
    obtain ⟨events, hs, ht⟩ := h.journal
    exact ht.trans hs.symm
  obtain ⟨⟨hlimits, hcrypto, hmessage, -, -, hstatus, hiteration, hgas, hgasLimit, hdepth, -, -, -, -⟩, -⟩ := h
  obtain ⟨_, _, _, ⟨_, _, ⟨_, _⟩, _, _, _, _, _⟩, _, _, _⟩ := t
  cases hlimits
  cases hcrypto
  cases hmessage
  cases hjournal
  cases hkept
  cases hheap
  cases hstatus
  cases hiteration
  cases hgas
  cases hgasLimit
  cases hdepth
  cases hscripts
  cases hframes
  cases hresults
  cases htracker
  rfl

/-- Inside of the script, the next byte is the same. -/
theorem currentByte?_returning (hf : (returning crypto body tail).SameFrame f g)
    (hcursor : f.cursor < f.script.length) : g.currentByte? = f.currentByte? := by
  obtain ⟨⟨hscript, hscript'⟩, hsame, -, -, -⟩ := hf
  unfold Frame.currentByte? Script.byte?
  rw [hscript] at hcursor ⊢
  rw [hscript', hsame]
  show (body ++ #[0x66] ++ tail)[f.cursor]? = body[f.cursor]?
  rw [Array.append_assoc]
  exact Array.getElem?_append_left hcursor

/-- At the end of the script, the next byte is that of the return. -/
theorem currentByte?_end (hf : (returning crypto body tail).SameFrame f g) (hcursor : f.cursor = f.script.length) :
    f.currentByte? = none ∧ g.currentByte? = some 0x66 := by
  obtain ⟨⟨hscript, hscript'⟩, hsame, -, -, -⟩ := hf
  unfold Frame.currentByte? Script.byte?
  rw [hscript] at hcursor ⊢
  rw [hscript', hsame, hcursor]
  refine ⟨Array.getElem?_eq_none (Nat.le_refl _), ?_⟩
  show (body ++ #[0x66] ++ tail)[body.size]? = some 0x66
  rw [Array.append_assoc, Array.getElem?_append_right (Nat.le_refl _), Nat.sub_self,
    Array.getElem?_append_left (Nat.zero_lt_succ 0)]
  rfl

/-- **The next opcode is the same**, also at the end of the script. -/
theorem fetch_returning (hf : (returning crypto body tail).SameFrame f g) (hcursor : f.cursor ≤ f.script.length) :
    fetch g = fetch f := by
  unfold fetch
  rcases Nat.lt_or_eq_of_le hcursor with hlt | hend
  · rw [currentByte?_returning hf hlt]
  · obtain ⟨hnone, hreturn⟩ := currentByte?_end hf hend
    rw [hnone, hreturn]
    rfl

/-- A return does not look at the cursor. -/
theorem run_ret_cursor (s : State) (f : Frame) (outer : List Frame) (cursor : Nat) :
    Instructions.ret.run (s.setFrames ({ f with cursor } :: outer)) =
      Instructions.ret.run (s.setFrames (f :: outer)) := by
  cases outer <;> rfl

/-- The behaviour of a return does not look at the cursor. -/
theorem dispatch_ret_cursor (htable : e.table = .standard) (s : State) (f : Frame) (outer : List Frame)
    (cursor position : Nat) :
    (Engine.dispatch nested ⟨.ret, position⟩).run { e with state := s.setFrames ({ f with cursor } :: outer) } =
      (Engine.dispatch nested ⟨.ret, position⟩).run { e with state := s.setFrames (f :: outer) } := by
  have hmoved : ({ e with state := s.setFrames ({ f with cursor } :: outer) } : Engine).table = .standard := htable
  have hself : ({ e with state := s.setFrames (f :: outer) } : Engine).table = .standard := htable
  rw [run_dispatch nested _ hmoved, run_dispatch nested _ hself]
  dsimp only [Engine.perform]
  rw [run_onState, run_onState, run_ret_cursor]

/-- The same instruction is carried out. -/
theorem executes?_returning (h : (returning crypto body tail).SameEngine e e') (hbounded : e.state.Bounded .all) :
    e'.executes? = e.executes? := by
  have hstatus : e'.status = e.status := h.state.status
  have hall := h.state.frames
  unfold executes?
  rw [hstatus]
  cases hframes : e.state.frames with
  | nil =>
    rw [hframes] at hall
    rw [List.forall₂_nil_left_iff.1 hall]
  | cons f outer =>
    rw [hframes] at hall
    obtain ⟨g, outer', hf, -, hframes'⟩ := List.forall₂_cons_left_iff.1 hall
    rw [hframes']
    dsimp only
    rw [fetch_returning hf (hbounded.frames f (by rw [hframes]; exact List.mem_cons_self)).1]
    cases fetch f with
    | error byte => rfl
    | ok op =>
      dsimp only
      rw [price_same h.state, (consumeGas_same h.state _).1]

section

variable (h : (returning crypto body tail).SameEngine e e') (htable : e.table = .standard)
  (hcalls : ∀ op, e.executes? = some op → ¬ op.CallsByHash)
include h htable hcalls

/-- **The next instruction does the same**, also at the end of the script. -/
theorem executeNext_returning (hrun : e.status = .running) (hframes : e.state.frames = f :: outer)
    (hcursor : f.cursor ≤ f.script.length) :
    SameOutcome False (returning crypto body tail).SameEngine Eq (executeNext nested e) (executeNext nested e') := by
  have hall := h.state.frames
  rw [hframes] at hall
  obtain ⟨g, outer', hf, houter, hframes'⟩ := List.forall₂_cons_left_iff.1 hall
  refine executeNext_same h hframes hframes' (fetch_returning hf hcursor) fun op s t hop hpay hst => carryOut_same ?_
  have hcall : ¬ op.CallsByHash := hcalls op (executes?_paid hrun hframes hop hpay)
  have hbehaviour : ∀ op', e.table op = .standard op' → op'.CallsByHash → False := by
    rintro op' hop' hcall'
    rw [htable] at hop'
    cases hop'
    exact hcall hcall'
  rcases Nat.lt_or_eq_of_le hcursor with hlt | hend
  · have hbyte := congrArg Option.isSome (currentByte?_returning hf hlt)
    exact dispatch (h.setState (hst.setFrames (.cons (advance_same hf hbyte) houter))) _
      fun op' hop' hcall' => (hbehaviour op' hop' hcall').elim
  · -- One machine is past its script and the other one has read the return, after which the cursor does not matter.
    obtain ⟨hnone, -⟩ := currentByte?_end hf hend
    have hret : op = .ret := by
      unfold fetch at hop
      rw [hnone] at hop
      cases hop
      rfl
    have hstay : f.advance = f := by
      unfold Frame.advance
      rw [hnone]
      rfl
    have htable' : e'.table = .standard := by rw [h.same, htable]
    subst hret
    rw [hstay]
    refine Eq.subst (motive := fun r => SameOutcome _ _ _ _ r)
      (dispatch_ret_cursor htable' t g outer' g.advance.cursor f.cursor).symm ?_
    exact dispatch (h.setState (hst.setFrames (.cons hf houter))) _
      fun op' hop' hcall' => (hbehaviour op' hop' hcall').elim

/-- **A step does the same**, unless it ends in a fault. -/
theorem step_returning (hhost : e.HostOnlyLoads) (hbounded : e.state.Bounded .all) (hend : e.step.status ≠ .faulted) :
    (returning crypto body tail).SameEngine e.step e'.step := by
  refine stepWith_same h fun f outer hrun hframes => ⟨?_, Or.inr fun cause d hfailed => ?_⟩
  · have hcursor := (hbounded.frames f (by rw [hframes]; exact List.mem_cons_self)).1
    exact executeNext_returning h htable hcalls hrun hframes hcursor
  · exact hend (step_faulted hhost hrun hframes hfailed)

end

/-- **A run does the same**, unless it ends in a fault. -/
theorem steps_returning (h : (returning crypto body tail).SameEngine e e') (hhost : e.HostOnlyLoads)
    (hbounded : e.state.Bounded .all) (hcalls : ∀ n op, (steps n e).executes? = some op → ¬ op.CallsByHash)
    (hend : ∀ n, (steps n e).status ≠ .faulted) (n : Nat) :
    (returning crypto body tail).SameEngine (steps n e) (steps n e') ∧ (steps n e).state.Bounded .all := by
  induction n with
  | zero => exact ⟨h, hbounded⟩
  | succ n ih =>
    have hhost' := hhost.steps n
    have hnext := hend (n + 1)
    rw [steps_succ] at hnext ⊢
    rw [steps_succ]
    exact ⟨step_returning ih.1 hhost'.table (hcalls n) hhost' ih.2 hnext, step_bounded hhost' ih.2⟩

/-- A state is the same beside itself with the longer script in place of the script. -/
theorem sameState_withScript (hframes : ∀ f ∈ s.frames, f.script = Script.of crypto body)
    (hscripts : ∀ script ∈ s.session.scripts, script = Script.of crypto body) :
    (returning crypto body tail).SameState s (s.withScript (Script.of crypto (body ++ #[0x66] ++ tail))) where
  limits := rfl
  crypto := rfl
  message := rfl
  journal := ⟨s.journal, (List.append_nil _).symm, (List.append_nil _).symm⟩
  kept := List.forall₂_same.2 fun _ _ => ⟨rfl, Renaming.sameItem_identity.2 rfl⟩
  status := rfl
  iteration := rfl
  gasConsumed := rfl
  gasLimit := rfl
  maxDepth := rfl
  scripts := by
    show List.Forall₂ _ s.session.scripts.toList (s.session.scripts.map _).toList
    rw [Array.toList_map, List.forall₂_map_right_iff]
    exact List.forall₂_same.2 fun script hscript => ⟨hscripts script (Array.mem_toList_iff.1 hscript), rfl⟩
  frames := by
    show List.Forall₂ _ s.frames (s.frames.map _)
    rw [List.forall₂_map_right_iff]
    refine List.forall₂_same.2 fun f hf => ⟨⟨hframes f hf, rfl⟩, rfl, rfl, ?_, ?_⟩
    · exact Renaming.sameItems_identity.2 rfl
    · exact Renaming.sameItems_identity.2 rfl
  results := Renaming.sameItems_identity.2 rfl
  tracker := Renaming.sameTracker_identity.2 rfl
  heap := Renaming.sameHeap_identity.2 rfl

end Matching

namespace Engine

variable {e : Engine}

/-- The machine with a script loaded and a gas limit set. -/
def loaded (e : Engine) (body : Bytes) (returnCount : Int) (gasLimit : Nat) : Engine :=
  e.modifyState fun s => (s.loadScript body returnCount).2.setGasLimit gasLimit

/-- The first script of a session is put in the table and gets a frame, if there is room for one. -/
theorem loadScript_first {s : State} (hframes : s.frames = []) (hscripts : s.session.scripts = #[]) (body : Bytes)
    (returnCount : Int) :
    (s.loadScript body returnCount).2 =
      { s with session := { s.session with
          scripts := #[Script.of s.crypto body]
          calls := { s.session.calls with
            frames :=
              if 0 < s.session.calls.maxDepth then [{ script := Script.of s.crypto body, returnCount }] else [] } } } := by
  have hindex : s.scriptIndex? (Script.of s.crypto body).hash = none := by
    unfold State.scriptIndex?
    rw [hscripts]
    exact Array.findIdx?_empty
  have hpushed : s.cacheScript body =
      (0, { s with session := { s.session with scripts := #[Script.of s.crypto body] } }) := by
    unfold State.cacheScript
    rw [hindex, hscripts]
    rfl
  have hcalls : s.session.calls = { frames := [], maxDepth := s.session.calls.maxDepth } := by
    rw [← show s.session.calls.frames = [] from hframes]
  rw [State.loadScript_eq, hpushed]
  unfold State.loadCached CallStack.push
  dsimp only
  rw [hcalls]
  by_cases hroom : 0 < s.session.calls.maxDepth <;> simp [hroom]

/-- A script that is loaded alone runs from its start, and it is the only one. -/
theorem loaded_alone (hframes : e.state.frames = []) (hscripts : e.state.session.scripts = #[]) (body : Bytes)
    (returnCount : Int) (gasLimit : Nat) :
    (e.loaded body returnCount gasLimit).state.Bounded .all ∧
      (∀ f ∈ (e.loaded body returnCount gasLimit).state.frames, f.script = Script.of e.state.crypto body) ∧
      ∀ script ∈ (e.loaded body returnCount gasLimit).state.session.scripts,
        script = Script.of e.state.crypto body := by
  have hstate : (e.loaded body returnCount gasLimit).state = _ :=
    congrArg (State.setGasLimit · gasLimit) (loadScript_first hframes hscripts body returnCount)
  have hfresh : ∀ f ∈ (e.loaded body returnCount gasLimit).state.frames,
      f = { script := Script.of e.state.crypto body, returnCount } := by
    rw [hstate]
    show ∀ f ∈ (if 0 < e.state.session.calls.maxDepth then _ else _ : List Frame), _
    split
    · exact fun f hf => List.mem_singleton.1 hf
    · exact fun f hf => absurd hf List.not_mem_nil
  refine ⟨⟨Policy.all_allowsHeap _, fun f hf => ?_, Policy.all_allowsItems _, ?_⟩, fun f hf => ?_, ?_⟩
  · rw [hfresh f hf]
    exact ⟨Nat.zero_le _, Policy.all_allowsItems _, Policy.all_allowsItems _⟩
  · rw [hstate]
    show (if 0 < e.state.session.calls.maxDepth then _ else _ : List Frame).length ≤ e.state.session.calls.maxDepth
    split
    · assumption
    · exact Nat.zero_le _
  · rw [hfresh f hf]
  · rw [hstate]
    exact fun script hscript => List.mem_singleton.1 (Array.mem_toList_iff.2 hscript)

/-- Another script that is loaded alone is in the place of the first one. -/
theorem loaded_withScript (hframes : e.state.frames = []) (hscripts : e.state.session.scripts = #[])
    (body other : Bytes) (returnCount : Int) (gasLimit : Nat) :
    (e.loaded other returnCount gasLimit).state =
      (e.loaded body returnCount gasLimit).state.withScript (Script.of e.state.crypto other) := by
  have hstate : ∀ body, (e.loaded body returnCount gasLimit).state = _ := fun body =>
    congrArg (State.setGasLimit · gasLimit) (loadScript_first hframes hscripts body returnCount)
  rw [hstate, hstate]
  by_cases hroom : 0 < e.state.session.calls.maxDepth <;>
    simp [State.withScript, State.setGasLimit, State.frames, hroom]

/-- **A machine that has not failed** has not failed on the way. -/
theorem steps_not_faulted {k : Nat} (hend : (steps k e).status = .halted ∨ (steps k e).status = .outOfGas) (n : Nat) :
    (steps n e).status ≠ .faulted := by
  intro hfaulted
  -- A machine that has ended stays as it is.
  have hlast : ∀ {i j : Nat}, i ≤ j → (steps i e).status ≠ .running → steps j e = steps i e := by
    rintro i _ hij hstop
    obtain ⟨d, rfl⟩ := Nat.exists_eq_add_of_le hij
    rw [steps_add, steps_ended hstop]
  rcases Nat.le_total n k with hle | hle
  · rw [hlast hle (by rw [hfaulted]; decide), hfaulted] at hend
    rcases hend with h | h <;> cases h
  · rw [hlast hle (by rcases hend with h | h <;> rw [h] <;> decide)] at hfaulted
    rw [hfaulted] at hend
    rcases hend with h | h <;> cases h

/-- **The two runs are the same step by step**, whatever the loader is: neither of them asks it. -/
theorem steps_withScript {e' : Engine} {crypto : CryptoSuite} {body tail : Bytes}
    (hstate : (Matching.returning crypto body tail).SameState e.state e'.state)
    (hsame : e' = { e with state := e'.state }) (htable : e.table = .standard) (hinterop : e.interop = none)
    (hbounded : e.state.Bounded .all)
    (hcalls : ∀ n op, (steps n e).executes? = some op → ¬ op.CallsByHash) (hend : ∀ n, (steps n e).status ≠ .faulted)
    (n : Nat) :
    steps n e' = (steps n e).withScript (Script.of crypto (body ++ #[0x66] ++ tail)) ∧
      (steps n e').executes? = (steps n e).executes? := by
  -- A run that never asks the loader is the run of a machine without one, whose host can do nothing at all.
  have hfree := steps_loaderFree htable hinterop hcalls
  have hhost : ({ e with loader := none } : Engine).HostOnlyLoads := ⟨htable, hinterop, fun _ h => by cases h⟩
  have hpair :
      (Matching.returning crypto body tail).SameEngine { e with loader := none } { e' with loader := none } := by
    refine ⟨hstate, by rw [hsame], hinterop, rfl, fun op run hcustom => ?_⟩
    rw [show ({ e with loader := none } : Engine).table = .standard from htable] at hcustom
    cases hcustom
  have hrun := Matching.steps_returning hpair hhost hbounded
    (fun m op hop => hcalls m op (by rw [hfree] at hop; exact hop)) (fun m => by rw [hfree]; exact hend m)
  -- The other machine carries out the same instructions, so that it does not ask its loader either.
  have hexecutes : ∀ m, (steps m { e' with loader := none }).executes? = (steps m e).executes? := by
    intro m
    rw [Matching.executes?_returning (hrun m).1 (hrun m).2, hfree]
    rfl
  have hfree' := steps_loaderFree (e := { e' with loader := none }) (by rw [hsame]; exact htable)
    (by rw [hsame]; exact hinterop) (fun m op hop => hcalls m op ((hexecutes m).symm.trans hop)) e.loader n
  have hother : steps n e' = { steps n { e' with loader := none } with loader := e.loader } := by
    rw [← hfree', hsame]
  have hself : steps n e = { steps n e with loader := e.loader } := hfree e.loader n
  refine ⟨?_, ?_⟩
  · rw [hother, (hrun n).1.same, Matching.eq_withScript (hrun n).1.state, hfree, hself]
    rfl
  · rw [hother]
    exact hexecutes n

/-- **Running off the end of a script is a return.** A run of a script alone that ends well, or for want of gas, and
that calls no script by its hash, is step by step the run of the script followed by a return and anything else: all
that differs is the script itself. -/
theorem runs_off_end (htable : e.table = .standard) (hinterop : e.interop = none) (hframes : e.state.frames = [])
    (hscripts : e.state.session.scripts = #[]) (body tail : Bytes) (returnCount : Int) (gasLimit : Nat)
    (hcalls : ∀ n op, (steps n (e.loaded body returnCount gasLimit)).executes? = some op → ¬ op.CallsByHash)
    (hend : ((e.loaded body returnCount gasLimit).execute gasLimit).status = .halted ∨
      ((e.loaded body returnCount gasLimit).execute gasLimit).status = .outOfGas) :
    let script := Script.of e.state.crypto (body ++ #[0x66] ++ tail)
    let alone := e.loaded body returnCount gasLimit
    let longer := e.loaded (body ++ #[0x66] ++ tail) returnCount gasLimit
    longer.execute gasLimit = (alone.execute gasLimit).withScript script ∧
    (longer.execute gasLimit).status = (alone.execute gasLimit).status ∧
    (longer.execute gasLimit).state.session.gasConsumed = (alone.execute gasLimit).state.session.gasConsumed ∧
    (longer.execute gasLimit).state.session.results = (alone.execute gasLimit).state.session.results ∧
    (∃ n, alone.execute gasLimit = steps n alone ∧ longer.execute gasLimit = steps n longer ∧
      ∀ m < n, (steps m alone).status = .running ∧ (steps m longer).status = .running) ∧
    ∀ m, steps m longer = (steps m alone).withScript script ∧
      (steps m longer).executes? = (steps m alone).executes? := by
  intro script alone longer
  obtain ⟨hbounded, hruns, honly⟩ := loaded_alone hframes hscripts body returnCount gasLimit
  obtain ⟨n, -, hexecute, hbefore, -⟩ := stepWhile_cases alone.stepBudget alone
  have hnot : ∀ m, (steps m alone).status ≠ .faulted := steps_not_faulted (k := n) (hexecute ▸ hend)
  have hstart : longer.state = alone.state.withScript script := loaded_withScript hframes hscripts _ _ _ _
  have hstate : (Matching.returning e.state.crypto body tail).SameState alone.state longer.state := by
    rw [hstart]
    exact Matching.sameState_withScript hruns honly
  have hself : longer = { alone with state := longer.state } := rfl
  have hsteps := steps_withScript hstate hself htable hinterop hbounded hcalls hnot
  have hbudget : longer.stepBudget = alone.stepBudget := by
    unfold stepBudget
    rw [hstart]
    rfl
  have hother : longer.execute gasLimit = steps longer.stepBudget longer := stepWhile_true longer.stepBudget longer
  have hone : alone.execute gasLimit = steps alone.stepBudget alone := stepWhile_true alone.stepBudget alone
  have hsame : longer.execute gasLimit = (alone.execute gasLimit).withScript script := by
    rw [hother, hone, hbudget]
    exact (hsteps _).1
  refine ⟨hsame, by rw [hsame]; rfl, by rw [hsame]; rfl, by rw [hsame]; rfl, ⟨n, hexecute, ?_, fun m hm => ?_⟩, hsteps⟩
  · rw [hsame, (hsteps n).1]
    exact congrArg (Engine.withScript · script) hexecute
  · rw [(hsteps m).1]
    exact ⟨hbefore m hm, hbefore m hm⟩

/-- A script that calls a routine at its own end, so that two returns happen there, one inside of the other. -/
theorem runs_off_end_call :
    let digests : CryptoSuite :=
      { sha1 := fun _ => #[], sha256 := fun _ => #[], hash160 := fun _ => #[], hash256 := fun _ => #[]
        verify := fun _ _ _ => false }
    let e := Engine.new .default digests
    let alone := e.loaded #[0x51, 0x65, 0x03, 0x00] returnAll 100
    let longer := e.loaded #[0x51, 0x65, 0x03, 0x00, 0x66, 0xFF] returnAll 100
    ((alone.execute 100).status = .halted ∧ (alone.execute 100).state.session.gasConsumed = 4 ∧
      (steps 2 alone).depth = 2 ∧ (steps 2 alone).executes? = some .ret ∧ (steps 3 alone).executes? = some .ret) ∧
    (longer.execute 100).status = .halted ∧ (longer.execute 100).state.session.gasConsumed = 4 ∧
    (longer.execute 100).state.session.results = (alone.execute 100).state.session.results ∧
    (steps 3 longer).executes? = some .ret := by
  intro digests e alone longer
  have hrun : (alone.execute 100).status = .halted ∧ (alone.execute 100).state.session.gasConsumed = 4 ∧
      (steps 2 alone).depth = 2 ∧ (steps 2 alone).executes? = some .ret ∧ (steps 3 alone).executes? = some .ret := by
    decide +kernel
  have hcalls : ∀ n op, (steps n alone).executes? = some op → ¬ op.CallsByHash := by
    intro n op hop
    have hall : ∀ m < 4, (steps m alone).executes? ∈ [some (.push 0), some .call, some .ret] := by decide +kernel
    have hmem := hall n (lt_of_executes? (by decide +kernel) hop)
    rw [hop] at hmem
    simp only [List.mem_cons, Option.some.injEq, List.not_mem_nil, or_false] at hmem
    rcases hmem with rfl | rfl | rfl <;> exact id
  obtain ⟨-, hstatus, hgas, hresults, -, hsteps⟩ := runs_off_end (e := e) rfl rfl rfl rfl #[0x51, 0x65, 0x03, 0x00]
    #[0xFF] returnAll 100 hcalls (Or.inl hrun.1)
  exact ⟨hrun, hstatus.trans hrun.1, hgas.trans hrun.2.1, hresults, (hsteps 3).2.trans hrun.2.2.2.2⟩

end Engine

end ScriptMachine
