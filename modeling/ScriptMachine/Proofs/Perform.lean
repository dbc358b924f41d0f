import ScriptMachine.Proofs.Calls

/-! # What an opcode can do

The opcodes fall into two parts. Those that *transfer* control push or take off frames, or ask the host; all
others change no more than `StateChange` says. Together this is the outcome of every opcode, from which the
invariants of steps are derived.

* `OpCode.Transfers`: the ten opcodes of the first part.
* `Engine.perform_keeps`: the second part.
* `Engine.perform_outcome`: all opcodes, for a machine whose host only loads scripts.
-/

namespace ScriptMachine

/-- The opcode pushes or takes off frames, or asks the host. -/
def OpCode.Transfers : OpCode → Prop
  | .call | .ret | .appCall | .tailCall | .sysCall => True
  | .callI | .callE | .callED | .callET | .callEDT => True
  | _ => False

namespace Engine

variable {p : Policy} {e₀ : Engine} {nested : Engine → Engine} {op : OpCode} {i : Instruction}

section

variable {α : Type} {Q : α → Prop} {s₀ : State}

/-- A computation of the state, run on an engine. -/
theorem onState_keeps {m : Exec α} (hm : Keeps (StateChange p s₀) m Q) :
    Keeps (e₀.StateIn (StateChange p s₀)) (onState m) Q := by
  rintro e ⟨s, rfl, hs⟩
  obtain ⟨hchange, hQ⟩ := hm s hs
  rw [run_onState]
  exact ⟨⟨_, rfl, hchange⟩, hQ⟩

/-- A computation of the innermost frame, run on an engine. -/
theorem onFrame_keeps {m : FrameM α} (hm : ∀ f₀, Keeps (FrameChange p.AllowsItem f₀) m Q) :
    Keeps (e₀.StateIn (StateChange p s₀)) (onFrame m) Q :=
  onState_keeps (Exec.onFrame_keeps hm)

/-- A computation of the innermost frame that depends on the bounds, run on an engine. -/
theorem onFrameWithin_keeps {m : Limits → FrameM α}
    (hm : ∀ f₀, Keeps (FrameChange p.AllowsItem f₀) (m s₀.limits) Q) :
    Keeps (e₀.StateIn (StateChange p s₀)) (onFrameWithin m) Q := by
  unfold onFrameWithin
  refine Keeps.reads.seq ?_
  rintro e ⟨s, rfl, hs⟩
  dsimp only
  rw [hs.limits]
  exact onFrame_keeps hm

end

open Instructions in
/-- **An opcode that does not transfer control** changes only the innermost frame, the objects, the tracked
containers and the journal. A direct push is allowed what its opcode byte announces. -/
theorem perform_keeps (hp : p.Admits e₀.state.limits e₀.state.crypto) (hop : ¬ op.Transfers)
    (hdirect : ∀ n, op = .pushBytes n → ∀ d : Bytes, d.size = i.op.toByte.toNat → p.bytes d) :
    Keeps (e₀.StateIn (StateChange p e₀.state)) (perform nested op i) (fun _ => True) := by
  unfold perform
  -- One case for each opcode, by the lemma of its behaviour.
  cases op with
  | push0 => exact onState_keeps (Exec.pushBytes_keeps (hp.short _ (by decide)))
  | pushBytes n => exact onState_keeps (pushOperand_keeps (hdirect n rfl))
  | pushData1 => exact onState_keeps (pushCounted_keeps hp 1)
  | pushData2 => exact onState_keeps (pushCounted_keeps hp 2)
  | pushData4 => exact onState_keeps (pushCounted_keeps hp 4)
  | pushM1 => exact onState_keeps (Exec.push_keeps hp.minusOne)
  | push n => exact onState_keeps (pushSmall_keeps hp i)
  | nop => exact Keeps.returns trivial
  | jmp => exact onFrame_keeps fun _ => jump_keeps i
  | jmpIf => exact onFrame_keeps fun _ => jump_keeps i
  | jmpIfNot => exact onFrame_keeps fun _ => jump_keeps i
  | dupFromAltStack => exact onFrame_keeps fun _ => dupFromAltStack_keeps
  | toAltStack => exact onFrame_keeps fun _ => toAltStack_keeps
  | fromAltStack => exact onFrame_keeps fun _ => fromAltStack_keeps
  | xdrop => exact onFrame_keeps fun _ => xdrop_keeps
  | xswap => exact onFrame_keeps fun _ => xswap_keeps
  | xtuck => exact onFrame_keeps fun _ => xtuck_keeps
  | depth => exact onFrame_keeps fun _ => depth_keeps hp.made
  | drop => exact onFrame_keeps fun _ => drop_keeps
  | dup => exact onFrame_keeps fun _ => dup_keeps
  | nip => exact onFrame_keeps fun _ => nip_keeps
  | «over» => exact onFrame_keeps fun _ => copySecond_keeps
  | pick => exact onFrame_keeps fun _ => pick_keeps
  | roll => exact onFrame_keeps fun _ => roll_keeps
  | rot => exact onFrame_keeps fun _ => rot_keeps
  | swap => exact onFrame_keeps fun _ => swap_keeps
  | tuck => exact onFrame_keeps fun _ => tuck_keeps
  | cat => exact onState_keeps (cat_keeps hp)
  | substr => exact onState_keeps (substr_keeps hp)
  | left => exact onState_keeps (left_keeps hp)
  | right => exact onState_keeps (right_keeps hp)
  | size => exact onState_keeps (size_keeps hp)
  | arraySize => exact onState_keeps (size_keeps hp)
  | invert => exact onFrameWithin_keeps fun _ => unary_keeps hp.made _
  | and => exact onFrameWithin_keeps fun _ => binary_keeps hp.made _
  | or => exact onFrameWithin_keeps fun _ => binary_keeps hp.made _
  | xor => exact onFrameWithin_keeps fun _ => binary_keeps hp.made _
  | equal => exact onState_keeps equal_keeps
  | inc => exact onFrameWithin_keeps fun _ => unary_keeps hp.made _
  | dec => exact onFrameWithin_keeps fun _ => unary_keeps hp.made _
  | sign => exact onFrameWithin_keeps fun _ => unary_keeps hp.made _
  | negate => exact onFrameWithin_keeps fun _ => unary_keeps hp.made _
  | abs => exact onFrameWithin_keeps fun _ => unary_keeps hp.made _
  | not => exact onFrame_keeps fun _ => logicalNot_keeps hp.made
  | nz => exact onFrameWithin_keeps fun _ => nonZero_keeps hp.made
  | add => exact onFrameWithin_keeps fun _ => binary_keeps hp.made _
  | sub => exact onFrameWithin_keeps fun _ => binary_keeps hp.made _
  | mul => exact onFrameWithin_keeps fun _ => binary_keeps hp.made _
  | div => exact onFrameWithin_keeps fun _ => binary_keeps hp.made _
  | mod => exact onFrameWithin_keeps fun _ => binary_keeps hp.made _
  | shl => exact onFrameWithin_keeps fun _ => shift_keeps hp.made _
  | shr => exact onFrameWithin_keeps fun _ => shift_keeps hp.made _
  | boolAnd => exact onFrame_keeps fun _ => logical_keeps hp.made _
  | boolOr => exact onFrame_keeps fun _ => logical_keeps hp.made _
  | numEqual => exact onFrameWithin_keeps fun _ => compare_keeps hp.made _
  | numNotEqual => exact onFrameWithin_keeps fun _ => compare_keeps hp.made _
  | lt => exact onFrameWithin_keeps fun _ => compare_keeps hp.made _
  | gt => exact onFrameWithin_keeps fun _ => compare_keeps hp.made _
  | lte => exact onFrameWithin_keeps fun _ => compare_keeps hp.made _
  | gte => exact onFrameWithin_keeps fun _ => compare_keeps hp.made _
  | min => exact onFrameWithin_keeps fun _ => binary_keeps hp.made _
  | max => exact onFrameWithin_keeps fun _ => binary_keeps hp.made _
  | within => exact onFrameWithin_keeps fun _ => within_keeps hp.made
  | sha1 => exact onState_keeps (digest_keeps hp hp.sha1)
  | sha256 => exact onState_keeps (digest_keeps hp hp.sha256)
  | hash160 => exact onState_keeps (digest_keeps hp hp.hash160)
  | hash256 => exact onState_keeps (digest_keeps hp hp.hash256)
  | checkSig => exact onState_keeps (checkSig_keeps hp)
  | verify => exact onState_keeps (verify_keeps hp)
  | checkMultiSig => exact onState_keeps (checkMultiSig_keeps hp)
  | pack => exact onState_keeps (pack_keeps hp)
  | unpack => exact onState_keeps (unpack_keeps hp)
  | pickItem => exact onState_keeps (pickItem_keeps hp)
  | setItem => exact onState_keeps (setItem_keeps hp)
  | newArray => exact onState_keeps (newArray_keeps hp)
  | newStruct => exact onState_keeps (newStruct_keeps hp)
  | newMap => exact onState_keeps (newMap_keeps hp)
  | append => exact onState_keeps (append_keeps hp)
  | reverse => exact onState_keeps (reverse_keeps hp)
  | remove => exact onState_keeps (remove_keeps hp)
  | hasKey => exact onState_keeps hasKey_keeps
  | keys => exact onState_keeps (keys_keeps hp)
  | values => exact onState_keeps (values_keeps hp)
  | throw => exact onState_keeps (Keeps.throws _)
  | throwIfNot => exact onState_keeps (throwIfNot_keeps i)
  | _ => exact absurd trivial hop

/-- Without a service handler, a request for a service only reads its name. -/
theorem sysCall_keeps (hinterop : e₀.interop = none) :
    Keeps (e₀.StateIn (StateChange p e₀.state)) (sysCall nested) (fun _ => True) := by
  unfold sysCall
  refine (onFrameWithin_keeps fun _ => Frame.readVarBytes_keeps _).seq fun name (_ : True) => ?_
  unfold invokeInterop
  refine Keeps.reads.seq ?_
  rintro e ⟨s, rfl, hs⟩
  dsimp only
  rw [hinterop]
  exact Keeps.throws _

/-- A host that has only the standard behaviours, offers no services and at most loads scripts. -/
structure HostOnlyLoads (e : Engine) : Prop where
  /-- Every opcode has its own behaviour. -/
  table : e.table = .standard
  /-- There is no service handler. -/
  interop : e.interop = none
  /-- The loader only loads scripts. -/
  loader : e.LoaderLoadsOnly

/-- With the standard table an instruction does what its opcode says. -/
theorem run_dispatch (nested : Engine → Engine) (i : Instruction) (htable : e₀.table = .standard) :
    (dispatch nested i).run e₀ = (perform nested i.op i).run e₀ := by
  unfold dispatch
  rw [run_get_seq, htable]

section

variable {f₀ : Frame} {outer : List Frame} (hhost : e₀.HostOnlyLoads)
  (hp : p.Admits e₀.state.limits e₀.state.crypto) (hframes : e₀.state.frames = f₀ :: outer)
  (hheap : p.AllowsHeap e₀.state.heap) (heval : p.AllowsItems f₀.eval) (halt : p.AllowsItems f₀.alt)
include hframes hheap heval halt

/-- A computation that changes no more than an instruction without a transfer has an outcome. -/
theorem leads_of_keeps (hop : ¬ op.Calls) {m : Run Unit}
    (hm : Keeps (e₀.StateIn (StateChange p e₀.state)) m (fun _ => True)) :
    Leads (· = e₀) m
      (fun _ => e₀.StateIn fun s =>
        Outcome p e₀.state f₀ outer true s ∧ (op.Calls → Enters op e₀.state f₀ outer s))
      (e₀.StateIn (Outcome p e₀.state f₀ outer false)) := by
  have hstart : StateChange p e₀.state e₀.state := by
    refine StateChange.refl hheap ?_
    rw [hframes]
    rintro _ ⟨⟩
    exact ⟨heval, halt⟩
  refine (hm.leads ⟨_, rfl, hstart⟩).ends ?_ ?_
  · rintro _ e ⟨⟨s, rfl, hs⟩, -⟩
    exact ⟨s, rfl, .inside (hs.inside hframes), fun h => absurd h hop⟩
  · rintro e ⟨s, rfl, hs⟩
    exact ⟨s, rfl, .inside (hs.inside hframes)⟩

include hhost hp

/-- **Every opcode has an outcome**, and a call that succeeds has moved its arguments. -/
theorem perform_leads (nested : Engine → Engine) (hi : i.op = op) :
    Leads (· = e₀) (perform nested op i)
      (fun _ => e₀.StateIn fun s =>
        Outcome p e₀.state f₀ outer true s ∧ (op.Calls → Enters op e₀.state f₀ outer s))
      (e₀.StateIn (Outcome p e₀.state f₀ outer false)) := by
  by_cases hop : op.Transfers
  · have hstart : ∀ e, e = e₀ → e₀.StateIn (WithFrames e₀.state (f₀ :: outer)) e := by
      rintro e rfl
      exact ⟨e.state, rfl, hframes ▸ WithFrames.refl e.state⟩
    have hfail : ∀ e, e₀.StateIn (Inside p e₀.state f₀ outer) e →
        e₀.StateIn (Outcome p e₀.state f₀ outer false) e := by
      rintro e ⟨s, rfl, hs⟩
      exact ⟨s, rfl, .inside hs⟩
    unfold perform
    cases op with
    | call =>
      refine ((Instructions.call_leads hframes hheap heval halt hi).onState e₀).weaken hstart ?_ hfail
      rintro _ e ⟨s, rfl, callee, caller, hentered, hempty⟩
      exact ⟨s, rfl, .inside (hentered.inside hheap heval halt),
        fun _ => ⟨callee, caller, hentered, hempty⟩⟩
    | ret =>
      refine ((Instructions.ret_leads hframes).onState e₀).weaken ?_ ?_ (fun _ h => h)
      · rintro e rfl
        exact ⟨e.state, rfl, rfl⟩
      · rintro _ e ⟨s, rfl, hs⟩
        exact ⟨s, rfl, hs, False.elim⟩
    | callI =>
      refine ((Instructions.callIsolated_leads hframes hheap heval halt i).onState e₀).weaken
        hstart ?_ hfail
      rintro _ e ⟨s, rfl, callee, caller, hentered, -, b, hb, hlength⟩
      refine ⟨s, rfl, .inside (hentered.inside hheap heval halt), fun _ => ⟨callee, caller, hentered, ?_⟩⟩
      simpa [Frame.announces?, hb] using hlength
    | appCall =>
      refine (appCall_leads hhost.loader hframes hheap heval halt nested i).weaken hstart ?_ hfail
      rintro _ e ⟨s, rfl, hinside, hentered⟩
      exact ⟨s, rfl, .inside hinside, fun _ => hentered (by rw [hi]; decide)⟩
    | tailCall =>
      refine (appCall_leads hhost.loader hframes hheap heval halt nested i).weaken hstart ?_ hfail
      rintro _ e ⟨s, rfl, hinside, -⟩
      exact ⟨s, rfl, .inside hinside, False.elim⟩
    | sysCall => exact leads_of_keeps hframes hheap heval halt id (sysCall_keeps hhost.interop)
    | callE | callED =>
      refine (callExternal_leads hhost.loader hframes hheap heval halt nested i).weaken hstart ?_ hfail
      rintro _ e ⟨s, rfl, hinside, hentered⟩
      refine ⟨s, rfl, .inside hinside, fun _ => ?_⟩
      obtain ⟨callee, caller, hboth, b, hb, hlength⟩ := hentered (by rw [hi]; decide)
      rw [hi] at hboth
      refine ⟨callee, caller, hboth, ?_⟩
      simpa [Frame.announces?, hb] using hlength
    | callET | callEDT =>
      refine (callExternal_leads hhost.loader hframes hheap heval halt nested i).weaken hstart ?_ hfail
      rintro _ e ⟨s, rfl, hinside, -⟩
      exact ⟨s, rfl, .inside hinside, False.elim⟩
    | _ => exact hop.elim
  · have hcalls : ¬ op.Calls := fun h => hop (by cases op <;> trivial)
    refine leads_of_keeps hframes hheap heval halt hcalls (perform_keeps hp hop fun n hn d hd => ?_)
    -- A direct push reads as many bytes as its opcode byte says, which is at most 75.
    refine hp.short d ?_
    rw [hd, hi, hn, OpCode.toByte, UInt8.toNat_ofNat']
    omega

/-- The behaviour that the table gives to an opcode is the standard one. -/
theorem dispatch_leads (nested : Engine → Engine) :
    Leads (· = e₀) (dispatch nested i)
      (fun _ => e₀.StateIn fun s =>
        Outcome p e₀.state f₀ outer true s ∧ (i.op.Calls → Enters i.op e₀.state f₀ outer s))
      (e₀.StateIn (Outcome p e₀.state f₀ outer false)) := by
  unfold dispatch
  refine Leads.reads ?_
  rintro e rfl
  rw [hhost.table]
  exact perform_leads hhost hp hframes hheap heval halt nested rfl

end

end Engine

end ScriptMachine
