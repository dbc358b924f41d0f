import ScriptMachine.Proofs.Renaming.Instructions
import ScriptMachine.Proofs.Steps

/-! # Steps of two machines side by side

Two machines without a service handler and without behaviours of the host do the same, instruction by instruction. What
the script loaders do is left open here, because only the calls by a hash ask for them; and so is where the two scripts
end, because that is what a comparison of scripts is about.

* `OpCode.CallsByHash`: the opcodes that ask the loader.
* `Matching.SameEngine`, `Matching.perform`, `Matching.dispatch`: opcodes.
* `Matching.price_same`, `Matching.consumeGas_same`: the price of an instruction.
* `Matching.executeNext_same`, `Matching.stepWith_same`: a step.
-/

namespace ScriptMachine

/-- The opcode calls a script by its hash. -/
def OpCode.CallsByHash : OpCode → Prop
  | .appCall | .tailCall | .callE | .callED | .callET | .callEDT => True
  | _ => False

namespace Matching

open Matches Engine

/-- Two machines in the same state, with the same host, which has neither a service handler nor behaviours of its
own. -/
structure SameEngine (M : Matching) (e e' : Engine) : Prop where
  /-- The states. -/
  state : M.SameState e.state e'.state
  /-- The host and the table are the same. -/
  same : e' = { e with state := e'.state }
  /-- There is no service handler. -/
  interop : e.interop = none
  /-- The script loader is the given one. -/
  loader : e.loader = M.loader
  /-- The host supplies no behaviours. -/
  table : ∀ op run, e.table op ≠ .custom run

variable {M : Matching} {α β : Type} {Q : α → β → Prop} {e e' : Engine} {s t : State} {f g : Frame}
  {outer outer' : List Frame} {nested : Engine → Engine}

/-- Other states. -/
theorem SameEngine.setState (h : M.SameEngine e e') (hs : M.SameState s t) :
    M.SameEngine { e with state := s } { e' with state := t } := by
  refine ⟨hs, ?_, h.interop, h.loader, h.table⟩
  rw [h.same]

/-! ## Opcodes -/

/-- Two computations of an engine, run side by side. -/
abbrev OnEngine (M : Matching) (m : Run α) (n : Run β) (Q : α → β → Prop) : Prop :=
  Matches M.faults M.SameEngine m n Q

/-- A computation of the state. -/
theorem onState {m : Exec α} {n : Exec β} (hm : M.OnState m n Q) :
    M.OnEngine (Engine.onState m) (Engine.onState n) Q := by
  intro e e' h
  have hrun := hm e.state e'.state h.state
  rw [run_onState, run_onState]
  revert hrun
  rcases m.run e.state with ⟨cause | a, s⟩
  · intro hrun hfaults
    obtain ⟨t, hn, hst⟩ := hrun hfaults
    rw [hn]
    exact ⟨_, rfl, h.setState hst⟩
  · rintro ⟨b, t, hn, hab, hst⟩
    dsimp only
    rw [hn]
    exact ⟨b, _, rfl, hab, h.setState hst⟩

/-- A computation of the innermost frame that depends on the bounds. -/
theorem onFrameWithin {m : Limits → FrameM α} {n : Limits → FrameM β} (hm : ∀ l, M.OnFrame (m l) (n l) Q) :
    M.OnEngine (Engine.onFrameWithin m) (Engine.onFrameWithin n) Q := by
  refine reads fun e e' h => ?_
  rw [h.state.limits]
  exact onState (onFrame (hm _))

/-- Asking for a service fails. -/
theorem sysCall : M.OnEngine (Engine.sysCall nested) (Engine.sysCall nested) Eq := by
  refine (onFrameWithin fun l => readVarBytes _).seqEq fun name => reads fun e e' h => ?_
  have hinterop : e'.interop = none := by rw [h.same, h.interop]
  rw [h.interop, hinterop]
  exact throws _

/-- What a call by hash reads is the same. -/
theorem callOperands : M.OnFrame Engine.callOperands Engine.callOperands Eq :=
  (readBytes _).seqEq fun _ => branch (fun _ => returns rfl) fun _ => popHash.seqEq fun _ => returns rfl

/-- What a call by hash with announced counts reads is the same. -/
theorem externalOperands (dynamic tail : Bool) :
    M.OnFrame (Engine.externalOperands dynamic tail) (Engine.externalOperands dynamic tail) Eq := by
  refine (readNat 1).seqEq fun returnCount => (readNat 1).seqEq fun parameterCount => reads fun f g hf => ?_
  rw [hf.returnCount, ← hf.eval.length_eq]
  refine guarded (guarded (branch (fun _ => ?_) fun _ => ?_))
  · exact popHash.seqEq fun hash => returns rfl
  · exact (readBytes _).seqEq fun hash => returns rfl

/-- A call by hash is the same if the loads are. -/
theorem callByHash {operands : FrameM α} {hash : α → Bytes} {dynamic : α → Bool} {returnCount : α → Int}
    {count : α → Option Nat} {tail : Prop} [Decidable tail] (hoperands : M.OnFrame operands operands Eq)
    (hload : ∀ hash dynamic returnCount, M.OnEngine (loadByHash nested hash dynamic returnCount)
      (loadByHash nested hash dynamic returnCount) Eq) :
    M.OnEngine (Engine.callByHash nested operands hash dynamic returnCount count tail)
      (Engine.callByHash nested operands hash dynamic returnCount count tail) Eq :=
  (onState (onFrame hoperands)).seqEq fun _ => (hload _ _ _).seqEq fun _ => (onState (moveArguments _)).seqEq fun _ =>
    branch (fun _ => onState dropCaller) fun _ => returns rfl

/-- **Every opcode does the same to both machines**; those that call by a hash, if the loads do. -/
theorem perform (op : OpCode) (i : Instruction)
    (hload : op.CallsByHash → ∀ hash dynamic returnCount, M.OnEngine (loadByHash nested hash dynamic returnCount)
      (loadByHash nested hash dynamic returnCount) Eq) :
    M.OnEngine (Engine.perform nested op i) (Engine.perform nested op i) Eq := by
  unfold Engine.perform
  cases op with
  | push0 => exact onState pushEmpty
  | pushBytes _ => exact onState (pushDirect i)
  | pushData1 | pushData2 | pushData4 => exact onState (pushCounted _)
  | pushM1 => exact onState pushMinusOne
  | push _ => exact onState (pushSmall i)
  | nop => exact returns rfl
  | jmp | jmpIf | jmpIfNot => exact onState (onFrame (jump i))
  | call => exact onState (call i)
  | ret => exact onState ret
  | appCall | tailCall => exact callByHash callOperands (hload trivial)
  | sysCall => exact sysCall
  | dupFromAltStack => exact onState (onFrame dupFromAltStack)
  | toAltStack => exact onState (onFrame toAltStack)
  | fromAltStack => exact onState (onFrame fromAltStack)
  | xdrop => exact onState (onFrame xdrop)
  | xswap => exact onState (onFrame xswap)
  | xtuck => exact onState (onFrame xtuck)
  | depth => exact onState (onFrame depth)
  | drop => exact onState (onFrame drop)
  | dup => exact onState (onFrame dup)
  | nip => exact onState (onFrame nip)
  | «over» => exact onState (onFrame copySecond)
  | pick => exact onState (onFrame pick)
  | roll => exact onState (onFrame roll)
  | rot => exact onState (onFrame rot)
  | swap => exact onState (onFrame swap)
  | tuck => exact onState (onFrame tuck)
  | cat => exact onState cat
  | substr => exact onState substr
  | left => exact onState left
  | right => exact onState right
  | size | arraySize => exact onState size
  | invert | inc | dec | sign | negate | abs => exact onFrameWithin fun _ => unary _
  | and | or | xor | add | sub | mul | div | mod | min | max => exact onFrameWithin fun _ => binary _
  | shl | shr => exact onFrameWithin fun _ => shift _
  | equal => exact onState equal
  | not => exact onState (onFrame logicalNot)
  | nz => exact onFrameWithin fun _ => nonZero
  | boolAnd | boolOr => exact onState (onFrame (logical _))
  | numEqual | numNotEqual | lt | gt | lte | gte => exact onFrameWithin fun _ => compare _
  | within => exact onFrameWithin fun _ => within
  | sha1 | sha256 | hash160 | hash256 => exact onState (digest _)
  | checkSig => exact onState checkSig
  | verify => exact onState verify
  | checkMultiSig => exact onState checkMultiSig
  | pack => exact onState pack
  | unpack => exact onState unpack
  | pickItem => exact onState pickItem
  | setItem => exact onState setItem
  | newArray => exact onState newArray
  | newStruct => exact onState newStruct
  | newMap => exact onState newMap
  | append => exact onState append
  | reverse => exact onState reverse
  | remove => exact onState removeItem
  | hasKey => exact onState hasKey
  | keys => exact onState keys
  | values => exact onState values
  | callI => exact onState (callIsolated i)
  | callE | callED | callET | callEDT => exact callByHash (externalOperands _ _) (hload trivial)
  | throw => exact onState (throwAlways i)
  | throwIfNot => exact onState (throwIfNot i)

/-- The behaviours that the table gives to opcodes do the same to both machines. -/
theorem dispatch (h : M.SameEngine e e') (i : Instruction)
    (hload : ∀ op, e.table i.op = .standard op → op.CallsByHash → ∀ hash dynamic returnCount,
      M.OnEngine (loadByHash nested hash dynamic returnCount) (loadByHash nested hash dynamic returnCount) Eq) :
    SameOutcome M.faults M.SameEngine Eq ((Engine.dispatch nested i).run e) ((Engine.dispatch nested i).run e') := by
  have htable : e'.table = e.table := by rw [h.same]
  unfold Engine.dispatch
  rw [run_get_seq, run_get_seq, htable]
  cases hop : e.table i.op with
  | standard op => exact perform op i (hload op hop) e e' h
  | invalid => exact throws (Q := Eq) _ e e' h
  | custom run => exact absurd hop (h.table _ _)

/-- Carrying out an instruction does the same to both machines, if its behaviour does. -/
theorem carryOut_same {i : Instruction} (hrun : SameOutcome M.faults M.SameEngine Eq
    ((Engine.dispatch nested i).run e) ((Engine.dispatch nested i).run e')) :
    SameOutcome M.faults M.SameEngine Eq (carryOut nested i e) (carryOut nested i e') := by
  unfold carryOut
  revert hrun
  rcases (Engine.dispatch nested i).run e with ⟨cause | _, d⟩
  · intro hrun hfaults
    obtain ⟨d', hd', hsame⟩ := hrun hfaults
    rw [hd']
    exact ⟨_, rfl, hsame.setState (hsame.state.record _)⟩
  · rintro ⟨_, d', hd', -, hsame⟩
    rw [hd']
    exact ⟨(), d', rfl, rfl, hsame⟩

/-! ## The price of an instruction -/

/-- The price of a check of many signatures is the same. -/
theorem multiSigPrice_same (h : M.SameState s t) : t.multiSigPrice = s.multiSigPrice := by
  have hframes := forall₂_getElem? h.frames 0
  unfold State.multiSigPrice State.currentFrame? CallStack.peek?
  revert hframes
  show Option.Rel M.SameFrame s.session.calls.frames[0]? t.session.calls.frames[0]? → _
  rcases s.session.calls.frames[0]? with _ | f <;> rcases t.session.calls.frames[0]? with _ | g <;> rintro ⟨⟩
  · rfl
  · rename_i hf
    dsimp only
    have heval := hf.eval
    revert heval
    rcases f.eval with _ | ⟨x, xs⟩ <;> rcases g.eval with _ | ⟨y, ys⟩ <;> rintro (_ | ⟨hx, -⟩)
    · rfl
    · have helements := h.heap.elements? hx
      simp only [List.head?_cons]
      rw [hx.integerValue]
      revert helements
      rcases s.heap.elements? x with _ | xs <;> rcases t.heap.elements? y with _ | ys <;> rintro ⟨⟩
      · rfl
      · rename_i hxs
        simp only [hxs.length_eq]

/-- The price of an opcode is the same. -/
theorem price_same (h : M.SameState s t) (op : OpCode) : t.price op = s.price op := by
  unfold State.price
  rw [multiSigPrice_same h]

/-- Gas is granted to both machines or refused to both. -/
theorem consumeGas_same (h : M.SameState s t) (amount : Nat) :
    (t.consumeGas amount).1 = (s.consumeGas amount).1 ∧
      M.SameState (s.consumeGas amount).2 (t.consumeGas amount).2 := by
  unfold State.consumeGas
  dsimp only
  rw [h.gasConsumed, h.gasLimit]
  split
  · exact ⟨rfl, (h.record _).setStatus _⟩
  · exact ⟨rfl, { h with gasConsumed := rfl, gasLimit := rfl }⟩

/-! ## Steps -/

/-- The checks at the end of a step do the same. -/
theorem settle_same (h : M.SameState s t) : M.SameState (settle s) (settle t) := by
  have hempty : t.frames.isEmpty = s.frames.isEmpty := by
    rw [Bool.eq_iff_iff, List.isEmpty_iff_length_eq_zero, List.isEmpty_iff_length_eq_zero, h.frames.length_eq]
  unfold settle
  dsimp only
  rw [h.status, h.itemCount, h.limits, hempty]
  split
  · split
    · exact (h.record _).setStatus _
    · split
      · exact h.setStatus _
      · exact h
  · exact h

/-- The end of a failed step does the same. -/
theorem fail_same (h : M.SameState s t) (cause : Fault) : M.SameState (fail s cause) (fail t cause) := by
  have hrecord := h.record (.fault cause)
  unfold fail
  dsimp only
  rw [hrecord.status]
  split
  · exact hrecord.setStatus _
  · exact hrecord

/-- Reading an opcode does the same to frames of which both or neither have one to read. -/
theorem advance_same (hf : M.SameFrame f g) (hbyte : g.currentByte?.isSome = f.currentByte?.isSome) :
    M.SameFrame f.advance g.advance := by
  refine ⟨hf.script, ?_, hf.returnCount, hf.eval, hf.alt⟩
  dsimp only [Frame.advance]
  rw [hbyte, hf.cursor]

/-- A byte that is no opcode was read. -/
theorem isSome_of_fetch_error {byte : UInt8} (hfetch : fetch f = .error byte) : f.currentByte?.isSome = true := by
  unfold fetch at hfetch
  cases hbyte : f.currentByte? with
  | none =>
    rw [hbyte] at hfetch
    cases hfetch
  | some byte => rfl

/-- **The next instruction does the same to both machines**, if it is the same one and carrying it out does. -/
theorem executeNext_same (h : M.SameEngine e e') (hframes : e.state.frames = f :: outer)
    (hframes' : e'.state.frames = g :: outer') (hfetch : fetch g = fetch f)
    (hcarry : ∀ op s t, fetch f = .ok op → e.state.consumeGas (e.state.nextPrice f) = (true, s) → M.SameState s t →
      SameOutcome M.faults M.SameEngine Eq
        (carryOut nested ⟨op, f.cursor⟩ { e with state := s.setFrames (f.advance :: outer) })
        (carryOut nested ⟨op, f.cursor⟩ { e' with state := t.setFrames (g.advance :: outer') })) :
    SameOutcome M.faults M.SameEngine Eq (executeNext nested e) (executeNext nested e') := by
  have hall := h.state.frames
  rw [hframes, hframes'] at hall
  obtain _ | ⟨hf, houter⟩ := hall
  -- The price is charged before anything else happens.
  have hprice : e'.state.nextPrice g = e.state.nextPrice f := by
    unfold State.nextPrice
    rw [hfetch]
    cases fetch f with
    | ok op => exact price_same h.state op
    | error byte => rfl
  obtain ⟨hgranted, hpaid⟩ := consumeGas_same h.state (e.state.nextPrice f)
  rw [executeNext_cons nested hframes, executeNext_cons nested hframes', hprice, hfetch, hf.cursor]
  revert hgranted hpaid hcarry
  rcases e.state.consumeGas (e.state.nextPrice f) with ⟨granted, s⟩
  rcases e'.state.consumeGas (e.state.nextPrice f) with ⟨granted', t⟩
  rintro hcarry rfl hpaid
  cases granted' with
  | false => exact ⟨(), _, rfl, rfl, h.setState hpaid⟩
  | true =>
    dsimp only
    cases hop : fetch f with
    | ok op => exact hcarry op s t hop rfl hpaid
    | error byte =>
      have hbyte := isSome_of_fetch_error hop
      have hbyte' := isSome_of_fetch_error (hfetch.trans hop)
      exact fun _ => ⟨_, rfl, h.setState (hpaid.setFrames (.cons (advance_same hf (hbyte'.trans hbyte.symm)) houter))⟩

/-- **A step does the same to both machines**, if the next instruction does; a fault of the first machine is only known
to be one of the second one if faults correspond. -/
theorem stepWith_same (h : M.SameEngine e e')
    (hnext : ∀ f outer, e.status = .running → e.state.frames = f :: outer →
      SameOutcome M.faults M.SameEngine Eq (executeNext nested e) (executeNext nested e') ∧
        (M.faults ∨ ∀ cause d, executeNext nested e ≠ (.error cause, d))) :
    M.SameEngine (stepWith nested e) (stepWith nested e') := by
  have hstatus : e'.status = e.status := h.state.status
  by_cases hrun : e.status = .running
  swap
  · rw [stepWith_final nested hrun, stepWith_final nested (hstatus ▸ hrun)]
    exact h
  have hall := h.state.frames
  cases hframes : e.state.frames with
  | nil =>
    rw [hframes] at hall
    rw [stepWith_nil nested hrun hframes, stepWith_nil nested (hstatus.trans hrun) (List.forall₂_nil_left_iff.1 hall)]
    exact h.setState (h.state.setStatus _)
  | cons f outer =>
    rw [hframes] at hall
    obtain ⟨g, outer', -, -, hframes'⟩ := List.forall₂_cons_left_iff.1 hall
    obtain ⟨houtcome, hgoes⟩ := hnext f outer hrun hframes
    rw [stepWith_cons nested hrun hframes, stepWith_cons nested (hstatus.trans hrun) hframes']
    revert hgoes houtcome
    rcases executeNext nested e with ⟨cause | _, d⟩
    · -- Only here faults have to correspond.
      intro houtcome hgoes
      obtain ⟨d', hd', hsame⟩ := houtcome (hgoes.resolve_right fun hnot => hnot _ _ rfl)
      rw [hd']
      exact hsame.setState (fail_same hsame.state cause)
    · rintro ⟨_, d', hd', -, hsame⟩ -
      rw [hd']
      exact hsame.setState (settle_same hsame.state)

end Matching

end ScriptMachine
