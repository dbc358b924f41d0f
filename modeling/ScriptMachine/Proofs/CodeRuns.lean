import ScriptMachine.Emit
import ScriptMachine.Proofs.Resume
import ScriptMachine.Proofs.Steps

/-! # Running straight code

Code without jumps and calls runs in the same way wherever it stands in a script and whatever lies below its operands:
it takes one step for each instruction and changes the objects, the tracked containers, the cursor and the evaluation
stack of its frame, and nothing else but the gas. `Runs` says so of a piece of code. Pieces that follow each other are
joined by `Runs.append`; a single instruction is one by `Runs.instruction`, from what its behaviour does.

* `Frame.Ahead`: the code at the cursor, with the runs of the readers of operands.
* `Engine.Ready`: a machine that can make so many steps.
* `Runs`, `Runs.nil`, `Runs.append`, `Runs.instruction`: straight code.
* `Runs.push`, `Runs.dup`, `Runs.pack`, `Runs.newStruct`, `Runs.newMap`, `Runs.setItem`: instructions.
-/

namespace ScriptMachine

namespace Bytes

/-- The width of a number. -/
theorem size_ofNatLE (width n : Nat) : (ofNatLE width n).size = width := by
  induction width generalizing n with
  | zero => rfl
  | succ width ih =>
    rw [ofNatLE, Array.size_append, ih]
    exact Nat.add_comm _ _

/-- **A number is read back from its bytes** if it fits their width. -/
theorem toNatLE_ofNatLE {width n : Nat} (hn : n < 256 ^ width) : (ofNatLE width n).toNatLE = n := by
  induction width generalizing n with
  | zero =>
    rw [Nat.pow_zero] at hn
    obtain rfl : n = 0 := by omega
    rfl
  | succ width ih =>
    have hrest : n / 256 < 256 ^ width := Nat.div_lt_of_lt_mul (by rwa [← Nat.pow_succ'])
    have hcons : (ofNatLE (width + 1) n).toNatLE = (UInt8.ofNat n).toNat + 256 * (ofNatLE width (n / 256)).toNatLE := by
      simp [ofNatLE, toNatLE]
    rw [hcons, ih hrest, UInt8.toNat_ofNat']
    omega

end Bytes

/-- **The opcode of the byte of an opcode.** -/
theorem OpCode.ofByte?_toByte (op : OpCode) : ofByte? op.toByte = some op := by
  cases op with
  | pushBytes n =>
    revert n
    decide
  | push n =>
    revert n
    decide
  | _ => rfl

/-! ## The code at the cursor -/

namespace Frame

variable {f : Frame} {st st' : Stack}

/-- The code stands at the cursor. -/
def Ahead (f : Frame) (code : Bytes) : Prop :=
  ∃ before after, f.script.body = before ++ code ++ after ∧ f.cursor = before.size

/-- The frame behind so many bytes, with another evaluation stack. -/
def past (f : Frame) (count : Nat) (st : Stack) : Frame := { f with cursor := f.cursor + count, eval := st }

/-- Moving on twice. -/
@[simp] theorem past_past (f : Frame) (m n : Nat) : (f.past m st).past n st' = f.past (m + n) st' := by
  simp [past, Nat.add_assoc]

/-- Staying in place. -/
theorem past_zero (heval : f.eval = st) : f.past 0 st = f := by
  rw [← heval]
  rfl

/-- The evaluation stack that the frame has now. -/
@[simp] theorem past_eval (f : Frame) (n : Nat) : (f.past n st).eval = st := rfl

/-- The first of two pieces stands at the cursor. -/
theorem Ahead.left {a b : Bytes} (hf : f.Ahead (a ++ b)) : f.Ahead a := by
  obtain ⟨before, after, hbody, hcursor⟩ := hf
  exact ⟨before, b ++ after, by simpa using hbody, hcursor⟩

/-- Behind the first of two pieces stands the second one. -/
theorem Ahead.right {a b : Bytes} (hf : f.Ahead (a ++ b)) (st : Stack) : (f.past a.size st).Ahead b := by
  obtain ⟨before, after, hbody, hcursor⟩ := hf
  refine ⟨before ++ a, after, by simpa [past] using hbody, ?_⟩
  rw [Array.size_append, ← hcursor]
  rfl

/-- Reading an opcode, and the code behind it. -/
theorem Ahead.opcode {op : OpCode} {operand : Bytes} (hf : f.Ahead (Emit.op op ++ operand)) :
    Engine.fetch f = .ok op ∧ f.advance = f.past 1 f.eval := by
  obtain ⟨before, after, hbody, hcursor⟩ := hf
  have hbyte : f.currentByte? = some op.toByte := by
    unfold currentByte? Script.byte?
    rw [hbody, hcursor]
    simp [Emit.op, Array.getElem?_append]
  unfold Engine.fetch advance
  rw [hbyte]
  dsimp only
  rw [OpCode.ofByte?_toByte]
  exact ⟨rfl, rfl⟩

/-- **Reading bytes** that stand at the cursor. -/
theorem Ahead.run_readBytes {b : Bytes} (hf : f.Ahead b) :
    (readBytes b.size).run f = (.ok b, f.past b.size f.eval) := by
  obtain ⟨before, after, hbody, hcursor⟩ := hf
  have hroom : f.cursor + b.size ≤ f.script.length := by
    unfold Script.length
    rw [hbody, hcursor, Array.size_append, Array.size_append]
    omega
  have hextract : f.script.body.extract f.cursor (f.cursor + b.size) = b := by
    rw [hbody, hcursor]
    simp
  rw [readBytes, run_get_seq]
  dsimp only
  rw [if_pos hroom, hextract]
  rfl

/-- **Reading a number** that stands at the cursor. -/
theorem Ahead.run_readNat {width n : Nat} (hf : f.Ahead (Bytes.ofNatLE width n)) (hn : n < 256 ^ width) :
    (readNat width).run f = (.ok n, f.past width f.eval) := by
  have hread := hf.run_readBytes
  rw [Bytes.size_ofNatLE] at hread
  rw [readNat, run_seq, hread]
  dsimp only
  rw [Bytes.toNatLE_ofNatLE hn]
  rfl

end Frame

/-! ## Straight code -/

/-- The machine after straight code: with other gas, tracked containers and objects, and another innermost frame. -/
def State.proceed (s : State) (gasConsumed : Nat) (tracker : CycleTracker) (h : Heap) (f : Frame) : State :=
  { s with session := { s.session with gasConsumed, tracker } }.resume h f

/-- The machine goes on with its standard behaviour, and has so much gas left, and room for so many items. -/
structure Engine.Ready (e : Engine) (gas room : Nat) : Prop where
  /-- The instructions behave as they do by default. -/
  table : e.table = .standard
  /-- The machine runs. -/
  running : e.status = .running
  /-- The gas. -/
  gas : e.state.session.gasConsumed + gas ≤ e.state.session.gasLimit
  /-- The room. -/
  room : e.state.itemCount + room ≤ e.state.limits.maxStackSize

/-- **The code runs in `n` steps** from one heap and evaluation stack to another, wherever it stands, if there is room
for `r` more items. -/
structure Runs (l : Limits) (code : Bytes) (n r : Nat) (h : Heap) (st : Stack) (h' : Heap) (st' : Stack) : Prop where
  /-- The items at the end. -/
  growth : st'.length ≤ st.length + r
  /-- What the steps do. -/
  steps : ∀ (e : Engine) (f : Frame) (outer : List Frame), e.Ready n r → e.state.limits = l → e.state.heap = h →
    e.state.frames = f :: outer → f.Ahead code → f.eval = st →
    ∃ gas tracker, gas ≤ e.state.session.gasConsumed + n ∧
      Engine.steps n e = { e with state := e.state.proceed gas tracker h' (f.past code.size st') }

section

variable {l : Limits} {code code' : Bytes} {m n r r' k : Nat} {h h' h'' : Heap} {st st' st'' : Stack}

/-- The number of items changes as the evaluation stack does. -/
theorem State.itemCount_proceed {s : State} {f g : Frame} {outer : List Frame} (hframes : s.frames = f :: outer)
    (halt : g.alt = f.alt) (gas : Nat) (tracker : CycleTracker) (h : Heap) :
    (s.proceed gas tracker h g).itemCount + f.eval.length = s.itemCount + g.eval.length := by
  have htail : (s.proceed gas tracker h g).frames = g :: outer := by
    show g :: s.frames.tail = g :: outer
    rw [hframes]
    rfl
  unfold itemCount
  rw [htail, hframes, List.foldr_cons, List.foldr_cons, halt]
  show _ + List.foldr _ s.session.results.length outer + _ = _
  omega

/-- No code. -/
theorem Runs.nil (l : Limits) (h : Heap) (st : Stack) : Runs l #[] 0 0 h st h st := by
  refine ⟨Nat.le_refl _, fun e f outer _ _ hheap hframes _ heval => ?_⟩
  refine ⟨e.state.session.gasConsumed, e.state.session.tracker, Nat.le_refl _, ?_⟩
  have hsame := State.resume_self hframes
  rw [hheap] at hsame
  show e = { e with state := e.state.resume h (f.past 0 st) }
  rw [Frame.past_zero heval, hsame]

/-- **One piece of code after the other**, in the room that both of them need. -/
theorem Runs.append (hfirst : Runs l code m r h st h' st') (hsecond : Runs l code' n r' h' st' h'' st'')
    (hr : r ≤ k) (hr' : st'.length + r' ≤ st.length + k) : Runs l (code ++ code') (m + n) k h st h'' st'' := by
  refine ⟨Nat.le_trans hsecond.growth hr', ?_⟩
  intro e f outer hready hlimits hheap hframes hcode heval
  have hgas := hready.gas
  have hroom := hready.room
  obtain ⟨gas, tracker, hconsumed, hsteps⟩ := hfirst.steps e f outer
    ⟨hready.table, hready.running, by omega, by omega⟩ hlimits hheap hframes hcode.left heval
  have hcount := State.itemCount_proceed (g := f.past code.size st') hframes rfl gas tracker h'
  rw [heval, Frame.past_eval] at hcount
  have hframes' : (e.state.proceed gas tracker h' (f.past code.size st')).frames = f.past code.size st' :: outer := by
    show _ :: e.state.frames.tail = _
    rw [hframes]
    rfl
  have hready' : Engine.Ready { e with state := e.state.proceed gas tracker h' (f.past code.size st') } n r' := by
    refine ⟨hready.table, hready.running, ?_, ?_⟩
    · show gas + n ≤ e.state.session.gasLimit
      omega
    · show (e.state.proceed gas tracker h' (f.past code.size st')).itemCount + r' ≤ e.state.limits.maxStackSize
      omega
  obtain ⟨gas', tracker', hconsumed', hsteps'⟩ := hsecond.steps _ (f.past code.size st') outer hready' hlimits rfl
    hframes' (hcode.right st') rfl
  refine ⟨gas', tracker', Nat.le_trans hconsumed' (by show gas + n ≤ _; omega), ?_⟩
  rw [Engine.steps_add, hsteps, hsteps', Frame.past_past, Array.size_append]
  rfl

/-- Gas within the limit is granted. -/
theorem State.consumeGas_of_le {s : State} {amount : Nat} (h : s.session.gasConsumed + amount ≤ s.session.gasLimit) :
    ∃ total ≤ s.session.gasConsumed + amount,
      s.consumeGas amount = (true, { s with session := { s.session with gasConsumed := total } }) := by
  have hle : Nat.min (s.session.gasConsumed + amount) maxUInt64 ≤ s.session.gasConsumed + amount := Nat.min_le_left _ _
  refine ⟨_, hle, ?_⟩
  rw [consumeGas]
  dsimp only
  rw [if_neg (by omega)]

/-- The checks at the end of a step find nothing. -/
theorem Engine.settle_eq {s : State} (hrunning : s.session.status = .running) (hframes : s.frames ≠ [])
    (hcount : s.itemCount ≤ s.limits.maxStackSize) : settle s = s := by
  unfold settle
  rw [hrunning, if_pos (by rfl)]
  dsimp only
  rw [if_neg (Nat.not_lt.2 hcount), if_neg (by rwa [List.isEmpty_iff])]

/-- **One instruction**, from what its behaviour does behind its opcode. -/
theorem Runs.instruction {op : OpCode} {operand : Bytes} {m : Instruction → Exec Unit}
    (hprice : ∀ s : State, s.price op = 1)
    (hperform : ∀ nested i, Engine.perform nested op i = Engine.onState (m i))
    (hgrowth : st'.length ≤ st.length + r)
    (hrun : ∀ (s : State) (f : Frame) (i : Instruction), i.op = op → s.limits = l → f.Ahead operand → f.eval = st →
      ∃ tracker, (m i).run (s.resume h f) =
        (.ok (), (s.withTracker tracker).resume h' (f.past operand.size st'))) :
    Runs l (Emit.op op ++ operand) 1 r h st h' st' := by
  refine ⟨hgrowth, fun e f outer hready hlimits hheap hframes hcode heval => ?_⟩
  obtain ⟨hfetch, hadvance⟩ := hcode.opcode
  have hgas := hready.gas
  rw [← hprice e.state] at hgas
  obtain ⟨total, htotal, hpaid⟩ := State.consumeGas_of_le hgas
  rw [hprice] at htotal
  have htable : e.table op = .standard op := by rw [hready.table]
  have hstep := Engine.step_onState hperform htable hready.running hframes hfetch hpaid
  -- The instruction starts behind its opcode.
  let paid : State := { e.state with session := { e.state.session with gasConsumed := total } }
  have hstart : paid.setFrames (f.advance :: outer) =
      (e.state.proceed total e.state.session.tracker h f).resume h (f.past 1 st) := by
    have htail : outer = e.state.frames.tail := by rw [hframes, List.tail_cons]
    rw [hadvance, heval, htail, ← hheap]
    rfl
  obtain ⟨tracker, hbehaviour⟩ := hrun (e.state.proceed total e.state.session.tracker h f) (f.past 1 st)
    ⟨op, f.cursor⟩ rfl hlimits (hcode.right st) rfl
  refine ⟨total, tracker, htotal, ?_⟩
  have hfinal : ((e.state.proceed total e.state.session.tracker h f).withTracker tracker).resume h'
      ((f.past 1 st).past operand.size st') = e.state.proceed total tracker h' (f.past (Emit.op op ++ operand).size st') := by
    rw [Frame.past_past, Array.size_append]
    rfl
  rw [hfinal] at hbehaviour
  have hcount := State.itemCount_proceed (g := f.past (Emit.op op ++ operand).size st') hframes rfl total tracker h'
  rw [heval, Frame.past_eval] at hcount
  have hroom := hready.room
  have hsettle : Engine.settle (e.state.proceed total tracker h' (f.past (Emit.op op ++ operand).size st')) =
      e.state.proceed total tracker h' (f.past (Emit.op op ++ operand).size st') :=
    Engine.settle_eq hready.running (List.cons_ne_nil _ _)
      (Nat.le_trans (show _ ≤ e.state.itemCount + r by omega) hroom)
  show e.step = _
  rw [hstep, hstart, hbehaviour]
  dsimp only
  rw [hsettle]

/-- One instruction without operands. -/
theorem Runs.plain {op : OpCode} {m : Instruction → Exec Unit} (hprice : ∀ s : State, s.price op = 1)
    (hperform : ∀ nested i, Engine.perform nested op i = Engine.onState (m i))
    (hgrowth : st'.length ≤ st.length + r)
    (hrun : ∀ (s : State) (f : Frame) (i : Instruction), i.op = op → s.limits = l → f.eval = st →
      ∃ tracker, (m i).run (s.resume h f) = (.ok (), (s.withTracker tracker).resume h' { f with eval := st' })) :
    Runs l (Emit.op op) 1 r h st h' st' := by
  have hinstruction : Runs l (Emit.op op ++ #[]) 1 r h st h' st' :=
    Runs.instruction hprice hperform hgrowth fun s f i hi hlimits _ heval => hrun s f i hi hlimits heval
  rwa [Array.append_empty] at hinstruction

/-! ## Instructions -/

/-- A sequence whose first part returns goes on with its second part. -/
theorem run_seq_of_ok {σ α β : Type} {m : ExceptT Fault (StateM σ) α} {k : α → ExceptT Fault (StateM σ) β} {s t : σ}
    {a : α} (hm : m.run s = (.ok a, t)) : (m >>= k).run s = (k a).run t := by
  rw [run_seq, hm]

/-- The bounds are the same. -/
@[simp] theorem State.resume_limits {s : State} {f : Frame} : (s.resume h f).limits = s.limits := rfl

namespace Exec

variable {s : State} {f : Frame} {x y : Item} {rest : Stack}

/-- Reading the bounds, and what follows. -/
theorem run_limits_seq {α : Type} (k : Limits → Exec α) (s : State) : (limits >>= k).run s = (k s.limits).run s := rfl

/-- Reading the objects, and what follows. -/
theorem run_heap_seq {α : Type} (k : Heap → Exec α) (s : State) : (heap >>= k).run s = (k s.heap).run s := rfl

/-- A computation of the innermost frame that returns, and what follows. -/
theorem run_onFrame_seq {α β : Type} {m : FrameM α} {k : α → Exec β} {a : α} {f' : Frame} (hm : m.run f = (.ok a, f')) :
    (onFrame m >>= k).run (s.resume h f) = (k a).run (s.resume h f') := by
  rw [run_seq, run_onFrame_resume, hm]

/-- Popping the top item. -/
theorem run_pop_resume (heval : f.eval = x :: rest) :
    pop.run (s.resume h f) = (.ok x, s.resume h { f with eval := rest }) := by
  rw [pop, run_onFrame_resume, Frame.run_pop_cons heval]

/-- Copying an item. -/
theorem run_copyValue_resume (hcopy : h.copyValue x s.limits.traversal = .ok (y, h')) :
    (copyValue x).run (s.resume h f) = (.ok y, s.resume h' f) := by
  have hlimits : (s.resume h f).limits = s.limits := rfl
  rw [copyValue, run_get_seq, State.resume_heap, hlimits, hcopy]
  rfl

end Exec

namespace Frame

variable {f : Frame} {x : Item} {items rest : Stack}

/-- Popping a count. -/
theorem run_popIndex (what : String) {n : Nat} (heval : f.eval = x :: rest) (hx : x.int32 = .ok (n : Int)) :
    (popIndex what).run f = (.ok n, { f with eval := rest }) := by
  have hint : popInt32.run f = (.ok (n : Int), { f with eval := rest }) := by
    rw [popInt32, run_seq_of_ok (run_pop_cons heval), hx]
    rfl
  rw [popIndex, run_seq_of_ok hint, if_neg (by omega)]
  rfl

/-- Taking items off the top. -/
theorem run_takeTop (heval : f.eval = items ++ rest) :
    (takeTop items.length).run f = (.ok items, { f with eval := rest }) := by
  rw [takeTop, run_get_seq, heval, Stack.split, if_pos (by simp), List.take_left, List.drop_left]
  rfl

/-- Looking at the top item. -/
theorem run_peek (heval : f.eval = x :: rest) : (peek 0).run f = (.ok x, f) := by
  rw [peek, run_get_seq, heval]
  rfl

end Frame

/-- Remembering a container changes the tracked containers at most. -/
theorem Instructions.run_trackNesting (container value : Item) (s : State) (f : Frame) :
    ∃ tracker, (trackNesting container value).run (s.resume h f) = (.ok (), (s.withTracker tracker).resume h f) := by
  unfold trackNesting
  cases value.isCompound with
  | true => exact ⟨((s.resume h f).track container [container]).session.tracker, rfl⟩
  | false => exact ⟨s.session.tracker, rfl⟩

/-- **Pushing bytes** that stand at the cursor. -/
theorem Instructions.run_pushOperand {s : State} {f : Frame} {data : Bytes} (hf : f.Ahead data) :
    (pushOperand data.size).run (s.resume h f) =
      (.ok (), s.resume (h.newBytes data).2 (f.past data.size ((h.newBytes data).1 :: f.eval))) := by
  rw [pushOperand, run_seq, Exec.run_onFrame_resume, hf.run_readBytes]
  rfl

namespace Runs

/-- A push of the empty byte string. -/
theorem push0 : Runs l (Emit.op .push0) 1 1 h st (h.newBytes #[]).2 ((h.newBytes #[]).1 :: st) := by
  refine plain (m := fun _ => Instructions.pushEmpty) (fun _ => rfl) (fun _ _ => rfl) (Nat.le_refl _) ?_
  rintro s f i - - rfl
  exact ⟨s.session.tracker, rfl⟩

/-- A push of up to 75 bytes. -/
theorem pushDirect {data : Bytes} (hlow : 1 ≤ data.size) (hhigh : data.size ≤ 75) :
    Runs l (#[UInt8.ofNat data.size] ++ data) 1 1 h st (h.newBytes data).2 ((h.newBytes data).1 :: st) := by
  have hbyte : #[UInt8.ofNat data.size] = Emit.op (.pushBytes ⟨data.size - 1, by omega⟩) := by
    show _ = #[UInt8.ofNat (data.size - 1 + 1)]
    rw [Nat.sub_add_cancel hlow]
  rw [hbyte]
  refine instruction (m := Instructions.pushDirect) (fun _ => rfl) (fun _ _ => rfl) (Nat.le_refl _) ?_
  rintro s f i hi - hcode rfl
  have hcount : i.op.toByte.toNat = data.size := by
    rw [hi]
    show (UInt8.ofNat (data.size - 1 + 1)).toNat = _
    rw [Nat.sub_add_cancel hlow, UInt8.toNat_ofNat']
    omega
  refine ⟨s.session.tracker, ?_⟩
  rw [Instructions.pushDirect, hcount]
  exact Instructions.run_pushOperand hcode

/-- A push of bytes after their number. -/
theorem pushCounted {op : OpCode} {width : Nat} {data : Bytes} (hprice : ∀ s : State, s.price op = 1)
    (hperform : ∀ nested i, Engine.perform nested op i = Engine.onState (Instructions.pushCounted width))
    (hwidth : data.size < 256 ^ width) (hmax : data.size ≤ l.maxItemSize) :
    Runs l (Emit.op op ++ Bytes.ofNatLE width data.size ++ data) 1 1 h st (h.newBytes data).2
      ((h.newBytes data).1 :: st) := by
  rw [Array.append_assoc]
  refine instruction (m := fun _ => Instructions.pushCounted width) hprice hperform (Nat.le_refl _) ?_
  rintro s f i - rfl hcode rfl
  refine ⟨s.session.tracker, ?_⟩
  have hdata := hcode.right f.eval
  rw [Bytes.size_ofNatLE] at hdata
  rw [Instructions.pushCounted, Exec.run_limits_seq, Exec.run_onFrame_seq (hcode.left.run_readNat hwidth),
    State.resume_limits, if_neg (Nat.not_lt.2 hmax), Instructions.run_pushOperand hdata, Frame.past_past,
    Array.size_append, Bytes.size_ofNatLE]
  rfl

/-- A push of -1. -/
theorem pushMinusOne : Runs l (Emit.op .pushM1) 1 1 h st h (.integer (.small (-1)) :: st) := by
  refine plain (m := fun _ => Instructions.pushMinusOne) (fun _ => rfl) (fun _ _ => rfl) (Nat.le_refl _) ?_
  rintro s f i - - rfl
  exact ⟨s.session.tracker, rfl⟩

/-- A push of a number from 1 to 16. -/
theorem pushSmall {n : Nat} (hlow : 1 ≤ n) (hhigh : n ≤ 16) :
    Runs l #[UInt8.ofNat (0x50 + n)] 1 1 h st h (.ofNat n :: st) := by
  have hbyte : ∀ k : Fin 16, UInt8.ofNat (0x50 + (k.val + 1)) = (OpCode.push k).toByte ∧
      ((OpCode.push k).toByte - 0x51).toNat + 1 = k.val + 1 := by decide
  obtain ⟨hcode, hnumber⟩ := hbyte ⟨n - 1, by omega⟩
  rw [Nat.sub_add_cancel hlow] at hcode hnumber
  rw [hcode]
  show Runs l (Emit.op (.push ⟨n - 1, by omega⟩)) 1 1 h st h (.ofNat n :: st)
  refine plain (m := Instructions.pushSmall) (fun _ => rfl) (fun _ _ => rfl) (Nat.le_refl _) ?_
  rintro s f i hi - rfl
  refine ⟨s.session.tracker, ?_⟩
  rw [Instructions.pushSmall, hi, hnumber]
  rfl

/-- **The shortest push of a byte string.** Only long byte strings are checked against the bound. -/
theorem push {data : Bytes} (hmax : 75 < data.size → data.size ≤ l.maxItemSize) (hsize : data.size < 2 ^ 32) :
    Runs l (Emit.push data) 1 1 h st (h.newBytes data).2 ((h.newBytes data).1 :: st) := by
  unfold Emit.push
  by_cases hzero : data.size = 0
  · rw [if_pos (by simpa using hzero), Array.size_eq_zero_iff.1 hzero]
    exact push0
  rw [if_neg (by simpa using hzero)]
  by_cases hdirect : data.size ≤ 75
  · rw [if_pos hdirect]
    exact pushDirect (by omega) hdirect
  rw [if_neg hdirect]
  have hmax := hmax (Nat.lt_of_not_le hdirect)
  by_cases hone : data.size ≤ 0xFF
  · rw [if_pos hone]
    exact pushCounted (fun _ => rfl) (fun _ _ => rfl) (by omega) hmax
  rw [if_neg hone]
  by_cases htwo : data.size ≤ 0xFFFF
  · rw [if_pos htwo]
    exact pushCounted (fun _ => rfl) (fun _ _ => rfl) (by omega) hmax
  · rw [if_neg htwo]
    exact pushCounted (fun _ => rfl) (fun _ _ => rfl) hsize hmax

/-- A copy of the top item. -/
theorem dup {x : Item} : Runs l (Emit.op .dup) 1 1 h (x :: st) h (x :: x :: st) := by
  refine plain (m := fun _ => Exec.onFrame Instructions.dup) (fun _ => rfl) (fun _ _ => rfl) (Nat.le_refl _) ?_
  rintro s f i - - heval
  refine ⟨s.session.tracker, ?_⟩
  have hdup : Instructions.dup.run f = (.ok (), { f with eval := x :: f.eval }) := by
    rw [Instructions.dup, run_seq_of_ok (Frame.run_peek heval)]
    rfl
  rw [Exec.run_onFrame_resume, hdup, heval]
  rfl

/-- **An array of the items below their number**, the top one first. -/
theorem pack {count : Item} {items : List Item} (hcount : count.int32 = .ok items.length)
    (hmax : items.length ≤ l.maxArraySize) :
    Runs l (Emit.op .pack) 1 0 h (count :: (items ++ st)) (h.newArray items).2 ((h.newArray items).1 :: st) := by
  refine plain (m := fun _ => Instructions.pack) (fun _ => rfl) (fun _ _ => rfl)
    (by simp only [List.length_cons, List.length_append]; omega) ?_
  rintro s f i - rfl heval
  refine ⟨s.session.tracker, ?_⟩
  have hdepth : Frame.evalDepth.run { f with eval := items ++ st } =
    (.ok (items ++ st).length, { f with eval := items ++ st }) := rfl
  have hroom : (decide (items.length > (items ++ st).length) ||
      decide (items.length > s.limits.maxArraySize)) = false := by
    simp only [List.length_append, Bool.or_eq_false_iff, decide_eq_false_iff_not]
    omega
  rw [Instructions.pack, Exec.run_limits_seq, Exec.run_onFrame_seq (Frame.run_popIndex _ heval hcount),
    Exec.run_onFrame_seq hdepth, State.resume_limits, hroom, if_neg Bool.false_ne_true,
    Exec.run_onFrame_seq (Frame.run_takeTop rfl)]
  rfl

/-- A struct of the elements of an array. -/
theorem newStruct {id : Nat} :
    Runs l (Emit.op .newStruct) 1 0 h (.array id :: st) (h.newStruct (h.items id)).2
      ((h.newStruct (h.items id)).1 :: st) := by
  refine plain (m := fun _ => Instructions.newStruct) (fun _ => rfl) (fun _ _ => rfl) (Nat.le_refl _) ?_
  rintro s f i - - heval
  refine ⟨s.session.tracker, ?_⟩
  rw [Instructions.newStruct, run_seq_of_ok (Exec.run_pop_resume heval)]
  rfl

/-- An empty map. -/
theorem newMap : Runs l (Emit.op .newMap) 1 1 h st h.newMap.2 (h.newMap.1 :: st) := by
  refine plain (m := fun _ => Instructions.newMap) (fun _ => rfl) (fun _ _ => rfl) (Nat.le_refl _) ?_
  rintro s f i - - rfl
  exact ⟨s.session.tracker, rfl⟩

/-- **A value under a key of a map** that has room for one more. -/
theorem setItem {key x y : Item} {id : Nat} {h₁ : Heap} (hkey : key.isCompound = false)
    (hcopy : h.copyValue x l.traversal = .ok (y, h₁)) (hmax : (h₁.entries id).length < l.maxArraySize) :
    Runs l (Emit.op .setItem) 1 0 h (x :: key :: .map id :: st) (h₁.mapSet id key y) st := by
  refine plain (m := fun _ => Instructions.setItem) (fun _ => rfl) (fun _ _ => rfl)
    (by simp only [List.length_cons]; omega) ?_
  rintro s f i - rfl heval
  have hroom : ¬ (!h₁.mapHas id key && decide ((h₁.entries id).length ≥ s.limits.maxArraySize)) = true := by
    simp only [Bool.and_eq_true, decide_eq_true_eq, not_and]
    omega
  obtain ⟨tracker, htrack⟩ :=
    Instructions.run_trackNesting (h := h₁.mapSet id key y) (.map id) y s { f with eval := st }
  refine ⟨tracker, ?_⟩
  have hpop : Instructions.popKey.run { f with eval := key :: .map id :: st } =
      (.ok key, { f with eval := .map id :: st }) := by
    rw [Instructions.run_popKey_cons rfl, hkey]
    rfl
  rw [Instructions.setItem, Exec.run_limits_seq, run_seq_of_ok (Exec.run_pop_resume heval),
    run_seq_of_ok (Exec.run_copyValue_resume hcopy), Exec.run_onFrame_seq hpop,
    run_seq_of_ok (Exec.run_pop_resume rfl), Exec.run_heap_seq]
  dsimp only
  rw [State.resume_heap, State.resume_limits, if_neg hroom]
  exact htrack

end Runs

end

end ScriptMachine
