import ScriptMachine.Proofs.Policy

/-! # What instructions do to a frame

`FrameChange ok f₀ f` says how a frame may differ from an earlier one: the script and the return count are
the same, the cursor is still inside of the script, and all items of both stacks satisfy `ok`. Frames make few
items themselves, which are listed in `Made`; if these satisfy `ok`, every computation of a frame that an
instruction is made of keeps it.

* `Made`: the items that frames make.
* `Frame.readBytes_keeps`, `Frame.pop_keeps`, `Frame.push_keeps` and so on: the operations of a frame.
* `Instructions.unary_keeps`, `Instructions.binary_keeps`, `Instructions.shift_keeps`: numbers.
* `Instructions.xswap_keeps`, `Instructions.roll_keeps`, `Instructions.tuck_keeps`: rearrangements.
* `Instructions.jump_keeps`: jumps.
-/

namespace ScriptMachine

/-- How a frame may differ from an earlier one of the same activation. -/
structure FrameChange (ok : Item → Prop) (f₀ f : Frame) : Prop where
  /-- The script is the same. -/
  script : f.script = f₀.script
  /-- The number of items to return is the same. -/
  returnCount : f.returnCount = f₀.returnCount
  /-- The cursor does not leave the script. -/
  cursor : f₀.cursor ≤ f₀.script.length → f.cursor ≤ f₀.script.length
  /-- The items of the evaluation stack. -/
  eval : ∀ x ∈ f.eval, ok x
  /-- The items of the alternative stack. -/
  alt : ∀ x ∈ f.alt, ok x

/-- The items that frames make satisfy `ok`: truth values, depths and results whose length was checked. -/
structure Made (ok : Item → Prop) (l : Limits) : Prop where
  /-- Truth values. -/
  boolean : ∀ b, ok (.boolean b)
  /-- Depths. -/
  count : ∀ n, ok (.ofNat n)
  /-- Results. -/
  computed : ∀ v : Integer, v.byteLength ≤ l.maxBigIntegerSize → ok (.integer v)

/-- An admitted policy allows what frames make. -/
theorem Policy.Admits.made {p : Policy} {l : Limits} {c : CryptoSuite} (hp : p.Admits l c) :
    Made p.AllowsItem l := ⟨fun _ => trivial, hp.count, hp.computed⟩

variable {ok : Item → Prop} {l : Limits} {f₀ : Frame}

/-- A frame whose items satisfy `ok` has not changed. -/
theorem FrameChange.refl {f : Frame} (he : ∀ x ∈ f.eval, ok x) (ha : ∀ x ∈ f.alt, ok x) :
    FrameChange ok f f := ⟨rfl, rfl, id, he, ha⟩

/-- A frame that gets another evaluation stack. -/
theorem FrameChange.setEval {f : Frame} {eval : Stack} (hf : FrameChange ok f₀ f)
    (he : ∀ x ∈ eval, ok x) : FrameChange ok f₀ { f with eval } :=
  ⟨hf.script, hf.returnCount, hf.cursor, he, hf.alt⟩

/-- A frame whose cursor moves inside of the script. -/
theorem FrameChange.setCursor {f : Frame} {cursor : Nat} (hf : FrameChange ok f₀ f)
    (hc : cursor ≤ f.script.length) : FrameChange ok f₀ { f with cursor } :=
  ⟨hf.script, hf.returnCount, fun _ => by rw [← hf.script]; exact hc, hf.eval, hf.alt⟩

/-- The top of a stack and the rest. -/
theorem Stack.forall_pop {s : Stack} {r : Item × Stack} (hs : ∀ x ∈ s, ok x) (hr : s.pop = .ok r) :
    ok r.1 ∧ ∀ x ∈ r.2, ok x := by
  unfold Stack.pop at hr
  split at hr
  · cases hr
  · cases hr
    exact List.forall_mem_cons.1 hs

/-- The item at a position of a stack. -/
theorem Stack.forall_peek {s : Stack} {n : Nat} {x : Item} (hs : ∀ x ∈ s, ok x) (hx : s.peek n = .ok x) :
    ok x := by
  unfold Stack.peek at hx
  split at hx
  · rename_i y hy
    cases hx
    exact hs _ (List.mem_of_getElem? hy)
  · cases hx

/-! ## Operations of a frame -/

namespace Frame

/-- Moving the cursor. -/
theorem setCursor_keeps (target : Nat) :
    Keeps (FrameChange ok f₀) (setCursor target) (fun _ => True) := by
  unfold setCursor
  refine Keeps.reads.seq fun f hf => ?_
  refine Keeps.branch (fun h => ?_) (fun _ => Keeps.throws _)
  exact Keeps.writes (hf.setCursor h)

/-- Reading bytes: as many as asked for. -/
theorem readBytes_keeps (count : Nat) :
    Keeps (FrameChange ok f₀) (readBytes count) (fun b => b.size = count) := by
  unfold readBytes
  refine Keeps.reads.seq fun f hf => ?_
  refine Keeps.branch (fun h => ?_) (fun _ => Keeps.throws _)
  refine (Keeps.writes (hf.setCursor h)).seq fun _ _ => Keeps.returns ?_
  have hstop : f.cursor + count ≤ f.script.body.size := h
  rw [Array.size_extract]
  omega

/-- Reading a number of fixed width. -/
theorem readNat_keeps (width : Nat) :
    Keeps (FrameChange ok f₀) (readNat width) (fun _ => True) := by
  unfold readNat
  exact (readBytes_keeps width).seq fun _ _ => Keeps.returns trivial

/-- Reading a signed number. -/
theorem readInt16_keeps : Keeps (FrameChange ok f₀) readInt16 (fun _ => True) := by
  unfold readInt16
  exact (readNat_keeps 2).seq fun _ _ => Keeps.returns trivial

/-- Reading a number of variable width. -/
theorem readVarNat_keeps (max : Nat) :
    Keeps (FrameChange ok f₀) (readVarNat max) (fun _ => True) := by
  unfold readVarNat readByte
  refine (readNat_keeps 1).seq fun mark _ => ?_
  -- The four widths share the check of the value that was read.
  have checked : ∀ value : Nat, Keeps (FrameChange ok f₀)
      (if value > max then throw (Fault.tooLarge value max) >>= fun _ : Unit => pure value
        else pure value) (fun _ => True) :=
    fun value => Keeps.guarded (k := fun _ => pure value)
      fun _ => Keeps.returns trivial
  refine Keeps.branch (fun _ => ?_) (fun _ => Keeps.branch (fun _ => ?_) (fun _ =>
    Keeps.branch (fun _ => ?_) (fun _ => ?_)))
  · exact (readNat_keeps 2).seq fun value _ => checked value
  · exact (readNat_keeps 4).seq fun value _ => checked value
  · exact (readNat_keeps 8).seq fun value _ => checked value
  · exact (Keeps.returns trivial).seq fun value (_ : True) => checked value

/-- Reading a length and that many bytes. -/
theorem readVarBytes_keeps (max : Nat) :
    Keeps (FrameChange ok f₀) (readVarBytes max) (fun _ => True) := by
  unfold readVarBytes
  exact (readVarNat_keeps max).seq fun n _ => (readBytes_keeps n).weaken fun _ _ => trivial

/-- Pushing an item. -/
theorem push_keeps {x : Item} (hx : ok x) :
    Keeps (FrameChange ok f₀) (push x) (fun _ => True) :=
  Keeps.updates fun _ hf => hf.setEval (List.forall_mem_cons.2 ⟨hx, hf.eval⟩)

/-- Popping gives an item. -/
theorem pop_keeps : Keeps (FrameChange ok f₀) pop ok := by
  unfold pop
  refine Keeps.reads.seq fun f hf => ?_
  refine (Keeps.result fun r hr => Stack.forall_pop hf.eval hr).seq fun r hr => ?_
  exact (Keeps.writes (hf.setEval hr.2)).seq fun _ _ => Keeps.returns hr.1

/-- The item at a position is allowed. -/
theorem peek_keeps (n : Nat) : Keeps (FrameChange ok f₀) (peek n) ok := by
  unfold peek
  exact Keeps.reads.seq fun f hf => Keeps.result fun x hx => Stack.forall_peek hf.eval hx

/-- Taking out an item gives an item. -/
theorem remove_keeps (n : Nat) : Keeps (FrameChange ok f₀) (remove n) ok := by
  unfold remove
  refine Keeps.reads.seq fun f hf => ?_
  refine (Keeps.result (Q := fun r => ok r.1 ∧ ∀ x ∈ r.2, ok x)
    fun r hr => ?_).seq fun r hr => ?_
  · unfold Stack.remove at hr
    split at hr
    · rename_i x hx
      cases hr
      exact ⟨hf.eval _ (List.mem_of_getElem? hx),
        fun y hy => hf.eval y ((List.eraseIdx_sublist _ _).mem hy)⟩
    · cases hr
  · exact (Keeps.writes (hf.setEval hr.2)).seq fun _ _ => Keeps.returns hr.1

/-- Inserting an item. -/
theorem insert_keeps (n : Nat) {x : Item} (hx : ok x) :
    Keeps (FrameChange ok f₀) (insert n x) (fun _ => True) := by
  unfold insert
  refine Keeps.reads.seq fun f hf => ?_
  refine (Keeps.result (Q := fun eval => ∀ x ∈ eval, ok x) fun r hr => ?_).seq fun r hr => ?_
  · unfold Stack.insert at hr
    split at hr
    · rename_i hn
      cases hr
      intro y hy
      rcases (List.mem_insertIdx hn).1 hy with rfl | hy
      · exact hx
      · exact hf.eval y hy
    · cases hr
  · exact Keeps.writes (hf.setEval hr)

/-- Replacing an item by an allowed one. -/
theorem replace_keeps (n : Nat) {x : Item} (hx : ok x) :
    Keeps (FrameChange ok f₀) (replace n x) (fun _ => True) := by
  unfold replace
  refine Keeps.reads.seq fun f hf => ?_
  refine (Keeps.result (Q := fun eval => ∀ x ∈ eval, ok x) fun r hr => ?_).seq fun r hr => ?_
  · unfold Stack.set at hr
    split at hr
    · cases hr
      intro y hy
      rcases List.mem_or_eq_of_mem_set hy with hy | rfl
      · exact hf.eval y hy
      · exact hx
    · cases hr
  · exact Keeps.writes (hf.setEval hr)

/-- Reading the depth. -/
theorem evalDepth_keeps : Keeps (FrameChange ok f₀) evalDepth (fun _ => True) := by
  unfold evalDepth
  exact Keeps.reads.seq fun _ _ => Keeps.returns trivial

/-- Taking off the top items gives that many items. -/
theorem takeTop_keeps (count : Nat) : Keeps (FrameChange ok f₀) (takeTop count)
    (fun top => top.length = count ∧ ∀ x ∈ top, ok x) := by
  unfold takeTop
  refine Keeps.reads.seq fun f hf => ?_
  refine (Keeps.result (Q := fun r => (r.1.length = count ∧ ∀ x ∈ r.1, ok x) ∧
    ∀ x ∈ r.2, ok x) fun r hr => ?_).seq fun r hr => ?_
  · unfold Stack.split at hr
    split at hr
    · rename_i hn
      cases hr
      refine ⟨⟨?_, fun y hy => hf.eval y ((List.take_sublist _ _).mem hy)⟩,
        fun y hy => hf.eval y ((List.drop_sublist _ _).mem hy)⟩
      rw [List.length_take]
      exact Nat.min_eq_left hn
    · cases hr
  · exact (Keeps.writes (hf.setEval hr.2)).seq fun _ _ => Keeps.returns hr.1

/-- Popping a number. -/
theorem popInt32_keeps : Keeps (FrameChange ok f₀) popInt32 (fun _ => True) := by
  unfold popInt32
  exact pop_keeps.seq fun x _ => Keeps.result fun _ _ => trivial

/-- Popping an index. -/
theorem popIndex_keeps (what : String) :
    Keeps (FrameChange ok f₀) (popIndex what) (fun _ => True) := by
  unfold popIndex
  refine popInt32_keeps.seq fun value _ => ?_
  exact Keeps.guarded fun _ => Keeps.returns trivial

/-- Popping a byte string gives the byte view of an item. -/
theorem popBytes_keeps :
    Keeps (FrameChange ok f₀) popBytes (fun b => ∃ x, ok x ∧ x.byteView = .ok b) := by
  unfold popBytes
  exact pop_keeps.seq fun x hx => Keeps.result fun b hb => ⟨x, hx, hb⟩

end Frame

/-! ## Numbers -/

namespace Instructions

/-- Popping an operand. -/
theorem popInteger_keeps : Keeps (FrameChange ok f₀) (popInteger l) (fun _ => True) := by
  unfold popInteger
  refine Frame.pop_keeps.seq fun x _ => ?_
  refine (Keeps.result fun _ _ => trivial).seq fun size (_ : True) => ?_
  exact Keeps.guarded fun _ => Keeps.result fun _ _ => trivial

/-- Pushing a result, which is checked. -/
theorem pushInteger_keeps (hok : Made ok l) (v : Integer) :
    Keeps (FrameChange ok f₀) (pushInteger l v) (fun _ => True) := by
  unfold pushInteger
  exact Keeps.guarded fun h => Frame.push_keeps (hok.computed v (Nat.le_of_not_gt h))

/-- Instructions with one operand. -/
theorem unary_keeps (hok : Made ok l) (op : Integer → Integer) :
    Keeps (FrameChange ok f₀) (unary l op) (fun _ => True) := by
  unfold unary
  exact popInteger_keeps.seq fun a _ => pushInteger_keeps hok _

/-- Instructions with two operands. -/
theorem binary_keeps (hok : Made ok l) (op : Integer → Integer → Except Fault Integer) :
    Keeps (FrameChange ok f₀) (binary l op) (fun _ => True) := by
  unfold binary
  refine popInteger_keeps.seq fun b _ => popInteger_keeps.seq fun a _ => ?_
  exact (Keeps.result fun _ _ => trivial).seq fun r (_ : True) => pushInteger_keeps hok r

/-- Comparisons. -/
theorem compare_keeps (hok : Made ok l) (op : Integer → Integer → Bool) :
    Keeps (FrameChange ok f₀) (compare l op) (fun _ => True) := by
  unfold compare
  refine popInteger_keeps.seq fun b _ => popInteger_keeps.seq fun a _ => ?_
  exact Frame.push_keeps (hok.boolean _)

/-- Popping a shift amount. -/
theorem popShift_keeps : Keeps (FrameChange ok f₀) (popShift l) (fun _ => True) := by
  unfold popShift
  refine Frame.popInt32_keeps.seq fun amount _ => ?_
  exact Keeps.guarded fun _ => Keeps.returns trivial

/-- Shifts: an amount of zero leaves the operand where it is. -/
theorem shift_keeps (hok : Made ok l) (op : Integer → Int → Integer) :
    Keeps (FrameChange ok f₀) (shift l op) (fun _ => True) := by
  unfold shift
  refine popShift_keeps.seq fun amount _ => ?_
  -- Without a shift nothing is pushed, so that the size of the operand is not checked again.
  refine Keeps.branch (fun _ => ?_) (fun _ => Keeps.returns trivial)
  exact popInteger_keeps.seq fun a _ => pushInteger_keeps hok _

/-- The range check. -/
theorem within_keeps (hok : Made ok l) : Keeps (FrameChange ok f₀) (within l) (fun _ => True) := by
  unfold within
  refine popInteger_keeps.seq fun b _ => popInteger_keeps.seq fun a _ => ?_
  exact popInteger_keeps.seq fun x _ => Frame.push_keeps (hok.boolean _)

/-- The test for zero. -/
theorem nonZero_keeps (hok : Made ok l) : Keeps (FrameChange ok f₀) (nonZero l) (fun _ => True) := by
  unfold nonZero
  exact popInteger_keeps.seq fun a _ => Frame.push_keeps (hok.boolean _)

/-- Logical negation. -/
theorem logicalNot_keeps (hok : Made ok l) : Keeps (FrameChange ok f₀) logicalNot (fun _ => True) := by
  unfold logicalNot
  exact Frame.pop_keeps.seq fun x _ => Frame.push_keeps (hok.boolean _)

/-- Logical connectives. -/
theorem logical_keeps (hok : Made ok l) (op : Bool → Bool → Bool) :
    Keeps (FrameChange ok f₀) (logical op) (fun _ => True) := by
  unfold logical
  refine Frame.pop_keeps.seq fun b _ => Frame.pop_keeps.seq fun a _ => ?_
  exact Frame.push_keeps (hok.boolean _)

/-! ## Rearrangements -/

/-- Copying from the alternative stack. -/
theorem dupFromAltStack_keeps : Keeps (FrameChange ok f₀) dupFromAltStack (fun _ => True) := by
  unfold dupFromAltStack
  refine Keeps.reads.seq fun f hf => ?_
  exact (Keeps.result fun x hx => Stack.forall_peek hf.alt hx).seq fun x hx => Frame.push_keeps hx

/-- Moving to the alternative stack. -/
theorem toAltStack_keeps : Keeps (FrameChange ok f₀) toAltStack (fun _ => True) := by
  unfold toAltStack
  refine Frame.pop_keeps.seq fun x hx => Keeps.updates fun f hf => ?_
  exact ⟨hf.script, hf.returnCount, hf.cursor, hf.eval, List.forall_mem_cons.2 ⟨hx, hf.alt⟩⟩

/-- Moving back from the alternative stack. -/
theorem fromAltStack_keeps : Keeps (FrameChange ok f₀) fromAltStack (fun _ => True) := by
  unfold fromAltStack
  refine Keeps.reads.seq fun f hf => ?_
  refine (Keeps.result fun r hr => Stack.forall_pop hf.alt hr).seq fun r hr => ?_
  refine (Keeps.writes ?_).seq fun _ _ => Frame.push_keeps hr.1
  exact ⟨hf.script, hf.returnCount, hf.cursor, hf.eval, hr.2⟩

/-- Removing at an index. -/
theorem xdrop_keeps : Keeps (FrameChange ok f₀) xdrop (fun _ => True) := by
  unfold xdrop
  refine (Frame.popIndex_keeps _).seq fun n _ => ?_
  exact (Frame.remove_keeps n).seq fun _ _ => Keeps.returns trivial

/-- Swapping with an index. -/
theorem xswap_keeps : Keeps (FrameChange ok f₀) xswap (fun _ => True) := by
  unfold xswap
  refine (Frame.popIndex_keeps _).seq fun n _ => ?_
  refine Keeps.branch (fun _ => ?_) (fun _ => Keeps.returns trivial)
  refine (Frame.peek_keeps n).seq fun deep hdeep => (Frame.peek_keeps 0).seq fun top htop => ?_
  exact (Frame.replace_keeps n htop).seq fun _ _ => Frame.replace_keeps 0 hdeep

/-- Inserting a copy of the top at an index. -/
theorem xtuck_keeps : Keeps (FrameChange ok f₀) xtuck (fun _ => True) := by
  unfold xtuck
  refine Frame.popInt32_keeps.seq fun n _ => Keeps.guarded fun _ => ?_
  exact (Frame.peek_keeps 0).seq fun top htop => Frame.insert_keeps _ htop

/-- Pushing the depth. -/
theorem depth_keeps (hok : Made ok l) : Keeps (FrameChange ok f₀) depth (fun _ => True) := by
  unfold depth
  exact Frame.evalDepth_keeps.seq fun n _ => Frame.push_keeps (hok.count n)

/-- Removing the top. -/
theorem drop_keeps : Keeps (FrameChange ok f₀) drop (fun _ => True) := by
  unfold drop
  exact Frame.pop_keeps.seq fun _ _ => Keeps.returns trivial

/-- Copying the top. -/
theorem dup_keeps : Keeps (FrameChange ok f₀) dup (fun _ => True) := by
  unfold dup
  exact (Frame.peek_keeps 0).seq fun x hx => Frame.push_keeps hx

/-- Removing the second item. -/
theorem nip_keeps : Keeps (FrameChange ok f₀) nip (fun _ => True) := by
  unfold nip
  exact (Frame.remove_keeps 1).seq fun _ _ => Keeps.returns trivial

/-- Copying the second item. -/
theorem copySecond_keeps : Keeps (FrameChange ok f₀) copySecond (fun _ => True) := by
  unfold copySecond
  exact (Frame.peek_keeps 1).seq fun x hx => Frame.push_keeps hx

/-- Copying at an index. -/
theorem pick_keeps : Keeps (FrameChange ok f₀) pick (fun _ => True) := by
  unfold pick
  refine (Frame.popIndex_keeps _).seq fun n _ => ?_
  exact (Frame.peek_keeps n).seq fun x hx => Frame.push_keeps hx

/-- Moving to the top from an index. -/
theorem roll_keeps : Keeps (FrameChange ok f₀) roll (fun _ => True) := by
  unfold roll
  refine (Frame.popIndex_keeps _).seq fun n _ => ?_
  refine Keeps.branch (fun _ => ?_) (fun _ => Keeps.returns trivial)
  exact (Frame.remove_keeps n).seq fun x hx => Frame.push_keeps hx

/-- Moving the third item to the top. -/
theorem rot_keeps : Keeps (FrameChange ok f₀) rot (fun _ => True) := by
  unfold rot
  exact (Frame.remove_keeps 2).seq fun x hx => Frame.push_keeps hx

/-- Swapping the two top items. -/
theorem swap_keeps : Keeps (FrameChange ok f₀) swap (fun _ => True) := by
  unfold swap
  exact (Frame.remove_keeps 1).seq fun x hx => Frame.push_keeps hx

/-- Inserting a copy of the top below the second item. -/
theorem tuck_keeps : Keeps (FrameChange ok f₀) tuck (fun _ => True) := by
  unfold tuck
  exact (Frame.peek_keeps 0).seq fun top htop => Frame.insert_keeps 2 htop

/-! ## Jumps and operands of calls -/

/-- Resolving a target, which lies inside of the script. -/
theorem readTarget_keeps (origin : Nat) :
    Keeps (FrameChange ok f₀) (readTarget origin) (fun target => target ≤ f₀.script.length) := by
  unfold readTarget
  refine Frame.readInt16_keeps.seq fun offset _ => Keeps.reads.seq fun f hf => ?_
  refine Keeps.guarded fun h => Keeps.returns ?_
  rw [← hf.script]
  simp only [Bool.or_eq_true, decide_eq_true_eq, not_or, Int.not_lt] at h
  omega

/-- Jumps. -/
theorem jump_keeps (i : Instruction) : Keeps (FrameChange ok f₀) (jump i) (fun _ => True) := by
  unfold jump
  refine (readTarget_keeps i.position).seq fun target _ => ?_
  -- The target was checked before the condition is popped, whether the jump is taken or not.
  have taken : ∀ b : Bool, Keeps (FrameChange ok f₀)
      (if b = true then Frame.setCursor target else pure ()) (fun _ => True) :=
    fun b => Keeps.branch (fun _ => Frame.setCursor_keeps target) (fun _ => Keeps.returns trivial)
  dsimp only
  split
  · exact Frame.pop_keeps.seq fun x _ => (Keeps.returns trivial).seq fun b (_ : True) => taken b
  · exact Frame.pop_keeps.seq fun x _ => (Keeps.returns trivial).seq fun b (_ : True) => taken b
  · exact (Keeps.returns trivial).seq fun b (_ : True) => taken b

/-- Popping a key gives an item that is no container. -/
theorem popKey_keeps : Keeps (FrameChange ok f₀) popKey
    (fun k => k.isCompound = false ∧ ok k) := by
  unfold popKey
  refine Frame.pop_keeps.seq fun k hk => Keeps.guarded fun h => Keeps.returns ⟨?_, hk⟩
  exact Bool.eq_false_iff.2 h

end Instructions

end ScriptMachine
