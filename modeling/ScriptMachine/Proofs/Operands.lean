import ScriptMachine.Proofs.FrameChange

/-! # How calls read their operands

A call reads its operands from the script and, in its dynamic form, pops a hash. `Consumed k f₀ f` says what
this costs a frame: the cursor has moved inside of the script, the top `k` items are gone, and nothing else
has changed.

* `Frame.readBytes_leads`, `Frame.readByte_leads`, `Frame.readCounts_leads`: the bytes that are read, exactly.
* `Instructions.jump_consumed`, `Instructions.readTarget_consumed`: targets.
* `Instructions.popHash_leads`: a hash from the stack.
* `Engine.callOperands`, `Engine.externalOperands`: what the calls between scripts read.
-/

namespace ScriptMachine

/-- The cursor has moved inside of the script and the top `k` items are gone. -/
structure Consumed (k : Nat) (f₀ f : Frame) : Prop where
  /-- Only the cursor and the top items differ. -/
  same : f = { f₀ with cursor := f.cursor, eval := f₀.eval.drop k }
  /-- The cursor does not leave the script. -/
  cursor : f₀.cursor ≤ f₀.script.length → f.cursor ≤ f₀.script.length

variable {k : Nat} {f₀ f : Frame}

namespace Consumed

/-- Nothing was consumed. -/
theorem refl (f : Frame) : Consumed 0 f f := ⟨rfl, id⟩

/-- The script is the same. -/
theorem script (hf : Consumed k f₀ f) : f.script = f₀.script := by rw [hf.same]

/-- The number of items to return is the same. -/
theorem returnCount (hf : Consumed k f₀ f) : f.returnCount = f₀.returnCount := by rw [hf.same]

/-- The alternative stack is the same. -/
theorem alt (hf : Consumed k f₀ f) : f.alt = f₀.alt := by rw [hf.same]

/-- The items below the consumed ones are left. -/
theorem eval (hf : Consumed k f₀ f) : f.eval = f₀.eval.drop k := by rw [hf.same]

/-- The cursor moves on. -/
theorem setCursor (hf : Consumed k f₀ f) {cursor : Nat} (hc : cursor ≤ f.script.length) :
    Consumed k f₀ { f with cursor } := by
  refine ⟨?_, fun _ => hf.script ▸ hc⟩
  rw [hf.same]

/-- One more item is consumed. -/
theorem pop {x : Item} {rest : Stack} (hf : Consumed k f₀ f) (heval : f.eval = x :: rest) :
    Consumed (k + 1) f₀ { f with eval := rest } := by
  have hrest : rest = f₀.eval.drop (k + 1) := by
    rw [← List.tail_drop, ← hf.eval, heval]
    rfl
  refine ⟨?_, hf.cursor⟩
  rw [hrest, hf.same]

/-- A frame that consumed items is one that instructions may leave behind. -/
theorem frameChange {p : Policy} (hf : Consumed k f₀ f) (heval : p.AllowsItems f₀.eval)
    (halt : p.AllowsItems f₀.alt) : FrameChange p.AllowsItem f₀ f := by
  refine ⟨hf.script, hf.returnCount, hf.cursor, ?_, ?_⟩
  · rw [hf.eval]
    exact heval.sublist (List.drop_sublist _ _)
  · rw [hf.alt]
    exact halt

end Consumed

/-! ## Reading from the script -/

namespace Frame

/-- Moving the cursor. -/
theorem setCursor_consumed (target : Nat) :
    Keeps (Consumed k f₀) (setCursor target) (fun _ => True) := by
  unfold setCursor
  refine Keeps.reads.seq fun f hf => ?_
  refine Keeps.branch (fun h => ?_) (fun _ => Keeps.throws _)
  exact Keeps.writes (hf.setCursor h)

/-- Moving the cursor, exactly. -/
theorem setCursor_leads (f : Frame) (target : Nat) :
    Leads (· = f) (setCursor target)
      (fun _ g => target ≤ f.script.length ∧ g = { f with cursor := target }) (· = f) := by
  unfold setCursor
  refine Leads.reads fun g hg => ?_
  subst hg
  exact Leads.branch (fun h => Leads.writes fun _ _ => ⟨h, rfl⟩) (fun _ => Leads.throws fun _ ht => ht)

/-- **Reading bytes** returns the bytes at the cursor and moves past them. -/
theorem readBytes_leads (f : Frame) (count : Nat) :
    Leads (· = f) (readBytes count)
      (fun b g => b = f.script.body.extract f.cursor (f.cursor + count) ∧
        f.cursor + count ≤ f.script.length ∧ g = { f with cursor := f.cursor + count })
      (· = f) := by
  unfold readBytes
  refine Leads.reads fun g hg => ?_
  subst hg
  refine Leads.branch (fun h => ?_) (fun _ => Leads.throws fun _ ht => ht)
  refine (Leads.writes (A := fun _ t => t = _) fun _ _ => rfl).seq fun _ => Leads.returns ?_
  rintro t rfl
  exact ⟨rfl, h, rfl⟩

/-- Reading bytes consumes no item. -/
theorem readBytes_consumed (count : Nat) :
    Keeps (Consumed k f₀) (readBytes count) (fun _ => True) := by
  unfold readBytes
  refine Keeps.reads.seq fun f hf => ?_
  refine Keeps.branch (fun h => ?_) (fun _ => Keeps.throws _)
  exact (Keeps.writes (hf.setCursor h)).seq fun _ _ => Keeps.returns trivial

/-- The number in a single byte. -/
theorem toNatLE_extract_one {b : Bytes} {i : Nat} (h : i + 1 ≤ b.size) :
    Bytes.toNatLE (b.extract i (i + 1)) = (b[i]).toNat := by
  -- One byte has no byte order to care about.
  have hone : b.extract i (i + 1) = #[b[i]] := by
    apply Array.ext
    · simp only [Array.size_extract, List.size_toArray, List.length_cons, List.length_nil]
      omega
    · intro j hj _
      simp only [Array.size_extract] at hj
      obtain rfl : j = 0 := by omega
      simp
  rw [hone]
  rfl

/-- **Reading one byte** returns the byte at the cursor. -/
theorem readByte_leads (f : Frame) :
    Leads (· = f) readByte
      (fun n g => (∃ b, f.script.byte? f.cursor = some b ∧ n = b.toNat) ∧
        f.cursor + 1 ≤ f.script.length ∧ g = { f with cursor := f.cursor + 1 })
      (· = f) := by
  unfold readByte readNat
  refine (readBytes_leads f 1).seq fun b => Leads.returns ?_
  rintro g ⟨rfl, hroom, rfl⟩
  have hlt : f.cursor < f.script.body.size := hroom
  refine ⟨⟨f.script.body[f.cursor], Array.getElem?_eq_getElem hlt, ?_⟩, hroom, rfl⟩
  exact toNatLE_extract_one hroom

/-- **The two counts of a call** are the bytes at the cursor; what follows starts behind them. -/
theorem readCounts_leads {α : Type} {next : Nat → Nat → FrameM α} {A : α → Frame → Prop}
    (hnext : ∀ r b, f₀.script.byte? f₀.cursor = some r → f₀.script.byte? (f₀.cursor + 1) = some b →
      Consumed 0 f₀ { f₀ with cursor := f₀.cursor + 1 + 1 } →
      Leads (· = { f₀ with cursor := f₀.cursor + 1 + 1 }) (next r.toNat b.toNat) A
        (fun f => ∃ n, Consumed n f₀ f)) :
    Leads (· = f₀) (do
      let returnCount ← readByte
      let parameterCount ← readByte
      next returnCount parameterCount) A (fun f => ∃ n, Consumed n f₀ f) := by
  refine ((readByte_leads f₀).ends (fun _ _ h => h) ?_).seq fun returnCount => Leads.each ?_
  · rintro f rfl
    exact ⟨0, Consumed.refl f⟩
  rintro _ ⟨⟨r, hr, rfl⟩, hroom₁, rfl⟩
  -- A failure to read the second count leaves the cursor behind the first one.
  refine ((readByte_leads _).ends (fun _ _ h => h) ?_).seq fun parameterCount => Leads.each ?_
  · rintro f rfl
    exact ⟨0, (Consumed.refl f₀).setCursor hroom₁⟩
  rintro _ ⟨⟨b, hb, rfl⟩, hroom₂, rfl⟩
  exact hnext r b hr hb ((Consumed.refl f₀).setCursor hroom₂)

/-- The depth of the evaluation stack. -/
theorem evalDepth_leads (f : Frame) {E : Frame → Prop} :
    Leads (· = f) evalDepth (fun n g => n = f.eval.length ∧ g = f) E := by
  unfold evalDepth
  refine Leads.reads fun g hg => Leads.returns ?_
  rintro t rfl
  exact ⟨hg ▸ rfl, hg⟩

/-- **Taking off the top items** divides the evaluation stack. -/
theorem takeTop_leads (f : Frame) (count : Nat) :
    Leads (· = f) (takeTop count)
      (fun top g => top.length = count ∧ top ++ g.eval = f.eval ∧ g = { f with eval := g.eval })
      (· = f) := by
  unfold takeTop
  refine Leads.reads fun g hg => ?_
  subst hg
  unfold Stack.split
  split
  · rename_i hcount
    rintro t rfl
    exact ⟨List.length_take_of_le hcount, List.take_append_drop _ _, rfl⟩
  · exact fun _ ht => ht

end Frame

namespace Instructions

/-- Reading a target consumes no item. -/
theorem readTarget_consumed (origin : Nat) :
    Keeps (Consumed k f₀) (readTarget origin) (fun target => target ≤ f₀.script.length) := by
  unfold readTarget Frame.readInt16 Frame.readNat
  refine (((Frame.readBytes_consumed 2).seq fun _ _ => Keeps.returns trivial).seq
    fun _ (_ : True) => Keeps.returns trivial).seq fun offset (_ : True) => ?_
  refine Keeps.reads.seq fun f hf => Keeps.guarded fun h => Keeps.returns ?_
  rw [← hf.script]
  simp only [Bool.or_eq_true, decide_eq_true_eq, not_or, Int.not_lt] at h
  omega

/-- A jump without a condition consumes no item. -/
theorem jump_consumed {i : Instruction} (hi : i.op = .call) :
    Keeps (Consumed k f₀) (jump i) (fun _ => True) := by
  unfold jump
  refine (readTarget_consumed i.position).seq fun target _ => ?_
  rw [hi]
  refine (Keeps.returns trivial).seq fun taken (_ : True) => ?_
  exact Keeps.branch (fun _ => Frame.setCursor_consumed target) (fun _ => Keeps.returns trivial)

/-! ## Popping a hash -/

/-- **Popping a hash** consumes one item; a failure may have consumed it too. -/
theorem popHash_leads :
    Leads (Consumed k f₀) popHash (fun _ => Consumed (k + 1) f₀)
      (fun f => ∃ n, Consumed n f₀ f) := by
  -- The item is gone also when it turns out to be no hash.
  have hpopped : ∀ f, Consumed (k + 1) f₀ f → ∃ n, Consumed n f₀ f := fun f hf => ⟨_, hf⟩
  unfold popHash Frame.popBytes
  have hpop : Leads (Consumed k f₀) Frame.pop (fun _ => Consumed (k + 1) f₀)
      (fun f => ∃ n, Consumed n f₀ f) := by
    unfold Frame.pop
    refine Leads.reads fun f hf => ?_
    rcases heval : f.eval with _ | ⟨x, rest⟩
    · rintro g rfl
      exact ⟨k, hf⟩
    · rintro g rfl
      exact hf.pop heval
  refine ((hpop.seq fun x => Leads.result (fun _ _ _ hf => hf) hpopped)).seq fun hash => ?_
  exact Leads.guarded hpopped fun _ => Leads.returns fun _ hf => hf

/-- Popping a hash keeps the frame. -/
theorem popHash_keeps {ok : Item → Prop} : Keeps (FrameChange ok f₀) popHash fun _ => True := by
  unfold popHash
  exact Frame.popBytes_keeps.seq fun _ _ => Keeps.guarded fun _ => Keeps.returns trivial

/-- Reading a hash from the script returns the bytes there. -/
theorem readHash_leads (f : Frame) :
    Leads (· = f) readHash
      (fun b g => b = f.script.body.extract f.cursor (f.cursor + Script.hashSize) ∧ Consumed 0 f g)
      (· = f) := by
  refine (Frame.readBytes_leads f _).weaken (fun _ h => h) ?_ (fun _ h => h)
  rintro b g ⟨hb, hroom, rfl⟩
  exact ⟨hb, (Consumed.refl f).setCursor hroom⟩

end Instructions

/-! ## The operands of calls between scripts -/

namespace Engine

variable {ok : Item → Prop}

/-- What a call by hash reads: the hash, and whether it comes from the stack. -/
def callOperands : FrameM (Bytes × Bool) := do
  let hash ← Instructions.readHash
  if hash.anyNonZero then return (hash, false) else return (← Instructions.popHash, true)

/-- What a call by hash with announced counts reads: the hash and the two counts. -/
def externalOperands (dynamic tail : Bool) : FrameM (Bytes × Nat × Nat) := do
  let returnCount ← Frame.readByte
  let parameterCount ← Frame.readByte
  let needed := parameterCount + if dynamic then 1 else 0
  let f ← get
  if f.eval.length < needed then throw (.underflow needed f.eval.length)
  if tail && f.returnCount != returnCount then
    throw (.tailReturnCount f.returnCount returnCount)
  let hash ← if dynamic then Instructions.popHash else Instructions.readHash
  return (hash, returnCount, parameterCount)

/-- The shape of all calls between scripts: operands are read, a frame is pushed for the hash among them, arguments
are moved to it, and in the tail form the calling frame is taken out. -/
def callByHash {α : Type} (nested : Engine → Engine) (operands : FrameM α) (hash : α → Bytes) (dynamic : α → Bool)
    (returnCount : α → Int) (count : α → Option Nat) (tail : Prop) [Decidable tail] : Run Unit := do
  let a ← onFrame operands
  loadByHash nested (hash a) (dynamic a) (returnCount a)
  onState (Instructions.moveArguments (count a))
  if tail then onState Instructions.dropCaller

/-- A call by hash has the shape. -/
theorem appCall_eq (nested : Engine → Engine) (i : Instruction) :
    appCall nested i = callByHash nested callOperands (·.1) (·.2) (fun _ => returnAll) (fun _ => none)
      (i.op = .tailCall) := rfl

/-- A call by hash with announced counts has the shape. -/
theorem callExternal_eq (nested : Engine → Engine) (i : Instruction) :
    callExternal nested i =
      callByHash nested (externalOperands (i.op = .callED || i.op = .callEDT) (i.op = .callET || i.op = .callEDT))
        (·.1) (fun _ => i.op = .callED || i.op = .callEDT) (fun a => a.2.1) (fun a => some a.2.2)
        ((i.op = .callET || i.op = .callEDT) = true) := rfl

/-- Reading the operands of a call by hash keeps the frame. -/
theorem callOperands_keeps : Keeps (FrameChange ok f₀) callOperands fun _ => True := by
  unfold callOperands
  refine (Frame.readBytes_keeps _).seq fun hash _ => ?_
  exact Keeps.branch (fun _ => Keeps.returns trivial) fun _ =>
    Instructions.popHash_keeps.seq fun _ _ => Keeps.returns trivial

/-- Reading the operands of a call by hash with announced counts keeps the frame. -/
theorem externalOperands_keeps (dynamic tail : Bool) :
    Keeps (FrameChange ok f₀) (externalOperands dynamic tail) fun _ => True := by
  unfold externalOperands
  refine (Frame.readNat_keeps 1).seq fun returnCount _ => (Frame.readNat_keeps 1).seq fun parameterCount _ => ?_
  refine Keeps.reads.seq fun f _ => Keeps.guarded fun _ => Keeps.guarded fun _ => ?_
  exact Keeps.branch (fun _ => Instructions.popHash_keeps.seq fun _ _ => Keeps.returns trivial)
    fun _ => (Frame.readBytes_keeps _).seq fun _ _ => Keeps.returns trivial

end Engine

end ScriptMachine
