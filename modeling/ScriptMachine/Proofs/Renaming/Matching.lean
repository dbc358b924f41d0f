import ScriptMachine.Proofs.Keeps
import ScriptMachine.Proofs.Renaming.Items

/-! # Two machines side by side

`Matches faults P m n Q` compares a run of `m` with a run of `n` from states that are related by `P`: when the first one
succeeds, so does the second one, the results are related by `Q`, and the states are again related by `P`. If `faults`
holds, a fault of the first one is a fault of the second one as well. The rules follow the ways in which instructions
are put together, as those of `Keeps` do.

A `Matching` says what two machines have in common: their objects correspond under a renaming, and a script of the first
machine is the beginning of the corresponding script of the second one. The computations of a frame are compared here.

* `SameOutcome`, `Matches`: two runs.
* `Matches.seq`, `Matches.seqEq`, `Matches.result`, `Matches.guarded`, `Matches.each` and so on: the rules.
* `Matching`, `Matching.SameFrame`: frames of two machines.
* `Matching.pop`, `Matching.readBytes` and so on: the operations of a frame.
* `Matching.unary`, `Matching.binary`, `Matching.shift`: numbers.
* `Matching.xswap`, `Matching.roll`, `Matching.tuck`: rearrangements.
* `Matching.jump`: jumps.
-/

namespace ScriptMachine

/-! ## Two runs -/

section

variable {σ α β α' β' : Type} {faults : Prop} {P : σ → σ → Prop} {Q : α → β → Prop} {R : α' → β' → Prop}

/-- Two outcomes that match: if the first computation has succeeded, so has the second one, with related results and
states. If `faults` holds, a fault of the first one is a fault of the second one. -/
def SameOutcome (faults : Prop) (P : σ → σ → Prop) (Q : α → β → Prop) (r : Except Fault α × σ)
    (r' : Except Fault β × σ) : Prop :=
  match r with
  | (.ok a, s) => ∃ b t, r' = (.ok b, t) ∧ Q a b ∧ P s t
  | (.error cause, s) => faults → ∃ t, r' = (.error cause, t) ∧ P s t

/-- From related states, two computations have outcomes that match. -/
def Matches (faults : Prop) (P : σ → σ → Prop) (m : ExceptT Fault (StateM σ) α) (n : ExceptT Fault (StateM σ) β)
    (Q : α → β → Prop) : Prop := ∀ s t, P s t → SameOutcome faults P Q (m.run s) (n.run t)

namespace Matches

/-- Returning related values. -/
theorem returns {a : α} {b : β} (h : Q a b) : Matches faults P (pure a) (pure b) Q :=
  fun _ t hst => ⟨b, t, rfl, h, hst⟩

/-- A fault that the second computation has if it has to. -/
theorem throws_of {cause : Fault} {n : ExceptT Fault (StateM σ) β} (h : faults → n = throw cause) :
    Matches faults P (throw cause : ExceptT Fault (StateM σ) α) n Q := by
  intro s t hst hfaults
  rw [h hfaults]
  exact ⟨t, rfl, hst⟩

/-- A fault, after which nothing follows, that the second computation has if it has to. -/
theorem fails_of {cause : Fault} {k : α' → ExceptT Fault (StateM σ) α} {n : ExceptT Fault (StateM σ) α}
    {Q : α → α → Prop} (h : faults → n = throw cause >>= k) : Matches faults P (throw cause >>= k) n Q := by
  intro s t hst hfaults
  rw [h hfaults]
  exact ⟨t, rfl, hst⟩

/-- The same fault. -/
theorem throws (cause : Fault) :
    Matches faults P (throw cause : ExceptT Fault (StateM σ) α) (throw cause : ExceptT Fault (StateM σ) β) Q :=
  throws_of fun _ => rfl

/-- Results that were computed beforehand. -/
theorem result {x : Except Fault α} {y : Except Fault β} (h : SameResult Q x y) :
    Matches faults P (MonadExcept.ofExcept x) (MonadExcept.ofExcept y) Q := by
  cases h with
  | ok h => exact returns h
  | error cause => exact throws cause

/-- Equal results that were computed beforehand. -/
theorem resultEq {x y : Except Fault α} (h : y = x) :
    Matches faults P (MonadExcept.ofExcept x) (MonadExcept.ofExcept y) Eq := result (.of_eq h)

/-- Reading the states. -/
theorem reads {k : σ → ExceptT Fault (StateM σ) α} {l : σ → ExceptT Fault (StateM σ) β}
    (h : ∀ s t, P s t → Matches faults P (k s) (l t) Q) : Matches faults P (get >>= k) (get >>= l) Q := by
  intro s t hst
  rw [run_get_seq, run_get_seq]
  exact h s t hst s t hst

/-- Writing related states. -/
theorem writes {s t : σ} (h : P s t) :
    Matches faults P (set s : ExceptT Fault (StateM σ) PUnit) (set t : ExceptT Fault (StateM σ) PUnit) Eq :=
  fun _ _ _ => ⟨⟨⟩, t, rfl, rfl, h⟩

/-- Changing the states by functions that keep them related. -/
theorem updates {f g : σ → σ} (h : ∀ s t, P s t → P (f s) (g t)) :
    Matches faults P (modify f : ExceptT Fault (StateM σ) PUnit) (modify g : ExceptT Fault (StateM σ) PUnit) Eq :=
  fun s t hst => ⟨⟨⟩, g t, rfl, rfl, h s t hst⟩

/-- A sequence. -/
theorem seq {m : ExceptT Fault (StateM σ) α} {n : ExceptT Fault (StateM σ) β} {k : α → ExceptT Fault (StateM σ) α'}
    {l : β → ExceptT Fault (StateM σ) β'} (hm : Matches faults P m n Q)
    (hk : ∀ a b, Q a b → Matches faults P (k a) (l b) R) : Matches faults P (m >>= k) (n >>= l) R := by
  intro s t hst
  have hfirst := hm s t hst
  rw [run_seq, run_seq]
  revert hfirst
  rcases m.run s with ⟨cause | a, s'⟩
  · intro hfirst hfaults
    obtain ⟨t', hrun, hst'⟩ := hfirst hfaults
    rw [hrun]
    exact ⟨t', rfl, hst'⟩
  · rintro ⟨b, t', hrun, hab, hst'⟩
    rw [hrun]
    exact hk a b hab s' t' hst'

/-- A sequence whose first part returns the same. -/
theorem seqEq {m n : ExceptT Fault (StateM σ) α} {k : α → ExceptT Fault (StateM σ) α'}
    {l : α → ExceptT Fault (StateM σ) β'} (hm : Matches faults P m n Eq)
    (hk : ∀ a, Matches faults P (k a) (l a) R) : Matches faults P (m >>= k) (n >>= l) R := by
  refine hm.seq ?_
  rintro a _ rfl
  exact hk a

/-- A weaker statement on what is returned. -/
theorem weaken {m : ExceptT Fault (StateM σ) α} {n : ExceptT Fault (StateM σ) β} {Q' : α → β → Prop}
    (hm : Matches faults P m n Q) (hQ : ∀ a b, Q a b → Q' a b) : Matches faults P m n Q' := by
  intro s t hst
  have hrun := hm s t hst
  revert hrun
  rcases m.run s with ⟨cause | a, s'⟩
  · exact id
  · rintro ⟨b, t', hrun, hab, hst'⟩
    exact ⟨b, t', hrun, hQ a b hab, hst'⟩

/-- A branch that both take. -/
theorem branch {c : Prop} [Decidable c] {m m' : ExceptT Fault (StateM σ) α} {n n' : ExceptT Fault (StateM σ) β}
    (hm : c → Matches faults P m n Q) (hm' : ¬ c → Matches faults P m' n' Q) :
    Matches faults P (if c then m else m') (if c then n else n') Q := by
  by_cases h : c
  · rw [if_pos h, if_pos h]
    exact hm h
  · rw [if_neg h, if_neg h]
    exact hm' h

/-- A guard that both pass or fail. -/
theorem guarded {c : Prop} [Decidable c] {cause : Fault} {k : Unit → ExceptT Fault (StateM σ) α}
    {l : Unit → ExceptT Fault (StateM σ) β} (hk : Matches faults P (k ()) (l ()) Q) :
    Matches faults P (if c then throw cause >>= k else k ()) (if c then throw cause >>= l else l ()) Q :=
  branch (fun _ => (throws (Q := fun _ _ => False) cause).seq fun _ _ h => h.elim) fun _ => hk

/-- A traversal of related lists. -/
theorem each {k : α → ExceptT Fault (StateM σ) α'} {l : β → ExceptT Fault (StateM σ) β'} {xs : List α} {ys : List β}
    (hxs : List.Forall₂ Q xs ys) (hk : ∀ x y, Q x y → Matches faults P (k x) (l y) R) :
    Matches faults P (xs.mapM k) (ys.mapM l) (List.Forall₂ R) := by
  induction hxs with
  | nil =>
    rw [List.mapM_nil, List.mapM_nil]
    exact returns .nil
  | cons hxy _ ih =>
    rw [List.mapM_cons, List.mapM_cons]
    exact (hk _ _ hxy).seq fun _ _ hfirst => ih.seq fun _ _ hrest => returns (.cons hfirst hrest)

end Matches

end

/-! ## Frames -/

/-- What two machines have in common. -/
structure Matching extends Renaming where
  /-- The scripts that correspond. -/
  script : Script → Script → Prop
  /-- Whether the second machine has the faults of the first one. -/
  faults : Prop
  /-- What stands in the journal of the first machine when the comparison begins. -/
  past : List Event := []
  /-- What stands in the journal of the second machine when the comparison begins. -/
  past' : List Event := []
  /-- The script loader of both machines. -/
  loader : Option ScriptLoader := none
  /-- A script is the beginning of the corresponding one. -/
  script_prefix : ∀ {a b : Script}, script a b → ∃ tail, b.body = a.body ++ tail
  /-- If faults correspond, so do the ends of scripts. -/
  script_exact : faults → ∀ {a b : Script}, script a b → b.body = a.body

namespace Matching

variable {M : Matching} {f g : Frame} {a b : Script}

/-- Two frames that run corresponding scripts from one place, with the same items. -/
structure SameFrame (M : Matching) (f g : Frame) : Prop where
  /-- The scripts correspond. -/
  script : M.script f.script g.script
  /-- The cursor is the same. -/
  cursor : g.cursor = f.cursor
  /-- The number of items to return is the same. -/
  returnCount : g.returnCount = f.returnCount
  /-- The evaluation stacks are the same. -/
  eval : M.SameItems f.eval g.eval
  /-- The alternative stacks are the same. -/
  alt : M.SameItems f.alt g.alt

/-- The first script is not longer. -/
theorem length_le (h : M.script a b) : a.length ≤ b.length := by
  obtain ⟨tail, htail⟩ := M.script_prefix h
  rw [Script.length, Script.length, htail, Array.size_append]
  exact Nat.le_add_right _ _

/-- If faults correspond, the scripts have the same length. -/
theorem length_eq (hfaults : M.faults) (h : M.script a b) : b.length = a.length :=
  congrArg Array.size (M.script_exact hfaults h)

/-- A part of the first script is the same part of the second one. -/
theorem extract_eq (h : M.script a b) {i j : Nat} (hj : j ≤ a.length) : b.body.extract i j = a.body.extract i j := by
  obtain ⟨tail, htail⟩ := M.script_prefix h
  rw [htail, Array.extract_append]
  have hzero : j - a.body.size = 0 := Nat.sub_eq_zero_of_le hj
  rw [hzero]
  simp

namespace SameFrame

/-- Another evaluation stack. -/
theorem setEval {xs ys : Stack} (h : M.SameFrame f g) (hxs : M.SameItems xs ys) :
    M.SameFrame { f with eval := xs } { g with eval := ys } := ⟨h.script, h.cursor, h.returnCount, hxs, h.alt⟩

/-- Another alternative stack. -/
theorem setAlt {xs ys : Stack} (h : M.SameFrame f g) (hxs : M.SameItems xs ys) :
    M.SameFrame { f with alt := xs } { g with alt := ys } := ⟨h.script, h.cursor, h.returnCount, h.eval, hxs⟩

/-- Another place. -/
theorem setCursor (h : M.SameFrame f g) (cursor : Nat) :
    M.SameFrame { f with cursor } { g with cursor } := ⟨h.script, rfl, h.returnCount, h.eval, h.alt⟩

end SameFrame

/-- Two computations of a frame, run side by side. -/
abbrev OnFrame {α β : Type} (M : Matching) (m : FrameM α) (n : FrameM β) (Q : α → β → Prop) : Prop :=
  Matches M.faults M.SameFrame m n Q

open Matches

/-! ### Reading operands -/

/-- Moving the cursor. -/
theorem setCursor (target : Nat) : M.OnFrame (Frame.setCursor target) (Frame.setCursor target) Eq := by
  refine reads fun f g h => ?_
  by_cases hroom : target ≤ f.script.length
  · rw [if_pos hroom, if_pos (Nat.le_trans hroom (length_le h.script))]
    exact writes (h.setCursor target)
  · rw [if_neg hroom]
    refine throws_of fun hfaults => ?_
    rw [length_eq hfaults h.script, if_neg hroom]

/-- Reading bytes. -/
theorem readBytes (count : Nat) : M.OnFrame (Frame.readBytes count) (Frame.readBytes count) Eq := by
  refine reads fun f g h => ?_
  dsimp only
  rw [h.cursor]
  by_cases hroom : f.cursor + count ≤ f.script.length
  · rw [if_pos hroom, if_pos (Nat.le_trans hroom (length_le h.script)), extract_eq h.script hroom]
    exact (writes (h.setCursor _)).seqEq fun _ => returns rfl
  · rw [if_neg hroom]
    refine throws_of fun hfaults => ?_
    rw [length_eq hfaults h.script, if_neg hroom]

/-- Reading a number of fixed width. -/
theorem readNat (width : Nat) : M.OnFrame (Frame.readNat width) (Frame.readNat width) Eq :=
  (readBytes width).seqEq fun _ => returns rfl

/-- Reading a signed number. -/
theorem readInt16 : M.OnFrame Frame.readInt16 Frame.readInt16 Eq := (readNat 2).seqEq fun _ => returns rfl

/-- Reading a number of variable width. -/
theorem readVarNat (max : Nat) : M.OnFrame (Frame.readVarNat max) (Frame.readVarNat max) Eq := by
  unfold Frame.readVarNat Frame.readByte
  refine (readNat 1).seqEq fun mark => ?_
  refine branch (fun _ => ?_) fun _ => branch (fun _ => ?_) fun _ => branch (fun _ => ?_) fun _ => ?_
  · exact (readNat 2).seqEq fun value => guarded (returns rfl)
  · exact (readNat 4).seqEq fun value => guarded (returns rfl)
  · exact (readNat 8).seqEq fun value => guarded (returns rfl)
  · exact (returns rfl).seqEq fun value => guarded (returns rfl)

/-- Reading a length and that many bytes. -/
theorem readVarBytes (max : Nat) : M.OnFrame (Frame.readVarBytes max) (Frame.readVarBytes max) Eq :=
  (readVarNat max).seqEq fun count => readBytes count

/-! ### The evaluation stack -/

/-- Pushing the same item. -/
theorem push {x y : Item} (hx : M.SameItem x y) : M.OnFrame (Frame.push x) (Frame.push y) Eq :=
  updates fun _ _ h => h.setEval (.cons hx h.eval)

/-- Popping gives the same item. -/
theorem pop : M.OnFrame Frame.pop Frame.pop M.SameItem :=
  reads fun _ _ h => (result (Stack.sameResult_pop h.eval)).seq fun _ _ hr =>
    (writes (h.setEval hr.2)).seqEq fun _ => returns hr.1

/-- The item at a position is the same. -/
theorem peek (n : Nat) : M.OnFrame (Frame.peek n) (Frame.peek n) M.SameItem :=
  reads fun _ _ h => result (Stack.sameResult_peek h.eval n)

/-- Taking out an item gives the same item. -/
theorem remove (n : Nat) : M.OnFrame (Frame.remove n) (Frame.remove n) M.SameItem :=
  reads fun _ _ h => (result (Stack.sameResult_remove h.eval n)).seq fun _ _ hr =>
    (writes (h.setEval hr.2)).seqEq fun _ => returns hr.1

/-- Inserting the same item. -/
theorem insert (n : Nat) {x y : Item} (hx : M.SameItem x y) : M.OnFrame (Frame.insert n x) (Frame.insert n y) Eq :=
  reads fun _ _ h => (result (Stack.sameResult_insert h.eval hx n)).seq fun _ _ hr => writes (h.setEval hr)

/-- Replacing an item by the same item. -/
theorem replace (n : Nat) {x y : Item} (hx : M.SameItem x y) : M.OnFrame (Frame.replace n x) (Frame.replace n y) Eq :=
  reads fun _ _ h => (result (Stack.sameResult_set h.eval hx n)).seq fun _ _ hr => writes (h.setEval hr)

/-- The depth is the same. -/
theorem evalDepth : M.OnFrame Frame.evalDepth Frame.evalDepth Eq :=
  reads fun _ _ h => returns h.eval.length_eq

/-- Taking off the same items. -/
theorem takeTop (count : Nat) : M.OnFrame (Frame.takeTop count) (Frame.takeTop count) M.SameItems :=
  reads fun _ _ h => (result (Stack.sameResult_split h.eval count)).seq fun _ _ hr =>
    (writes (h.setEval hr.2)).seqEq fun _ => returns hr.1

/-- Popping a number. -/
theorem popInt32 : M.OnFrame Frame.popInt32 Frame.popInt32 Eq := pop.seq fun _ _ hx => resultEq hx.int32

/-- Popping an index. -/
theorem popIndex (what : String) : M.OnFrame (Frame.popIndex what) (Frame.popIndex what) Eq :=
  popInt32.seqEq fun _ => guarded (returns rfl)

/-- Popping a byte string. -/
theorem popBytes : M.OnFrame Frame.popBytes Frame.popBytes Eq := pop.seq fun _ _ hx => resultEq hx.byteView

/-! ### Numbers -/

section

variable {l : Limits}

/-- Popping an operand. -/
theorem popInteger : M.OnFrame (Instructions.popInteger l) (Instructions.popInteger l) Eq :=
  pop.seq fun _ _ hx => (resultEq hx.byteViewSize).seqEq fun _ => guarded (resultEq hx.integerValue)

/-- Pushing a result. -/
theorem pushInteger (v : Integer) : M.OnFrame (Instructions.pushInteger l v) (Instructions.pushInteger l v) Eq := by
  unfold Instructions.pushInteger
  exact guarded (push (.integer v))

/-- Instructions with one operand. -/
theorem unary (op : Integer → Integer) : M.OnFrame (Instructions.unary l op) (Instructions.unary l op) Eq :=
  popInteger.seqEq fun _ => pushInteger _

/-- Instructions with two operands. -/
theorem binary (op : Integer → Integer → Except Fault Integer) :
    M.OnFrame (Instructions.binary l op) (Instructions.binary l op) Eq :=
  popInteger.seqEq fun _ => popInteger.seqEq fun _ => (resultEq rfl).seqEq fun _ => pushInteger _

/-- Comparisons. -/
theorem compare (op : Integer → Integer → Bool) :
    M.OnFrame (Instructions.compare l op) (Instructions.compare l op) Eq :=
  popInteger.seqEq fun _ => popInteger.seqEq fun _ => push (.boolean _)

/-- Popping a shift amount. -/
theorem popShift : M.OnFrame (Instructions.popShift l) (Instructions.popShift l) Eq :=
  popInt32.seqEq fun _ => guarded (returns rfl)

/-- Shifts. -/
theorem shift (op : Integer → Int → Integer) : M.OnFrame (Instructions.shift l op) (Instructions.shift l op) Eq :=
  popShift.seqEq fun _ => branch (fun _ => popInteger.seqEq fun _ => pushInteger _) fun _ => returns rfl

/-- The range check. -/
theorem within : M.OnFrame (Instructions.within l) (Instructions.within l) Eq :=
  popInteger.seqEq fun _ => popInteger.seqEq fun _ => popInteger.seqEq fun _ => push (.boolean _)

/-- The test for zero. -/
theorem nonZero : M.OnFrame (Instructions.nonZero l) (Instructions.nonZero l) Eq :=
  popInteger.seqEq fun _ => push (.boolean _)

end

/-- Logical negation. -/
theorem logicalNot : M.OnFrame Instructions.logicalNot Instructions.logicalNot Eq := by
  refine pop.seq fun x y hx => ?_
  rw [hx.truth]
  exact push (.boolean _)

/-- Logical connectives. -/
theorem logical (op : Bool → Bool → Bool) : M.OnFrame (Instructions.logical op) (Instructions.logical op) Eq := by
  refine pop.seq fun x y hx => pop.seq fun x' y' hx' => ?_
  rw [hx.truth, hx'.truth]
  exact push (.boolean _)

/-! ### Rearrangements -/

/-- Copying from the alternative stack. -/
theorem dupFromAltStack : M.OnFrame Instructions.dupFromAltStack Instructions.dupFromAltStack Eq :=
  reads fun _ _ h => (result (Stack.sameResult_peek h.alt 0)).seq fun _ _ hx => push hx

/-- Moving to the alternative stack. -/
theorem toAltStack : M.OnFrame Instructions.toAltStack Instructions.toAltStack Eq :=
  pop.seq fun _ _ hx => updates fun _ _ h => h.setAlt (.cons hx h.alt)

/-- Moving back from the alternative stack. -/
theorem fromAltStack : M.OnFrame Instructions.fromAltStack Instructions.fromAltStack Eq :=
  reads fun _ _ h => (result (Stack.sameResult_pop h.alt)).seq fun _ _ hr =>
    (writes (h.setAlt hr.2)).seqEq fun _ => push hr.1

/-- Removing at an index. -/
theorem xdrop : M.OnFrame Instructions.xdrop Instructions.xdrop Eq :=
  (popIndex _).seqEq fun n => (remove n).seq fun _ _ _ => returns rfl

/-- Swapping with an index. -/
theorem xswap : M.OnFrame Instructions.xswap Instructions.xswap Eq := by
  refine (popIndex _).seqEq fun n => branch (fun _ => ?_) fun _ => returns rfl
  refine (peek n).seq fun deep deep' hdeep => (peek 0).seq fun top top' htop => ?_
  exact (replace n htop).seqEq fun _ => replace 0 hdeep

/-- Inserting a copy of the top at an index. -/
theorem xtuck : M.OnFrame Instructions.xtuck Instructions.xtuck Eq :=
  popInt32.seqEq fun _ => guarded ((peek 0).seq fun _ _ hx => insert _ hx)

/-- Pushing the depth. -/
theorem depth : M.OnFrame Instructions.depth Instructions.depth Eq := evalDepth.seqEq fun _ => push (.integer _)

/-- Removing the top. -/
theorem drop : M.OnFrame Instructions.drop Instructions.drop Eq := pop.seq fun _ _ _ => returns rfl

/-- Copying the top. -/
theorem dup : M.OnFrame Instructions.dup Instructions.dup Eq := (peek 0).seq fun _ _ hx => push hx

/-- Removing the second item. -/
theorem nip : M.OnFrame Instructions.nip Instructions.nip Eq := (remove 1).seq fun _ _ _ => returns rfl

/-- Copying the second item. -/
theorem copySecond : M.OnFrame Instructions.copySecond Instructions.copySecond Eq := (peek 1).seq fun _ _ hx => push hx

/-- Copying at an index. -/
theorem pick : M.OnFrame Instructions.pick Instructions.pick Eq :=
  (popIndex _).seqEq fun n => (peek n).seq fun _ _ hx => push hx

/-- Moving to the top from an index. -/
theorem roll : M.OnFrame Instructions.roll Instructions.roll Eq :=
  (popIndex _).seqEq fun n => branch (fun _ => (remove n).seq fun _ _ hx => push hx) fun _ => returns rfl

/-- Moving the third item to the top. -/
theorem rot : M.OnFrame Instructions.rot Instructions.rot Eq := (remove 2).seq fun _ _ hx => push hx

/-- Swapping the two top items. -/
theorem swap : M.OnFrame Instructions.swap Instructions.swap Eq := (remove 1).seq fun _ _ hx => push hx

/-- Inserting a copy of the top below the second item. -/
theorem tuck : M.OnFrame Instructions.tuck Instructions.tuck Eq := (peek 0).seq fun _ _ hx => insert 2 hx

/-! ### Jumps and operands of calls -/

/-- Resolving a target: what lies inside of the first script lies inside of the second one. -/
theorem readTarget (origin : Nat) : M.OnFrame (Instructions.readTarget origin) (Instructions.readTarget origin) Eq := by
  refine readInt16.seqEq fun offset => reads fun f g h => ?_
  by_cases hout : (decide ((origin : Int) + offset < 0) || decide ((f.script.length : Int) < origin + offset)) = true
  · rw [if_pos hout]
    refine fails_of fun hfaults => ?_
    rw [length_eq hfaults h.script, if_pos hout]
  · have hle := length_le h.script
    rw [if_neg hout, if_neg]
    · exact returns rfl
    · simp only [Bool.or_eq_true, decide_eq_true_eq, not_or, Int.not_lt] at hout ⊢
      omega

/-- Jumps. -/
theorem jump (i : Instruction) : M.OnFrame (Instructions.jump i) (Instructions.jump i) Eq := by
  unfold Instructions.jump
  refine (readTarget i.position).seqEq fun target => ?_
  have taken : ∀ b : Bool, M.OnFrame (if b = true then Frame.setCursor target else pure ())
      (if b = true then Frame.setCursor target else pure ()) Eq :=
    fun b => branch (fun _ => setCursor target) fun _ => returns rfl
  dsimp only
  split
  · exact pop.seq fun x y hx => (returns hx.truth.symm).seqEq taken
  · exact pop.seq fun x y hx => (returns (congrArg (!·) hx.truth.symm)).seqEq taken
  · exact (returns rfl).seqEq taken

/-- Popping a hash. -/
theorem popHash : M.OnFrame Instructions.popHash Instructions.popHash Eq :=
  popBytes.seqEq fun _ => guarded (returns rfl)

/-- Popping a key. -/
theorem popKey : M.OnFrame Instructions.popKey Instructions.popKey M.SameItem := by
  refine pop.seq fun x y hx => ?_
  rw [hx.isCompound, hx.kind]
  exact guarded (returns hx)

end Matching

end ScriptMachine
