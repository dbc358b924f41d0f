import Mathlib.Data.List.Rotate
import ScriptMachine.Proofs.CodeRuns
import ScriptMachine.Proofs.Numbers

/-! # Rearranged stacks

An indexed instruction pops an index and rearranges the stack below it: it copies or moves the item at the index to
the top, takes it out, swaps it with the top, or puts a copy of the top at the index. All other items keep their
order. The instructions without an index are the indexed ones at a small index. Since nothing else is done, swapping
twice and rolling through all items down to the index give the stack back.

* `Rearranged`, `TooShallow`: what the indexed instructions make of a stack, and when they cannot.
* `Instructions.afterIndex`: what is left of an indexed instruction when its index was popped, with
  `Instructions.afterIndex_rearranges` and `Instructions.afterIndex_faults`.
* `OpCode.Specialises`, `Engine.perform_indexed`, `Engine.perform_specialised`: opcodes.
* `Engine.repeated_xswap`, `Engine.repeated_roll`: repeated instructions.
* `Engine.step_indexed`, `Engine.shuffles_permute`: steps, and all together.
-/

namespace ScriptMachine

/-! ## The meaning of the indexed instructions -/

/-- The instructions that pop an index. -/
def OpCode.Indexed (op : OpCode) : Prop := op ∈ [pick, roll, xdrop, xswap, xtuck]

/-- There are five of them. -/
theorem OpCode.indexed_iff {op : OpCode} :
    op.Indexed ↔ op = .pick ∨ op = .roll ∨ op = .xdrop ∨ op = .xswap ∨ op = .xtuck := by
  simp [Indexed]

/-- **What an indexed instruction makes of the stack below its index**, which is the number of items above the one at
the index. -/
inductive Rearranged : OpCode → Nat → Stack → Stack → Prop
  /-- A copy of the item at the index is put on top. -/
  | pick (above : Stack) (x : Item) (below : Stack) :
    Rearranged .pick above.length (above ++ x :: below) (x :: (above ++ x :: below))
  /-- The item at the index is moved to the top. -/
  | roll (above : Stack) (x : Item) (below : Stack) :
    Rearranged .roll above.length (above ++ x :: below) (x :: (above ++ below))
  /-- The top is there already, if there is one. -/
  | rollTop (s : Stack) : Rearranged .roll 0 s s
  /-- The item at the index is taken out. -/
  | xdrop (above : Stack) (x : Item) (below : Stack) :
    Rearranged .xdrop above.length (above ++ x :: below) (above ++ below)
  /-- The item at the index changes places with the top. -/
  | xswap (top : Item) (between : Stack) (x : Item) (below : Stack) :
    Rearranged .xswap (between.length + 1) (top :: (between ++ x :: below)) (x :: (between ++ top :: below))
  /-- The top changes places with itself, if there is one. -/
  | xswapTop (s : Stack) : Rearranged .xswap 0 s s
  /-- A copy of the top is put in, so that it stands at the index. -/
  | xtuck (top : Item) (above below : Stack) :
    Rearranged .xtuck (above.length + 1) (top :: (above ++ below)) (top :: (above ++ top :: below))

/-- The stack below the index has too few items for the instruction; an index of zero is never enough to tuck. -/
def TooShallow (op : OpCode) (n depth : Nat) : Prop :=
  match op with
  | .pick | .xdrop => depth ≤ n
  | .roll | .xswap => 0 < n ∧ depth ≤ n
  | .xtuck => n = 0 ∨ depth = 0 ∨ depth < n
  | _ => False

/-- A stack that is deeper than an index has an item there. -/
theorem exists_at_index {s : Stack} {n : Nat} (hn : n < s.length) :
    ∃ above x below, s = above ++ x :: below ∧ above.length = n :=
  ⟨s.take n, s[n], s.drop (n + 1), by rw [List.cons_getElem_drop_succ, List.take_append_drop],
    List.length_take_of_le hn.le⟩

/-- **A stack that is deep enough is rearranged.** -/
theorem exists_rearranged {op : OpCode} (hop : op.Indexed) {n : Nat} {s : Stack} (hdeep : ¬ TooShallow op n s.length) :
    ∃ s', Rearranged op n s s' := by
  rcases OpCode.indexed_iff.1 hop with rfl | rfl | rfl | rfl | rfl
  · obtain ⟨above, x, below, rfl, rfl⟩ := exists_at_index (Nat.lt_of_not_le hdeep)
    exact ⟨_, .pick above x below⟩
  · obtain rfl | hn := Nat.eq_zero_or_pos n
    · exact ⟨s, .rollTop s⟩
    · obtain ⟨above, x, below, rfl, rfl⟩ := exists_at_index (Nat.lt_of_not_le fun hle => hdeep ⟨hn, hle⟩)
      exact ⟨_, .roll above x below⟩
  · obtain ⟨above, x, below, rfl, rfl⟩ := exists_at_index (Nat.lt_of_not_le hdeep)
    exact ⟨_, .xdrop above x below⟩
  · obtain rfl | hn := Nat.eq_zero_or_pos n
    · exact ⟨s, .xswapTop s⟩
    · obtain ⟨above, x, below, rfl, rfl⟩ := exists_at_index (Nat.lt_of_not_le fun hle => hdeep ⟨hn, hle⟩)
      obtain _ | ⟨top, between⟩ := above
      · cases hn
      · exact ⟨_, .xswap top between x below⟩
  · simp only [TooShallow, not_or, Nat.not_lt] at hdeep
    obtain ⟨hn, hnonempty, hle⟩ := hdeep
    obtain _ | ⟨top, rest⟩ := s
    · exact absurd rfl hnonempty
    · obtain ⟨m, rfl⟩ := Nat.exists_eq_succ_of_ne_zero hn
      have hm : m ≤ rest.length := Nat.le_of_succ_le_succ hle
      have htuck := Rearranged.xtuck top (rest.take m) (rest.drop m)
      rw [List.length_take_of_le hm, List.take_append_drop] at htuck
      exact ⟨_, htuck⟩

/-! ## Positions of the evaluation stack -/

/-- An item is inserted between the items above its position and those below. -/
theorem Stack.insertIdx_length_append (above below : Stack) (y : Item) :
    (above ++ below).insertIdx above.length y = above ++ y :: below := by
  induction above with
  | nil => rfl
  | cons x above ih => exact congrArg (x :: ·) ih

namespace Frame

variable {f : Frame} {below : Stack} {x : Item} {n : Nat}

/-- The item at a position. -/
theorem run_peek_at (above : Stack) (heval : f.eval = above ++ x :: below) : (peek above.length).run f = (.ok x, f) := by
  rw [peek, run_get_seq, heval, Stack.peek, List.getElem?_append_right (Nat.le_refl _), Nat.sub_self]
  rfl

/-- A stack that is not deeper than a position has no item there. -/
theorem run_peek_short (hn : f.eval.length ≤ n) : (peek n).run f = (.error (.underflow (n + 1) f.eval.length), f) := by
  rw [peek, run_get_seq, Stack.peek, List.getElem?_eq_none hn]
  rfl

/-- Taking out the item at a position. -/
theorem run_remove_at (above : Stack) (heval : f.eval = above ++ x :: below) :
    (remove above.length).run f = (.ok x, { f with eval := above ++ below }) := by
  rw [remove, run_get_seq, heval, Stack.remove, List.getElem?_append_right (Nat.le_refl _), Nat.sub_self,
    List.eraseIdx_append_of_length_le (Nat.le_refl _), Nat.sub_self]
  rfl

/-- A stack that is not deeper than a position has no item to take out. -/
theorem run_remove_short (hn : f.eval.length ≤ n) :
    (remove n).run f = (.error (.underflow (n + 1) f.eval.length), f) := by
  rw [remove, run_get_seq, Stack.remove, List.getElem?_eq_none hn]
  rfl

/-- Replacing the item at a position. -/
theorem run_replace_at (above : Stack) (heval : f.eval = above ++ x :: below) (y : Item) :
    (replace above.length y).run f = (.ok (), { f with eval := above ++ y :: below }) := by
  rw [replace, run_get_seq, heval, Stack.set, if_pos (by simp), List.set_append_right _ _ (Nat.le_refl _), Nat.sub_self]
  rfl

/-- Inserting an item at a position. -/
theorem run_insert_at (above : Stack) (heval : f.eval = above ++ below) (y : Item) :
    (insert above.length y).run f = (.ok (), { f with eval := above ++ y :: below }) := by
  rw [insert, run_get_seq, heval, Stack.insert, if_pos (by simp), Stack.insertIdx_length_append]
  rfl

/-- A stack that is less deep than a position has no place for an item there. -/
theorem run_insert_short (hn : f.eval.length < n) (y : Item) :
    (insert n y).run f = (.error (.underflow n f.eval.length), f) := by
  rw [insert, run_get_seq, Stack.insert, if_neg (Nat.not_le.2 hn)]
  rfl

end Frame

/-! ## Instructions -/

namespace Instructions

variable {f : Frame} {op : OpCode} {n : Nat} {s s' : Stack} {x : Item}

/-- The behaviour of an indexed instruction. -/
def indexed : OpCode → FrameM Unit
  | .pick => pick
  | .roll => roll
  | .xdrop => xdrop
  | .xswap => xswap
  | .xtuck => xtuck
  | _ => pure ()

/-- What an indexed instruction does when its index was popped. -/
def afterIndex (n : Nat) : OpCode → FrameM Unit
  | .pick => do
    Frame.push (← Frame.peek n)
  | .roll => do
    if n != 0 then
      Frame.push (← Frame.remove n)
  | .xdrop => do
    let _ ← Frame.remove n
  | .xswap => do
    if n != 0 then
      let deep ← Frame.peek n
      let top ← Frame.peek 0
      Frame.replace n top
      Frame.replace 0 deep
  | .xtuck => do
    if n = 0 then throw (.tuckIndex 0)
    let top ← Frame.peek 0
    Frame.insert n top
  | _ => pure ()

/-- **An indexed instruction pops its index** and goes on with the stack below. -/
theorem run_indexed (hop : op.Indexed) (hx : x.int32 = .ok (n : Int)) (heval : f.eval = x :: s) :
    (indexed op).run f = (afterIndex n op).run { f with eval := s } := by
  rcases OpCode.indexed_iff.1 hop with rfl | rfl | rfl | rfl | rfl
  · rw [indexed, pick, run_seq_of_ok (Frame.run_popIndex _ heval hx)]
    rfl
  · rw [indexed, roll, run_seq_of_ok (Frame.run_popIndex _ heval hx)]
    rfl
  · rw [indexed, xdrop, run_seq_of_ok (Frame.run_popIndex _ heval hx)]
    rfl
  · rw [indexed, xswap, run_seq_of_ok (Frame.run_popIndex _ heval hx)]
    rfl
  · -- This one pops a number and refuses what is no index by itself.
    have hint : Frame.popInt32.run f = (.ok (n : Int), { f with eval := s }) := by
      rw [Frame.popInt32, run_seq_of_ok (Frame.run_pop_cons heval), hx]
      rfl
    rw [indexed, xtuck, run_seq_of_ok hint, afterIndex]
    obtain rfl | hn := Nat.eq_zero_or_pos n
    · rfl
    · rw [if_neg (by omega), if_neg (by omega)]
      rfl

/-- **Below its index, an indexed instruction rearranges the stack.** -/
theorem afterIndex_rearranges (h : Rearranged op n s s') (heval : f.eval = s) :
    (afterIndex n op).run f = (.ok (), { f with eval := s' }) := by
  cases h with
  | pick above x below =>
    rw [afterIndex, run_seq_of_ok (Frame.run_peek_at _ heval), ← heval]
    rfl
  | roll above x below =>
    obtain _ | ⟨top, above⟩ := above
    · rw [← show f.eval = x :: ([] ++ below) from heval]
      rfl
    · rw [afterIndex, if_pos (by rfl), run_seq_of_ok (Frame.run_remove_at _ heval)]
      rfl
  | rollTop =>
    rw [← heval]
    rfl
  | xdrop above x below =>
    rw [afterIndex, run_seq_of_ok (Frame.run_remove_at _ heval)]
    rfl
  | xswap top between x below =>
    have hpeek := Frame.run_peek_at (top :: between) heval
    have htop := Frame.run_peek_at [] heval
    have hreplace := Frame.run_replace_at (top :: between) heval top
    have hfirst : (Frame.replace 0 x).run { f with eval := top :: between ++ top :: below } =
        (.ok (), { f with eval := x :: (between ++ top :: below) }) :=
      Frame.run_replace_at [] rfl x
    rw [List.length_cons] at hpeek hreplace
    rw [List.length_nil] at htop
    rw [afterIndex, if_pos (by rfl), run_seq_of_ok hpeek, run_seq_of_ok htop, run_seq_of_ok hreplace, hfirst]
  | xswapTop =>
    rw [← heval]
    rfl
  | xtuck top above below =>
    have htop := Frame.run_peek_at [] heval
    have hinsert := Frame.run_insert_at (top :: above) heval top
    rw [afterIndex, if_neg (Nat.succ_ne_zero _)]
    exact (run_seq_of_ok htop).trans hinsert

/-- There is one way to rearrange a stack. -/
theorem rearranged_unique {s'' : Stack} (h : Rearranged op n s s') (h' : Rearranged op n s s'') : s' = s'' := by
  have hrun := afterIndex_rearranges (f := { script := default, eval := s }) h rfl
  have hrun' := afterIndex_rearranges (f := { script := default, eval := s }) h' rfl
  exact congrArg (·.2.eval) (hrun.symm.trans hrun')

/-- **Below its index, an indexed instruction faults on a stack that is too shallow** and leaves it as it is. -/
theorem afterIndex_faults (h : TooShallow op n f.eval.length) :
    ∃ fault, (afterIndex n op).run f = (.error fault, f) := by
  unfold TooShallow at h
  split at h
  · rw [afterIndex, run_seq, Frame.run_peek_short h]
    exact ⟨_, rfl⟩
  · rw [afterIndex, run_seq, Frame.run_remove_short h]
    exact ⟨_, rfl⟩
  · rw [afterIndex, if_pos (by simpa using h.1.ne'), run_seq, Frame.run_remove_short h.2]
    exact ⟨_, rfl⟩
  · rw [afterIndex, if_pos (by simpa using h.1.ne'), run_seq, Frame.run_peek_short h.2]
    exact ⟨_, rfl⟩
  · obtain rfl | hn := Nat.eq_zero_or_pos n
    · exact ⟨_, rfl⟩
    -- An empty stack has no top to copy; in any other one the copy has to find its place.
    rw [afterIndex, if_neg hn.ne']
    by_cases hempty : f.eval.length = 0
    · have htop := Frame.run_peek_short (Nat.le_of_eq hempty)
      refine ⟨.underflow 1 f.eval.length, ?_⟩
      show (Frame.peek 0 >>= Frame.insert n).run f = _
      rw [run_seq, htop]
    · obtain ⟨top, rest, heval⟩ := List.exists_cons_of_ne_nil (fun hnil => hempty (List.length_eq_zero_iff.2 hnil))
      have hlt := (h.resolve_left hn.ne').resolve_left hempty
      have htop := Frame.run_peek_at [] heval
      exact ⟨_, (run_seq_of_ok htop).trans (Frame.run_insert_short hlt top)⟩
  · exact h.elim

end Instructions

/-! ## Opcodes -/

/-- The instructions without an index, each with an indexed one and the index at which that does the same. -/
inductive OpCode.Specialises : OpCode → OpCode → Nat → Prop
  /-- A copy of the top. -/
  | dup : Specialises .dup .pick 0
  /-- A copy of the second item. -/
  | copySecond : Specialises .over .pick 1
  /-- The second item moves to the top. -/
  | swap : Specialises .swap .roll 1
  /-- The second item changes places with the top. -/
  | exchange : Specialises .swap .xswap 1
  /-- The third item moves to the top. -/
  | rot : Specialises .rot .roll 2
  /-- The top is taken out. -/
  | drop : Specialises .drop .xdrop 0
  /-- The second item is taken out. -/
  | nip : Specialises .nip .xdrop 1
  /-- A copy of the top stands below the second item. -/
  | tuck : Specialises .tuck .xtuck 2

/-- What has a special case is indexed. -/
theorem OpCode.Specialises.indexed {fixed op : OpCode} {n : Nat} (h : Specialises fixed op n) : op.Indexed := by
  cases h <;> simp [Indexed]

/-- An item whose number is an index of 32 bits is read as this index. -/
theorem Item.int32_of_number {x : Item} {n : Nat} (hx : x.Canonical) (hnumber : x.number? = some (n : Int))
    (hn : n < 2 ^ 31) : x.int32 = .ok (n : Int) := by
  have hrange : -2 ^ 31 ≤ (n : Int) ∧ (n : Int) < 2 ^ 31 := by omega
  refine int32_of_number32 hx ?_
  rw [number32?, hnumber, Option.bind_eq_bind, Option.bind_some, if_pos hrange]

namespace Engine

open Instructions

variable {op fixed : OpCode} {n : Nat} {x : Item} {s s' : Stack} {f : Frame}
  (nested : Engine → Engine) (i : Instruction) (e : Engine) (h : Heap)

/-- An indexed opcode works on the innermost frame. -/
theorem perform_eq_onFrame (hop : op.Indexed) : perform nested op i = onFrame (indexed op) := by
  rcases OpCode.indexed_iff.1 hop with rfl | rfl | rfl | rfl | rfl <;> rfl

/-- **An indexed opcode** does what is left of it when its index was popped. -/
theorem perform_indexed (hop : op.Indexed) (hx : x.int32 = .ok (n : Int)) (heval : f.eval = x :: s) :
    (perform nested op i).run (e.resume h f) =
      (((afterIndex n op).run { f with eval := s }).1,
        e.resume h ((afterIndex n op).run { f with eval := s }).2) := by
  rw [perform_eq_onFrame nested i hop, run_onFrame_resume, run_indexed hop hx heval]

/-- **An opcode without an index** does what the indexed one does after its index. -/
theorem perform_specialised (hfixed : OpCode.Specialises fixed op n) :
    (perform nested fixed i).run (e.resume h f) =
      (((afterIndex n op).run f).1, e.resume h ((afterIndex n op).run f).2) := by
  cases hfixed with
  | dup | copySecond | swap | rot | nip | tuck => exact run_onFrame_resume _ e
  | exchange =>
    have hswap : swap.run f = (afterIndex 1 .xswap).run f := by
      obtain ⟨_, _, _, _ | ⟨top, _ | ⟨second, rest⟩⟩, _⟩ := f <;> rfl
    rw [← hswap]
    exact run_onFrame_resume _ e
  | drop =>
    have hdrop : drop.run f = (afterIndex 0 .xdrop).run f := by
      obtain ⟨_, _, _, _ | ⟨top, rest⟩, _⟩ := f <;> rfl
    rw [← hdrop]
    exact run_onFrame_resume _ e

/-! ### Repeated instructions -/

/-- Pushes an item and carries out an opcode, so many times. -/
def repeated (op : OpCode) (x : Item) : Nat → Run Unit
  | 0 => pure ()
  | k + 1 => do
    onFrame (Frame.push x)
    perform nested op i
    repeated op x k

/-- **One more time.** -/
theorem repeated_succ (hop : op.Indexed) (hx : x.int32 = .ok (n : Int)) (hs : Rearranged op n s s') (heval : f.eval = s)
    (k : Nat) : (repeated nested i op x (k + 1)).run (e.resume h f) =
      (repeated nested i op x k).run (e.resume h { f with eval := s' }) := by
  have hpush : (onFrame (Frame.push x)).run (e.resume h f) =
      (.ok (), e.resume h { f with eval := x :: f.eval }) := run_onFrame_resume _ e
  have hperform := perform_indexed (f := { f with eval := x :: f.eval }) nested i e h hop hx rfl
  rw [afterIndex_rearranges hs heval] at hperform
  rw [repeated, run_seq_of_ok hpush, run_seq_of_ok hperform]

/-- **Items change places twice.** -/
theorem repeated_xswap (hx : x.int32 = .ok (n : Int)) (hn : n < f.eval.length) :
    (repeated nested i .xswap x 2).run (e.resume h f) = (.ok (), e.resume h f) := by
  have hop : OpCode.xswap.Indexed := by simp [OpCode.Indexed]
  have hback : ∃ s', Rearranged .xswap n f.eval s' ∧ Rearranged .xswap n s' f.eval := by
    obtain ⟨s', hs'⟩ := exists_rearranged hop (fun hshallow => absurd hn (Nat.not_lt.2 hshallow.2))
    refine ⟨s', hs', ?_⟩
    generalize f.eval = s at hs'
    cases hs' with
    | xswap top between y below => exact .xswap y between top below
    | xswapTop => exact .xswapTop _
  obtain ⟨s', hthere, hback⟩ := hback
  rw [repeated_succ nested i e h hop hx hthere rfl, repeated_succ nested i e h hop hx hback rfl]
  rfl

/-- Rolling turns the items down to the index. -/
theorem rearranged_roll (b below : Stack) (hb : b.length = n + 1) :
    Rearranged .roll n (b ++ below) (b.rotate n ++ below) := by
  -- The item at the index is the last one of those that turn.
  obtain ⟨above, y, rest, rfl, rfl⟩ := exists_at_index (s := b) (n := n) (by omega)
  obtain rfl : rest = [] := by
    rw [List.length_append, List.length_cons] at hb
    exact List.length_eq_zero_iff.1 (by omega)
  rw [List.rotate_append_length_eq, List.append_assoc]
  exact .roll above y below

/-- **Rolling several times** turns the items down to the index as often. -/
theorem repeated_roll_rotate (hx : x.int32 = .ok (n : Int)) {b below : Stack} (hb : b.length = n + 1)
    (heval : f.eval = b ++ below) (k : Nat) :
    (repeated nested i .roll x k).run (e.resume h f) =
      (.ok (), e.resume h { f with eval := b.rotate (n * k) ++ below }) := by
  induction k generalizing b f with
  | zero =>
    rw [Nat.mul_zero, List.rotate_zero, ← heval]
    rfl
  | succ k ih =>
    have hop : OpCode.roll.Indexed := by simp [OpCode.Indexed]
    have hcount : n + n * k = n * (k + 1) := by rw [Nat.mul_succ, Nat.add_comm]
    rw [repeated_succ nested i e h hop hx (rearranged_roll b below hb) heval,
      ih ((List.length_rotate ..).trans hb) rfl, List.rotate_rotate, hcount]

/-- **All items down to the index are rolled through.** -/
theorem repeated_roll (hx : x.int32 = .ok (n : Int)) (hn : n < f.eval.length) :
    (repeated nested i .roll x (n + 1)).run (e.resume h f) = (.ok (), e.resume h f) := by
  have hb : (f.eval.take (n + 1)).length = n + 1 := List.length_take_of_le hn
  have hround : (f.eval.take (n + 1)).rotate (n * (n + 1)) = f.eval.take (n + 1) := by
    have hturns := List.rotate_length_mul (f.eval.take (n + 1)) n
    rwa [hb, Nat.mul_comm] at hturns
  rw [repeated_roll_rotate nested i e h hx hb (List.take_append_drop ..).symm, hround, List.take_append_drop]

/-- The top item goes to the alternative stack and comes back. -/
theorem fromAltStack_toAltStack (i' : Instruction) (hnonempty : f.eval ≠ []) :
    (do
      perform nested .toAltStack i
      perform nested .fromAltStack i' : Run Unit).run (e.resume h f) = (.ok (), e.resume h f) := by
  obtain ⟨y, rest, heval⟩ := List.exists_cons_of_ne_nil hnonempty
  have hto : (perform nested .toAltStack i).run (e.resume h f) =
      (.ok (), e.resume h { f with eval := rest, alt := y :: f.alt }) := by
    have hframe : toAltStack.run f = (.ok (), { f with eval := rest, alt := y :: f.alt }) := by
      rw [toAltStack, run_seq_of_ok (Frame.run_pop_cons heval)]
      rfl
    refine (run_onFrame_resume _ e).trans ?_
    rw [hframe]
  have hfrom : (perform nested .fromAltStack i').run (e.resume h { f with eval := rest, alt := y :: f.alt }) =
      (.ok (), e.resume h { f with eval := y :: rest }) := run_onFrame_resume _ e
  rw [run_seq_of_ok hto, hfrom, ← heval]

/-! ### Steps -/

/-- The machine stands at an opcode that has its standard behaviour, and has paid for it. -/
structure PaidAt (e : Engine) (op : OpCode) (f : Frame) (outer : List Frame) (paid : State) : Prop where
  /-- The opcode behaves as it does by default. -/
  table : e.table op = .standard op
  /-- The machine runs. -/
  running : e.status = .running
  /-- The frames. -/
  frames : e.state.frames = f :: outer
  /-- The opcode at the cursor. -/
  fetch : fetch f = .ok op
  /-- The state after paying. -/
  paid : e.state.consumeGas (e.state.price op) = (true, paid)

/-- **A step at an indexed opcode** faults if the stack below the index is too shallow; else it rearranges that stack,
and the machine goes on if it has not too many items. -/
theorem step_indexed {outer : List Frame} {paid : State} {e : Engine} (hop : op.Indexed) (hx : x.int32 = .ok (n : Int))
    (hat : e.PaidAt op f outer paid) (heval : f.eval = x :: s) :
    (TooShallow op n s.length → e.step.status = .faulted) ∧
    (¬ TooShallow op n s.length → ∃ s' t, Rearranged op n s s' ∧
      t = paid.setFrames ({ f.advance with eval := s' } :: outer) ∧ e.step = { e with state := settle t } ∧
      (t.itemCount ≤ t.limits.maxStackSize → e.step.status = .running)) := by
  have hstep := step_onFrameWithin (m := fun _ => indexed op) (fun nested i => perform_eq_onFrame nested i hop)
    hat.table hat.running hat.frames hat.fetch hat.paid
  have hrunning : e.state.session.status = .running := hat.running
  obtain ⟨total, rfl⟩ := State.eq_of_paid hat.paid
  rw [run_indexed (f := f.advance) hop hx heval] at hstep
  refine ⟨fun hshallow => ?_, fun hdeep => ?_⟩
  · obtain ⟨fault, hfault⟩ := afterIndex_faults (f := { f.advance with eval := s }) hshallow
    rw [hstep, hfault]
    exact (fail_status _ fault).trans (if_pos hrunning)
  · obtain ⟨s', hs'⟩ := exists_rearranged hop hdeep
    rw [afterIndex_rearranges hs' rfl] at hstep
    refine ⟨s', _, hs', rfl, hstep, fun hroom => ?_⟩
    rw [hstep]
    dsimp only
    rw [settle_eq (by exact hrunning) (by exact List.cons_ne_nil _ _) hroom]
    exact hrunning

/-- **Shuffles are permutations.** For an index on top of the stack, a step at an indexed opcode faults if the stack
below is too shallow, and else rearranges it. At small indexes the indexed opcodes do the same as those without an
index, faults included. Where the stack is deeper than the index, swapping twice and rolling through all items down to
it change nothing, and so does moving an item to the alternative stack and back. -/
theorem shuffles_permute {n : Nat} {x : Item} (hx : x.Canonical) (hnumber : x.number? = some (n : Int))
    (hn : n < 2 ^ 31) :
    (∀ {op : OpCode} {e : Engine} {f : Frame} {outer : List Frame} {paid : State} {s : Stack}, op.Indexed →
      e.PaidAt op f outer paid → f.eval = x :: s →
      (TooShallow op n s.length → e.step.status = .faulted) ∧
      (¬ TooShallow op n s.length → ∃ s' t, Rearranged op n s s' ∧
        t = paid.setFrames ({ f.advance with eval := s' } :: outer) ∧ e.step = { e with state := settle t } ∧
        (t.itemCount ≤ t.limits.maxStackSize → e.step.status = .running))) ∧
    ∀ (nested : Engine → Engine) (i i' : Instruction) (e : Engine) (h : Heap) (f : Frame),
      (∀ fixed op, OpCode.Specialises fixed op n →
        (perform nested op i).run (e.resume h { f with eval := x :: f.eval }) =
          (perform nested fixed i').run (e.resume h f)) ∧
      (n < f.eval.length →
        (repeated nested i .xswap x 2).run (e.resume h f) = (.ok (), e.resume h f) ∧
        (repeated nested i .roll x (n + 1)).run (e.resume h f) = (.ok (), e.resume h f)) ∧
      (f.eval ≠ [] →
        (do
          perform nested .toAltStack i
          perform nested .fromAltStack i' : Run Unit).run (e.resume h f) = (.ok (), e.resume h f)) := by
  have hindex := Item.int32_of_number hx hnumber hn
  refine ⟨fun hop hat heval => step_indexed hop hindex hat heval, fun nested i i' e h f => ⟨?_, ?_, ?_⟩⟩
  · intro fixed op hfixed
    rw [perform_indexed nested i e h hfixed.indexed hindex rfl, perform_specialised nested i' e h hfixed]
  · exact fun hdeep => ⟨repeated_xswap nested i e h hindex hdeep, repeated_roll nested i e h hindex hdeep⟩
  · exact fromAltStack_toAltStack nested i e h i'

/-- Three items below the index two: the top is tucked in, and the instruction without an index does the same; rolling
three times gives the items back. -/
theorem shuffles_permute_two :
    let digests : CryptoSuite :=
      { sha1 := fun _ => #[], sha256 := fun _ => #[], hash160 := fun _ => #[], hash256 := fun _ => #[]
        verify := fun _ _ _ => false }
    let index : Item := .integer (.small 2)
    let below : Stack := [.boolean true, .integer (.small 5), .bytes 0 #[1]]
    let f : Frame := { script := ⟨#[0x73], #[]⟩, eval := index :: below }
    let e := (Engine.new .default digests).modifyState (·.setFrames [f])
    let paid := (e.state.consumeGas (e.state.price .xtuck)).2
    let g : Frame := { f with eval := below }
    (index.Canonical ∧ index.number? = some 2 ∧ e.PaidAt .xtuck f [] paid ∧ ¬ TooShallow .xtuck 2 below.length) ∧
    e.step = { e with state := settle (paid.setFrames
      [{ f.advance with eval := [.boolean true, .integer (.small 5), .boolean true, .bytes 0 #[1]] }]) } ∧
    e.step.status = .running ∧
    (perform id .xtuck ⟨.xtuck, 0⟩).run (e.resume e.state.heap f) =
      (perform id .tuck ⟨.tuck, 0⟩).run (e.resume e.state.heap g) ∧
    (repeated id ⟨.roll, 0⟩ .roll index 3).run (e.resume e.state.heap g) = (.ok (), e.resume e.state.heap g) := by
  intro digests index below f e paid g
  have hat : e.PaidAt .xtuck f [] paid := ⟨rfl, rfl, rfl, rfl, rfl⟩
  have hdeep : ¬ TooShallow .xtuck 2 below.length := by
    show ¬ (2 = 0 ∨ 3 = 0 ∨ 3 < 2)
    decide
  have hcanonical : index.Canonical := fun h => by cases h
  obtain ⟨hsteps, hlaws⟩ := shuffles_permute hcanonical rfl (by decide : 2 < 2 ^ 31)
  obtain ⟨s', t, hs', rfl, hstep, hgoes⟩ := (hsteps (by simp [OpCode.Indexed]) hat rfl).2 hdeep
  obtain rfl := rearranged_unique hs' (.xtuck (.boolean true) [.integer (.small 5)] [.bytes 0 #[1]])
  refine ⟨⟨hcanonical, rfl, hat, hdeep⟩, hstep, hgoes (by decide), ?_, ?_⟩
  · exact (hlaws id ⟨.xtuck, 0⟩ ⟨.tuck, 0⟩ e e.state.heap g).1 .tuck .xtuck .tuck
  · exact ((hlaws id ⟨.roll, 0⟩ ⟨.roll, 0⟩ e e.state.heap g).2.1 (by decide)).2

end Engine

end ScriptMachine
