import ScriptMachine.Proofs.Integer.ByteRange
import ScriptMachine.Proofs.Integer.Quotients
import ScriptMachine.Proofs.Integer.Order
import ScriptMachine.Proofs.Steps

/-! # Numeric instructions compute numbers

The meaning of a numeric instruction is stated on mathematical integers: `OpCode.operation?` is the table of what
the instructions compute, and `Operation.compute?` says on which items. It has no value where an operand denotes
no number or is too long, a divisor is zero, a shift amount is out of its bounds or a result is out of its range.
Every step of a machine at such an instruction replaces the operands by an item of that value, and faults where
there is none.

* `Item.number?`, `Item.operand?`, `Item.shiftAmount?`: the numbers of operands.
* `OpCode.operation?`, `Operation.compute?`: the meaning of the instructions.
* `Yields`, `Agrees`: a result, or a computation from a state, is what a partial specification says, and a fault
  where that has no value. `Agrees.seq` and `Agrees.guarded` follow the computation.
* `Computes`: an instruction agrees with the meaning of an operation; one lemma for each shape of instruction.
* `Engine.perform_computes`, `Engine.numbers_exact`: all numeric opcodes, and steps.
-/

namespace ScriptMachine

/-! ## The meaning of numeric instructions -/

namespace Item

/-- The number that an item denotes. Handles of the host and containers denote none. -/
def number? : Item → Option Int
  | boolean value => some (if value then 1 else 0)
  | integer value => some value.toInt
  | bytes _ data => some data.toIntLE
  | _ => none

/-- The number of an operand whose byte view has at most `k` bytes. -/
def operand? (k : Nat) (x : Item) : Option Int := do
  let size ← x.byteViewSize.toOption
  if size ≤ k then x.number? else none

/-- The number of an item, whatever its length is, if it is a signed 32-bit number. -/
def number32? (x : Item) : Option Int := do
  let n ← x.number?
  if -2 ^ 31 ≤ n ∧ n < 2 ^ 31 then some n else none

/-- The number of a shift amount, which has 32 bits and is within the bounds of shifts. -/
def shiftAmount? (l : Limits) (x : Item) : Option Int := do
  let s ← x.number32?
  if l.minShift ≤ s ∧ s ≤ l.maxShift then some s else none

/-- Integers on a stack are in their chosen representation, the only one that readings and operations give. -/
def Canonical : Item → Prop
  | integer value => value.Canonical
  | _ => True

end Item

/-- What a numeric instruction leaves in the place of its operands. -/
inductive Value where
  /-- A number. -/
  | number (r : Int)
  /-- A truth value. -/
  | truth (b : Bool)
  deriving DecidableEq

/-- The items that stand for a value. -/
def Value.Shown : Value → Item → Prop
  | number r, x => ∃ v : Integer, x = .integer v ∧ v.Canonical ∧ v.toInt = r
  | truth b, x => x = .boolean b

/-- A number has to fit `k` bytes. -/
def bounded? (k : Nat) (r : Int) : Option Value :=
  if -2 ^ (8 * k - 1) ≤ r ∧ r < 2 ^ (8 * k - 1) then some (.number r) else none

/-- The kinds of numeric instructions, with what they compute. The last operand of each function is the one on
top of the stack. -/
inductive Operation where
  /-- A number from one number. -/
  | one (number : Int → Int)
  /-- A number from two numbers, where there is one. -/
  | two (number : Int → Int → Option Int)
  /-- A number from a number and a shift amount. -/
  | shift (number : Int → Int → Int)
  /-- A check of one number. -/
  | check (truth : Int → Bool)
  /-- A comparison of two numbers. -/
  | comparison (truth : Int → Int → Bool)
  /-- A check of one number against two others. -/
  | range (truth : Int → Int → Int → Bool)

namespace Operation

/-- The number of operands. -/
def arity : Operation → Nat
  | one _ | check _ => 1
  | two _ | shift _ | comparison _ => 2
  | range _ => 3

/-- **The value of an operation** on items from the top of the stack down. Every operand is bounded in its length
but the amount of a shift, and every number that results is bounded in its range. -/
def compute? (l : Limits) : Operation → List Item → Option Value
  | one number, [x] => do
    let a ← x.operand? l.maxBigIntegerSize
    bounded? l.maxBigIntegerSize (number a)
  | two number, [y, x] => do
    let b ← y.operand? l.maxBigIntegerSize
    let a ← x.operand? l.maxBigIntegerSize
    let r ← number a b
    bounded? l.maxBigIntegerSize r
  | shift number, [y, x] => do
    let s ← y.shiftAmount? l
    let a ← x.operand? l.maxBigIntegerSize
    bounded? l.maxBigIntegerSize (number a s)
  | check truth, [x] => do
    let a ← x.operand? l.maxBigIntegerSize
    some (.truth (truth a))
  | comparison truth, [y, x] => do
    let b ← y.operand? l.maxBigIntegerSize
    let a ← x.operand? l.maxBigIntegerSize
    some (.truth (truth a b))
  | range truth, [z, y, x] => do
    let b ← z.operand? l.maxBigIntegerSize
    let a ← y.operand? l.maxBigIntegerSize
    let n ← x.operand? l.maxBigIntegerSize
    some (.truth (truth n a b))
  | _, _ => none

end Operation

/-- `a * 2 ^ s`, rounded down. -/
def scaled (a s : Int) : Int := if 0 ≤ s then a * 2 ^ s.toNat else a / 2 ^ (-s).toNat

/-- **The numeric instructions.** -/
def OpCode.operation? : OpCode → Option Operation
  | inc => some (.one fun a => a + 1)
  | dec => some (.one fun a => a - 1)
  | sign => some (.one fun a => a.sign)
  | negate => some (.one fun a => -a)
  | abs => some (.one fun a => |a|)
  | invert => some (.one fun a => a.lnot)
  | add => some (.two fun a b => some (a + b))
  | sub => some (.two fun a b => some (a - b))
  | mul => some (.two fun a b => some (a * b))
  | div => some (.two fun a b => if b = 0 then none else some (a.tdiv b))
  | mod => some (.two fun a b => if b = 0 then none else some (a.tmod b))
  | min => some (.two fun a b => some (Min.min a b))
  | max => some (.two fun a b => some (Max.max a b))
  | and => some (.two fun a b => some (a.land b))
  | or => some (.two fun a b => some (a.lor b))
  | xor => some (.two fun a b => some (a.xor b))
  | shl => some (.shift fun a s => scaled a s)
  | shr => some (.shift fun a s => scaled a (-s))
  | nz => some (.check fun a => a ≠ 0)
  | numEqual => some (.comparison fun a b => a = b)
  | numNotEqual => some (.comparison fun a b => a ≠ b)
  | lt => some (.comparison fun a b => a < b)
  | gt => some (.comparison fun a b => a > b)
  | lte => some (.comparison fun a b => a ≤ b)
  | gte => some (.comparison fun a b => a ≥ b)
  | within => some (.range fun x a b => a ≤ x ∧ x < b)
  | _ => none

/-! ## Computations and partial specifications -/

section

variable {σ α β γ δ : Type}

/-- The result is what the specification says, up to `rel`, and a fault where that has no value. -/
def Yields (r : Except Fault α) (spec : Option β) (rel : β → α → Prop) : Prop :=
  match spec with
  | some b => ∃ a, r = .ok a ∧ rel b a
  | none => ∃ fault, r = .error fault

/-- From the state `s` the computation returns what the specification says, up to `rel`, and faults where the
specification has no value. -/
def Agrees (s : σ) (m : ExceptT Fault (StateM σ) α) (spec : Option β) (rel : β → α → σ → Prop) : Prop :=
  match spec with
  | some b => ∃ a t, m.run s = (.ok a, t) ∧ rel b a t
  | none => ∃ fault t, m.run s = (.error fault, t)

/-- A result is its own specification. -/
theorem Yields.self (r : Except Fault α) : Yields r r.toOption (fun b a => a = b) := by
  cases r with
  | error fault => exact ⟨fault, rfl⟩
  | ok a => exact ⟨a, rfl, rfl⟩

/-- A result that was returned is what the specification says. -/
theorem Yields.of_ok {a : α} {spec : Option β} {rel : β → α → Prop} (h : Yields (.ok a) spec rel) :
    ∃ b, spec = some b ∧ rel b a := by
  cases spec with
  | none =>
    obtain ⟨fault, hfault⟩ := h
    cases hfault
  | some b =>
    obtain ⟨_, ⟨⟩, hrel⟩ := h
    exact ⟨b, rfl, hrel⟩

namespace Agrees

variable {s : σ} {rel : β → α → σ → Prop}

theorem returned {m : ExceptT Fault (StateM σ) α} {a : α} {b : β} {t : σ} (hrun : m.run s = (.ok a, t))
    (hrel : rel b a t) : Agrees s m (some b) rel := ⟨a, t, hrun, hrel⟩

theorem faulted {m : ExceptT Fault (StateM σ) α} {fault : Fault} {t : σ} (hrun : m.run s = (.error fault, t)) :
    Agrees s m none rel := ⟨fault, t, hrun⟩

/-- A result that was computed beforehand. -/
theorem result {r : Except Fault α} {spec : Option β} {rel : β → α → Prop} (h : Yields r spec rel) :
    Agrees s (MonadExcept.ofExcept r) spec (fun b a t => rel b a ∧ t = s) := by
  cases spec with
  | none =>
    obtain ⟨fault, rfl⟩ := h
    exact faulted rfl
  | some b =>
    obtain ⟨a, rfl, hrel⟩ := h
    exact returned rfl ⟨hrel, rfl⟩

/-- A guard, whose condition is the other way round in the specification. -/
theorem guarded {c d : Prop} [Decidable c] [Decidable d] {fault : Fault}
    {k : Unit → ExceptT Fault (StateM σ) α} {spec : Option β} (hcd : c ↔ ¬ d)
    (hk : Agrees s (k ()) spec rel) :
    Agrees s (if c then throw fault >>= k else k ()) (if d then spec else none) rel := by
  by_cases hd : d
  · rw [if_pos hd, if_neg fun hc => hcd.1 hc hd]
    exact hk
  · rw [if_neg hd, if_pos (hcd.2 hd)]
    exact faulted rfl

/-- A sequence agrees with a sequence of specifications. -/
theorem seq {m : ExceptT Fault (StateM σ) α} {k : α → ExceptT Fault (StateM σ) γ} {spec : Option β}
    {next : β → Option δ} {rel' : δ → γ → σ → Prop} (hm : Agrees s m spec rel)
    (hk : ∀ b a t, rel b a t → Agrees t (k a) (next b) rel') : Agrees s (m >>= k) (spec.bind next) rel' := by
  cases spec with
  | none =>
    obtain ⟨fault, t, hrun⟩ := hm
    refine ⟨fault, t, ?_⟩
    rw [run_seq, hrun]
  | some b =>
    obtain ⟨a, t, hrun, hrel⟩ := hm
    have hnext := hk b a t hrel
    rw [Option.bind_some]
    cases hspec : next b with
    | none =>
      rw [hspec] at hnext
      obtain ⟨fault, u, hrun'⟩ := hnext
      exact ⟨fault, u, by rw [run_seq, hrun]; exact hrun'⟩
    | some d =>
      rw [hspec] at hnext
      obtain ⟨c, u, hrun', hrel'⟩ := hnext
      exact ⟨c, u, by rw [run_seq, hrun]; exact hrun', hrel'⟩

end Agrees

end

/-! ## Operands -/

/-- Truth values are the numbers one and zero. -/
theorem Integer.toInt_ofBool (b : Bool) : (ofBool b).Canonical ∧ (ofBool b).toInt = if b then 1 else 0 := by
  refine ⟨?_, by cases b <;> rfl⟩
  cases b <;> exact fun h => by cases h

/-- **An integer value is the number of its item.** -/
theorem Item.integerValue_yields {x : Item} (hx : x.Canonical) :
    Yields x.integerValue x.number? (fun n v => v.Canonical ∧ v.toInt = n) := by
  cases x with
  | boolean value => exact ⟨_, rfl, Integer.toInt_ofBool value⟩
  | integer value => exact ⟨value, rfl, hx, rfl⟩
  | bytes id data => exact ⟨_, rfl, Integer.canonical_ofBytes data, Integer.toInt_ofBytes data⟩
  | interop id data => exact ⟨_, rfl⟩
  | array id => exact ⟨_, rfl⟩
  | struct id => exact ⟨_, rfl⟩
  | map id => exact ⟨_, rfl⟩

/-- **Narrowing an item** gives its number, if that has at most 32 bits. -/
theorem Item.int32_yields {x : Item} (hx : x.Canonical) :
    Yields x.int32 x.number32? (fun n v => x.number? = some n ∧ v = n) := by
  have hvalue := integerValue_yields hx
  unfold int32 number32?
  cases hnumber : x.number? with
  | none =>
    rw [hnumber] at hvalue
    obtain ⟨fault, hfault⟩ := hvalue
    rw [hfault]
    exact ⟨fault, rfl⟩
  | some n =>
    rw [hnumber] at hvalue
    obtain ⟨v, hv, hcanonical, rfl⟩ := hvalue
    have hnarrow := Integer.toInt32?_eq hcanonical
    rw [hv]
    change Yields _ (if -2 ^ 31 ≤ v.toInt ∧ v.toInt < 2 ^ 31 then some v.toInt else none) _
    dsimp only
    by_cases hrange : -2 ^ 31 ≤ v.toInt ∧ v.toInt < 2 ^ 31
    · rw [if_pos hrange, Option.map_eq_some_iff] at hnarrow
      obtain ⟨w, hw, hint⟩ := hnarrow
      rw [if_pos hrange, hw]
      exact ⟨w.toInt, rfl, rfl, hint⟩
    · rw [if_neg hrange, Option.map_eq_none_iff] at hnarrow
      rw [if_neg hrange, hnarrow]
      exact ⟨_, rfl⟩

/-- An item with a number of 32 bits is read as this number. -/
theorem Item.int32_of_number32 {x : Item} {n : Int} (hx : x.Canonical) (hnumber : x.number32? = some n) :
    x.int32 = .ok n := by
  have hvalue := int32_yields hx
  rw [hnumber] at hvalue
  obtain ⟨v, hv, -, rfl⟩ := hvalue
  exact hv

namespace Instructions

variable {l : Limits} {f : Frame} {x : Item} {below : Stack}

/-- A computation that pops the top item goes on from the stack below it. -/
theorem pop_agrees {α β : Type} {k : Item → FrameM α} {spec : Option β} {rel : β → α → Frame → Prop}
    (heval : f.eval = x :: below) (hk : Agrees { f with eval := below } (k x) spec rel) :
    Agrees f (Frame.pop >>= k) spec rel := by
  have hrun : (Frame.pop >>= k).run f = (k x).run { f with eval := below } := by
    unfold Frame.pop
    rw [run_seq, run_get_seq, heval]
    rfl
  unfold Agrees
  rw [hrun]
  exact hk

/-- The integer `v` of an operand with the number `n`, which was taken off the stack of `f`. -/
def Popped (f : Frame) (below : Stack) (n : Int) (v : Integer) (g : Frame) : Prop :=
  (v.Canonical ∧ v.toInt = n) ∧ g = { f with eval := below }

/-- **Popped integers are the numbers of operands.** -/
theorem popInteger_agrees (heval : f.eval = x :: below) (hx : x.Canonical) :
    Agrees f (popInteger l) (x.operand? l.maxBigIntegerSize) (Popped f below) := by
  refine pop_agrees heval ((Agrees.result (Yields.self _)).seq ?_)
  rintro _ size g ⟨rfl, rfl⟩
  exact Agrees.guarded Nat.not_le.symm (Agrees.result (Item.integerValue_yields hx))

/-- The value stands on the stack of `f` in the place of its operands. -/
def Replaced (f : Frame) (below : Stack) (value : Value) (_ : Unit) (g : Frame) : Prop :=
  ∃ y, value.Shown y ∧ g = { f with eval := y :: below }

/-- **Pushed integers fit their range.** -/
theorem pushInteger_agrees {v : Integer} (hk : 1 ≤ l.maxBigIntegerSize) (hv : v.Canonical) :
    Agrees f (pushInteger l v) (bounded? l.maxBigIntegerSize v.toInt) (Replaced f f.eval) := by
  have hlength := Integer.byteLength_le_iff hv hk
  unfold pushInteger bounded?
  refine Agrees.guarded (Nat.not_le.symm.trans (not_congr hlength)) ?_
  exact .returned rfl ⟨.integer v, ⟨v, rfl, hv, rfl⟩, rfl⟩

/-- Pushing a truth value. -/
theorem pushTruth_agrees (b : Bool) :
    Agrees f (Frame.push (.boolean b)) (some (Value.truth b)) (Replaced f f.eval) :=
  .returned rfl ⟨.boolean b, rfl, rfl⟩

/-! ## Shapes of instructions -/

/-- The operands of an operation stand on top of the stack. A shift amount is not zero. -/
structure Ready (l : Limits) (o : Operation) (items : List Item) (f : Frame) (below : Stack) : Prop where
  /-- There is room for a number. -/
  room : 1 ≤ l.maxBigIntegerSize
  /-- As many items as the operation needs. -/
  count : items.length = o.arity
  /-- They are on top. -/
  eval : f.eval = items ++ below
  /-- They are in their chosen representations. -/
  canonical : ∀ x ∈ items, x.Canonical
  /-- A shift is by an amount other than zero. -/
  shifts : ∀ number, o = .shift number → ∀ x ∈ items.head?, x.number? ≠ some 0

/-- The computation agrees with the meaning of an operation. -/
def Computes (m : Limits → FrameM Unit) (o : Operation) : Prop :=
  ∀ {l items f below}, Ready l o items f below → Agrees f (m l) (o.compute? l items) (Replaced f below)

namespace Ready

variable {o : Operation} {items : List Item}

/-- One operand. -/
theorem one (h : Ready l o items f below) (harity : o.arity = 1) :
    ∃ x, items = [x] ∧ f.eval = x :: below ∧ x.Canonical := by
  obtain ⟨x, rfl⟩ := List.length_eq_one_iff.1 (h.count.trans harity)
  exact ⟨x, rfl, h.eval, h.canonical x (by simp)⟩

/-- Two operands. -/
theorem two (h : Ready l o items f below) (harity : o.arity = 2) :
    ∃ y x, items = [y, x] ∧ f.eval = y :: x :: below ∧ y.Canonical ∧ x.Canonical := by
  match items, h.count.trans harity, h with
  | [y, x], _, h => exact ⟨y, x, rfl, h.eval, h.canonical y (by simp), h.canonical x (by simp)⟩

/-- Three operands. -/
theorem three (h : Ready l o items f below) (harity : o.arity = 3) :
    ∃ z y x, items = [z, y, x] ∧ f.eval = z :: y :: x :: below ∧ z.Canonical ∧ y.Canonical ∧ x.Canonical := by
  match items, h.count.trans harity, h with
  | [z, y, x], _, h =>
    exact ⟨z, y, x, rfl, h.eval, h.canonical z (by simp), h.canonical y (by simp), h.canonical x (by simp)⟩

end Ready

/-- **An instruction with one operand.** -/
theorem unary_computes {op : Integer → Integer} {number : Int → Int}
    (hop : ∀ a : Integer, a.Canonical → (op a).Canonical ∧ (op a).toInt = number a.toInt) :
    Computes (unary · op) (.one number) := by
  intro l items f below h
  obtain ⟨x, rfl, heval, hx⟩ := h.one rfl
  refine (popInteger_agrees heval hx).seq ?_
  rintro _ a g ⟨⟨ha, rfl⟩, rfl⟩
  rw [← (hop a ha).2]
  exact pushInteger_agrees h.room (hop a ha).1

/-- The operation on integers is exact on canonical ones, and fails where the one on numbers has no value. -/
def Exact (op : Integer → Integer → Except Fault Integer) (number : Int → Int → Option Int) : Prop :=
  ∀ a b : Integer, a.Canonical → b.Canonical →
    Yields (op a b) (number a.toInt b.toInt) (fun n r => r.Canonical ∧ r.toInt = n)

/-- **An instruction with two operands**, the second one on top. -/
theorem binary_computes {op : Integer → Integer → Except Fault Integer} {number : Int → Int → Option Int}
    (hop : Exact op number) : Computes (binary · op) (.two number) := by
  intro l items f below h
  obtain ⟨y, x, rfl, heval, hy, hx⟩ := h.two rfl
  refine (popInteger_agrees heval hy).seq ?_
  rintro _ b g ⟨⟨hb, rfl⟩, rfl⟩
  refine (popInteger_agrees rfl hx).seq ?_
  rintro _ a g ⟨⟨ha, rfl⟩, rfl⟩
  refine (Agrees.result (hop a b ha hb)).seq ?_
  rintro _ r g ⟨⟨hr, rfl⟩, rfl⟩
  exact pushInteger_agrees h.room hr

/-- **A comparison of two operands**, the second one on top. -/
theorem compare_computes {op : Integer → Integer → Bool} {truth : Int → Int → Bool}
    (hop : ∀ a b : Integer, a.Canonical → b.Canonical → op a b = truth a.toInt b.toInt) :
    Computes (compare · op) (.comparison truth) := by
  intro l items f below h
  obtain ⟨y, x, rfl, heval, hy, hx⟩ := h.two rfl
  refine (popInteger_agrees heval hy).seq ?_
  rintro _ b g ⟨⟨hb, rfl⟩, rfl⟩
  refine (popInteger_agrees rfl hx).seq ?_
  rintro _ a g ⟨⟨ha, rfl⟩, rfl⟩
  rw [← hop a b ha hb]
  exact pushTruth_agrees _

/-- **The check for zero.** -/
theorem nonZero_computes : Computes nonZero (.check fun a => a ≠ 0) := by
  intro l items f below h
  obtain ⟨x, rfl, heval, hx⟩ := h.one rfl
  refine (popInteger_agrees heval hx).seq ?_
  rintro _ a g ⟨⟨ha, rfl⟩, rfl⟩
  have hzero : decide (a.toInt ≠ 0) = !a.isZero := by
    rw [Bool.eq_iff_iff, decide_eq_true_eq, Bool.not_eq_true', ← Bool.not_eq_true, Integer.isZero_iff ha]
  dsimp only
  rw [hzero]
  exact pushTruth_agrees _

/-- **The check for a range** of three operands, with the upper end on top. -/
theorem within_computes : Computes within (.range fun x a b => a ≤ x ∧ x < b) := by
  intro l items f below h
  obtain ⟨z, y, x, rfl, heval, hz, hy, hx⟩ := h.three rfl
  refine (popInteger_agrees heval hz).seq ?_
  rintro _ b g ⟨⟨hb, rfl⟩, rfl⟩
  refine (popInteger_agrees rfl hy).seq ?_
  rintro _ a g ⟨⟨ha, rfl⟩, rfl⟩
  refine (popInteger_agrees rfl hx).seq ?_
  rintro _ n g ⟨⟨hn, rfl⟩, rfl⟩
  have hrange : decide (a.toInt ≤ n.toInt ∧ n.toInt < b.toInt) = (a.atMost n && n.less b) := by
    rw [Integer.atMost_eq ha hn, Integer.less_eq hn hb, Bool.decide_and]
  dsimp only
  rw [hrange]
  exact pushTruth_agrees _

/-- Shift amounts within their bounds are popped as numbers, whatever their length is. -/
theorem popShift_agrees (heval : f.eval = x :: below) (hx : x.Canonical) :
    Agrees f (popShift l) (x.shiftAmount? l)
      (fun n s g => (x.number? = some n ∧ s = n) ∧ g = { f with eval := below }) := by
  have hpop : Agrees f Frame.popInt32 x.number32?
      (fun n s g => (x.number? = some n ∧ s = n) ∧ g = { f with eval := below }) :=
    pop_agrees heval (.result (Item.int32_yields hx))
  refine hpop.seq ?_
  rintro _ s g ⟨⟨hs, rfl⟩, rfl⟩
  refine Agrees.guarded ?_ (.returned rfl ⟨⟨hs, rfl⟩, rfl⟩)
  rw [Bool.or_eq_true, decide_eq_true_eq, decide_eq_true_eq]
  omega

/-- **A shift by an amount other than zero**, which is on top. -/
theorem shift_computes {op : Integer → Int → Integer} {number : Int → Int → Int}
    (hop : ∀ (a : Integer) (s : Int), a.Canonical → (op a s).Canonical ∧ (op a s).toInt = number a.toInt s) :
    Computes (shift · op) (.shift number) := by
  intro l items f below h
  obtain ⟨y, x, rfl, heval, hy, hx⟩ := h.two rfl
  refine (popShift_agrees heval hy).seq ?_
  rintro _ s g ⟨⟨hs, rfl⟩, rfl⟩
  have hs' : (s != 0) = true := bne_iff_ne.2 fun hzero => h.shifts number rfl y rfl (hzero ▸ hs)
  simp only [if_pos hs']
  refine (popInteger_agrees rfl hx).seq ?_
  rintro _ a g ⟨⟨ha, rfl⟩, rfl⟩
  rw [← (hop a s ha).2]
  exact pushInteger_agrees h.room (hop a s ha).1

/-- **A shift by zero** takes the amount off the stack and leaves the item below it, of whatever kind and length. -/
theorem shift_zero {op : Integer → Int → Integer} (heval : f.eval = x :: below) (hx : x.Canonical)
    (hzero : x.shiftAmount? l = some 0) : (shift l op).run f = (.ok (), { f with eval := below }) := by
  have hpop := popShift_agrees (l := l) heval hx
  rw [hzero] at hpop
  obtain ⟨s, g, hrun, ⟨-, rfl⟩, rfl⟩ := hpop
  unfold shift
  rw [run_seq, hrun]
  rfl

/-! ## Exact operations -/

/-- An operation that never fails. -/
theorem Exact.total {op : Integer → Integer → Integer} {number : Int → Int → Int}
    (hop : ∀ a b : Integer, a.Canonical → b.Canonical →
      (op a b).Canonical ∧ (op a b).toInt = number a.toInt b.toInt) :
    Exact (fun a b => .ok (op a b)) (fun a b => some (number a b)) :=
  fun a b ha hb => ⟨op a b, rfl, hop a b ha hb⟩

/-- An operation that fails for a zero divisor only. -/
theorem Exact.divided {op : Integer → Integer → Option Integer} {number : Int → Int → Int}
    (fault : Integer → Fault) (hnone : ∀ a b : Integer, b.isZero = true → op a b = none)
    (hop : ∀ a b : Integer, a.Canonical → b.Canonical → b.isZero = false →
      ∃ r, op a b = some r ∧ r.Canonical ∧ r.toInt = number a.toInt b.toInt) :
    Exact (fun a b => match op a b with | some r => .ok r | none => .error (fault a))
      (fun a b => if b = 0 then none else some (number a b)) := by
  intro a b ha hb
  dsimp only
  by_cases hzero : b.isZero = true
  · rw [if_pos ((Integer.isZero_iff hb).1 hzero), hnone a b hzero]
    exact ⟨_, rfl⟩
  · rw [if_neg fun h => hzero ((Integer.isZero_iff hb).2 h)]
    obtain ⟨r, hr, hcanonical, hint⟩ := hop a b ha hb (Bool.eq_false_of_not_eq_true hzero)
    rw [hr]
    exact ⟨r, rfl, hcanonical, hint⟩

/-- Quotients round toward zero. -/
theorem Exact.quotient : Exact quotient (fun a b => if b = 0 then none else some (a.tdiv b)) := by
  refine Exact.divided .quotientByZero (fun a b hzero => by simp [Integer.div?, hzero]) fun a b ha hb hzero => ?_
  obtain ⟨q, hq, hcanonical⟩ := a.canonical_div hzero
  exact ⟨q, hq, hcanonical, Integer.toInt_div ha hb hq⟩

/-- Remainders have the sign of the dividend. -/
theorem Exact.remainder : Exact remainder (fun a b => if b = 0 then none else some (a.tmod b)) := by
  refine Exact.divided .remainderByZero (fun a b hzero => by simp [Integer.rem?, hzero]) fun a b ha hb hzero => ?_
  obtain ⟨r, hr, hcanonical⟩ := a.canonical_rem hzero
  exact ⟨r, hr, hcanonical, Integer.toInt_rem ha hb hr⟩

/-- The sign of an integer is a small integer. -/
theorem canonical_signInteger {a : Integer} (ha : a.Canonical) : (signInteger a).Canonical := by
  intro hmin
  have hsign := Integer.toInt_signum ha
  have := Int.sign_trichotomy a.toInt
  rw [hmin] at hsign
  have hint : Int32.minValue.toInt = -2147483648 := rfl
  omega

/-- **Shifts scale by powers of two.** -/
theorem toInt_shift {a : Integer} (ha : a.Canonical) (s : Int) :
    (a.shiftLeft s).toInt = scaled a.toInt s ∧ (a.shiftRight s).toInt = scaled a.toInt (-s) := by
  unfold Integer.shiftLeft Integer.shiftRight scaled
  obtain hneg | rfl | hpos := lt_trichotomy s 0
  · have habs : s.natAbs = (-s).toNat := by omega
    rw [if_neg (by omega), if_neg (by omega), if_neg (by omega), if_pos (by omega), habs,
      Integer.toInt_scaleUp ha, Integer.toInt_scaleDown ha]
    exact ⟨rfl, rfl⟩
  · simp [Integer.toInt_scaleUp ha, Integer.toInt_scaleDown ha]
  · have habs : s.natAbs = s.toNat := by omega
    rw [if_pos (by omega), if_pos (by omega), if_pos (by omega), if_neg (by omega), habs, Int.neg_neg,
      Integer.toInt_scaleUp ha, Integer.toInt_scaleDown ha]
    exact ⟨rfl, rfl⟩

end Instructions

/-! ## Opcodes -/

namespace Engine

open Instructions in
/-- **Every numeric opcode computes its operation**, as an instruction of the innermost frame. -/
theorem perform_computes {op : OpCode} {o : Operation} (hop : op.operation? = some o) :
    ∃ m : Limits → FrameM Unit, (∀ nested i, perform nested op i = onFrameWithin m) ∧ Computes m o := by
  -- Integers are equal when their numbers are.
  have hequal : ∀ a b : Integer, a.Canonical → b.Canonical → (a == b) = decide (a.toInt = b.toInt) := by
    intro a b ha hb
    rw [Bool.eq_iff_iff, beq_iff_eq, decide_eq_true_eq, Integer.eq_iff_toInt_eq ha hb]
  unfold perform
  cases op with
  | inc =>
    cases hop
    exact ⟨_, fun _ _ => rfl, unary_computes fun a ha =>
      ⟨Integer.canonical_add ha Integer.canonical_one, Integer.toInt_add ha Integer.canonical_one⟩⟩
  | dec =>
    cases hop
    exact ⟨_, fun _ _ => rfl, unary_computes fun a ha =>
      ⟨Integer.canonical_sub ha Integer.canonical_one, Integer.toInt_sub ha Integer.canonical_one⟩⟩
  | sign =>
    cases hop
    exact ⟨_, fun _ _ => rfl, unary_computes fun a ha => ⟨canonical_signInteger ha, Integer.toInt_signum ha⟩⟩
  | negate =>
    cases hop
    exact ⟨_, fun _ _ => rfl, unary_computes fun a ha => ⟨Integer.canonical_neg ha, Integer.toInt_neg ha⟩⟩
  | abs =>
    cases hop
    exact ⟨_, fun _ _ => rfl, unary_computes fun a ha => ⟨Integer.canonical_abs ha, Integer.toInt_abs ha⟩⟩
  | invert =>
    cases hop
    exact ⟨_, fun _ _ => rfl, unary_computes fun a ha => ⟨Integer.canonical_not ha, Integer.toInt_not ha⟩⟩
  | add =>
    cases hop
    exact ⟨_, fun _ _ => rfl, binary_computes
      (.total fun a b ha hb => ⟨Integer.canonical_add ha hb, Integer.toInt_add ha hb⟩)⟩
  | sub =>
    cases hop
    exact ⟨_, fun _ _ => rfl, binary_computes
      (.total fun a b ha hb => ⟨Integer.canonical_sub ha hb, Integer.toInt_sub ha hb⟩)⟩
  | mul =>
    cases hop
    exact ⟨_, fun _ _ => rfl, binary_computes
      (.total fun a b _ _ => ⟨Integer.canonical_mul a b, Integer.toInt_mul a b⟩)⟩
  | div =>
    cases hop
    exact ⟨_, fun _ _ => rfl, binary_computes .quotient⟩
  | mod =>
    cases hop
    exact ⟨_, fun _ _ => rfl, binary_computes .remainder⟩
  | min =>
    cases hop
    exact ⟨_, fun _ _ => rfl, binary_computes
      (.total fun a b ha hb => ⟨(Integer.canonical_choice ha hb).1, Integer.toInt_min ha hb⟩)⟩
  | max =>
    cases hop
    exact ⟨_, fun _ _ => rfl, binary_computes
      (.total fun a b ha hb => ⟨(Integer.canonical_choice ha hb).2, Integer.toInt_max ha hb⟩)⟩
  | and =>
    cases hop
    exact ⟨_, fun _ _ => rfl, binary_computes
      (.total fun a b ha hb => ⟨Integer.canonical_bitwise _ a b, Integer.toInt_and ha hb⟩)⟩
  | or =>
    cases hop
    exact ⟨_, fun _ _ => rfl, binary_computes
      (.total fun a b ha hb => ⟨Integer.canonical_bitwise _ a b, Integer.toInt_or ha hb⟩)⟩
  | xor =>
    cases hop
    exact ⟨_, fun _ _ => rfl, binary_computes
      (.total fun a b ha hb => ⟨Integer.canonical_bitwise _ a b, Integer.toInt_xor ha hb⟩)⟩
  | shl =>
    cases hop
    exact ⟨_, fun _ _ => rfl, shift_computes fun a s ha =>
      ⟨(Integer.canonical_shift ha s).1, (toInt_shift ha s).1⟩⟩
  | shr =>
    cases hop
    exact ⟨_, fun _ _ => rfl, shift_computes fun a s ha =>
      ⟨(Integer.canonical_shift ha s).2, (toInt_shift ha s).2⟩⟩
  | nz =>
    cases hop
    exact ⟨_, fun _ _ => rfl, nonZero_computes⟩
  | numEqual =>
    cases hop
    exact ⟨_, fun _ _ => rfl, compare_computes hequal⟩
  | numNotEqual =>
    cases hop
    exact ⟨_, fun _ _ => rfl, compare_computes fun a b ha hb => by rw [bne, hequal a b ha hb, ← decide_not]⟩
  | lt =>
    cases hop
    exact ⟨_, fun _ _ => rfl, compare_computes fun a b ha hb => Integer.less_eq ha hb⟩
  | gt =>
    cases hop
    exact ⟨_, fun _ _ => rfl, compare_computes fun a b ha hb => Integer.less_eq hb ha⟩
  | lte =>
    cases hop
    exact ⟨_, fun _ _ => rfl, compare_computes fun a b ha hb => Integer.atMost_eq ha hb⟩
  | gte =>
    cases hop
    exact ⟨_, fun _ _ => rfl, compare_computes fun a b ha hb => Integer.atMost_eq hb ha⟩
  | within =>
    cases hop
    exact ⟨_, fun _ _ => rfl, within_computes⟩
  | _ => cases hop

/-! ## Steps -/

variable {e : Engine} {f : Frame} {outer : List Frame}

/-- An instruction of the innermost frame under the bounds of the machine. -/
theorem run_onFrameWithin (m : Limits → FrameM Unit) (hframes : e.state.frames = f :: outer) :
    (onFrameWithin m).run e =
      (((m e.state.limits).run f).1,
        { e with state := e.state.setFrames (((m e.state.limits).run f).2 :: outer) }) := by
  unfold onFrameWithin onFrame
  rw [run_get_seq, run_onState, Exec.run_onFrame_cons _ hframes]

/-- A paid step at an opcode that works on the innermost frame, under the bounds of the machine. -/
theorem step_onFrameWithin {op : OpCode} {m : Limits → FrameM Unit} {paid : State}
    (hperform : ∀ nested i, perform nested op i = onFrameWithin m) (htable : e.table op = .standard op)
    (hrun : e.status = .running) (hframes : e.state.frames = f :: outer) (hfetch : fetch f = .ok op)
    (hpaid : e.state.consumeGas (e.state.price op) = (true, paid)) :
    e.step =
      match (m e.state.limits).run f.advance with
      | (.ok (), g) => { e with state := settle (paid.setFrames (g :: outer)) }
      | (.error fault, g) =>
        { e with state := fail ((paid.setFrames (g :: outer)).record (.failed op f.cursor)) fault } := by
  -- The instruction starts with the opcode read and paid for.
  have hbehaviour : (perform (stepAt 15) op ⟨op, f.cursor⟩).run
      { e with state := paid.setFrames (f.advance :: outer) } =
        (((m e.state.limits).run f.advance).1,
          { e with state := paid.setFrames (((m e.state.limits).run f.advance).2 :: outer) }) := by
    obtain ⟨total, rfl⟩ := State.eq_of_paid hpaid
    rw [hperform, run_onFrameWithin m rfl]
    rfl
  rw [step_standard htable hrun hframes hfetch hpaid, hbehaviour]
  rcases (m e.state.limits).run f.advance with ⟨_ | _, g⟩ <;> rfl

/-- **Numeric instructions are exact.** A step at a numeric instruction that is paid for replaces the operands on
top of the stack by the value of its operation on the numbers that they denote; where that has no value, the
machine faults. -/
theorem numbers_exact {op : OpCode} {o : Operation} {items : List Item} {below : Stack} {paid : State}
    (hop : op.operation? = some o) (htable : e.table op = .standard op) (hrun : e.status = .running)
    (hframes : e.state.frames = f :: outer) (hfetch : fetch f = .ok op)
    (hpaid : e.state.consumeGas (e.state.price op) = (true, paid))
    (hready : Instructions.Ready e.state.limits o items f below) :
    match o.compute? e.state.limits items with
    | some value => ∃ x, value.Shown x ∧
        e.step = { e with state := settle (paid.setFrames ({ f.advance with eval := x :: below } :: outer)) }
    | none => e.step.status = .faulted := by
  obtain ⟨m, hperform, hcomputes⟩ := perform_computes hop
  have hready' : Instructions.Ready e.state.limits o items f.advance below :=
    ⟨hready.room, hready.count, hready.eval, hready.canonical, hready.shifts⟩
  have hagrees := hcomputes hready'
  rw [step_onFrameWithin hperform htable hrun hframes hfetch hpaid]
  cases hvalue : o.compute? e.state.limits items with
  | some value =>
    rw [hvalue] at hagrees
    obtain ⟨_, g, hok, x, hx, rfl⟩ := hagrees
    rw [hok]
    exact ⟨x, hx, rfl⟩
  | none =>
    rw [hvalue] at hagrees
    obtain ⟨fault, g, herror⟩ := hagrees
    rw [herror]
    obtain ⟨total, rfl⟩ := State.eq_of_paid hpaid
    have hrunning : e.state.session.status = .running := hrun
    exact (fail_status _ fault).trans (if_pos hrunning)

/-- A machine that divides the byte string of -7 by 2: the quotient is rounded toward zero. -/
theorem numbers_exact_quotient :
    let digests : CryptoSuite :=
      { sha1 := fun _ => #[], sha256 := fun _ => #[], hash160 := fun _ => #[], hash256 := fun _ => #[]
        verify := fun _ _ _ => false }
    let f : Frame := { script := ⟨#[0x96], #[]⟩, eval := [.integer (.small 2), .bytes 0 #[0xF9]] }
    let e := (Engine.new .default digests).modifyState (·.setFrames [f])
    let paid := (e.state.consumeGas (e.state.price .div)).2
    (e.status = .running ∧ fetch f = .ok .div) ∧
    ∃ x, (Value.number (-3)).Shown x ∧
      e.step = { e with state := settle (paid.setFrames [{ f.advance with eval := [x] }]) } := by
  intro digests f e paid
  have hready : Instructions.Ready .default (.two fun a b => if b = 0 then none else some (a.tdiv b))
      [.integer (.small 2), .bytes 0 #[0xF9]] f [] := by
    refine ⟨by decide, rfl, rfl, ?_, fun _ h => by cases h⟩
    rintro x (_ | ⟨_, _ | ⟨_, hx⟩⟩)
    · exact fun h => by cases h
    · trivial
    · cases hx
  have hvalue : Operation.compute? .default (.two fun a b => if b = 0 then none else some (a.tdiv b))
      [.integer (.small 2), .bytes 0 #[0xF9]] = some (.number (-3)) := by decide +kernel
  have hpaid : e.state.consumeGas (e.state.price .div) = (true, paid) := rfl
  have hlimits : e.state.limits = .default := rfl
  have hexact := numbers_exact rfl rfl rfl rfl (rfl : fetch f = .ok .div) hpaid hready
  rw [hlimits, hvalue] at hexact
  exact ⟨⟨rfl, rfl⟩, hexact⟩

end Engine

end ScriptMachine
