import ScriptMachine.Proofs.Steps

/-! # Resource bounds of whole runs

The limits of a machine bound the frames, the containers, the byte strings, the integers and the number of
items in every state that its scripts can reach. Some instructions check a bound and others cannot exceed
it; the policy of the limits is admitted all the same, so that every instruction keeps it, and the bounds
are an invariant of steps.

* `Limits.policy`: the data that the limits allow.
* `State.Bounded`, `Engine.Capped`: the invariant of a state and of a machine.
* `Engine.Reached`: the states that a machine reaches whose host loads scripts and steps.
* `Engine.reached_within_limits`: the bounds hold in all of them.
-/

namespace ScriptMachine

/-! ## The policy of the limits -/

/-- The digests have their usual lengths. -/
structure CryptoSuite.DigestSizes (c : CryptoSuite) : Prop where
  /-- 20 bytes. -/
  sha1 : ∀ d, (c.sha1 d).size = 20
  /-- 32 bytes. -/
  sha256 : ∀ d, (c.sha256 d).size = 32
  /-- 20 bytes. -/
  hash160 : ∀ d, (c.hash160 d).size = 20
  /-- 32 bytes. -/
  hash256 : ∀ d, (c.hash256 d).size = 32

/-- The bounds are large enough for what instructions make without a check: byte strings that an opcode
announces by itself, byte views of integers, and counts. -/
structure Limits.Roomy (l : Limits) : Prop where
  /-- Byte strings of 75 bytes are allowed. -/
  item : 75 ≤ l.maxItemSize
  /-- Byte views of integers are allowed. -/
  view : l.maxBigIntegerSize ≤ l.maxItemSize
  /-- Integers of nine bytes are allowed. -/
  count : 9 ≤ l.maxBigIntegerSize

/-- The data that the limits allow. -/
def Limits.policy (l : Limits) : Policy where
  bytes d := d.size ≤ l.maxItemSize
  integer v := v.byteLength ≤ l.maxBigIntegerSize
  size n := n ≤ l.maxArraySize
  key x := x.isCompound = false

/-- **Instructions make only data that the limits allow.** -/
theorem Limits.policy_admits {l : Limits} {c : CryptoSuite} (hl : l.Roomy) (hc : c.DigestSizes) :
    l.policy.Admits l c where
  short _ hd := Nat.le_trans hd hl.item
  bounded _ hd := hd
  part d i j hd := by
    have hpart : (d.extract i j).size ≤ d.size := by
      rw [Array.size_extract]
      omega
    exact Nat.le_trans hpart hd
  view v hv := by
    show v.toBytes.size ≤ l.maxItemSize
    rw [Integer.size_toBytes]
    exact Nat.le_trans hv hl.view
  sha1 d := Nat.le_trans (Nat.le_of_eq (hc.sha1 d)) (Nat.le_trans (by decide) hl.item)
  sha256 d := Nat.le_trans (Nat.le_of_eq (hc.sha256 d)) (Nat.le_trans (by decide) hl.item)
  hash160 d := Nat.le_trans (Nat.le_of_eq (hc.hash160 d)) (Nat.le_trans (by decide) hl.item)
  hash256 d := Nat.le_trans (Nat.le_of_eq (hc.hash256 d)) (Nat.le_trans (by decide) hl.item)
  count n := Nat.le_trans (Integer.byteLength_ofNat_le n) hl.count
  minusOne := Nat.le_trans (Integer.byteLength_small_le (-1)) (Nat.le_trans (by decide) hl.count)
  computed _ hv := hv
  room _ hn := hn
  smaller _ _ hmn hm := Nat.le_trans hmn hm
  primitive _ hx := hx

/-! ## The invariant of a state -/

/-- All data is allowed, all cursors are inside of their scripts, and there are not too many frames. -/
structure State.Bounded (p : Policy) (s : State) : Prop where
  /-- The objects are allowed. -/
  heap : p.AllowsHeap s.heap
  /-- The frames have allowed items and cursors inside of their scripts. -/
  frames : ∀ f ∈ s.frames, f.cursor ≤ f.script.length ∧ p.AllowsItems f.eval ∧ p.AllowsItems f.alt
  /-- The results are allowed. -/
  results : p.AllowsItems s.session.results
  /-- There is room for the frames. -/
  depth : s.frames.length ≤ s.session.calls.maxDepth

variable {p : Policy} {s₀ s : State} {f₀ : Frame} {outer : List Frame}

/-- **Every outcome of an instruction keeps the bounds.** -/
theorem Outcome.bounded {ok : Bool} (h : Outcome p s₀ f₀ outer ok s) (hs₀ : s₀.Bounded p)
    (hframes : s₀.frames = f₀ :: outer) : s.Bounded p := by
  have hall := hs₀.frames
  rw [hframes] at hall
  obtain ⟨⟨hcursor, heval, halt⟩, houter⟩ := List.forall_mem_cons.1 hall
  have hdepth : outer.length + 1 ≤ s₀.session.calls.maxDepth := by
    have := hs₀.depth
    rw [hframes] at this
    exact this
  cases h with
  | inside h =>
    -- The frames inside are allowed as the instruction left them, the outer ones as they were.
    obtain ⟨inner, -, hinner, hafter⟩ := h.frames
    refine ⟨h.heap, ?_, ?_, ?_⟩
    · intro g hg
      rw [hinner] at hg
      rcases List.mem_append.1 hg with hg | hg
      · exact ⟨(hafter g hg).cursor hcursor, (hafter g hg).eval, (hafter g hg).alt⟩
      · exact houter g hg
    · rw [h.results]
      exact hs₀.results
    · rw [h.maxDepth]
      exact h.depth hs₀.depth
  | refused h =>
    have hgone := h.frames
    rw [h] at hgone ⊢
    refine ⟨hs₀.heap, ?_, hs₀.results, ?_⟩
    · rw [hgone]
      exact houter
    · rw [hgone]
      exact Nat.le_of_succ_le hdepth
  | @resumed caller rest hcaller =>
    subst hcaller
    obtain ⟨⟨hcursor', heval', halt'⟩, hrest⟩ := List.forall_mem_cons.1 houter
    refine ⟨hs₀.heap, List.forall_mem_cons.2 ⟨⟨hcursor', heval.append heval', ?_⟩, hrest⟩, hs₀.results,
      Nat.le_of_succ_le hdepth⟩
    unfold Frame.resume
    dsimp only
    split
    · exact halt.append halt'
    · exact halt'
  | finished hempty =>
    refine ⟨hs₀.heap, fun g hg => absurd hg List.not_mem_nil, heval.append hs₀.results, Nat.zero_le _⟩

/-- The bounds of the machine and its cryptography are the same after an instruction. -/
theorem Outcome.setup {ok : Bool} (h : Outcome p s₀ f₀ outer ok s) :
    s.limits = s₀.limits ∧ s.crypto = s₀.crypto ∧
      s.session.calls.maxDepth = s₀.session.calls.maxDepth := by
  cases h with
  | inside h => exact ⟨h.limits, h.crypto, h.maxDepth⟩
  | refused h =>
    rw [h]
    exact ⟨rfl, rfl, rfl⟩
  | resumed _ => exact ⟨rfl, rfl, rfl⟩
  | finished _ => exact ⟨rfl, rfl, rfl⟩

/-- An instruction leaves a running machine running, unless the last frame returns: then the items of that
frame become results, of which there are not more than there were items. -/
theorem Outcome.count {ok : Bool} (h : Outcome p s₀ f₀ outer ok s)
    (hframes : s₀.frames = f₀ :: outer) (hrun : s₀.session.status = .running) :
    s.session.status = .running ∨ (s.session.status = .halted ∧ ok = true ∧ s.itemCount ≤ s₀.itemCount) := by
  cases h with
  | inside h => exact Or.inl (h.status.trans hrun)
  | refused h =>
    left
    rw [h]
    exact hrun
  | resumed _ => exact Or.inl hrun
  | finished hempty =>
    -- The alternative stack of the last frame is dropped, and its items are moved.
    refine Or.inr ⟨rfl, rfl, ?_⟩
    unfold State.itemCount
    rw [hframes, hempty]
    show (f₀.eval ++ s₀.session.results).length ≤ f₀.eval.length + f₀.alt.length + _
    rw [List.length_append]
    simp only [List.foldr_nil]
    omega

/-! ## The invariant of a machine -/

namespace Engine

variable {l : Limits} {c : CryptoSuite} {e : Engine}

/-- The machine runs under the given limits and keeps them, and its host only loads scripts. The number of
items is checked at the end of a step, so that it may be exceeded after a fault. -/
structure Capped (l : Limits) (c : CryptoSuite) (e : Engine) : Prop where
  /-- The host only loads scripts. -/
  host : e.HostOnlyLoads
  /-- The limits are the given ones. -/
  limits : e.state.limits = l
  /-- The cryptography is the given one. -/
  crypto : e.state.crypto = c
  /-- The greatest number of frames is the one of the limits. -/
  maxDepth : e.state.session.calls.maxDepth = l.maxInvocationStackSize
  /-- The state is within the limits. -/
  bounded : e.state.Bounded l.policy
  /-- There are not too many items, unless the machine has failed. -/
  count : e.status = .running ∨ e.status = .halted → e.state.itemCount ≤ l.maxStackSize

/-- Another status and another journal do not matter for the bounds. -/
theorem SameData.bounded {p : Policy} {s t : State} (h : SameData s t) (hs : s.Bounded p) :
    t.Bounded p := by
  rw [h]
  exact ⟨hs.heap, hs.frames, hs.results, hs.depth⟩

/-- Another status and another journal do not change the number of items. -/
theorem SameData.itemCount {s t : State} (h : SameData s t) : t.itemCount = s.itemCount := by
  rw [h]
  rfl

/-- A charged machine is within the limits. -/
theorem bounded_charge {p : Policy} {s : State} {f : Frame} {outer : List Frame} (hs : s.Bounded p)
    (hframes : s.frames = f :: outer) (gas : Nat) : (s.charge gas f outer).Bounded p := by
  have hall := hs.frames
  have hdepth := hs.depth
  rw [hframes] at hall hdepth
  obtain ⟨⟨hcursor, heval, halt⟩, houter⟩ := List.forall_mem_cons.1 hall
  refine ⟨hs.heap, List.forall_mem_cons.2 ⟨⟨Frame.advance_cursor_le hcursor, heval, halt⟩, houter⟩,
    hs.results, hdepth⟩

/-- Charging does not change the number of items. -/
theorem itemCount_charge {s : State} {f : Frame} {outer : List Frame}
    (hframes : s.frames = f :: outer) (gas : Nat) : (s.charge gas f outer).itemCount = s.itemCount := by
  unfold State.itemCount
  rw [hframes]
  rfl

/-- The machine keeps its limits when its state does. -/
theorem Capped.setState {s : State} (he : e.Capped l c)
    (hsetup : s.limits = e.state.limits ∧ s.crypto = e.state.crypto ∧
      s.session.calls.maxDepth = e.state.session.calls.maxDepth)
    (hbounded : s.Bounded l.policy)
    (hcount : s.session.status = .running ∨ s.session.status = .halted →
      s.itemCount ≤ l.maxStackSize) : ({ e with state := s } : Engine).Capped l c :=
  ⟨⟨he.host.table, he.host.interop, he.host.loader⟩, hsetup.1.trans he.limits,
    hsetup.2.1.trans he.crypto, hsetup.2.2.trans he.maxDepth, hbounded, hcount⟩

/-- **A step keeps the limits.** -/
theorem Capped.step (hl : l.Roomy) (hc : c.DigestSizes) (he : e.Capped l c)
    (nested : Engine → Engine) : (stepWith nested e).Capped l c := by
  have hp : l.policy.Admits e.state.limits e.state.crypto := by
    rw [he.limits, he.crypto]
    exact Limits.policy_admits hl hc
  by_cases hrun : e.status = .running
  swap
  · rw [stepWith_final nested hrun]
    exact he
  have hcount := he.count (Or.inl hrun)
  cases hframes : e.state.frames with
  | nil =>
    rw [stepWith_nil nested hrun hframes]
    exact he.setState ⟨rfl, rfl, rfl⟩
      ⟨he.bounded.heap, he.bounded.frames, he.bounded.results, he.bounded.depth⟩ fun _ => hcount
  | cons f outer =>
    obtain ⟨-, heval, halt⟩ := he.bounded.frames f (by rw [hframes]; exact List.mem_cons_self)
    obtain ⟨s, hs, hcases⟩ :=
      stepWith_outcome nested he.host hrun hp hframes he.bounded.heap heval halt
    rw [hs]
    cases hcases with
    | unpaid event =>
      refine he.setState ⟨rfl, rfl, rfl⟩
        ⟨he.bounded.heap, he.bounded.frames, he.bounded.results, he.bounded.depth⟩ ?_
      rintro (h | h) <;> cases h
    | @done gas t h _ =>
      have hsame := settle_sameData t
      refine he.setState ?_ (hsame.bounded (h.bounded (bounded_charge he.bounded hframes gas) rfl)) ?_
      · rw [hsame]
        exact h.setup
      · rintro (hstatus | hstatus)
        · -- The machine still runs, so that its items were counted.
          obtain ⟨-, heq, hle⟩ := settle_running hstatus
          rw [heq]
          rw [h.setup.1] at hle
          exact he.limits ▸ hle
        · -- The last return sets the status before the items are counted: the bound is inherited.
          rw [hsame.itemCount]
          rcases settle_halted hstatus with hhalted | hle
          · rcases h.count rfl hrun with hrun' | ⟨-, -, hle⟩
            · rw [hrun'] at hhalted
              cases hhalted
            · rw [itemCount_charge hframes] at hle
              exact Nat.le_trans hle hcount
          · rw [h.setup.1] at hle
            exact he.limits ▸ hle
    | @failed gas t cause h =>
      have hsame := fail_sameData t cause
      refine he.setState ?_ (hsame.bounded (h.bounded (bounded_charge he.bounded hframes gas) rfl)) ?_
      · rw [hsame]
        exact h.setup
      · intro hstatus
        -- A failed instruction leaves the machine running until the failure is recorded.
        have hrun' : t.session.status = .running :=
          (h.count rfl hrun).resolve_right fun hh => by cases hh.2.1
        rw [fail_status, if_pos hrun'] at hstatus
        rcases hstatus with hstatus | hstatus <;> cases hstatus

/-- Fresh frames hold no items. -/
theorem foldr_fresh {pushed : List Frame} (h : ∀ g ∈ pushed, g.Fresh) (n : Nat) :
    pushed.foldr (fun f n => f.eval.length + f.alt.length + n) n = n := by
  induction pushed with
  | nil => rfl
  | cons g pushed ih =>
    obtain ⟨hg, hpushed⟩ := List.forall_mem_cons.1 h
    rw [List.foldr_cons, ih hpushed, hg.eval, hg.alt]
    exact Nat.zero_add n

/-- **Loading scripts keeps the limits**: a fresh frame has no items, and there is room for it. -/
theorem Capped.load {s : State} (he : e.Capped l c) (h : Loaded e.state e.state.frames s) :
    ({ e with state := s } : Engine).Capped l c := by
  obtain ⟨pushed, hs, hfresh, hroom⟩ := h
  have hframes := hs.frames
  refine he.setState ?_ ⟨?_, ?_, ?_, ?_⟩ ?_
  · rw [hs]
    exact ⟨rfl, rfl, rfl⟩
  · rw [hs]
    exact he.bounded.heap
  · intro f hf
    rw [hframes] at hf
    rcases List.mem_append.1 hf with hf | hf
    · obtain ⟨hcursor, heval, halt⟩ := hfresh f hf
      rw [hcursor, heval, halt]
      exact ⟨Nat.zero_le _, Policy.allowsItems_nil, Policy.allowsItems_nil⟩
    · exact he.bounded.frames f hf
  · rw [hs]
    exact he.bounded.results
  · rw [hframes, hs.maxDepth, List.length_append]
    rcases hroom with rfl | hroom
    · rw [List.length_nil, Nat.zero_add]
      exact he.bounded.depth
    · exact hroom
  · intro hstatus
    have hcount : s.itemCount = e.state.itemCount := by
      unfold State.itemCount
      rw [hframes, List.foldr_append, foldr_fresh hfresh, hs]
    rw [hcount]
    rw [hs] at hstatus
    exact he.count hstatus

/-! ## Runs -/

/-- The machines that a host can reach that offers no services: from a new machine, by loading scripts,
setting the gas limit and stepping, in any order. -/
inductive Reached (l : Limits) (c : CryptoSuite) : Engine → Prop where
  /-- A new machine, with a message to sign and a loader that only loads scripts, if any. -/
  | fresh (message : Option (UInt32 → Bytes)) (loader : Option ScriptLoader)
    (hloader : ∀ load, loader = some load →
      ∀ hash dynamic returnCount, (load hash dynamic returnCount).LoadsOnly) :
    Reached l c { state := { State.new l c with message }, loader }
  /-- The gas limit is set. -/
  | gas {e : Engine} (he : Reached l c e) (gasLimit : Nat) :
    Reached l c (e.modifyState (·.setGasLimit gasLimit))
  /-- A script is loaded. -/
  | load {e : Engine} (he : Reached l c e) (body : Bytes) (returnCount : Int) :
    Reached l c (e.modifyState fun s => (s.loadScript body returnCount).2)
  /-- A script is loaded that was loaded before. -/
  | loadCached {e : Engine} (he : Reached l c e) (index : Nat) (returnCount : Int) :
    Reached l c (e.modifyState fun s => (s.loadCached index returnCount).2)
  /-- The machine steps. -/
  | step {e : Engine} (he : Reached l c e) : Reached l c e.step

/-- **Every reached machine keeps its limits.** -/
theorem Reached.capped (hl : l.Roomy) (hc : c.DigestSizes) (he : Reached l c e) : e.Capped l c := by
  induction he with
  | fresh message loader hloader =>
    refine ⟨⟨rfl, rfl, hloader⟩, rfl, rfl, rfl, ⟨?_, ?_, ?_, Nat.zero_le _⟩, fun _ => Nat.zero_le _⟩
    · intro id cell hcell
      have hnone : (#[] : Array Cell)[id]? = some cell := hcell
      rw [Array.getElem?_empty] at hnone
      cases hnone
    · exact fun f hf => absurd hf List.not_mem_nil
    · exact Policy.allowsItems_nil
  | gas _ gasLimit ih =>
    exact ih.setState ⟨rfl, rfl, rfl⟩
      ⟨ih.bounded.heap, ih.bounded.frames, ih.bounded.results, ih.bounded.depth⟩ ih.count
  | load _ body returnCount ih => exact ih.load ((WithFrames.refl _).loaded.loadScript _ _)
  | loadCached _ index returnCount ih => exact ih.load ((WithFrames.refl _).loaded.loadCached _ _)
  | step _ ih => exact ih.step hl hc _

end Engine

/-! ## Reachable items -/

/-- The items that are held by a stack, directly or inside of containers. -/
inductive State.Reaches (s : State) : Item → Prop where
  /-- On an evaluation stack, an alternative stack or the results. -/
  | onStack {x : Item} (hx : x ∈ s.stackItems) : s.Reaches x
  /-- Inside of a container: an element, a key or a value. -/
  | inside {x y : Item} {id : Nat} (hx : s.Reaches x) (hid : x.cell? = some id)
    (hy : y ∈ s.heap.held id) : s.Reaches y

/-- The number of elements or entries of a container. -/
def Cell.size : Cell → Nat
  | .list items => items.length
  | .map entries => entries.length

/-- The keys of a map; other containers have none. -/
def Cell.keys : Cell → List Item
  | .list _ => []
  | .map entries => entries.map (·.1)

/-- The item is within the limits: its bytes, its length, or the size and the keys of its container. -/
def Item.Within (l : Limits) (h : Heap) : Item → Prop
  | .bytes _ data => data.size ≤ l.maxItemSize
  | .integer v => v.byteLength ≤ l.maxBigIntegerSize
  | .array id | .struct id | .map id => ∀ cell, h.cells[id]? = some cell →
      cell.size ≤ l.maxArraySize ∧ ∀ k ∈ cell.keys, k.isCompound = false
  | .boolean _ | .interop _ _ => True

/-- The items that a container holds are allowed with it. -/
theorem Policy.AllowsHeap.held {p : Policy} {h : Heap} (hh : p.AllowsHeap h) (id : Nat) :
    p.AllowsItems (h.held id) := by
  unfold Heap.held
  split
  · rename_i items hcell
    exact (hh id _ hcell).2
  · rename_i entries hcell
    intro x hx
    obtain ⟨entry, hentry, hx⟩ := List.mem_flatMap.1 hx
    obtain ⟨-, hkey, hvalue⟩ := (hh id _ hcell).2 entry hentry
    rcases List.mem_cons.1 hx with rfl | hx
    · exact hkey
    · rw [List.mem_singleton.1 hx]
      exact hvalue
  · exact Policy.allowsItems_nil

/-- All that a bounded state reaches is allowed. -/
theorem State.Bounded.reaches {x : Item} (hs : s.Bounded p) (hx : s.Reaches x) : p.AllowsItem x := by
  induction hx with
  | onStack hx =>
    rcases List.mem_append.1 hx with hx | hx
    · exact hs.results _ hx
    · obtain ⟨f, hf, hx⟩ := List.mem_flatMap.1 hx
      obtain ⟨-, heval, halt⟩ := hs.frames f hf
      exact (heval.append halt) _ hx
  | inside _ _ hy _ => exact hs.heap.held _ _ hy

/-- An allowed container is within the limits. -/
theorem Limits.cell_within {l : Limits} {cell : Cell} (h : l.policy.AllowsCell cell) :
    cell.size ≤ l.maxArraySize ∧ ∀ k ∈ cell.keys, k.isCompound = false := by
  cases cell with
  | list items => exact ⟨h.1, fun k hk => absurd hk List.not_mem_nil⟩
  | map entries =>
    refine ⟨h.1, fun k hk => ?_⟩
    obtain ⟨entry, hentry, rfl⟩ := List.mem_map.1 hk
    exact (h.2 entry hentry).1

/-- An allowed item in an allowed heap is within the limits. -/
theorem Limits.item_within {l : Limits} {h : Heap} {x : Item} (hh : l.policy.AllowsHeap h)
    (hx : l.policy.AllowsItem x) : x.Within l h := by
  cases x with
  | boolean _ => trivial
  | integer _ => exact hx
  | bytes _ _ => exact hx
  | interop _ _ => trivial
  | array id | struct id | map id => exact fun cell hcell => Limits.cell_within (hh id cell hcell)

/-- **The limits bound every run.** Whatever scripts are loaded and however many steps are made, there are at
most as many frames as allowed, every cursor is inside of its script, all that the stacks reach is within
the limits, and unless the machine has failed, so is the number of items. -/
theorem Engine.reached_within_limits {l : Limits} {c : CryptoSuite} {e : Engine} (hl : l.Roomy)
    (hc : c.DigestSizes) (he : Engine.Reached l c e) :
    e.depth ≤ l.maxInvocationStackSize ∧
    (∀ f ∈ e.state.frames, f.cursor ≤ f.script.length) ∧
    (∀ x, e.state.Reaches x → x.Within l e.state.heap) ∧
    (e.status = .running ∨ e.status = .halted → e.state.itemCount ≤ l.maxStackSize) := by
  have hcapped := he.capped hl hc
  refine ⟨?_, fun f hf => (hcapped.bounded.frames f hf).1, fun x hx => ?_, hcapped.count⟩
  · rw [← hcapped.maxDepth]
    exact hcapped.bounded.depth
  · exact Limits.item_within hcapped.bounded.heap (hcapped.bounded.reaches hx)

/-- A script that makes an array of two elements: the array is reached, and it is within the limits. -/
theorem Engine.reached_within_limits_newArray :
    let digests : CryptoSuite :=
      { sha1 := fun _ => Array.replicate 20 0
        sha256 := fun _ => Array.replicate 32 0
        hash160 := fun _ => Array.replicate 20 0
        hash256 := fun _ => Array.replicate 32 0
        verify := fun _ _ _ => false }
    let e := ((Engine.new .default digests).modifyState
      fun s => (s.loadScript #[0x52, 0xC5] returnAll).2).step.step
    (e.status = .running ∧ e.state.itemCount = 1 ∧ e.state.Reaches (.array 0) ∧
      e.state.heap.cells[0]? = some (.list [.boolean false, .boolean false])) ∧
    (Item.array 0).Within .default e.state.heap ∧ e.state.itemCount ≤ 2048 := by
  intro digests e
  have hroomy : Limits.default.Roomy := ⟨by decide, by decide, by decide⟩
  have hsizes : digests.DigestSizes := ⟨fun _ => rfl, fun _ => rfl, fun _ => rfl, fun _ => rfl⟩
  have hfresh : Engine.Reached .default digests (Engine.new .default digests) :=
    .fresh none none fun _ h => by cases h
  have hreached : Engine.Reached .default digests e := ((hfresh.load _ _).step).step
  have harray : e.state.Reaches (.array 0) := .onStack (by decide +kernel)
  have hrun : e.status = .running := by decide +kernel
  obtain ⟨-, -, hwithin, hcount⟩ := Engine.reached_within_limits hroomy hsizes hreached
  exact ⟨⟨hrun, by decide +kernel, harray, by decide +kernel⟩, hwithin _ harray, hcount (Or.inl hrun)⟩

end ScriptMachine
