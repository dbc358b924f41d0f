import ScriptMachine.Proofs.CallFrames
import ScriptMachine.Proofs.Renaming.Steps
import ScriptMachine.Proofs.ScriptCache

/-! # Outcomes do not depend on identities

The allocator chooses the identities of arrays, structs, maps, byte strings and handles. Two machines that are equal up
to a renaming of these identities stay equal up to a renaming, step by step: identities are only ever compared for
equality, so that all depends on which references go to the same object, and on nothing else.

* `Renaming.Within`: a renaming that says more.
* `State.Renamed`, `Engine.Renamed`: machines that are equal up to a renaming.
* `Renaming.ahead`: the renaming for all times, which includes the objects that are still to be created.
* `HostCall.Loads`, `HostProgram.IgnoresIdentities`: loaders that only load, and that do not look at identities.
* `Engine.identities_unobservable`: steps and runs.
-/

namespace ScriptMachine

namespace Renaming

variable {ρ ρ' : Renaming} {x y : Item} {xs ys : List Item} {c d : Cell}

/-! ## Renamings that say more -/

/-- What corresponds under the first renaming corresponds under the second one. -/
structure Within (ρ ρ' : Renaming) : Prop where
  /-- Containers. -/
  cell : ∀ a b, ρ.cell a b → ρ'.cell a b
  /-- Byte strings and handles. -/
  leaf : ∀ i j, ρ.leaf i j → ρ'.leaf i j

/-- A renaming says no more than itself. -/
theorem Within.refl (ρ : Renaming) : ρ.Within ρ := ⟨fun _ _ h => h, fun _ _ h => h⟩

/-- The same items are still the same. -/
theorem SameItem.mono (hle : ρ.Within ρ') (hx : ρ.SameItem x y) : ρ'.SameItem x y := by
  cases hx with
  | boolean v => exact .boolean v
  | integer v => exact .integer v
  | bytes h d => exact .bytes (hle.leaf _ _ h) d
  | interop h d => exact .interop (hle.leaf _ _ h) d
  | array h => exact .array (hle.cell _ _ h)
  | struct h => exact .struct (hle.cell _ _ h)
  | map h => exact .map (hle.cell _ _ h)

/-- The same lists are still the same. -/
theorem SameItems.mono (hle : ρ.Within ρ') (hxs : ρ.SameItems xs ys) : ρ'.SameItems xs ys :=
  hxs.imp fun _ _ hx => hx.mono hle

/-- The same containers are still the same. -/
theorem SameCell.mono (hle : ρ.Within ρ') (hcell : ρ.SameCell c d) : ρ'.SameCell c d := by
  cases hcell with
  | list h => exact .list (SameItems.mono hle h)
  | map h => exact .map (h.imp fun _ _ hentry => ⟨hentry.1.mono hle, hentry.2.mono hle⟩)

/-- The renaming of one container. -/
def single (a b : Nat) : Renaming where
  cell c d := c = a ∧ d = b
  leaf _ _ := False
  cell_unique := by
    rintro _ _ _ _ ⟨rfl, rfl⟩ ⟨rfl, rfl⟩
    exact ⟨fun _ => rfl, fun _ => rfl⟩
  leaf_unique := False.elim

/-- The renaming as a comparison of two machines that run the same scripts and have the same faults. -/
def matching (ρ : Renaming) (past past' : List Event) (loader : Option ScriptLoader) : Matching where
  toRenaming := ρ
  script := Eq
  faults := True
  past := past
  past' := past'
  loader := loader
  script_prefix := by
    rintro a _ rfl
    exact ⟨#[], (Array.append_empty).symm⟩
  script_exact := by
    rintro - a _ rfl
    rfl

/-- The renaming that also relates the objects that are created next, in the order of their creation. -/
def ahead (ρ : Renaming) (h k : Heap)
    (hcell : ∀ a b, ρ.cell a b → h.size ≤ a ∨ k.size ≤ b → b + h.size = a + k.size)
    (hleaf : ∀ i j, ρ.leaf i j → h.leaves ≤ i ∨ k.leaves ≤ j → j + h.leaves = i + k.leaves) : Renaming where
  cell a b := ρ.cell a b ∨ ∃ n, a = h.size + n ∧ b = k.size + n
  leaf i j := ρ.leaf i j ∨ ∃ n, i = h.leaves + n ∧ j = k.leaves + n
  cell_unique := by
    rintro a b a' b' (hab | ⟨n, rfl, rfl⟩) (hab' | ⟨n', rfl, rfl⟩)
    · exact ρ.cell_unique hab hab'
    · have := hcell a b hab
      omega
    · have := hcell a' b' hab'
      omega
    · omega
  leaf_unique := by
    rintro i j i' j' (hij | ⟨n, rfl, rfl⟩) (hij' | ⟨n', rfl, rfl⟩)
    · exact ρ.leaf_unique hij hij'
    · have := hleaf i j hij
      omega
    · have := hleaf i' j' hij'
      omega
    · omega

/-- The same frames are still the same. -/
theorem sameFrame_mono (hle : ρ.Within ρ') {past past' now now' : List Event} {loader loader' : Option ScriptLoader}
    {f g : Frame}
    (hf : (ρ.matching past past' loader).SameFrame f g) : (ρ'.matching now now' loader').SameFrame f g :=
  ⟨hf.script, hf.cursor, hf.returnCount, SameItems.mono hle hf.eval, SameItems.mono hle hf.alt⟩

end Renaming

/-! ## Machines that are equal up to a renaming -/

/-- **Two states that are equal up to a renaming of their objects.** It relates at least the objects that are live. Of
the identities that are not in use yet it may say that they correspond, but only in the order of their use. -/
structure State.Renamed (ρ : Renaming) (s t : State) : Prop where
  /-- All but the objects is equal: the frames, the gas, the bounds, the loaded scripts and so on. -/
  data : (ρ.matching s.journal t.journal none).SameData s t
  /-- Containers that correspond have the same content. -/
  cells : ∀ a b, ρ.cell a b → Option.Rel ρ.SameCell s.heap.cells[a]? t.heap.cells[b]?
  /-- Containers still to be created correspond in their order. -/
  cellOrder : ∀ a b, ρ.cell a b → s.heap.size ≤ a ∨ t.heap.size ≤ b → b + s.heap.size = a + t.heap.size
  /-- Byte strings and handles still to be created correspond in their order. -/
  leafOrder : ∀ i j, ρ.leaf i j → s.heap.leaves ≤ i ∨ t.heap.leaves ≤ j → j + s.heap.leaves = i + t.heap.leaves
  /-- The live containers of the first state have counterparts. -/
  live : ∀ a, (s.heap.live s.roots).getD a false = true → ∃ b, ρ.cell a b
  /-- The live containers of the second state have counterparts. -/
  live' : ∀ b, (t.heap.live t.roots).getD b false = true → ∃ a, ρ.cell a b
  /-- The containers that the first state remembers exist, or have counterparts. -/
  tracked : ∀ a ∈ s.session.tracker.entries, a < s.heap.size ∨ ∃ b, ρ.cell a b
  /-- The containers that the second state remembers exist, or have counterparts. -/
  tracked' : ∀ b ∈ t.session.tracker.entries, b < t.heap.size ∨ ∃ a, ρ.cell a b

/-- **Two machines that are equal up to a renaming**, with the same host. -/
structure Engine.Renamed (ρ : Renaming) (e e' : Engine) : Prop where
  /-- The states. -/
  state : e.state.Renamed ρ e'.state
  /-- The host is the same. -/
  host : e' = { e with state := e'.state }

namespace Renaming

variable {ρ : Renaming} {s t : State} {past past' : List Event} {loader : Option ScriptLoader}

/-- What corresponds among the numbers still to come corresponds in their order. -/
theorem order_of_next {R : Nat → Nat → Prop} {m m' a b : Nat}
    (hunique : ∀ {a b a' b' : Nat}, R a b → R a' b' → (a = a' ↔ b = b')) (hnext : ∀ n, R (m + n) (m' + n))
    (hab : R a b) (h : m ≤ a ∨ m' ≤ b) : b + m = a + m' := by
  rcases h with h | h
  · obtain ⟨n, rfl⟩ := Nat.exists_eq_add_of_le h
    have := (hunique hab (hnext n)).1 rfl
    omega
  · obtain ⟨n, rfl⟩ := Nat.exists_eq_add_of_le h
    have := (hunique hab (hnext n)).2 rfl
    omega

/-- A number is in use, or still to come. -/
theorem lt_or_next {R : Nat → Prop} {m : Nat} (hnext : ∀ n, R (m + n)) (a : Nat) : a < m ∨ R a := by
  rcases Nat.lt_or_ge a m with hlt | hge
  · exact Or.inl hlt
  · obtain ⟨n, rfl⟩ := Nat.exists_eq_add_of_le hge
    exact Or.inr (hnext n)

/-- **States that are compared are equal up to the renaming.** -/
theorem renamed_of_sameState (h : (ρ.matching past past' loader).SameState s t) : s.Renamed ρ t where
  data := { h.toSameData with
    journal := ⟨[], rfl, rfl⟩
    frames := h.frames.imp fun _ _ hf => sameFrame_mono (.refl ρ) hf }
  cells := h.heap.cells
  cellOrder _ _ := order_of_next ρ.cell_unique h.heap.nextCell
  leafOrder _ _ := order_of_next ρ.leaf_unique h.heap.nextLeaf
  live _ := h.heap.known_of_live h.roots
  live' _ := h.heap.symm.known_of_live (SameItems.symm h.roots)
  tracked a _ := lt_or_next (R := fun a => ∃ b, ρ.cell a b) (fun n => ⟨_, h.heap.nextCell n⟩) a
  tracked' b _ := lt_or_next (R := fun b => ∃ a, ρ.cell a b) (fun n => ⟨_, h.heap.nextCell n⟩) b

/-- A renaming is part of the one for all times. -/
theorem within_ahead (h : s.Renamed ρ t) : ρ.Within (ρ.ahead s.heap t.heap h.cellOrder h.leafOrder) :=
  ⟨fun _ _ => Or.inl, fun _ _ => Or.inl⟩

/-- The heaps of states that are equal up to a renaming are the same under the renaming for all times. -/
theorem sameHeap_of_renamed (h : s.Renamed ρ t) :
    (ρ.ahead s.heap t.heap h.cellOrder h.leafOrder).SameHeap s.heap t.heap where
  cells := by
    rintro a b (hab | ⟨n, rfl, rfl⟩)
    · have hrel := h.cells a b hab
      revert hrel
      rcases s.heap.cells[a]? with _ | c <;> rcases t.heap.cells[b]? with _ | d <;> rintro ⟨⟩
      · exact .none
      · exact .some (SameCell.mono (within_ahead h) (by assumption))
    · have hnone : s.heap.cells[s.heap.size + n]? = none := Array.getElem?_eq_none (Nat.le_add_right _ n)
      have hnone' : t.heap.cells[t.heap.size + n]? = none := Array.getElem?_eq_none (Nat.le_add_right _ n)
      rw [hnone, hnone']
      exact .none
  nextCell n := Or.inr ⟨n, rfl, rfl⟩
  nextLeaf n := Or.inr ⟨n, rfl, rfl⟩
  grounded := .of_live fun a ha => (h.live a ha).imp fun _ => Or.inl
  grounded' := .of_live fun b hb => (h.live' b hb).imp fun _ => Or.inl

/-- The same containers are remembered under the renaming for all times. -/
theorem sameTracker_of_renamed (h : s.Renamed ρ t) :
    (ρ.ahead s.heap t.heap h.cellOrder h.leafOrder).SameTracker s.session.tracker t.session.tracker := by
  -- A container that is in use and has no counterpart gets none.
  have hunknown : ∀ a < s.heap.size, (¬ ∃ b, ρ.cell a b) →
      ¬ ∃ b, (ρ.ahead s.heap t.heap h.cellOrder h.leafOrder).cell a b := by
    rintro a ha hnot ⟨b, hab | ⟨n, rfl, -⟩⟩
    · exact hnot ⟨b, hab⟩
    · omega
  have hunknown' : ∀ b < t.heap.size, (¬ ∃ a, ρ.cell a b) →
      ¬ ∃ a, (ρ.ahead s.heap t.heap h.cellOrder h.leafOrder).cell a b := by
    rintro b hb hnot ⟨a, hab | ⟨n, -, rfl⟩⟩
    · exact hnot ⟨a, hab⟩
    · omega
  refine ⟨?_, h.data.tracker.pruneAt⟩
  have hboth := (List.forall₂_and_left _ _).2 ⟨h.tracked, h.data.tracker.entries⟩
  have hboth' := (List.forall₂_and_left _ _).2 ⟨h.tracked', hboth.flip⟩
  refine hboth'.flip.imp fun a b hentry => ?_
  obtain ⟨hb, ha, hab⟩ := hentry
  exact hab.imp Or.inl fun hnot =>
    ⟨hunknown a (ha.resolve_right hnot.1) hnot.1, hunknown' b (hb.resolve_right hnot.2) hnot.2⟩

/-- **States that are equal up to a renaming can be compared**, under the renaming for all times. -/
theorem sameState_of_renamed (h : s.Renamed ρ t) (loader : Option ScriptLoader) :
    ((ρ.ahead s.heap t.heap h.cellOrder h.leafOrder).matching s.journal t.journal loader).SameState s t :=
  { h.data with
    kept := h.data.kept.imp fun _ _ hentry => ⟨hentry.1, hentry.2.mono (within_ahead h)⟩
    frames := h.data.frames.imp fun _ _ hf => sameFrame_mono (within_ahead h) hf
    results := SameItems.mono (within_ahead h) h.data.results
    tracker := sameTracker_of_renamed h
    heap := sameHeap_of_renamed h }

/-! ## Loading scripts -/

/-- The loaded scripts are the same. -/
theorem scripts_eq (h : (ρ.matching past past' loader).SameState s t) : t.session.scripts = s.session.scripts := by
  have hscripts : List.Forall₂ Eq s.session.scripts.toList t.session.scripts.toList := h.scripts
  rw [List.forall₂_eq_eq_eq, Array.toList_inj] at hscripts
  exact hscripts.symm

/-- A frame for a loaded script is pushed on both machines, or on neither. -/
theorem loadCached_same (h : (ρ.matching past past' loader).SameState s t) (index : Nat) (returnCount : Int) :
    (t.loadCached index returnCount).1 = (s.loadCached index returnCount).1 ∧
      (ρ.matching past past' loader).SameState (s.loadCached index returnCount).2
        (t.loadCached index returnCount).2 := by
  have hlength : t.session.calls.frames.length = s.session.calls.frames.length := h.frames.length_eq.symm
  unfold State.loadCached
  rw [scripts_eq h]
  cases s.session.scripts[index]? with
  | none => exact ⟨rfl, h⟩
  | some script =>
    unfold CallStack.push
    dsimp only
    rw [hlength, h.maxDepth]
    by_cases hroom : s.session.calls.frames.length < s.session.calls.maxDepth
    · rw [if_pos hroom, if_pos hroom]
      exact ⟨rfl, { h with frames := .cons ⟨rfl, rfl, rfl, .nil, .nil⟩ h.frames, maxDepth := rfl }⟩
    · rw [if_neg hroom, if_neg hroom]
      exact ⟨rfl, h⟩

/-- The place of a script is the same. -/
theorem scriptIndex?_same (h : (ρ.matching past past' loader).SameState s t) (hash : Bytes) :
    t.scriptIndex? hash = s.scriptIndex? hash := by
  unfold State.scriptIndex?
  rw [scripts_eq h]

/-- Loading a script does the same. -/
theorem loadScript_same (h : (ρ.matching past past' loader).SameState s t) (body : Bytes) (returnCount : Int) :
    (t.loadScript body returnCount).1 = (s.loadScript body returnCount).1 ∧
      (ρ.matching past past' loader).SameState (s.loadScript body returnCount).2 (t.loadScript body returnCount).2 := by
  have hcached : (t.cacheScript body).1 = (s.cacheScript body).1 ∧
      (ρ.matching past past' loader).SameState (s.cacheScript body).2 (t.cacheScript body).2 := by
    unfold State.cacheScript
    rw [h.crypto, scriptIndex?_same h, scripts_eq h]
    cases s.scriptIndex? (Script.of s.crypto body).hash with
    | some index => exact ⟨rfl, h⟩
    | none => exact ⟨rfl, { h with crypto := rfl, scripts := List.forall₂_same.2 fun _ _ => rfl }⟩
  obtain ⟨hindex, hstate⟩ := hcached
  obtain ⟨hresult, hloaded⟩ := loadCached_same hstate (s.cacheScript body).1 returnCount
  rw [State.loadScript_eq, State.loadScript_eq, hindex]
  revert hresult hloaded
  rcases (s.cacheScript body).2.loadCached (s.cacheScript body).1 returnCount with ⟨_ | _, _⟩ <;>
    rcases (t.cacheScript body).2.loadCached (s.cacheScript body).1 returnCount with ⟨_ | _, _⟩ <;>
      rintro ⟨⟩ hloaded <;> exact ⟨rfl, hloaded⟩

end Renaming

/-! ## The host -/

/-- The requests of a loader: it loads scripts, and it pushes frames for loaded ones. Notes in the journal are no business
of the machine. -/
def HostCall.Loads : HostCall → Prop
  | .loadScript _ _ => True
  | .loadCached _ _ => True
  | .note _ => True
  | _ => False

/-- The callback does not look at identities: what it does next when it looks at the machine is the same for states that
are equal up to a renaming. -/
def HostProgram.IgnoresIdentities : HostProgram → Prop
  | .answer _ => True
  | .request _ next => ∀ reply, (next reply).IgnoresIdentities
  | .inspect next => (∀ s, (next s).IgnoresIdentities) ∧ ∀ ρ s t, s.Renamed ρ t → next s = next t
  | .step next => ∀ status, (next status).IgnoresIdentities
  | .setInterop handler next => (∀ name, (handler name).IgnoresIdentities) ∧ next.IgnoresIdentities

namespace Renaming

open Matches Engine

variable {ρ : Renaming} {past past' : List Event} {loader : Option ScriptLoader} {e e' : Engine}
  {nested : Engine → Engine}

/-- **A callback that only loads scripts and does not look at identities** does the same. -/
theorem runProgram_same (nested : Engine → Engine) {program : HostProgram} (hloads : program.Makes HostCall.Loads False)
    (hblind : program.IgnoresIdentities)
    (h : (ρ.matching past past' loader).SameState e.state e'.state) :
    ∃ ok s t, runProgram nested program e = (ok, { e with state := s }) ∧
      runProgram nested program e' = (ok, { e' with state := t }) ∧ (ρ.matching past past' loader).SameState s t := by
  induction program generalizing e e' with
  | answer ok => exact ⟨ok, e.state, e'.state, rfl, rfl, h⟩
  | request call next ih =>
    obtain ⟨hload, hnext⟩ := hloads
    have hcall : (call.perform e'.state).1 = (call.perform e.state).1 ∧
        (ρ.matching past past' loader).SameState (call.perform e.state).2 (call.perform e'.state).2 := by
      cases call with
      | note text => exact ⟨rfl, h.record _⟩
      | loadScript body returnCount =>
        obtain ⟨hresult, hstate⟩ := loadScript_same h body returnCount
        dsimp only [HostCall.perform]
        revert hresult hstate
        rcases e.state.loadScript body returnCount with ⟨_ | _, _⟩ <;>
          rcases e'.state.loadScript body returnCount with ⟨_ | _, _⟩ <;>
            rintro ⟨⟩ hstate <;> exact ⟨rfl, hstate⟩
      | loadCached index returnCount =>
        obtain ⟨hresult, hstate⟩ := loadCached_same h index returnCount
        dsimp only [HostCall.perform]
        revert hresult hstate
        rcases e.state.loadCached index returnCount with ⟨_ | _, _⟩ <;>
          rcases e'.state.loadCached index returnCount with ⟨_ | _, _⟩ <;>
            rintro ⟨⟩ hstate <;> exact ⟨rfl, hstate⟩
      | _ => exact hload.elim
    unfold runProgram
    dsimp only
    rw [hcall.1]
    exact ih (call.perform e.state).1 (hnext _) (hblind _) hcall.2
  | inspect next ih =>
    have hnext := hblind.2 ρ e.state e'.state (renamed_of_sameState h)
    unfold runProgram
    rw [← hnext]
    exact ih _ (hloads _) (hblind.1 _) h
  | step next ih => exact hloads.1.elim
  | setInterop handler next _ ih => exact hloads.1.elim

variable (hloader : ∀ load, loader = some load → ∀ hash dynamic returnCount,
  (load hash dynamic returnCount).Makes HostCall.Loads False ∧ (load hash dynamic returnCount).IgnoresIdentities)
include hloader

/-- **Pushing a frame for a script by its hash does the same.** -/
theorem loadByHash_same (hash : Bytes) (dynamic : Bool) (returnCount : Int) :
    (ρ.matching past past' loader).OnEngine (loadByHash nested hash dynamic returnCount)
      (loadByHash nested hash dynamic returnCount) Eq := by
  refine reads fun e e' h => ?_
  rw [scriptIndex?_same h.state]
  cases e.state.scriptIndex? hash with
  | some index =>
    obtain ⟨hresult, hstate⟩ := loadCached_same h.state index returnCount
    dsimp only
    rw [hresult]
    exact (writes (h.setState hstate)).seqEq fun _ => resultEq rfl
  | none =>
    have hother : e'.loader = e.loader := by rw [h.same]
    dsimp only
    rw [hother]
    cases hself : e.loader with
    | none => exact throws _
    | some load =>
      -- The loader is taken out while it is asked, and put back afterwards.
      have hload := hloader load (h.loader.symm.trans hself) hash dynamic returnCount
      have hstates : (ρ.matching past past' loader).SameState ({ e with loader := none } : Engine).state
          ({ e' with loader := none } : Engine).state := h.state
      obtain ⟨ok, s, t, hrun, hrun', hstate⟩ := runProgram_same nested hload.1 hload.2 hstates
      dsimp only
      rw [hrun, hrun']
      have hafter : (ρ.matching past past' loader).SameEngine { e with state := s, loader := some load }
          { e' with state := t, loader := some load } := by
        have hput : ({ e with state := s, loader := some load } : Engine) = { e with state := s } := by rw [← hself]
        have hput' : ({ e' with state := t, loader := some load } : Engine) = { e' with state := t } := by
          rw [← hself, ← hother]
        rw [hput, hput']
        exact h.setState hstate
      refine (writes hafter).seqEq fun _ => guarded ?_
      dsimp only
      rw [← hstate.frames.length_eq, ← h.state.frames.length_eq]
      exact branch (fun _ => throws _) fun _ => returns rfl

/-! ## Steps and runs -/

/-- **A step does the same.** -/
theorem step_same (h : (ρ.matching past past' loader).SameEngine e e') :
    (ρ.matching past past' loader).SameEngine e.step e'.step := by
  refine Matching.stepWith_same h fun f outer hrun hframes => ⟨?_, Or.inl trivial⟩
  have hall := h.state.frames
  rw [hframes] at hall
  obtain ⟨g, outer', hf, houter, hframes'⟩ := List.forall₂_cons_left_iff.1 hall
  have hscript : f.script = g.script := hf.script
  have hbyte : g.currentByte? = f.currentByte? := by
    unfold Frame.currentByte?
    rw [hscript, hf.cursor]
  have hfetch : fetch g = fetch f := by
    unfold fetch
    rw [hbyte]
  refine Matching.executeNext_same h hframes hframes' hfetch fun op s t _ _ hst => Matching.carryOut_same ?_
  have hadvanced := Matching.advance_same hf (congrArg Option.isSome hbyte)
  exact Matching.dispatch (h.setState (hst.setFrames (.cons hadvanced houter))) _
    fun _ _ _ => loadByHash_same hloader

/-- **A run does the same.** -/
theorem steps_same (h : (ρ.matching past past' loader).SameEngine e e') (n : Nat) :
    (ρ.matching past past' loader).SameEngine (steps n e) (steps n e') := by
  induction n with
  | zero => exact h
  | succ n ih =>
    rw [steps_succ, steps_succ]
    exact step_same hloader ih

/-- **A whole run does the same**, with the same gas. -/
theorem execute_same (h : (ρ.matching past past' loader).SameEngine e e') (gasLimit : Nat) :
    (ρ.matching past past' loader).SameEngine (e.execute gasLimit) (e'.execute gasLimit) := by
  have hlimited := h.setState (s := e.state.setGasLimit gasLimit) (t := e'.state.setGasLimit gasLimit)
    { h.state with gasLimit := rfl }
  have hbudget : (e'.modifyState (·.setGasLimit gasLimit)).stepBudget =
      (e.modifyState (·.setGasLimit gasLimit)).stepBudget := by
    unfold stepBudget
    rw [show (e'.modifyState (·.setGasLimit gasLimit)).state.session.gasConsumed = _ from hlimited.state.gasConsumed]
    rfl
  have hrun : e.execute gasLimit = _ := stepWhile_true _ _
  have hrun' : e'.execute gasLimit = _ := stepWhile_true _ _
  rw [hbudget] at hrun'
  rw [hrun, hrun']
  exact steps_same hloader hlimited _

omit hloader in
/-- A comparison gives machines that are equal up to the renaming. -/
theorem renamed_of_sameEngine (h : (ρ.matching past past' loader).SameEngine e e') : e.Renamed ρ e' :=
  ⟨renamed_of_sameState h.state, h.same⟩

end Renaming

namespace Engine

variable {ρ : Renaming} {e e' : Engine}

/-- Two machines with the same status, gas, depth, cursors and number of items. -/
structure LooksAlike (e e' : Engine) : Prop where
  /-- The status is the same. -/
  status : e'.status = e.status
  /-- The consumed gas is the same. -/
  gasConsumed : e'.state.session.gasConsumed = e.state.session.gasConsumed
  /-- The number of frames is the same. -/
  depth : e'.depth = e.depth
  /-- The cursors are the same. -/
  cursors : e'.state.frames.map (·.cursor) = e.state.frames.map (·.cursor)
  /-- The number of items is the same. -/
  itemCount : e'.state.itemCount = e.state.itemCount

/-- Machines that are equal up to a renaming look alike. -/
theorem Renamed.looksAlike (h : e.Renamed ρ e') : e.LooksAlike e' := by
  have hdata := h.state.data
  refine ⟨hdata.status, hdata.gasConsumed, hdata.frames.length_eq.symm, ?_, hdata.itemCount⟩
  have hframes := hdata.frames
  revert hframes
  generalize e.state.frames = fs
  generalize e'.state.frames = gs
  intro hframes
  induction hframes with
  | nil => rfl
  | cons hf _ ih => rw [List.map_cons, List.map_cons, hf.cursor, ih]

/-- The machine with scripts loaded, one after the other. -/
def loadAll (e : Engine) (scripts : List (Bytes × Int)) : Engine :=
  scripts.foldl (fun e script => e.modifyState fun s => (s.loadScript script.1 script.2).2) e

/-- Loading the same scripts does the same. -/
theorem loadAll_same {past past' : List Event} {loader : Option ScriptLoader}
    (h : (ρ.matching past past' loader).SameEngine e e') (scripts : List (Bytes × Int)) :
    (ρ.matching past past' loader).SameEngine (e.loadAll scripts) (e'.loadAll scripts) := by
  induction scripts generalizing e e' with
  | nil => exact h
  | cons script scripts ih => exact ih (h.setState (Renaming.loadScript_same h.state script.1 script.2).2)

/-- **Outcomes do not depend on identities.** From two machines that are equal up to a renaming, under a host that at
most loads scripts and does not look at identities, all steps and all runs of the same scripts lead to machines that are
equal up to one renaming, which says more than the first one only of objects that were created meanwhile. The machines
look alike all along, they record the same, and their results are the same. -/
theorem identities_unobservable (hinterop : e.interop = none) (htable : ∀ op run, e.table op ≠ .custom run)
    (hloader : ∀ load, e.loader = some load → ∀ hash dynamic returnCount,
      (load hash dynamic returnCount).Makes HostCall.Loads False ∧ (load hash dynamic returnCount).IgnoresIdentities)
    (h : e.Renamed ρ e') :
    ∃ ρ' : Renaming, ρ.Within ρ' ∧
      (∀ a b, ρ'.cell a b → ρ.cell a b ∨ e.state.heap.size ≤ a ∧ e'.state.heap.size ≤ b) ∧
      (∀ i j, ρ'.leaf i j → ρ.leaf i j ∨ e.state.heap.leaves ≤ i ∧ e'.state.heap.leaves ≤ j) ∧
      (∀ n, (steps n e).Renamed ρ' (steps n e') ∧ (steps n e).LooksAlike (steps n e') ∧
        ∃ events, (steps n e).state.journal = events ++ e.state.journal ∧
          (steps n e').state.journal = events ++ e'.state.journal) ∧
      ∀ scripts gasLimit, ((e.loadAll scripts).execute gasLimit).Renamed ρ' ((e'.loadAll scripts).execute gasLimit) ∧
        ((e.loadAll scripts).execute gasLimit).LooksAlike ((e'.loadAll scripts).execute gasLimit) ∧
        ρ'.SameItems ((e.loadAll scripts).execute gasLimit).state.session.results
          ((e'.loadAll scripts).execute gasLimit).state.session.results := by
  have hstart : ((ρ.ahead e.state.heap e'.state.heap h.state.cellOrder h.state.leafOrder).matching e.state.journal
      e'.state.journal e.loader).SameEngine e e' :=
    ⟨Renaming.sameState_of_renamed h.state e.loader, h.host, hinterop, rfl, htable⟩
  refine ⟨ρ.ahead e.state.heap e'.state.heap h.state.cellOrder h.state.leafOrder, Renaming.within_ahead h.state,
    ?_, ?_, fun n => ?_, fun scripts gasLimit => ?_⟩
  · rintro a b (hab | ⟨n, rfl, rfl⟩)
    · exact Or.inl hab
    · exact Or.inr ⟨Nat.le_add_right _ n, Nat.le_add_right _ n⟩
  · rintro i j (hij | ⟨n, rfl, rfl⟩)
    · exact Or.inl hij
    · exact Or.inr ⟨Nat.le_add_right _ n, Nat.le_add_right _ n⟩
  · have hsame := Renaming.steps_same hloader hstart n
    have hrenamed := Renaming.renamed_of_sameEngine hsame
    exact ⟨hrenamed, hrenamed.looksAlike, hsame.state.journal⟩
  · have hsame := Renaming.execute_same hloader (loadAll_same hstart scripts) gasLimit
    have hrenamed := Renaming.renamed_of_sameEngine hsame
    exact ⟨hrenamed, hrenamed.looksAlike, hsame.state.results⟩

/-- Two machines that compare an array with itself, in a script that a loader supplies; the second one has created a map
before, which nothing refers to any more. -/
theorem identities_unobservable_garbage :
    let digests : CryptoSuite :=
      { sha1 := fun _ => #[], sha256 := fun _ => #[], hash160 := fun body => body.extract 0 1 ++ Array.replicate 19 1
        hash256 := fun _ => #[], verify := fun _ _ _ => false }
    let script := Script.of digests (#[0x67] ++ Array.replicate 20 1)
    let machine (array : Nat) (cells : Array Cell) : Engine :=
      { state := { State.new .default digests with
          heap := { cells }
          session := { (Session.start .default 0) with
            calls := { frames := [{ script, eval := [.array array, .array array] }], maxDepth := 1024 }
            scripts := #[script] } }
        loader := some fun _ _ returnCount => .request (.loadScript #[0x87] returnCount) fun _ => .answer true }
    let first := machine 0 #[.list []]
    let second := machine 1 #[.map [], .list []]
    ((∃ ρ, first.Renamed ρ second) ∧ (first.execute 100).state.session.results = [.boolean true]) ∧
    (first.execute 100).LooksAlike (second.execute 100) ∧
    (second.execute 100).state.session.results = [.boolean true] := by
  intro digests script machine first second
  have hlive : first.state.heap.live first.state.roots = #[true] := by decide +kernel
  have hlive' : second.state.heap.live second.state.roots = #[false, true] := by decide +kernel
  have harray : (Renaming.single 0 1).SameItem (.array 0) (.array 1) := .array ⟨rfl, rfl⟩
  have hrenamed : first.Renamed (.single 0 1) second := by
    refine ⟨⟨?_, ?_, ?_, fun _ _ h => h.elim, ?_, ?_, ?_, ?_⟩, rfl⟩
    · exact ⟨rfl, rfl, rfl, ⟨[], rfl, rfl⟩, .nil, rfl, rfl, rfl, rfl, rfl, List.forall₂_same.2 fun _ _ => rfl,
        .cons ⟨rfl, rfl, rfl, .cons harray (.cons harray .nil), .nil⟩ .nil, .nil, .nil, rfl⟩
    · rintro _ _ ⟨rfl, rfl⟩
      exact .some (.list .nil)
    · rintro _ _ ⟨rfl, rfl⟩ h
      rcases h with h | h
      · exact absurd h (by decide)
      · exact absurd h (by decide)
    · rw [hlive]
      rintro (_ | a) ha
      · exact ⟨1, rfl, rfl⟩
      · cases ha
    · rw [hlive']
      rintro (_ | _ | b) hb
      · cases hb
      · exact ⟨0, rfl, rfl⟩
      · cases hb
    · exact fun _ h => absurd h List.not_mem_nil
    · exact fun _ h => absurd h List.not_mem_nil
  have hresult : (first.execute 100).state.session.results = [.boolean true] := by decide +kernel
  have hloads : ∀ load, first.loader = some load → ∀ hash dynamic returnCount,
      (load hash dynamic returnCount).Makes HostCall.Loads False ∧ (load hash dynamic returnCount).IgnoresIdentities := by
    rintro _ ⟨⟩ hash dynamic returnCount
    exact ⟨⟨trivial, fun _ => trivial⟩, fun _ => trivial⟩
  obtain ⟨ρ', -, -, -, -, hruns⟩ := identities_unobservable rfl (fun _ _ h => by cases h) hloads hrenamed
  have hnone : first.loadAll [] = first := rfl
  have hnone' : second.loadAll [] = second := rfl
  obtain ⟨-, hlooks, hresults⟩ := hruns [] 100
  rw [hnone, hnone'] at hlooks hresults
  rw [hresult] at hresults
  refine ⟨⟨⟨_, hrenamed⟩, hresult⟩, hlooks, ?_⟩
  obtain ⟨y, ys, hy, hys, hlist⟩ := List.forall₂_cons_left_iff.1 hresults
  rw [hlist, List.forall₂_nil_left_iff.1 hys]
  cases hy
  rfl

end Engine

end ScriptMachine
