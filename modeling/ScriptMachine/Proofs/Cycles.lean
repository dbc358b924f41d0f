import ScriptMachine.Proofs.Nesting
import ScriptMachine.Proofs.ResourceBounds

/-! # No ring survives its session

Calls and returns move items between frames, so that all instructions keep a machine tidy, and with them every
step of a machine whose host only loads scripts. In each state that is reached all rings of containers are
therefore covered by the tracker; when the session ends, the tracked containers on rings are emptied, which
breaks all rings, and all other containers keep their content.

* `Instructions.pushFrame_tidy`, and `Neat` for `call`, `callIsolated`, `moveArguments` and `ret`: frames.
* `Engine.Tidied`, `Engine.Tidied.step`: steps.
* `Engine.no_ring_survives`: the end of the session.
-/

namespace ScriptMachine

open Neat

variable {α : Type} {held : List Item} {s s₀ : State} {fs : List Frame}

/-! ## Calls and returns -/

namespace Instructions

open Exec

/-- Pushing a frame of held items. -/
theorem pushFrame_tidy {f : Frame} (hf : ∀ x ∈ f.eval ++ f.alt, x ∈ held) :
    Leads (Tidy held) (pushFrame f) (fun _ => Tidy held) (Tidy []) := by
  unfold pushFrame
  refine Leads.reads fun s hs => ?_
  unfold CallStack.push
  split
  · refine Leads.writes fun _ _ => ?_
    refine hs.setFrames (f :: s.frames) (fun _ => known_of_mem_held) ?_
    exact List.forall_mem_cons.2 ⟨fun x hx => known_of_mem_held (hf x hx), fun g hg x hx => known_of_mem_frames hg hx⟩
  · exact Leads.throws fun _ h => h ▸ hs.dropAll

/-- A call takes the items of the callee from the caller. -/
theorem callee_tidy {m : FrameM Frame} (hm : ∀ {ok : Item → Prop} {f₀ : Frame},
      Keeps (FrameChange ok f₀) m (fun callee => ∀ x ∈ callee.eval ++ callee.alt, ok x)) :
    Leads (Tidy held) (Exec.onFrame m) (fun callee => Tidy ((callee.eval ++ callee.alt) ++ held)) (Tidy []) :=
  (onFrame_tidy (Q := fun _ => True) (C := fun callee => callee.eval ++ callee.alt)
    fun _ _ _ _ => hm.weaken fun _ h => ⟨trivial, h⟩).ends (fun _ _ h => h.2) fun _ h => h

instance (i : Instruction) : Neat (call i) := by
  refine ⟨fun held => (callee_tidy ?_).seq fun callee => forgets ?_⟩
  · intro ok f₀
    refine (Frame.setCursor_keeps _).seq fun _ _ => Frame.evalDepth_keeps.seq fun n _ => ?_
    refine (Frame.takeTop_keeps n).seq fun eval heval => Keeps.reads.seq fun f _ => Keeps.returns ?_
    rw [List.append_nil]
    exact heval.2
  · exact (pushFrame_tidy fun x hx => List.mem_append_left _ hx).seq fun _ => leads _

instance (i : Instruction) : Neat (callIsolated i) := by
  refine ⟨fun held => (callee_tidy ?_).seq fun callee => forgets ?_⟩
  · intro ok f₀
    refine (Frame.readNat_keeps 1).seq fun returnCount _ => (Frame.readNat_keeps 1).seq fun count _ => ?_
    refine (readTarget_keeps _).seq fun target _ => (Frame.takeTop_keeps count).seq fun eval heval => ?_
    refine Keeps.reads.seq fun f _ => Keeps.returns ?_
    rw [List.append_nil]
    exact heval.2
  · exact pushFrame_tidy fun x hx => List.mem_append_left _ hx

instance (count : Option Nat) : Neat (moveArguments count) := by
  refine ⟨fun held => Leads.reads fun s hs => ?_⟩
  split
  · rename_i callee caller rest hframes
    have hknown : ∀ f ∈ callee :: caller :: rest, ∀ x ∈ f.eval ++ f.alt, Known held s x :=
      fun f hf x hx => known_of_mem_frames (hframes ▸ hf) hx
    obtain ⟨hcallee, hcaller, hrest⟩ := by simpa only [List.forall_mem_cons] using hknown
    unfold Stack.split
    split
    · refine Leads.writes fun _ _ => hs.setFrames _ (fun _ => known_of_mem_held) ?_
      simp only [List.forall_mem_cons]
      refine ⟨fun x hx => ?_, fun x hx => ?_, hrest⟩
      · simp only [Stack.pushAll, List.mem_append] at hx hcallee hcaller
        rcases hx with (hx | hx) | hx
        · exact hcaller x (Or.inl ((List.take_sublist _ _).mem hx))
        · exact hcallee x (Or.inl hx)
        · exact hcallee x (Or.inr hx)
      · simp only [List.mem_append] at hx hcaller
        exact hcaller x (hx.imp_left fun hx => (List.drop_sublist _ _).mem hx)
    · exact Leads.throws fun _ h => h ▸ hs.dropAll
  · exact Leads.throws fun _ h => h ▸ hs.dropAll

instance : Neat dropCaller := by
  refine ⟨fun held => Leads.updates fun s hs => ?_⟩
  refine hs.setFrames (s.frames.eraseIdx 1) (fun _ => known_of_mem_held) fun f hf x hx => ?_
  exact known_of_mem_frames ((List.eraseIdx_sublist _ _).mem hf) hx

instance : Neat ret := by
  refine ⟨fun held => Leads.reads fun s hs => ?_⟩
  split
  · exact Leads.throws fun _ h => h ▸ hs.dropAll
  · rename_i f rest hframes
    have hknown : ∀ g ∈ f :: rest, ∀ x ∈ g.eval ++ g.alt, Known held s x :=
      fun g hg x hx => known_of_mem_frames (hframes ▸ hg) hx
    obtain ⟨hf, hrest⟩ := List.forall_mem_cons.1 hknown
    have hpopped : Tidy held (s.setFrames rest) := hs.setFrames _ (fun _ => known_of_mem_held) hrest
    refine Leads.seq (A := fun _ t => t = s.setFrames rest) (Leads.writes fun _ _ => rfl) fun _ => ?_
    refine Leads.seq (A := fun _ t => t = s.setFrames rest) (Leads.result (fun _ _ _ h => h) ?_) fun _ => ?_
    · exact fun _ h => h ▸ hpopped.dropAll
    · split
      · -- The last frame leaves its items to the results.
        refine Leads.writes fun _ _ => hs.moved rfl rfl rfl (fun _ => known_of_mem_held) fun x hx => ?_
        rcases State.mem_stackItems.1 hx with hx | ⟨g, hg, -⟩
        · rcases List.mem_append.1 hx with hx | hx
          · exact hf x (List.mem_append_left _ hx)
          · exact known_of_mem_results hx
        · exact absurd hg List.not_mem_nil
      · rename_i caller outer
        obtain ⟨hcaller, houter⟩ := List.forall_mem_cons.1 hrest
        refine Leads.writes fun _ _ => hs.setFrames _ (fun _ => known_of_mem_held)
          (List.forall_mem_cons.2 ⟨fun x hx => ?_, houter⟩)
        rcases List.mem_append.1 hx with hx | hx
        · rcases List.mem_append.1 hx with hx | hx
          · exact hf x (List.mem_append_left _ hx)
          · exact hcaller x (List.mem_append_left _ hx)
        · split at hx
          · rcases List.mem_append.1 hx with hx | hx
            · exact hf x (List.mem_append_right _ hx)
            · exact hcaller x (List.mem_append_right _ hx)
          · exact hcaller x (List.mem_append_right _ hx)

end Instructions

/-! ## Steps -/

/-- Loading scripts pushes frames without items. -/
theorem Loaded.tidy (h : Loaded s₀ s₀.frames s) (hs₀ : Tidy held s₀) : Tidy held s := by
  obtain ⟨pushed, hs, hfresh, -⟩ := h
  have hframes := hs.frames
  refine hs₀.moved (by rw [hs]) (by rw [hs]) (by rw [hs]) (fun _ => known_of_mem_held) fun x hx => ?_
  rcases State.mem_stackItems.1 hx with hx | ⟨f, hf, hx⟩
  · rw [hs] at hx
    exact known_of_mem_results hx
  · rw [hframes] at hf
    rcases List.mem_append.1 hf with hf | hf
    · rw [(hfresh f hf).eval, (hfresh f hf).alt] at hx
      exact absurd hx List.not_mem_nil
    · exact known_of_mem_frames hf hx

namespace Engine

/-- A tidy machine with a host that only loads scripts. -/
structure Tidied (e : Engine) : Prop where
  /-- The host. -/
  host : e.HostOnlyLoads
  /-- The state. -/
  tidy : Tidy [] e.state

variable {e : Engine} {nested : Engine → Engine}

/-- Another tidy state. -/
theorem Tidied.setState (he : e.Tidied) (hs : Tidy [] s) : ({ e with state := s } : Engine).Tidied :=
  ⟨⟨he.host.table, he.host.interop, he.host.loader⟩, hs⟩

/-- A computation of the state, run on an engine. -/
theorem onState_tidied (m : Exec α) [hm : Neat m] : Keeps Tidied (onState m) (fun _ => True) := by
  intro e he
  have hrun := hm.leads [] e.state he.tidy
  rw [run_onState]
  revert hrun
  rcases m.run e.state with ⟨_ | _, s⟩
  · exact fun hs => ⟨he.setState hs, fun _ _ => trivial⟩
  · exact fun hs => ⟨he.setState hs, fun _ _ => trivial⟩

/-- A computation of the innermost frame, run on an engine. -/
theorem onFrame_tidied (m : FrameM α) [Moves m] : Keeps Tidied (onFrame m) (fun _ => True) :=
  onState_tidied (Exec.onFrame m)

/-- A computation of the innermost frame that depends on the bounds, run on an engine. -/
theorem onFrameWithin_tidied (m : Limits → FrameM α) [∀ l, Moves (m l)] :
    Keeps Tidied (onFrameWithin m) (fun _ => True) :=
  Keeps.reads.seq fun _ _ => onFrame_tidied _

/-- Pushing a frame for a script by its hash. -/
theorem loadByHash_tidied (hash : Bytes) (dynamic : Bool) (returnCount : Int) :
    Keeps Tidied (loadByHash nested hash dynamic returnCount) (fun _ => True) := by
  intro e he
  obtain ⟨⟨s, hs, htidy⟩, -⟩ := loadByHash_keeps he.host.loader (fun _ _ hload hs => hload.tidy hs) nested hash
    dynamic returnCount e ⟨e.state, rfl, he.tidy⟩
  rw [hs]
  exact ⟨he.setState htidy, fun _ _ => trivial⟩

/-- **Every opcode keeps a machine tidy.** -/
theorem perform_tidied (nested : Engine → Engine) (op : OpCode) (i : Instruction) :
    Keeps Tidied (perform nested op i) (fun _ => True) := by
  have htail : ∀ {c : Prop} [Decidable c], Keeps Tidied
      (if c then onState Instructions.dropCaller else pure ()) (fun _ => True) :=
    Keeps.branch (fun _ => onState_tidied _) (fun _ => Keeps.returns trivial)
  unfold perform
  cases op with
  | nop => exact Keeps.returns trivial
  | appCall | tailCall =>
    refine (onFrame_tidied _).seq fun r _ => (loadByHash_tidied _ _ _).seq fun _ _ => ?_
    exact (onState_tidied _).seq fun _ _ => htail
  | callE | callED | callET | callEDT =>
    unfold callExternal
    dsimp only
    refine (onFrame_tidied _).seq fun r _ => (loadByHash_tidied _ _ _).seq fun _ _ => ?_
    exact (onState_tidied _).seq fun _ _ => htail
  | sysCall =>
    refine (onFrameWithin_tidied _).seq fun name _ => Keeps.reads.seq fun e he => ?_
    -- Nobody offers services.
    rw [he.host.interop]
    exact Keeps.throws _
  | jmp | jmpIf | jmpIfNot => exact onFrame_tidied _
  | dupFromAltStack | toAltStack | fromAltStack | xdrop | xswap | xtuck => exact onFrame_tidied _
  | depth | drop | dup | nip | «over» | pick | roll | rot | swap | tuck => exact onFrame_tidied _
  | not | boolAnd | boolOr => exact onFrame_tidied _
  | invert | and | or | xor | inc | dec | sign | negate | abs | nz => exact onFrameWithin_tidied _
  | add | sub | mul | div | mod | shl | shr | min | max | within => exact onFrameWithin_tidied _
  | numEqual | numNotEqual | lt | gt | lte | gte => exact onFrameWithin_tidied _
  | _ => exact onState_tidied _

/-- Carrying out an instruction keeps a machine tidy. -/
theorem Tidied.carryOut (he : e.Tidied) (i : Instruction) : (carryOut nested i e).2.Tidied := by
  have hrun := (perform_tidied nested i.op i e he).1
  rw [← run_dispatch nested i he.host.table] at hrun
  unfold Engine.carryOut
  revert hrun
  rcases (dispatch nested i).run e with ⟨_ | _, e'⟩
  · exact fun hrun => hrun.setState ⟨hrun.tidy.closed, hrun.tidy.held, hrun.tidy.roots, hrun.tidy.covers⟩
  · exact id

/-- What is said at the end of a step changes nothing. -/
theorem Tidied.sameData (he : e.Tidied) (hs : SameData e.state s) : ({ e with state := s } : Engine).Tidied := by
  refine he.setState ?_
  rw [hs]
  exact ⟨he.tidy.closed, he.tidy.held, he.tidy.roots, he.tidy.covers⟩

/-- **A step keeps a machine tidy.** -/
theorem Tidied.step (he : e.Tidied) (nested : Engine → Engine) : (stepWith nested e).Tidied := by
  by_cases hrun : e.status = .running
  swap
  · rw [stepWith_final nested hrun]
    exact he
  cases hframes : e.state.frames with
  | nil =>
    rw [stepWith_nil nested hrun hframes]
    exact he.sameData rfl
  | cons f outer =>
    have hnext : (executeNext nested e).2.Tidied := by
      obtain ⟨event, hrefused⟩ | ⟨price, total, -, -, -, hpaid⟩ := executeNext_cases nested hframes
      · rw [hrefused]
        exact he.sameData rfl
      · -- The frame that runs has only moved its cursor.
        have hcharged : ({ e with state := e.state.charge total f outer } : Engine).Tidied := by
          refine he.setState (he.tidy.moved rfl rfl rfl (fun _ => known_of_mem_held) fun x hx => ?_)
          have hitems : (e.state.charge total f outer).stackItems = e.state.stackItems := by
            rw [State.stackItems, State.stackItems, hframes]
            rfl
          exact Or.inr (Or.inr (hitems ▸ hx))
        rw [hpaid]
        split
        · exact hcharged
        · exact hcharged.carryOut _
    rw [stepWith_cons nested hrun hframes]
    revert hnext
    rcases executeNext nested e with ⟨cause | _, e'⟩
    · exact fun hnext => hnext.sameData (fail_sameData _ cause)
    · exact fun hnext => hnext.sameData (settle_sameData _)

/-! ## Sessions -/

/-- **Every reached machine is tidy.** -/
theorem Reached.tidied {l : Limits} {c : CryptoSuite} (he : Reached l c e) : e.Tidied := by
  induction he with
  | fresh message loader hloader =>
    refine ⟨⟨rfl, rfl, hloader⟩, fun id x hx => ?_, fun x hx => absurd hx List.not_mem_nil,
      fun x hx => absurd hx List.not_mem_nil, fun ring hring => ?_⟩
    · rw [Heap.held_of_le (Nat.zero_le id)] at hx
      exact absurd hx List.not_mem_nil
    · -- A member of a ring refers to another one, but nothing is there.
      have hmem : ∃ id, id ∈ ring := by
        obtain ⟨first, rest, rfl, -⟩ := hring
        exact ⟨first, List.mem_cons_self⟩
      obtain ⟨b, hb⟩ := hring.exists_refers hmem.choose_spec
      exact absurd hb.lt_size (Nat.not_lt_zero _)
  | gas _ gasLimit ih => exact ih.setState ⟨ih.tidy.closed, ih.tidy.held, ih.tidy.roots, ih.tidy.covers⟩
  | load _ body returnCount ih =>
    exact ih.setState (((WithFrames.refl _).loaded.loadScript _ _).tidy ih.tidy)
  | loadCached _ index returnCount ih =>
    exact ih.setState (((WithFrames.refl _).loaded.loadCached _ _).tidy ih.tidy)
  | step _ ih => exact ih.step _

/-- The end of a session releases its tracker. -/
theorem clean_heap (s : State) (iteration : UInt32) :
    (s.clean iteration).heap = (s.session.tracker.release s.heap).2 := by
  unfold State.clean
  dsimp only
  split <;> rfl

/-- **No ring survives its session.** Whatever scripts are loaded and however many steps are made, every ring of
containers passes through a tracked container. When the session is ended, or the machine with it, no ring is
left, and the containers that were on no ring keep their content. -/
theorem no_ring_survives {l : Limits} {c : CryptoSuite} (he : Reached l c e) :
    (∀ ring, e.state.heap.Ring ring → ∃ id ∈ ring, id ∈ e.state.session.tracker.entries) ∧
    ∀ ended, (ended = e.state.close ∨ ∃ iteration, ended = e.state.clean iteration) →
      (∀ ring, ¬ ended.heap.Ring ring) ∧
      ∀ id, (∀ ring, e.state.heap.Ring ring → id ∉ ring) →
        ended.heap.cells[id]? = e.state.heap.cells[id]? := by
  have hcovers := he.tidied.tidy.covers
  refine ⟨hcovers, ?_⟩
  intro ended hended
  obtain ⟨iteration, rfl⟩ : ∃ iteration, ended = e.state.clean iteration := hended.elim (⟨0, ·⟩) id
  rw [clean_heap]
  exact ⟨hcovers.release, fun id hid => CycleTracker.release_cells hid⟩

/-- A script that makes an array of two elements, and then another one that it appends to itself: the second
array is emptied, and the first one stays. -/
theorem no_ring_survives_append :
    let digests : CryptoSuite :=
      { sha1 := fun _ => #[], sha256 := fun _ => #[], hash160 := fun _ => #[], hash256 := fun _ => #[]
        verify := fun _ _ _ => false }
    let e := steps 7 ((Engine.new .default digests).modifyState
      fun s => (s.loadScript #[0x52, 0xC5, 0x00, 0xC5, 0x76, 0x76, 0xC8] returnAll).2)
    (Reached .default digests e ∧ e.state.heap.Ring [1] ∧ 1 ∈ e.state.session.tracker.entries) ∧
    ¬ e.state.close.heap.Ring [1] ∧
    e.state.close.heap.cells[0]? = some (.list [.boolean false, .boolean false]) := by
  intro digests e
  have hfresh : Reached .default digests (Engine.new .default digests) := .fresh none none fun _ h => by cases h
  have hreached : Reached .default digests e := steps_keeps (fun _ h => h.step) (hfresh.load _ _) 7
  have hring : e.state.heap.Ring [1] := by
    refine ⟨1, [], rfl, ?_⟩
    rw [List.cons_append, List.nil_append, List.isChain_pair]
    have hrefers : 1 ∈ e.state.heap.contained 1 := by decide +kernel
    exact hrefers
  have htracked : 1 ∈ e.state.session.tracker.entries := by decide +kernel
  have hfirst : e.state.heap.cells[0]? = some (.list [.boolean false, .boolean false]) := by decide +kernel
  obtain ⟨-, hended⟩ := no_ring_survives hreached
  obtain ⟨hbroken, hkept⟩ := hended e.state.close (Or.inl rfl)
  refine ⟨⟨hreached, hring, htracked⟩, hbroken [1], ?_⟩
  rw [hkept 0 ?_, hfirst]
  -- The first array refers to nothing.
  intro ring hother hmem
  obtain ⟨b, hb⟩ := hother.exists_refers hmem
  have hnone : e.state.heap.contained 0 = [] := by decide +kernel
  rw [Heap.Refers, hnone] at hb
  exact absurd hb List.not_mem_nil

end Engine

end ScriptMachine
