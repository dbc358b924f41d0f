import ScriptMachine.Proofs.Hosted
import ScriptMachine.Proofs.Resume

/-! # The loaded scripts

The loaded scripts of a session are a table that is addressed by content. It is filled by hosts that load scripts,
by callbacks in the middle of a call, and by loads that fail for want of room for a frame. Through all of this no two
entries have the same hash, entries stay where they are, and frames run entries of the table; so the place of a
script denotes it for the rest of the session, and a call by a hash in the table has no need of the loader.

* `State.Cached`: the invariant, with `State.Cached.loadScript` and `State.Cached.request` on its changes.
* `State.Cached.stepInvariant`: instructions keep it.
* `Engine.SessionMove`, `Engine.StartsSession`: what drives a session, and where it starts.
* `Frame.calledHash?`, `Engine.LoadsFrom`: calls by a hash in the table.
* `Engine.script_table_consistent`: all of it, for all sessions.
-/

namespace ScriptMachine

variable {α : Type} {crypto : CryptoSuite} {entries scripts : Array Script} {s t : State} {f : Frame}

/-! ## The table -/

/-- The loaded scripts form a table that is addressed by content, with the given entries at their places, and the
frames run scripts of the table. -/
structure State.Cached (crypto : CryptoSuite) (entries : Array Script) (s : State) : Prop where
  /-- The hashes are those of the cryptography. -/
  suite : s.crypto = crypto
  /-- The given entries are at their places. -/
  kept : ∀ (i : Nat) (script : Script), entries[i]? = some script → s.session.scripts[i]? = some script
  /-- Each script has the hash of its body. -/
  hash : ∀ script ∈ s.session.scripts, script.hash = crypto.hash160 script.body
  /-- The hashes are different. -/
  distinct : ∀ (i j : Nat) (first second : Script), s.session.scripts[i]? = some first → s.session.scripts[j]? = some second →
    first.hash = second.hash → i = j
  /-- The frames run scripts of the table. -/
  frames : ∀ f ∈ s.frames, f.script ∈ s.session.scripts

/-- Puts a script in the table, unless one with its hash is there already, and returns its place. -/
def State.cacheScript (s : State) (body : Bytes) : Nat × State :=
  match s.scriptIndex? (Script.of s.crypto body).hash with
  | some index => (index, s)
  | none =>
    (s.session.scripts.size,
      { s with session := { s.session with scripts := s.session.scripts.push (Script.of s.crypto body) } })

/-- Loading a script puts it in the table and pushes a frame for it. -/
theorem State.loadScript_eq (s : State) (body : Bytes) (returnCount : Int) :
    s.loadScript body returnCount =
      match (s.cacheScript body).2.loadCached (s.cacheScript body).1 returnCount with
      | (.ok (), t) => (.ok (s.cacheScript body).1, t)
      | (.error cause, t) => (.error cause, t) :=
  rfl

/-- The place of a hash is that of an entry with the hash. -/
theorem State.exists_of_scriptIndex? {hash : Bytes} {index : Nat} (hindex : s.scriptIndex? hash = some index) :
    ∃ script, s.session.scripts[index]? = some script ∧ script.hash = hash := by
  obtain ⟨hlt, hhash, -⟩ := Array.findIdx?_eq_some_iff_getElem.1 hindex
  exact ⟨_, Array.getElem?_eq_getElem hlt, eq_of_beq hhash⟩

/-- No entry has a hash that has no place. -/
theorem State.hash_ne_of_scriptIndex? {hash : Bytes} (hindex : s.scriptIndex? hash = none) :
    ∀ script ∈ s.session.scripts, script.hash ≠ hash := by
  intro script hscript heq
  have hnone := Array.findIdx?_eq_none_iff.1 hindex script hscript
  rw [heq, beq_self_eq_true] at hnone
  cases hnone

namespace State.Cached

/-- The same table, with frames that run scripts of frames before. -/
theorem congr (hs : s.Cached crypto entries) (hcrypto : t.crypto = s.crypto)
    (hscripts : t.session.scripts = s.session.scripts) (hframes : ∀ f ∈ t.frames, f.script ∈ s.session.scripts) :
    t.Cached crypto entries := by
  refine ⟨hcrypto.trans hs.suite, ?_, ?_, ?_, ?_⟩
  · rw [hscripts]
    exact hs.kept
  · rw [hscripts]
    exact hs.hash
  · rw [hscripts]
    exact hs.distinct
  · rw [hscripts]
    exact hframes

/-- Other frames that run scripts of the table. -/
theorem setFrames (hs : s.Cached crypto entries) {frames : List Frame}
    (hframes : ∀ f ∈ frames, f.script ∈ s.session.scripts) : (s.setFrames frames).Cached crypto entries :=
  hs.congr rfl rfl hframes

/-- Pushing a frame for a loaded script. -/
theorem loadCached (hs : s.Cached crypto entries) (index : Nat) (returnCount : Int) :
    (s.loadCached index returnCount).2.Cached crypto entries := by
  obtain ⟨script, hscript, -, hload⟩ | ⟨cause, hload⟩ := s.loadCached_exact index returnCount
  · rw [hload]
    exact hs.setFrames (List.forall_mem_cons.2 ⟨Array.mem_of_getElem? hscript, hs.frames⟩)
  · rw [hload]
    exact hs

/-- **Putting a script in the table**: the entry at the place that is returned has the hash of the script. -/
theorem cacheScript (hs : s.Cached crypto entries) (body : Bytes) :
    (s.cacheScript body).2.Cached crypto entries ∧ (s.cacheScript body).2.frames = s.frames ∧
      ∃ script, (s.cacheScript body).2.session.scripts[(s.cacheScript body).1]? = some script ∧
        script.hash = crypto.hash160 body ∧ (script ∈ s.session.scripts ∨ script.body = body) := by
  have hhash : (Script.of s.crypto body).hash = crypto.hash160 body := by
    rw [hs.suite]
    rfl
  unfold State.cacheScript
  cases hindex : s.scriptIndex? (Script.of s.crypto body).hash with
  | some index =>
    obtain ⟨script, hscript, heq⟩ := exists_of_scriptIndex? hindex
    exact ⟨hs, rfl, script, hscript, heq.trans hhash, Or.inl (Array.mem_of_getElem? hscript)⟩
  | none =>
    have hnew := hash_ne_of_scriptIndex? hindex
    -- An entry of the new table is an old one at its place, or the new one at the end.
    have hentry : ∀ {i : Nat} {script : Script}, (s.session.scripts.push (Script.of s.crypto body))[i]? = some script →
        s.session.scripts[i]? = some script ∨ i = s.session.scripts.size ∧ script = Script.of s.crypto body := by
      intro i script hi
      rw [Array.getElem?_push] at hi
      split at hi
      · rename_i heq
        exact Or.inr ⟨heq, (Option.some.inj hi).symm⟩
      · exact Or.inl hi
    refine ⟨⟨hs.suite, fun i script hi => ?_, ?_, ?_, fun f hf => ?_⟩, rfl, _, Array.getElem?_push_size, hhash,
      Or.inr rfl⟩
    · have hold := hs.kept i script hi
      obtain ⟨hlt, -⟩ := Array.getElem?_eq_some_iff.1 hold
      exact (Array.getElem?_push_lt hlt).trans ((Array.getElem?_eq_getElem hlt).symm.trans hold)
    · intro script hscript
      rcases Array.mem_push.1 hscript with hscript | rfl
      · exact hs.hash script hscript
      · exact hhash
    · intro i j first second hi hj heq
      rcases hentry hi with hi | ⟨rfl, rfl⟩
      · rcases hentry hj with hj | ⟨rfl, rfl⟩
        · exact hs.distinct i j first second hi hj heq
        · exact absurd heq (hnew first (Array.mem_of_getElem? hi))
      · rcases hentry hj with hj | ⟨rfl, rfl⟩
        · exact absurd heq.symm (hnew second (Array.mem_of_getElem? hj))
        · rfl
    · exact Array.mem_push_of_mem _ (hs.frames f hf)

/-- **Loading a script** puts it in the table, also when there is no room for its frame. -/
theorem loadScript (hs : s.Cached crypto entries) (body : Bytes) (returnCount : Int) :
    (s.loadScript body returnCount).2.Cached crypto entries := by
  have hload := (hs.cacheScript body).1.loadCached (s.cacheScript body).1 returnCount
  rw [loadScript_eq]
  revert hload
  rcases (s.cacheScript body).2.loadCached (s.cacheScript body).1 returnCount with ⟨_ | _, t⟩ <;> exact id

/-- **A successful load** pushes exactly one frame, at the start of the entry with the hash of the script. -/
theorem of_loadScript_ok (hs : s.Cached crypto entries) {body : Bytes} {returnCount : Int} {index : Nat}
    (hload : s.loadScript body returnCount = (.ok index, t)) :
    ∃ script, t.session.scripts[index]? = some script ∧ t.frames = { script, returnCount } :: s.frames ∧
      script.hash = crypto.hash160 body ∧ (script ∈ s.session.scripts ∨ script.body = body) := by
  obtain ⟨-, hframes, script, hscript, hhash, hbody⟩ := hs.cacheScript body
  rw [loadScript_eq] at hload
  obtain ⟨entry, hentry, -, hcached⟩ | ⟨cause, hcached⟩ :=
    (s.cacheScript body).2.loadCached_exact (s.cacheScript body).1 returnCount
  · rw [hcached] at hload
    cases hload
    cases hscript.symm.trans hentry
    exact ⟨script, hscript, congrArg _ hframes, hhash, hbody⟩
  · rw [hcached] at hload
    cases hload

/-- **A request that does not start over** keeps the table. -/
theorem request (hs : s.Cached crypto entries) {call : HostCall} (hcall : call.GoesOn) :
    (call.perform s).2.Cached crypto entries := by
  have htop : ∀ {f rest}, s.frames = f :: rest → ∀ eval : Stack, ∀ g ∈ { f with eval } :: rest,
      g.script ∈ s.session.scripts := by
    intro f rest hframes eval
    have hold := hs.frames
    rw [hframes] at hold
    exact List.forall_mem_cons.2 ⟨hold f List.mem_cons_self, fun g hg => hold g (List.mem_cons_of_mem _ hg)⟩
  cases call with
  | consumeGas amount =>
    dsimp only [HostCall.perform]
    obtain ⟨event, hpay⟩ | ⟨total, -, -, hpay⟩ := s.consumeGas_cases amount
    · rw [hpay]
      exact hs.congr rfl rfl hs.frames
    · rw [hpay]
      exact hs.congr rfl rfl hs.frames
  | loadScript body returnCount =>
    rw [HostCall.perform_loadScript]
    exact hs.loadScript body returnCount
  | loadCached index returnCount =>
    rw [HostCall.perform_loadCached]
    exact hs.loadCached index returnCount
  | push x =>
    dsimp only [HostCall.perform]
    cases hframes : s.frames with
    | nil => exact hs
    | cons f rest => exact hs.setFrames (htop hframes _)
  | pop =>
    dsimp only [HostCall.perform]
    cases hframes : s.frames with
    | nil => exact hs
    | cons f rest =>
      dsimp only
      rcases f.eval.pop with _ | ⟨x, eval⟩
      · exact hs
      · exact hs.setFrames (htop hframes _)
  | popFrame => exact hs.setFrames fun f hf => hs.frames f (List.mem_of_mem_tail hf)
  | clearFrames => exact hs.setFrames fun _ hf => absurd hf List.not_mem_nil
  | append container x =>
    dsimp only [HostCall.perform]
    cases container.listCell? with
    | none => exact hs
    | some id => exact hs.congr rfl rfl hs.frames
  | clean iteration => exact absurd rfl (hcall iteration)
  | _ => exact hs.congr rfl rfl hs.frames

end State.Cached

/-! ## Instructions -/

/-- The frames run scripts of the table. -/
def State.RunsIn (scripts : Array Script) (s : State) : Prop := ∀ f ∈ s.frames, f.script ∈ scripts

/-- A computation of a frame that moves inside of its script does not change the script. -/
theorem Keeps.script {m : FrameM α} {script : Script} {Q : α → Prop}
    (hm : ∀ f₀, Keeps (FrameChange (fun _ => True) f₀) m Q) : Keeps (fun f => f.script = script) m Q := by
  rintro f rfl
  obtain ⟨hchange, hQ⟩ := hm f f (FrameChange.refl (fun _ _ => trivial) fun _ _ => trivial)
  exact ⟨hchange.script, hQ⟩

/-- A computation of the innermost frame that does not change its script. -/
theorem Exec.onFrame_runsIn {m : FrameM α} {Q : α → Prop}
    (hm : ∀ script ∈ scripts, Keeps (fun f => f.script = script) m Q) :
    Keeps (State.RunsIn scripts) (Exec.onFrame m) Q := by
  intro s hs
  cases hframes : s.frames with
  | nil =>
    rw [Exec.run_onFrame_nil m hframes]
    exact ⟨hs, fun _ ha => by cases ha⟩
  | cons f rest =>
    have hall : ∀ g ∈ f :: rest, g.script ∈ scripts := hframes ▸ hs
    obtain ⟨hscript, hQ⟩ := hm f.script (hall f List.mem_cons_self) f rfl
    rw [Exec.run_onFrame_cons m hframes]
    refine ⟨List.forall_mem_cons.2 ⟨?_, fun g hg => hall g (List.mem_cons_of_mem _ hg)⟩, hQ⟩
    rw [hscript]
    exact hall f List.mem_cons_self

namespace Instructions

/-- Pushing a frame for a script of the table. -/
theorem pushFrame_runsIn (hf : f.script ∈ scripts) :
    Keeps (State.RunsIn scripts) (pushFrame f) fun _ => True := by
  unfold pushFrame
  refine Keeps.reads.seq fun s hs => ?_
  unfold CallStack.push
  split
  · exact (Keeps.returns rfl).seq fun calls hcalls => Keeps.writes (hcalls ▸ List.forall_mem_cons.2 ⟨hf, hs⟩)
  · exact (Keeps.throws (Q := fun _ => False) _).seq fun _ h => h.elim

/-- A call inside a script goes on in the same script. -/
theorem call_runsIn (i : Instruction) : Keeps (State.RunsIn scripts) (call i) fun _ => True := by
  unfold call
  refine (Exec.onFrame_runsIn (Q := fun callee => callee.script ∈ scripts) fun script hscript => ?_).seq
    fun callee hcallee => (pushFrame_runsIn hcallee).seq fun _ _ => ?_
  · refine (Keeps.script fun _ => Frame.setCursor_keeps _).seq fun _ _ => ?_
    refine (Keeps.script fun _ => Frame.evalDepth_keeps).seq fun n _ => ?_
    refine (Keeps.script fun _ => Frame.takeTop_keeps n).seq fun top _ => ?_
    refine Keeps.reads.seq fun f hf => Keeps.returns ?_
    rw [hf]
    exact hscript
  · exact Exec.onFrame_runsIn fun _ _ => Keeps.script fun _ => jump_keeps i

/-- A call with announced counts goes on in the same script. -/
theorem callIsolated_runsIn (i : Instruction) : Keeps (State.RunsIn scripts) (callIsolated i) fun _ => True := by
  unfold callIsolated
  refine (Exec.onFrame_runsIn (Q := fun callee => callee.script ∈ scripts) fun script hscript => ?_).seq
    fun callee hcallee => pushFrame_runsIn hcallee
  refine (Keeps.script fun _ => Frame.readNat_keeps 1).seq fun returnCount _ => ?_
  refine (Keeps.script fun _ => Frame.readNat_keeps 1).seq fun parameterCount _ => ?_
  refine (Keeps.script fun _ => (readTarget_keeps _).weaken fun _ _ => trivial).seq fun target (_ : True) => ?_
  refine (Keeps.script fun _ => Frame.takeTop_keeps _).seq fun top _ => ?_
  refine Keeps.reads.seq fun f hf => Keeps.returns ?_
  rw [hf]
  exact hscript

/-- Moving arguments leaves the frames in their scripts. -/
theorem moveArguments_runsIn (count : Option Nat) :
    Keeps (State.RunsIn scripts) (moveArguments count) fun _ => True := by
  unfold moveArguments
  refine Keeps.reads.seq fun s hs => ?_
  split
  · rename_i callee caller rest hframes
    have hall : ∀ g ∈ callee :: caller :: rest, g.script ∈ scripts := hframes ▸ hs
    obtain ⟨hcallee, hall⟩ := List.forall_mem_cons.1 hall
    obtain ⟨hcaller, hall⟩ := List.forall_mem_cons.1 hall
    refine (Keeps.result fun _ _ => trivial).seq fun r (_ : True) => Keeps.writes ?_
    exact List.forall_mem_cons.2 ⟨hcallee, List.forall_mem_cons.2 ⟨hcaller, hall⟩⟩
  · exact Keeps.throws _

/-- Taking out a frame. -/
theorem dropCaller_runsIn : Keeps (State.RunsIn scripts) dropCaller fun _ => True :=
  Keeps.updates fun _ hs f hf => hs f ((List.eraseIdx_sublist _ _).mem hf)

/-- A return goes on in the script of the caller. -/
theorem ret_cached : Keeps (State.Cached crypto entries) ret fun _ => True := by
  unfold ret
  refine Keeps.reads.seq fun s hs => ?_
  split
  · exact Keeps.throws _
  · rename_i f rest hframes
    have hall : ∀ g ∈ f :: rest, g.script ∈ s.session.scripts := hframes ▸ hs.frames
    have hrest := (List.forall_mem_cons.1 hall).2
    refine (Keeps.writes (hs.setFrames hrest)).seq fun _ _ =>
      (Keeps.result fun _ _ => trivial).seq fun _ (_ : True) => ?_
    split
    · exact Keeps.writes (hs.congr rfl rfl fun _ hf => absurd hf List.not_mem_nil)
    · exact Keeps.writes (hs.setFrames (List.forall_mem_cons.2 (List.forall_mem_cons.1 hrest)))

end Instructions

/-- What changes the frames only, and leaves them in the table, keeps the table. -/
theorem Keeps.cached {m : Exec Unit} (hcalls : ∀ s₀, Keeps (OnlyCalls s₀) m fun _ => True)
    (hruns : ∀ scripts, Keeps (State.RunsIn scripts) m fun _ => True) :
    Keeps (State.Cached crypto entries) m fun _ => True := by
  intro s hs
  have hsame := (hcalls s s rfl).1
  refine ⟨hs.congr ?_ ?_ (hruns _ s hs.frames).1, fun _ _ => trivial⟩
  · rw [hsame]
  · rw [hsame]

/-- **The table is kept by every instruction and by every request that does not start over.** -/
theorem State.Cached.stepInvariant : StepInvariant HostCall.GoesOn (State.Cached crypto entries) where
  request call s hcall hs := hs.request hcall
  change s t hchange hs := by
    refine hs.congr (by rw [hchange.ambient]) (by rw [hchange.ambient]) fun f hf => ?_
    obtain ⟨g, rest, hframes⟩ := List.exists_cons_of_ne_nil (List.ne_nil_of_mem hf)
    obtain ⟨g₀, hbefore, hg⟩ := hchange.frames.exists_top hframes
    have hold := hs.frames
    rw [hbefore] at hold
    rw [hframes] at hf
    rcases List.mem_cons.1 hf with rfl | hf
    · rw [hg.script]
      exact hold g₀ List.mem_cons_self
    · exact hold f (List.mem_cons_of_mem _ hf)
  loadCached s index returnCount hs := hs.loadCached index returnCount
  call i := Keeps.cached (fun _ => Instructions.call_onlyCalls i) fun _ => Instructions.call_runsIn i
  callIsolated i := Keeps.cached (fun _ => Instructions.callIsolated_onlyCalls i) fun _ => Instructions.callIsolated_runsIn i
  ret := Instructions.ret_cached
  moveArguments count :=
    Keeps.cached (fun _ => Instructions.moveArguments_onlyCalls count) fun _ => Instructions.moveArguments_runsIn count
  dropCaller := Keeps.cached (fun _ => Instructions.dropCaller_onlyCalls) fun _ => Instructions.dropCaller_runsIn
  charge s f outer price total hframes _ _ _ hs := by
    have hold := hs.frames
    rw [hframes] at hold
    exact hs.congr rfl rfl (List.forall_mem_cons.2 (List.forall_mem_cons.1 hold))
  sameData s t hst hs := by
    rw [hst]
    exact hs.congr rfl rfl hs.frames

/-! ## Calls by a hash in the table -/

/-- The byte view of the top item. -/
def Frame.hashOnTop? (f : Frame) : Option Bytes := f.eval.head?.bind fun x => x.byteView.toOption

/-- The hash by which an opcode calls, read from the script behind the counts or popped. The cursor is at the operands
of the call. -/
def Frame.calledHash? (f : Frame) : OpCode → Option Bytes
  | .appCall | .tailCall => if f.operandHash.anyNonZero then some f.operandHash else f.hashOnTop?
  | .callE | .callET => some (f.script.body.extract (f.cursor + 2) (f.cursor + 2 + Script.hashSize))
  | .callED | .callEDT => f.hashOnTop?
  | _ => none

/-- Popping a hash takes the byte view of the top item. -/
theorem Instructions.popHash_onTop :
    Leads (· = f) popHash (fun hash _ => f.hashOnTop? = some hash) fun _ => True := by
  unfold popHash Frame.popBytes
  refine Leads.seq (A := fun hash _ => f.hashOnTop? = some hash) ?_ fun hash =>
    Leads.guarded (fun _ _ => trivial) fun _ => Leads.returns fun _ hf => hf
  cases heval : f.eval with
  | nil =>
    rintro _ rfl
    rw [run_seq, Frame.run_pop_nil heval]
    trivial
  | cons x rest =>
    refine Leads.seq (A := fun y _ => y = x) ?_ fun y => Leads.result ?_ fun _ _ => trivial
    · rintro _ rfl
      rw [Frame.run_pop_cons heval]
    · rintro hash hview _ rfl
      rw [Frame.hashOnTop?, heval]
      exact congrArg Except.toOption hview

/-- The innermost frame is at the start of the script. -/
def State.AtStartOf (script : Script) (s : State) : Prop :=
  ∃ f rest, s.frames = f :: rest ∧ f.script = script ∧ f.cursor = 0

namespace Instructions

variable {script : Script}

/-- Moving arguments leaves the innermost frame at its start. -/
theorem moveArguments_atStartOf (count : Option Nat) :
    Leads (State.AtStartOf script) (moveArguments count) (fun _ => State.AtStartOf script) fun _ => True := by
  unfold moveArguments
  refine Leads.reads ?_
  rintro s ⟨g, rest, hframes, hscript, hcursor⟩
  rw [hframes]
  cases rest with
  | nil => exact Leads.throws fun _ _ => trivial
  | cons caller outer =>
    refine Leads.computed (fun _ _ => trivial) fun divided _ => Leads.writes fun _ _ => ?_
    exact ⟨_, _, rfl, hscript, hcursor⟩

/-- Taking out the calling frame leaves the innermost frame at its start. -/
theorem dropCaller_atStartOf :
    Leads (State.AtStartOf script) dropCaller (fun _ => State.AtStartOf script) fun _ => True := by
  refine Leads.updates ?_
  rintro s ⟨g, rest, hframes, htop⟩
  refine ⟨g, rest.eraseIdx 0, ?_, htop⟩
  show s.frames.eraseIdx 1 = _
  rw [hframes]
  rfl

end Instructions

namespace Engine

variable {e : Engine} {nested : Engine → Engine} {outer : List Frame} {op : OpCode} {hash : Bytes} {index : Nat}
  {script : Script}

/-- The operands of a call by hash. -/
theorem callOperands_hash :
    Leads (· = f) callOperands (fun operands _ => f.calledHash? .appCall = some operands.1) fun _ => True := by
  unfold callOperands Frame.calledHash?
  refine ((Instructions.readHash_leads f).ends (fun _ _ h => h) fun _ _ => trivial).seq fun hash => Leads.each ?_
  rintro g ⟨rfl, hg⟩
  have htop : g.hashOnTop? = f.hashOnTop? := by
    unfold Frame.hashOnTop?
    rw [hg.eval, List.drop_zero]
  refine Leads.branch (fun h => Leads.returns fun _ _ => if_pos h) fun h => ?_
  refine Instructions.popHash_onTop.seq fun hash => Leads.returns fun _ hhash => ?_
  exact (if_neg h).trans (htop.symm.trans hhash)

/-- The operands of a call by hash with announced counts. -/
theorem externalOperands_hash (dynamic tail : Bool) :
    Leads (· = f) (externalOperands dynamic tail)
      (fun operands _ => (if dynamic then f.hashOnTop? else f.calledHash? .callE) = some operands.1)
      fun _ => True := by
  unfold externalOperands
  refine ((Frame.readByte_leads f).ends (fun _ _ h => h) fun _ _ => trivial).seq fun returnCount => Leads.each ?_
  rintro _ ⟨-, -, rfl⟩
  refine ((Frame.readByte_leads _).ends (fun _ _ h => h) fun _ _ => trivial).seq fun parameterCount => Leads.each ?_
  rintro _ ⟨-, -, rfl⟩
  refine Leads.reads fun g hg => Leads.guarded (fun _ _ => trivial) fun _ => Leads.guarded (fun _ _ => trivial) fun _ => ?_
  subst hg
  cases dynamic with
  | true => exact Instructions.popHash_onTop.seq fun hash => Leads.returns fun _ hhash => hhash
  | false =>
    refine ((Frame.readBytes_leads _ _).ends (fun _ _ h => h) fun _ _ => trivial).seq fun hash => Leads.returns ?_
    rintro _ ⟨rfl, -, -⟩
    rfl

/-- From this machine the computation does the same with any loader. -/
def LoaderFree (m : Run α) (e : Engine) : Prop :=
  ∀ loader, m.run { e with loader } = ((m.run e).1, { (m.run e).2 with loader })

namespace LoaderFree

/-- A computation of the state. -/
theorem onState (m : Exec α) : LoaderFree (Engine.onState m) e := by
  intro loader
  rw [run_onState, run_onState]

/-- A sequence. -/
theorem seq {β : Type} {m : Run α} {k : α → Run β} (hm : LoaderFree m e)
    (hk : ∀ a e', m.run e = (.ok a, e') → LoaderFree (k a) e') : LoaderFree (m >>= k) e := by
  intro loader
  rw [run_seq, run_seq, hm loader]
  rcases hrun : m.run e with ⟨_ | a, e'⟩
  · rfl
  · exact hk a e' hrun loader

end LoaderFree

/-- A script of the table is not asked for. -/
theorem run_loadByHash_cached (nested : Engine → Engine) (hindex : e.state.scriptIndex? hash = some index)
    (dynamic : Bool) (returnCount : Int) :
    (loadByHash nested hash dynamic returnCount).run e =
      ((e.state.loadCached index returnCount).1, { e with state := (e.state.loadCached index returnCount).2 }) := by
  unfold loadByHash
  rw [run_get_seq, hindex]
  dsimp only
  rcases e.state.loadCached index returnCount with ⟨_ | _, t⟩ <;> rfl

/-- A computation of the state that leaves the innermost frame at its start, run on an engine. -/
theorem onState_atStartOf {m : Exec Unit}
    (hm : Leads (State.AtStartOf script) m (fun _ => State.AtStartOf script) fun _ => True) :
    Leads (fun e' : Engine => e'.state.AtStartOf script) (onState m) (fun _ e' => e'.state.AtStartOf script)
      fun _ => True := by
  intro e' he'
  have hrun := hm e'.state he'
  rw [run_onState]
  revert hrun
  rcases m.run e'.state with ⟨_ | _, t⟩ <;> exact id

section

variable {m : FrameM α} {target : α → Bytes} {dynamic : α → Bool} {returnCount : α → Int} {count : α → Option Nat}
  {tail : Prop} [Decidable tail] (hm : Leads (· = f) m (fun a _ => target a = hash) fun _ => True)
  (hframes : e.state.frames = f :: outer) (hindex : e.state.scriptIndex? hash = some index)
  (hscript : e.state.session.scripts[index]? = some script)
include hm hframes hindex hscript

/-- The operands of a call by a hash in the table. -/
theorem onFrame_cached :
    Leads (· = e) (onFrame m) (fun a e' => target a = hash ∧ e'.state.scriptIndex? hash = some index ∧
      e'.state.session.scripts[index]? = some script) fun _ => True := by
  rintro _ rfl
  have hleads := hm f rfl
  rw [onFrame, run_onState, Exec.run_onFrame_cons m hframes]
  revert hleads
  rcases m.run f with ⟨_ | a, g⟩
  · exact fun _ => trivial
  · exact fun htarget => ⟨htarget, hindex, hscript⟩

/-- **A call by a hash in the table** does not look at the loader. -/
theorem loaderFree_callByHash : LoaderFree (callByHash nested m target dynamic returnCount count tail) e := by
  have hoperands := onFrame_cached hm hframes hindex hscript
  refine (LoaderFree.onState _).seq fun a e₁ hrun => LoaderFree.seq ?_ fun _ e₂ _ =>
    (LoaderFree.onState _).seq fun _ e₃ _ => ?_
  · obtain ⟨htarget, hindex₁, -⟩ := hoperands.returned rfl hrun
    intro loader
    rw [htarget, run_loadByHash_cached nested hindex₁]
    exact run_loadByHash_cached (e := { e₁ with loader }) nested hindex₁ _ _
  · split
    · exact LoaderFree.onState _
    · exact fun _ => rfl

/-- **A call by a hash in the table** leads to the start of the entry. -/
theorem callByHash_atStartOf :
    Leads (· = e) (callByHash nested m target dynamic returnCount count tail)
      (fun _ e' => e'.state.AtStartOf script) fun _ => True := by
  have hoperands := onFrame_cached hm hframes hindex hscript
  refine hoperands.seq fun a => Leads.seq (A := fun _ e' => e'.state.AtStartOf script) ?_ fun _ => ?_
  · rintro e₁ ⟨htarget, hindex₁, hscript₁⟩
    rw [htarget, run_loadByHash_cached nested hindex₁]
    obtain ⟨entry, hentry, -, hload⟩ | ⟨cause, hload⟩ := e₁.state.loadCached_exact index (returnCount a)
    · rw [hload]
      exact ⟨_, _, rfl, (Option.some.inj (hscript₁.symm.trans hentry)).symm, rfl⟩
    · rw [hload]
      trivial
  · refine (onState_atStartOf (Instructions.moveArguments_atStartOf _)).seq fun _ => ?_
    exact Leads.branch (fun _ => onState_atStartOf Instructions.dropCaller_atStartOf) fun _ =>
      Leads.returns fun _ h => h

end

/-- **Each opcode that calls by a hash in the table** goes there without the loader. -/
theorem perform_cached (nested : Engine → Engine) {i : Instruction} (hi : i.op = op) (hframes : e.state.frames = f :: outer)
    (hhash : f.calledHash? op = some hash) (hindex : e.state.scriptIndex? hash = some index)
    (hscript : e.state.session.scripts[index]? = some script) :
    LoaderFree (perform nested op i) e ∧
      Leads (· = e) (perform nested op i) (fun _ e' => e'.state.AtStartOf script) fun _ => True := by
  have hcall : f.calledHash? .appCall = some hash →
      LoaderFree (appCall nested i) e ∧
        Leads (· = e) (appCall nested i) (fun _ e' => e'.state.AtStartOf script) fun _ => True := by
    intro hhash
    have hm : Leads (· = f) callOperands (fun a _ => a.1 = hash) fun _ => True :=
      callOperands_hash.ends (fun a _ ha => Option.some.inj (ha.symm.trans hhash)) fun _ h => h
    rw [appCall_eq]
    exact ⟨loaderFree_callByHash hm hframes hindex hscript, callByHash_atStartOf hm hframes hindex hscript⟩
  have hexternal : (if i.op = .callED || i.op = .callEDT then f.hashOnTop? else f.calledHash? .callE) = some hash →
      LoaderFree (callExternal nested i) e ∧
        Leads (· = e) (callExternal nested i) (fun _ e' => e'.state.AtStartOf script) fun _ => True := by
    intro hhash
    have hm : ∀ tail, Leads (· = f) (externalOperands (i.op = .callED || i.op = .callEDT) tail)
        (fun a _ => a.1 = hash) fun _ => True := fun tail =>
      (externalOperands_hash _ tail).ends (fun a _ ha => Option.some.inj (ha.symm.trans hhash)) fun _ h => h
    rw [callExternal_eq]
    exact ⟨loaderFree_callByHash (hm _) hframes hindex hscript, callByHash_atStartOf (hm _) hframes hindex hscript⟩
  unfold perform
  cases op with
  | appCall | tailCall => exact hcall hhash
  | callE | callED | callET | callEDT =>
    rw [hi] at hexternal
    exact hexternal hhash
  | _ => cases hhash

section

variable (hframes : e.state.frames = f :: outer) (hfetch : fetch f = .ok op) (htable : e.table op = .standard op)
  (hhash : f.advance.calledHash? op = some hash) (hindex : e.state.scriptIndex? hash = some index)
  (hscript : e.state.session.scripts[index]? = some script)
include hframes hfetch htable hhash hindex hscript

/-- The next instruction, if it calls by a hash in the table. -/
theorem executeNext_cached (nested : Engine → Engine) :
    (∀ loader, executeNext nested { e with loader } =
      ((executeNext nested e).1, { (executeNext nested e).2 with loader })) ∧
    ((executeNext nested e).1 = .ok () →
      (executeNext nested e).2.status = .outOfGas ∨ (executeNext nested e).2.state.AtStartOf script) := by
  obtain ⟨event, hpay⟩ | ⟨total, -, -, hpay⟩ := e.state.consumeGas_cases (e.state.nextPrice f)
  · have hnext : ∀ loader, executeNext nested { e with loader } =
        (.ok (), { e with state := (e.state.record event).setStatus .outOfGas, loader }) := by
      intro loader
      have hcons := executeNext_cons (e := { e with loader }) nested hframes
      rw [hcons, hpay]
    have hself := hnext e.loader
    rw [hself]
    exact ⟨hnext, fun _ => Or.inl rfl⟩
  · obtain ⟨hfree, hstart⟩ := perform_cached (e := { e with state := e.state.charge total f outer }) nested
      (i := ⟨op, f.cursor⟩) rfl rfl hhash hindex hscript
    have hnext : ∀ loader, executeNext nested { e with loader } =
        carryOut nested ⟨op, f.cursor⟩ { e with state := e.state.charge total f outer, loader } := by
      intro loader
      have hcons := executeNext_cons (e := { e with loader }) nested hframes
      rw [hcons, hpay]
      dsimp only
      rw [hfetch]
      rfl
    have hdispatch : ∀ loader, (dispatch nested ⟨op, f.cursor⟩).run
        { e with state := e.state.charge total f outer, loader } =
        (perform nested op ⟨op, f.cursor⟩).run { e with state := e.state.charge total f outer, loader } := by
      intro loader
      unfold dispatch
      rw [run_get_seq]
      dsimp only
      rw [htable]
    have hself := hnext e.loader
    have hrun := hstart _ rfl
    rw [hself]
    constructor
    · intro loader
      rw [hnext]
      unfold carryOut
      rw [hdispatch, hdispatch, hfree loader]
      dsimp only
      rcases (perform nested op ⟨op, f.cursor⟩).run { e with state := e.state.charge total f outer } with
        ⟨_ | _, e'⟩ <;> rfl
    · unfold carryOut
      rw [hdispatch]
      revert hrun
      rcases (perform nested op ⟨op, f.cursor⟩).run { e with state := e.state.charge total f outer } with
        ⟨_ | _, e'⟩
      · rintro - ⟨⟩
      · exact fun hrun _ => Or.inr hrun

/-- **A step that calls by a hash in the table** does the same with any loader, and if its instruction succeeds, the
innermost frame is at the start of the entry. -/
theorem step_cached :
    (∀ loader, ({ e with loader } : Engine).step = { e.step with loader }) ∧
    (e.status = .running → (executeNext (stepAt 15) e).1 = .ok () →
      e.step.status = .outOfGas ∨ e.step.state.AtStartOf script) := by
  obtain ⟨hfree, hstart⟩ :=
    executeNext_cached hframes hfetch htable hhash hindex hscript (stepAt 15)
  by_cases hrun : e.status = .running
  · have hself : e.step = _ := stepWith_cons (stepAt 15) hrun hframes
    refine ⟨fun loader => ?_, fun _ hok => ?_⟩
    · have hstep : ({ e with loader } : Engine).step = _ :=
        stepWith_cons (e := { e with loader }) (stepAt 15) hrun hframes
      rw [hstep, hself, hfree]
      rcases executeNext (stepAt 15) e with ⟨_ | _, e'⟩ <;> rfl
    · rw [hself]
      revert hok hstart
      rcases executeNext (stepAt 15) e with ⟨_ | _, e'⟩
      · rintro - ⟨⟩
      · intro hstart hok
        have hsame := settle_sameData e'.state
        rcases hstart hok with hout | htop
        · left
          show (settle e'.state).session.status = .outOfGas
          have hfinal : e'.state.session.status.isRunning = false := by
            rw [show e'.state.session.status = .outOfGas from hout]
            rfl
          rw [settle_final hfinal]
          exact hout
        · right
          show (settle e'.state).AtStartOf script
          rw [hsame]
          exact htop
  · have hfinal : ∀ loader, ({ e with loader } : Engine).step = { e with loader } := fun loader => step_final hrun
    refine ⟨fun loader => ?_, fun h => absurd h hrun⟩
    rw [hfinal, step_final hrun]

end

/-! ## Sessions -/

/-- What drives a session: loading scripts, other requests that do not start over, other gas limits, and steps. -/
inductive SessionMove : Engine → Engine → Prop where
  /-- The host loads a script. -/
  | loadScript (e : Engine) (body : Bytes) (returnCount : Int) :
    SessionMove e (e.modifyState fun s => (s.loadScript body returnCount).2)
  /-- The host pushes a frame for a loaded script. -/
  | loadCached (e : Engine) (index : Nat) (returnCount : Int) :
    SessionMove e (e.modifyState fun s => (s.loadCached index returnCount).2)
  /-- The host makes another request. -/
  | request (e : Engine) (call : HostCall) (hcall : call.GoesOn) :
    SessionMove e (e.modifyState fun s => (call.perform s).2)
  /-- The host sets the gas limit. -/
  | setGasLimit (e : Engine) (gasLimit : Nat) : SessionMove e (e.modifyState (·.setGasLimit gasLimit))
  /-- The machine steps. -/
  | step (e : Engine) : SessionMove e e.step

/-- A machine at the start of a session, under a host whose callbacks do not start over and whose own behaviours of
opcodes keep the table of scripts. -/
structure StartsSession (crypto : CryptoSuite) (e : Engine) : Prop where
  /-- The cryptography. -/
  suite : e.state.crypto = crypto
  /-- There is no frame. -/
  frames : e.state.frames = []
  /-- There is no script. -/
  scripts : e.state.session.scripts = #[]
  /-- The service handler. -/
  interop : ∀ handler, e.interop = some handler → ∀ name, (handler name).Makes HostCall.GoesOn True
  /-- The script loader. -/
  loader : ∀ loader, e.loader = some loader →
    ∀ hash dynamic returnCount, (loader hash dynamic returnCount).Makes HostCall.GoesOn True
  /-- The behaviours of opcodes. -/
  table : ∀ op run, e.table op = .custom run →
    ∀ i entries, Keeps (State.Cached crypto entries) (run i) fun _ => True

/-- A session starts with an empty table. -/
theorem StartsSession.hosted (hstart : e.StartsSession crypto) :
    e.Hosted HostCall.GoesOn (State.Cached crypto #[]) e.table := by
  refine ⟨⟨hstart.suite, ?_, ?_, ?_, ?_⟩, hstart.interop, hstart.loader, rfl⟩
  · intro i script hi
    cases hi
  · rw [hstart.scripts]
    exact fun _ hscript => absurd hscript (Array.not_mem_empty _)
  · rw [hstart.scripts]
    intro i j first second hi
    cases hi
  · rw [hstart.frames]
    exact fun _ hf => absurd hf List.not_mem_nil

/-- **All that drives a session keeps the table.** -/
theorem SessionMove.hosted {e' : Engine} {table : OpCode → Behaviour} (hmove : SessionMove e e')
    (htable : ∀ op run, table op = .custom run → ∀ i entries, Keeps (State.Cached crypto entries) (run i) fun _ => True)
    (he : e.Hosted HostCall.GoesOn (State.Cached crypto entries) table) :
    e'.Hosted HostCall.GoesOn (State.Cached crypto entries) table := by
  cases hmove with
  | loadScript body returnCount => exact he.setState (he.state.loadScript body returnCount)
  | loadCached index returnCount => exact he.setState (he.state.loadCached index returnCount)
  | request call hcall => exact he.setState (he.state.request hcall)
  | setGasLimit gasLimit => exact he.setState (he.state.congr rfl rfl he.state.frames)
  | step =>
    exact State.Cached.stepInvariant.stepAt (fun op run hcustom i => htable op run hcustom i entries) nestingLimit he

/-- A session keeps the table. -/
theorem hosted_of_reach {e' : Engine} {table : OpCode → Behaviour} (hreach : Relation.ReflTransGen SessionMove e e')
    (htable : ∀ op run, table op = .custom run → ∀ i entries, Keeps (State.Cached crypto entries) (run i) fun _ => True)
    (he : e.Hosted HostCall.GoesOn (State.Cached crypto entries) table) :
    e'.Hosted HostCall.GoesOn (State.Cached crypto entries) table := by
  induction hreach with
  | refl => exact he
  | tail _ hmove ih => exact hmove.hosted htable ih

/-- **The loaded scripts of a session are a consistent table.** Their hashes are different, an entry stays at its
place from then on, and every frame runs an entry. A load that succeeds pushes exactly one frame, at the start of the
entry at the place that it returns, whose hash is that of the script, and whose body is the script unless another
loaded body has the same hash. A call by a hash in the table does the same with any loader, and if it succeeds, the
innermost frame is at the start of the entry with the hash. -/
theorem script_table_consistent {start later : Engine} (hstart : start.StartsSession crypto)
    (hreach : Relation.ReflTransGen SessionMove start e) (hlater : Relation.ReflTransGen SessionMove e later) :
    (∀ (i j : Nat) (first second : Script), e.state.session.scripts[i]? = some first →
      e.state.session.scripts[j]? = some second → first.hash = second.hash → i = j) ∧
    (∀ (i : Nat) (script : Script), e.state.session.scripts[i]? = some script →
      later.state.session.scripts[i]? = some script) ∧
    (∀ f ∈ e.state.frames, f.script ∈ e.state.session.scripts) ∧
    (∀ body returnCount index t, e.state.loadScript body returnCount = (.ok index, t) →
      ∃ script, t.session.scripts[index]? = some script ∧
        t.frames = { script, cursor := 0, returnCount, eval := [], alt := [] } :: e.state.frames ∧
        script.hash = crypto.hash160 body ∧
        ((∀ other ∈ e.state.session.scripts, crypto.hash160 other.body = crypto.hash160 body → other.body = body) →
          script.body = body)) ∧
    ∀ f outer op hash index, e.state.frames = f :: outer → fetch f = .ok op → e.table op = .standard op →
      f.advance.calledHash? op = some hash → e.state.scriptIndex? hash = some index →
      (∀ loader, ({ e with loader } : Engine).step = { e.step with loader }) ∧
      ∃ script, e.state.session.scripts[index]? = some script ∧ script.hash = hash ∧
        (e.status = .running → (executeNext (stepAt 15) e).1 = .ok () →
          e.step.status = .outOfGas ∨ e.step.state.AtStartOf script) := by
  have hcached := hosted_of_reach hreach hstart.table hstart.hosted
  have hs := hcached.state
  refine ⟨hs.distinct, ?_, hs.frames, ?_, ?_⟩
  · have hself : e.Hosted HostCall.GoesOn (State.Cached crypto e.state.session.scripts) start.table :=
      ⟨⟨hs.suite, fun _ _ h => h, hs.hash, hs.distinct, hs.frames⟩, hcached.interop, hcached.loader, hcached.table⟩
    exact (hosted_of_reach hlater hstart.table hself).state.kept
  · intro body returnCount index t hload
    obtain ⟨script, hscript, hframes, hhash, hbody⟩ := hs.of_loadScript_ok hload
    refine ⟨script, hscript, hframes, hhash, fun hunique => ?_⟩
    rcases hbody with hold | hbody
    · exact hunique script hold ((hs.hash script hold).symm.trans hhash)
    · exact hbody
  · intro f outer op hash index hframes hfetch htable hhash hindex
    obtain ⟨script, hscript, hnamed⟩ := State.exists_of_scriptIndex? hindex
    obtain ⟨hfree, htop⟩ := step_cached hframes hfetch htable hhash hindex hscript
    exact ⟨hfree, script, hscript, hnamed, htop⟩

/-- A script that calls another one by its hash, both loaded by the host, with a loader that would refuse. -/
theorem script_table_consistent_appCall :
    let digests : CryptoSuite :=
      { sha1 := fun _ => #[], sha256 := fun _ => #[], hash160 := fun body => body.extract 0 1 ++ Array.replicate 19 1
        hash256 := fun _ => #[], verify := fun _ _ _ => false }
    let start : Engine := { state := State.new .default digests, loader := some fun _ _ _ => .answer false }
    let loaded := start.modifyState fun s => (s.loadScript #[0x66] returnAll).2
    let e := loaded.modifyState fun s => (s.loadScript (#[0x67] ++ digests.hash160 #[0x66]) returnAll).2
    (start.StartsSession digests ∧ Relation.ReflTransGen SessionMove start e ∧
      Relation.ReflTransGen SessionMove e e.step ∧ e.state.scriptIndex? (digests.hash160 #[0x66]) = some 0 ∧
      e.status = .running ∧ (executeNext (stepAt 15) e).1 = .ok () ∧ e.step.status = .running) ∧
    (∀ loader, ({ e with loader } : Engine).step = { e.step with loader }) ∧
    (∃ script, e.state.session.scripts[0]? = some script ∧ script.hash = digests.hash160 #[0x66] ∧
      e.step.state.AtStartOf script) ∧
    ∀ (i : Nat) (script : Script), e.state.session.scripts[i]? = some script →
      e.step.state.session.scripts[i]? = some script := by
  intro digests start loaded e
  have hstart : start.StartsSession digests := by
    refine ⟨rfl, rfl, rfl, (fun _ h => by cases h), ?_, fun _ _ h => by cases h⟩
    rintro _ ⟨⟩ hash dynamic returnCount
    trivial
  have hreach : Relation.ReflTransGen SessionMove start e :=
    (Relation.ReflTransGen.single (.loadScript start _ _)).tail (.loadScript loaded _ _)
  have hlater : Relation.ReflTransGen SessionMove e e.step := .single (.step e)
  have hindex : e.state.scriptIndex? (digests.hash160 #[0x66]) = some 0 := by decide +kernel
  have hrun : e.status = .running ∧ (executeNext (stepAt 15) e).1 = .ok () ∧ e.step.status = .running := by
    decide +kernel
  obtain ⟨f, outer, hframes, hfetch, hhash⟩ : ∃ f outer, e.state.frames = f :: outer ∧ fetch f = .ok .appCall ∧
      f.advance.calledHash? .appCall = some (digests.hash160 #[0x66]) := by
    refine ⟨{ script := Script.of digests (#[0x67] ++ digests.hash160 #[0x66]) },
      [{ script := Script.of digests #[0x66] }], ?_⟩
    decide +kernel
  obtain ⟨-, hkept, -, -, hcalls⟩ := script_table_consistent hstart hreach hlater
  obtain ⟨hfree, script, hscript, hnamed, htop⟩ := hcalls f outer .appCall _ 0 hframes hfetch rfl hhash hindex
  refine ⟨⟨hstart, hreach, hlater, hindex, hrun⟩, hfree, ⟨script, hscript, hnamed, ?_⟩, hkept⟩
  refine (htop hrun.1 hrun.2.1).resolve_left fun hout => ?_
  rw [hrun.2.2] at hout
  cases hout

end Engine

end ScriptMachine
