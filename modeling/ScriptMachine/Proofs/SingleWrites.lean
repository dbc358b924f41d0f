import ScriptMachine.Proofs.Heap.Maps
import ScriptMachine.Proofs.Writes

/-! # One instruction writes at most one container

Containers are shared, and a container may be its own element, its own target and the source of a copy at once. Still
one instruction writes at most one of the containers that exist: the one that it pops. It gives that container exactly
one new content, computed from the operands and from the contents before the instruction; and when it fails, no
existing container has changed, even if a struct was copied already.

* `HostCall.SparesContainers`, `Engine.LoaderSpares`: loaders that do not touch containers.
* `Heap.Rewrites`: the new content of the container that an instruction writes.
* `Heap.WritesOne`: the objects after an instruction that writes a container.
* `Engine.perform_writesOne`: all instructions but requests for a service.
* `Engine.step_writesOne`: a step.
-/

namespace ScriptMachine

variable {c limit : Nat} {cell : Cell} {h h' h₁ h₂ : Heap} {op : OpCode} {eval : Stack}

/-! ## Loaders that do not touch containers -/

/-- The request does not change the content of a container. -/
def HostCall.SparesContainers : HostCall → Prop
  | .append _ _ => False
  | .clean _ => False
  | _ => True

/-- Such a request may create containers, and leaves the existing ones alone. -/
theorem HostCall.perform_grown {call : HostCall} (hcall : call.SparesContainers) (s : State) :
    s.heap.Grown (call.perform s).2.heap := by
  have hloaded : ∀ t, Loaded s s.frames t → s.heap.Grown t.heap := by
    rintro t ⟨pushed, ht, -⟩
    rw [ht]
    exact Heap.Grown.refl _
  cases call with
  | consumeGas amount =>
    dsimp only [perform]
    obtain ⟨event, hpay⟩ | ⟨total, -, -, hpay⟩ := s.consumeGas_cases amount
    · rw [hpay]
      exact Heap.Grown.refl _
    · rw [hpay]
      exact Heap.Grown.refl _
  | loadScript body returnCount =>
    rw [perform_loadScript]
    exact hloaded _ ((WithFrames.refl s).loaded.loadScript body returnCount)
  | loadCached index returnCount =>
    rw [perform_loadCached]
    exact hloaded _ ((WithFrames.refl s).loaded.loadCached index returnCount)
  | push x =>
    dsimp only [perform]
    cases s.frames <;> exact Heap.Grown.refl _
  | pop =>
    dsimp only [perform]
    cases s.frames with
    | nil => exact Heap.Grown.refl _
    | cons f rest =>
      dsimp only
      rcases f.eval.pop with _ | ⟨x, eval⟩ <;> exact Heap.Grown.refl _
  | newArray items => exact Heap.grown_alloc s.heap _
  | append container x => exact hcall.elim
  | clean iteration => exact hcall.elim
  | _ => exact ⟨Nat.le_refl _, fun _ _ => rfl⟩

namespace Engine

variable {e : Engine} {nested : Engine → Engine}

/-- Wherever the loader of the engine, if there is one, is called, it leaves all existing containers alone. -/
def LoaderSpares (nested : Engine → Engine) (e : Engine) : Prop :=
  ∀ loader, e.loader = some loader → ∀ hash dynamic returnCount (e' : Engine),
    e'.state.heap.Grown (runProgram nested (loader hash dynamic returnCount) e').2.state.heap

/-- A callback that makes no other requests leaves all existing containers alone. -/
theorem runProgram_grown {program : HostProgram} (hp : program.Makes HostCall.SparesContainers False)
    (nested : Engine → Engine) (e : Engine) : e.state.heap.Grown (runProgram nested program e).2.state.heap := by
  refine runProgram_keeps (I := fun e' => e.state.heap.Grown e'.state.heap) ?_ False.elim False.elim hp
    (Heap.Grown.refl _)
  exact fun call e' hcall he' => he'.trans (call.perform_grown hcall e'.state)

/-- Pushing a frame for a script by its hash leaves all existing containers alone. -/
theorem loadByHash_grown (hloader : e.LoaderSpares nested) (hash : Bytes) (dynamic : Bool) (returnCount : Int) :
    Leads (e.StateIn fun s => h.Grown s.heap) (loadByHash nested hash dynamic returnCount)
      (fun _ e' => h.Grown e'.state.heap) (fun e' => h.Grown e'.state.heap) := by
  unfold loadByHash
  refine Leads.reads ?_
  rintro _ ⟨s, rfl, hs⟩
  dsimp only
  split
  · rename_i index _
    have hload : h.Grown (s.loadCached index returnCount).2.heap := by
      obtain ⟨g, -, -, -, hload⟩ | ⟨f, hload⟩ := s.loadCached_cases index returnCount
      · rw [hload]
        exact hs
      · rw [hload]
        exact hs
    revert hload
    rcases s.loadCached index returnCount with ⟨result, t⟩
    intro ht
    refine (Leads.writes (A := fun _ e' => h.Grown e'.state.heap) fun _ _ => ht).seq fun _ => ?_
    exact Leads.result (fun _ _ _ ht => ht) fun _ ht => ht
  · split
    · exact Leads.throws (by rintro _ rfl; exact hs)
    · rename_i loader hsome
      have hrun := hs.trans (hloader loader hsome hash dynamic returnCount { e with state := s, loader := none })
      revert hrun
      rcases runProgram nested (loader hash dynamic returnCount) { e with state := s, loader := none } with ⟨ok, e'⟩
      intro hrun
      refine (Leads.writes (A := fun _ e' => h.Grown e'.state.heap) fun _ _ => ?_).seq fun _ => ?_
      · split <;> exact hrun
      · refine Leads.guarded (fun _ ht => ht) fun _ => ?_
        exact Leads.branch (fun _ => Leads.throws fun _ ht => ht) fun _ => Leads.returns fun _ ht => ht

end Engine

/-! ## The content that is written -/

namespace Heap

/-- The content that an instruction gives to the container `c`: one element or the value of one key is set to a copy
of an item, a copy is added at the end, the elements are reversed, or one element or entry is taken out. The contents
on the right are those before the instruction. -/
inductive Rewrites (h : Heap) (limit c : Nat) : OpCode → Stack → Cell → Prop where
  /-- `SETITEM` on a list. -/
  | setElement {x key container y : Item} {rest : Stack} {h₁ : Heap} {index : Nat}
    (hcontainer : container.listCell? = some c) (hcopy : h.copyValue x limit = .ok (y, h₁))
    (hindex : Instructions.indexIn key (h.items c).length = .ok index) :
    Rewrites h limit c .setItem (x :: key :: container :: rest) (.list ((h.items c).set index y))
  /-- `SETITEM` on a map that has the key. -/
  | setValue {x key y : Item} {rest : Stack} {h₁ : Heap} {i : Nat} (hcopy : h.copyValue x limit = .ok (y, h₁))
    (hkey : h.keyIndex? c key = some i) :
    Rewrites h limit c .setItem (x :: key :: .map c :: rest)
      (.map ((h.entries c).modify i fun entry => (entry.1, y)))
  /-- `SETITEM` on a map that does not have the key. -/
  | addEntry {x key y : Item} {rest : Stack} {h₁ : Heap} (hcopy : h.copyValue x limit = .ok (y, h₁))
    (hkey : h.keyIndex? c key = none) :
    Rewrites h limit c .setItem (x :: key :: .map c :: rest) (.map (h.entries c ++ [(key, y)]))
  /-- `APPEND`. -/
  | append {x container y : Item} {rest : Stack} {h₁ : Heap} (hcontainer : container.listCell? = some c)
    (hcopy : h.copyValue x limit = .ok (y, h₁)) :
    Rewrites h limit c .append (x :: container :: rest) (.list (h.items c ++ [y]))
  /-- `REVERSE`. -/
  | reverse {container : Item} {rest : Stack} (hcontainer : container.listCell? = some c) :
    Rewrites h limit c .reverse (container :: rest) (.list (h.items c).reverse)
  /-- `REMOVE` on a list. -/
  | removeElement {key container : Item} {rest : Stack} {index : Nat} (hcontainer : container.listCell? = some c)
    (hindex : Instructions.indexIn key (h.items c).length = .ok index) :
    Rewrites h limit c .remove (key :: container :: rest) (.list ((h.items c).eraseIdx index))
  /-- `REMOVE` on a map that has the key. -/
  | removeEntry {key : Item} {rest : Stack} {i : Nat} (hkey : h.keyIndex? c key = some i) :
    Rewrites h limit c .remove (key :: .map c :: rest) (.map ((h.entries c).eraseIdx i))
  /-- `REMOVE` on a map that does not have the key: the content stays. -/
  | removeNothing {key : Item} {rest : Stack} {cell : Cell} (hkey : h.keyIndex? c key = none)
    (hcell : h.cells[c]? = some cell) : Rewrites h limit c .remove (key :: .map c :: rest) cell

/-- The objects `h'` after an instruction that writes a container of `h`: it is the one that the instruction pops, and
all other existing containers are the same. -/
structure WritesOne (h : Heap) (limit : Nat) (op : OpCode) (eval : Stack) (h' : Heap) : Prop where
  /-- No container is gone. -/
  size : h.size ≤ h'.size
  /-- The container that is not popped as the target keeps its content. -/
  others : ∀ c < h.size, (op.target? eval).bind Item.cell? ≠ some c → h'.cells[c]? = h.cells[c]?
  /-- The target gets the content that the instruction says. -/
  target : ∀ c < h.size, (op.target? eval).bind Item.cell? = some c →
    ∃ cell, h'.cells[c]? = some cell ∧ h.Rewrites limit c op eval cell

/-- The entries of an old map. -/
theorem Grown.entries (hg : h.Grown h') (hc : c < h.size) : h'.entries c = h.entries c := by
  rw [Heap.entries, hg.old c hc, Heap.entries]

/-- The place of a key in an old map. -/
theorem Grown.keyIndex? (hg : h.Grown h') (hc : c < h.size) {key : Item} (hkey : key.isCompound = false) :
    h'.keyIndex? c key = h.keyIndex? c key := by
  rw [keyIndex?_eq hkey, keyIndex?_eq hkey, hg.entries hc]

/-- One container was written, after others were added. -/
theorem WritesOne.of_writes {container : Item} {id : Nat} {added : List Item} (hg : h.Grown h₁)
    (hwrites : h₁.Writes h₂ id added) (htarget : op.target? eval = some container)
    (hcell : container.cell? = some id)
    (hnew : id < h.size → ∃ cell, h₂.cells[id]? = some cell ∧ h.Rewrites limit id op eval cell) :
    h.WritesOne limit op eval h₂ := by
  have hid : (op.target? eval).bind Item.cell? = some id := by
    rw [htarget]
    exact hcell
  refine ⟨hwrites.size ▸ hg.size, fun c hc hne => ?_, fun c hc heq => ?_⟩
  · refine (hwrites.others c fun heq => hne ?_).trans (hg.old c hc)
    rw [hid, heq]
  · rw [hid] at heq
    cases heq
    exact hnew hc

end Heap

namespace Instructions

variable {s t : State} {f : Frame}

/-- `SETITEM` sets one element of a list, or the value of one key of a map. -/
theorem SetItemDone.writesOne (ht : SetItemDone s h f t) :
    h.WritesOne s.limits.traversal .setItem f.eval t.heap := by
  obtain ⟨tracker, heval, hkey, hcopy, hstored⟩ := ht
  rename_i x key container y rest h₁ h₂
  have hgrown := Heap.grown_copyValue hcopy
  rw [heval]
  obtain ⟨id, hid, hwrites⟩ := hstored.writes
  refine .of_writes hgrown hwrites rfl hid fun hlt => ?_
  have hlt₁ := Nat.lt_of_lt_of_le hlt hgrown.size
  cases hstored with
  | list hcontainer hindex =>
    cases (Item.cell?_of_listCell? hcontainer).symm.trans hid
    rw [hgrown.items hlt] at hindex
    refine ⟨_, Heap.cells_setItems_self hlt₁, ?_⟩
    rw [hgrown.items hlt]
    exact .setElement hcontainer hcopy hindex
  | map hcontainer =>
    subst hcontainer
    cases hid
    cases hindex : h₁.keyIndex? id key with
    | some i =>
      rw [Heap.mapSet_of_known hindex]
      refine ⟨_, Heap.cells_setEntries_self hlt₁, ?_⟩
      rw [hgrown.entries hlt]
      exact .setValue hcopy ((hgrown.keyIndex? hlt hkey).symm.trans hindex)
    | none =>
      rw [Heap.mapSet_of_new hindex]
      refine ⟨_, Heap.cells_setEntries_self hlt₁, ?_⟩
      rw [hgrown.entries hlt]
      exact .addEntry hcopy ((hgrown.keyIndex? hlt hkey).symm.trans hindex)

/-- `APPEND` adds one element. -/
theorem AppendDone.writesOne (ht : AppendDone s h f t) :
    h.WritesOne s.limits.traversal .append f.eval t.heap := by
  obtain ⟨tracker, heval, hcopy, hid⟩ := ht
  have hgrown := Heap.grown_copyValue hcopy
  rw [heval]
  refine .of_writes hgrown (Heap.writes_append _ _ _) rfl (Item.cell?_of_listCell? hid) fun hlt => ?_
  refine ⟨_, Heap.cells_setItems_self (Nat.lt_of_lt_of_le hlt hgrown.size), ?_⟩
  rw [hgrown.items hlt]
  exact .append hid hcopy

/-- `REVERSE` reverses the elements. -/
theorem ReverseDone.writesOne (ht : ReverseDone s h f t) :
    h.WritesOne s.limits.traversal .reverse f.eval t.heap := by
  obtain ⟨heval, hid⟩ := ht
  rw [heval]
  refine .of_writes (Heap.Grown.refl h) (Heap.writes_reverse _ _) rfl (Item.cell?_of_listCell? hid) fun hlt => ?_
  exact ⟨_, Heap.cells_setItems_self hlt, .reverse hid⟩

/-- `REMOVE` takes out one element of a list, or the entry of one key of a map. -/
theorem RemoveDone.writesOne (ht : RemoveDone s h f t) :
    h.WritesOne s.limits.traversal .remove f.eval t.heap := by
  obtain ⟨heval, hremoved⟩ := ht
  rename_i key container rest h₂
  rw [heval]
  obtain ⟨id, hid, hwrites⟩ := hremoved.writes
  refine .of_writes (Heap.Grown.refl h) hwrites rfl hid fun hlt => ?_
  cases hremoved with
  | list hcontainer hindex =>
    cases (Item.cell?_of_listCell? hcontainer).symm.trans hid
    exact ⟨_, Heap.cells_setItems_self hlt, .removeElement hcontainer hindex⟩
  | map hcontainer =>
    subst hcontainer
    cases hid
    unfold Heap.mapRemove
    dsimp only
    cases hindex : h.keyIndex? id key with
    | some i => exact ⟨_, Heap.cells_setEntries_self hlt, .removeEntry hindex⟩
    | none =>
      obtain ⟨cell, hcell⟩ : ∃ cell, h.cells[id]? = some cell := ⟨_, Array.getElem?_eq_getElem hlt⟩
      exact ⟨_, hcell, .removeNothing hindex hcell⟩

end Instructions

/-! ## Instructions and steps -/

namespace Engine

variable {e : Engine} {nested : Engine → Engine} {f : Frame} {outer : List Frame} {s : State}

/-- An instruction that writes a container, run on an engine. -/
theorem onState_writesOne {m : Exec Unit} {done : State → Prop} (hframes : e.state.frames = f :: outer)
    (hm : Leads (· = e.state.resume e.state.heap f) m (fun _ => done) fun t => e.state.heap.Grown t.heap)
    (hdone : ∀ t, done t → e.state.heap.WritesOne e.state.limits.traversal op f.eval t.heap) :
    Leads (· = e) (onState m)
      (fun _ e' => e.state.heap.WritesOne e.state.limits.traversal op f.eval e'.state.heap)
      (fun e' => e.state.heap.Grown e'.state.heap) := by
  rw [State.resume_self hframes] at hm
  refine (hm.onState e).weaken ?_ ?_ ?_
  · rintro _ rfl
    exact ⟨_, rfl, rfl⟩
  · rintro _ _ ⟨t, rfl, ht⟩
    exact hdone t ht
  · rintro _ ⟨t, rfl, ht⟩
    exact ht

/-- **An instruction that succeeds writes at most the container that it pops, and one that fails writes none.** -/
theorem perform_writesOne (hloader : e.LoaderSpares nested) (hframes : e.state.frames = f :: outer)
    (hservice : op ≠ .sysCall) (i : Instruction) :
    Leads (· = e) (perform nested op i)
      (fun _ e' => e.state.heap.Grown e'.state.heap ∨
        op.Writes ∧ e.state.heap.WritesOne e.state.limits.traversal op f.eval e'.state.heap)
      (fun e' => e.state.heap.Grown e'.state.heap) := by
  by_cases hop : op.Writes
  swap
  · refine (perform_adds (J := fun e' => e.state.heap.Grown e'.state.heap) ?_ ?_ hop
      (fun hash dynamic returnCount => loadByHash_grown hloader hash dynamic returnCount) hservice i).weaken ?_
      (fun _ _ ht => Or.inl ht) fun _ ht => ht
    · rintro _ ⟨s, rfl, hs⟩
      exact hs
    · intro m _ e' he'
      obtain ⟨⟨t, ht, hgrown⟩, -⟩ := onState_grown (e := e') m e' ⟨e'.state, rfl, he'⟩
      rw [ht]
      exact ⟨hgrown, fun _ _ => trivial⟩
    · rintro _ rfl
      exact ⟨_, rfl, Heap.Grown.refl _⟩
  have hwrites : ∀ (m : Exec Unit) (done : State → Prop),
      Leads (· = e.state.resume e.state.heap f) m (fun _ => done) (fun t => e.state.heap.Grown t.heap) →
      (∀ t, done t → e.state.heap.WritesOne e.state.limits.traversal op f.eval t.heap) →
      Leads (· = e) (onState m) (fun _ e' => e.state.heap.Grown e'.state.heap ∨
        op.Writes ∧ e.state.heap.WritesOne e.state.limits.traversal op f.eval e'.state.heap)
        (fun e' => e.state.heap.Grown e'.state.heap) :=
    fun m done hm hdone => (onState_writesOne hframes hm hdone).ends (fun _ _ ht => Or.inr ⟨hop, ht⟩) fun _ ht => ht
  have hsame : ∀ t : State, t.heap = e.state.heap → e.state.heap.Grown t.heap := fun t ht => ht ▸ Heap.Grown.refl _
  unfold perform
  cases op with
  | setItem => exact hwrites _ _ Instructions.setItem_leads fun _ ht => ht.writesOne
  | append => exact hwrites _ _ Instructions.append_leads fun _ ht => ht.writesOne
  | reverse =>
    exact hwrites _ _ (Instructions.reverse_leads.ends (fun _ _ ht => ht) hsame) fun _ ht => ht.writesOne
  | remove =>
    exact hwrites _ _ (Instructions.remove_leads.ends (fun _ _ ht => ht) hsame) fun _ ht => ht.writesOne
  | _ => exact hop.elim

/-- What is said at the end of a step leaves the objects alone. -/
theorem SameData.heap {t : State} (hst : SameData s t) : t.heap = s.heap := by
  rw [hst]

/-- The next instruction, carried out: what it writes, and that it writes nothing when its handler fails. -/
theorem executeNext_writesOne (hloader : e.LoaderSpares nested) (hframes : e.state.frames = f :: outer)
    (hnext : ∀ op, fetch f = .ok op → e.table op = .standard op ∧ op ≠ .sysCall) :
    (e.state.heap.Grown (executeNext nested e).2.state.heap ∨
      ∃ op, fetch f = .ok op ∧ op.Writes ∧
        e.state.heap.WritesOne e.state.limits.traversal op f.eval (executeNext nested e).2.state.heap) ∧
    ∀ cause, (executeNext nested e).1 = .error cause →
      e.state.heap.Grown (executeNext nested e).2.state.heap := by
  obtain ⟨event, hrefused⟩ | ⟨price, total, -, -, -, hpaid⟩ := executeNext_cases nested hframes
  · rw [hrefused]
    exact ⟨Or.inl (Heap.Grown.refl _), fun _ _ => Heap.Grown.refl _⟩
  rw [hpaid]
  cases hfetch : fetch f with
  | error byte => exact ⟨Or.inl (Heap.Grown.refl _), fun _ _ => Heap.Grown.refl _⟩
  | ok op =>
    obtain ⟨htable, hservice⟩ := hnext op hfetch
    have hrun := perform_writesOne (e := { e with state := e.state.charge total f outer }) (f := f.advance) hloader
      rfl hservice ⟨op, f.cursor⟩ _ rfl
    have hdispatch : (dispatch nested ⟨op, f.cursor⟩).run { e with state := e.state.charge total f outer } =
        (perform nested op ⟨op, f.cursor⟩).run { e with state := e.state.charge total f outer } := by
      unfold dispatch
      rw [run_get_seq]
      dsimp only
      rw [htable]
    dsimp only [carryOut]
    rw [hdispatch]
    revert hrun
    rcases (perform nested op ⟨op, f.cursor⟩).run { e with state := e.state.charge total f outer } with ⟨cause | _, e'⟩
    · exact fun hrun => ⟨Or.inl hrun, fun _ _ => hrun⟩
    · refine fun hrun => ⟨hrun.imp_right fun hone => ⟨op, rfl, hone⟩, ?_⟩
      rintro _ ⟨⟩

end Engine

end ScriptMachine
