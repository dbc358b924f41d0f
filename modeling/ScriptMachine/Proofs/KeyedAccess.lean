import ScriptMachine.Proofs.CodeRuns
import ScriptMachine.Proofs.Heap.CopiedValues
import ScriptMachine.Proofs.Heap.MapHistory
import ScriptMachine.Proofs.Numbers

/-! # Containers and their keys

Four instructions pop a key and a container: `HASKEY` tells whether the container has the key, and `PICKITEM`,
`SETITEM` and `REMOVE` read, write and take out the element or value at it. They read the key in different ways, and
agree nevertheless: on a list about the index that the key is, and on a map about the keys that are equal to it. So the
answer of `HASKEY` predicts what the others do on the same objects, and after a map was changed the answers about all
equal keys are changed, and no others.

* `Key.Place`: what a key is to a list.
* `Instructions.run_keyed`, `Instructions.run_valued`: how the operands are popped, and then what each instruction does.
* `Heap.Records.mapGet?_set`, `Heap.Records.mapGet?_remove`: maps after a change.
* `Setting`: what an instruction finds below its operands, with the outcomes of the instructions.
* `Setting.listAccess`, `Setting.mapAccess`: how the instructions agree.
* `Setting.stored`, `Setting.removed`: the answers after a change.
* `Setting.hasKey_predicts_access`: all together.
-/

namespace ScriptMachine

/-! ## Keys of lists -/

/-- **What a key is to a list** of some length. -/
inductive Key.Place (key : Key) (length : Nat) : Prop where
  /-- The index of an element. -/
  | inside {index : Nat} (hnumber : key.item.number32? = some (index : Int)) (hlt : index < length)
  /-- An index behind the end. -/
  | beyond {index : Nat} (hnumber : key.item.number32? = some (index : Int)) (hle : length ≤ index)
  /-- No index: no number of 32 bits, or a negative one. -/
  | nowhere (hnone : ∀ index : Nat, key.item.number32? ≠ some (index : Int))

/-- Each key has a place. -/
theorem Key.place (key : Key) (length : Nat) : key.Place length := by
  by_cases hindex : ∃ index : Nat, key.item.number32? = some (index : Int)
  · obtain ⟨index, hnumber⟩ := hindex
    rcases Nat.lt_or_ge index length with hlt | hle
    · exact .inside hnumber hlt
    · exact .beyond hnumber hle
  · exact .nowhere fun index hnumber => hindex ⟨index, hnumber⟩

namespace Instructions

variable {s : State} {h h' : Heap} {f : Frame} {container x y : Item} {key : Key} {rest : Stack} {id index length : Nat}

/-- A key that is no index is refused, or is a negative number. -/
theorem int32_nowhere (hnone : ∀ index : Nat, key.item.number32? ≠ some (index : Int)) :
    (∃ fault, key.item.int32 = .error fault) ∨ ∃ n < 0, key.item.int32 = .ok n := by
  cases hnumber : key.item.number32? with
  | none =>
    have hvalue := Item.int32_yields key.canonical
    rw [hnumber] at hvalue
    exact .inl hvalue
  | some n =>
    refine .inr ⟨n, ?_, Item.int32_of_number32 key.canonical hnumber⟩
    by_contra hnonneg
    obtain ⟨index, rfl⟩ := Int.eq_ofNat_of_zero_le (Int.not_lt.1 hnonneg)
    exact hnone index hnumber

/-- The index of an element. -/
theorem indexIn_inside (hnumber : key.item.number32? = some (index : Int)) (hlt : index < length) :
    indexIn key.item length = .ok index := by
  have hint := Item.int32_of_number32 key.canonical hnumber
  unfold indexIn
  rw [hint]
  exact if_pos (by omega)

/-- A key that is not the index of an element. -/
theorem indexIn_outside (houtside : ∀ index : Nat, key.item.number32? = some (index : Int) → length ≤ index) :
    ∃ fault, indexIn key.item length = .error fault := by
  have hrefused : (∃ fault, key.item.int32 = .error fault) ∨
      ∃ n, key.item.int32 = .ok n ∧ ¬ (0 ≤ n ∧ n < (length : Int)) := by
    by_cases hindex : ∃ index : Nat, key.item.number32? = some (index : Int)
    · obtain ⟨index, hnumber⟩ := hindex
      have hle := houtside index hnumber
      exact .inr ⟨index, Item.int32_of_number32 key.canonical hnumber, by omega⟩
    · refine (int32_nowhere fun index hnumber => hindex ⟨index, hnumber⟩).imp_right ?_
      rintro ⟨n, hn, hint⟩
      exact ⟨n, hint, by omega⟩
  unfold indexIn
  rcases hrefused with ⟨fault, hint⟩ | ⟨n, hint, hrange⟩
  · rw [hint]
    exact ⟨fault, rfl⟩
  · rw [hint]
    exact ⟨_, if_neg hrange⟩

/-! ## Instructions with a key -/

/-- **A key and a container are popped**, and what follows. -/
theorem run_keyed (k : Item → Item → Heap → Exec Unit) (heval : f.eval = key.item :: container :: rest) :
    (do
      let key ← Exec.onFrame popKey
      let container ← Exec.pop
      let h ← Exec.heap
      k key container h : Exec Unit).run (s.resume h f) =
    (k key.item container h).run (s.resume h { f with eval := rest }) := by
  have hpop : popKey.run f = (.ok key.item, { f with eval := container :: rest }) := by
    rw [run_popKey_cons heval, key.primitive]
    rfl
  rw [Exec.run_onFrame_seq hpop, run_seq_of_ok (Exec.run_pop_resume rfl), Exec.run_heap_seq]
  rfl

/-- **A value, a key and a container are popped** and the value is copied, and what follows. -/
theorem run_valued (k : Limits → Item → Item → Item → Heap → Exec Unit)
    (heval : f.eval = x :: key.item :: container :: rest) (hcopy : h.copyValue x s.limits.traversal = .ok (y, h')) :
    (do
      let limits ← Exec.limits
      let value ← Exec.copyValue (← Exec.pop)
      let key ← Exec.onFrame popKey
      let container ← Exec.pop
      let h ← Exec.heap
      k limits value key container h : Exec Unit).run (s.resume h f) =
    (k s.limits y key.item container h').run (s.resume h' { f with eval := rest }) := by
  rw [Exec.run_limits_seq, run_seq_of_ok (Exec.run_pop_resume heval), run_seq_of_ok (Exec.run_copyValue_resume hcopy)]
  exact run_keyed (k s.limits y) rfl

section lists

variable (hid : container.listCell? = some id)
include hid

/-- `HASKEY` on a list reads the key as an index. -/
theorem run_hasKey_list (heval : f.eval = key.item :: container :: rest) :
    hasKey.run (s.resume h f) =
      (do
        let index ← MonadExcept.ofExcept key.item.int32
        if index < 0 then throw (.negative "HASKEY index" index)
        Exec.pushBool (index.toNat < (h.items id).length) : Exec Unit).run (s.resume h { f with eval := rest }) := by
  unfold hasKey
  rw [run_keyed _ heval]
  cases container with
  | array _ | struct _ =>
    cases hid
    rfl
  | _ => cases hid

/-- `HASKEY` of an index. -/
theorem run_hasKey_index (heval : f.eval = key.item :: container :: rest)
    (hnumber : key.item.number32? = some (index : Int)) :
    hasKey.run (s.resume h f) =
      (.ok (), s.resume h { f with eval := .boolean (index < (h.items id).length) :: rest }) := by
  have hint : (MonadExcept.ofExcept key.item.int32 : Exec Int).run (s.resume h { f with eval := rest }) =
      (.ok (index : Int), s.resume h { f with eval := rest }) := by
    rw [Item.int32_of_number32 key.canonical hnumber]
    rfl
  rw [run_hasKey_list hid heval, run_seq_of_ok hint, if_neg (Int.not_lt.2 (Int.natCast_nonneg index))]
  rfl

/-- `HASKEY` of a key that is no index. -/
theorem run_hasKey_nowhere (heval : f.eval = key.item :: container :: rest)
    (hnone : ∀ index : Nat, key.item.number32? ≠ some (index : Int)) :
    ∃ fault t, hasKey.run (s.resume h f) = (.error fault, t) := by
  rw [run_hasKey_list hid heval]
  rcases int32_nowhere hnone with ⟨fault, hint⟩ | ⟨n, hn, hint⟩
  · rw [hint]
    exact ⟨fault, _, rfl⟩
  · have hread : (MonadExcept.ofExcept key.item.int32 : Exec Int).run (s.resume h { f with eval := rest }) =
        (.ok n, s.resume h { f with eval := rest }) := by
      rw [hint]
      rfl
    rw [run_seq_of_ok hread, if_pos hn]
    exact ⟨_, _, rfl⟩

/-- `PICKITEM` on a list. -/
theorem run_pickItem_list (heval : f.eval = key.item :: container :: rest) :
    pickItem.run (s.resume h f) =
      (do
        let index ← MonadExcept.ofExcept (indexIn key.item (h.items id).length)
        Exec.push (← Exec.copyValue ((h.items id).getD index default)) : Exec Unit).run
          (s.resume h { f with eval := rest }) := by
  unfold pickItem
  rw [run_keyed _ heval]
  cases container with
  | array _ | struct _ =>
    cases hid
    dsimp only
    -- With or without an index, nothing else happens before the element is copied.
    cases indexIn key.item (h.items id).length <;> rfl
  | _ => cases hid

/-- `PICKITEM` of the index of an element copies the element. -/
theorem run_pickItem_inside (heval : f.eval = key.item :: container :: rest)
    (hindex : indexIn key.item (h.items id).length = .ok index) (hlt : index < (h.items id).length) :
    pickItem.run (s.resume h f) =
      (do Exec.push (← Exec.copyValue (h.items id)[index]) : Exec Unit).run (s.resume h { f with eval := rest }) := by
  rw [run_pickItem_list hid heval, hindex, ← List.getD_eq_getElem _ default hlt]
  rfl

/-- `PICKITEM` of a key that is not the index of an element. -/
theorem run_pickItem_outside {fault : Fault} (heval : f.eval = key.item :: container :: rest)
    (hindex : indexIn key.item (h.items id).length = .error fault) :
    pickItem.run (s.resume h f) = (.error fault, s.resume h { f with eval := rest }) := by
  rw [run_pickItem_list hid heval, hindex]
  rfl

/-- `REMOVE` on a list. -/
theorem run_remove_list (heval : f.eval = key.item :: container :: rest) :
    remove.run (s.resume h f) =
      (do
        let index ← MonadExcept.ofExcept (indexIn key.item (h.items id).length)
        let (_, h) ← MonadExcept.ofExcept (h.removeAt id index)
        Exec.setHeap h : Exec Unit).run (s.resume h { f with eval := rest }) := by
  unfold remove
  rw [run_keyed _ heval]
  cases container with
  | array _ | struct _ =>
    cases hid
    rfl
  | _ => cases hid

/-- `REMOVE` of the index of an element. -/
theorem run_remove_inside (heval : f.eval = key.item :: container :: rest)
    (hindex : indexIn key.item (h.items id).length = .ok index) :
    remove.run (s.resume h f) =
      (.ok (), s.resume (h.setItems id ((h.items id).eraseIdx index)) { f with eval := rest }) := by
  have hlt := lt_of_indexIn hindex
  have hremove : h.removeAt id index = .ok ((h.items id)[index], h.setItems id ((h.items id).eraseIdx index)) := by
    unfold Heap.removeAt
    dsimp only
    rw [List.getElem?_eq_getElem hlt]
  rw [run_remove_list hid heval, hindex]
  show (MonadExcept.ofExcept (h.removeAt id index) >>= fun r => Exec.setHeap r.2).run _ = _
  rw [hremove]
  rfl

/-- `REMOVE` of a key that is not the index of an element. -/
theorem run_remove_outside {fault : Fault} (heval : f.eval = key.item :: container :: rest)
    (hindex : indexIn key.item (h.items id).length = .error fault) :
    remove.run (s.resume h f) = (.error fault, s.resume h { f with eval := rest }) := by
  rw [run_remove_list hid heval, hindex]
  rfl

/-- `SETITEM` on a list, which is read after the value was copied. -/
theorem run_setItem_list (heval : f.eval = x :: key.item :: container :: rest)
    (hcopy : h.copyValue x s.limits.traversal = .ok (y, h')) :
    setItem.run (s.resume h f) =
      (do
        let index ← MonadExcept.ofExcept (indexIn key.item (h'.items id).length)
        Exec.setHeap (← MonadExcept.ofExcept (h'.setAt id index y))
        trackNesting container y : Exec Unit).run (s.resume h' { f with eval := rest }) := by
  unfold setItem
  refine (run_valued _ heval hcopy).trans ?_
  cases container with
  | array _ | struct _ =>
    cases hid
    rfl
  | _ => cases hid

/-- `SETITEM` at the index of an element. -/
theorem run_setItem_inside (heval : f.eval = x :: key.item :: container :: rest)
    (hcopy : h.copyValue x s.limits.traversal = .ok (y, h'))
    (hindex : indexIn key.item (h'.items id).length = .ok index) :
    ∃ tracker, setItem.run (s.resume h f) =
      (.ok (), (s.withTracker tracker).resume (h'.setItems id ((h'.items id).set index y))
        { f with eval := rest }) := by
  have hset : h'.setAt id index y = .ok (h'.setItems id ((h'.items id).set index y)) :=
    if_pos (lt_of_indexIn hindex)
  obtain ⟨tracker, htrack⟩ := run_trackNesting (h := h'.setItems id ((h'.items id).set index y)) container y s
    { f with eval := rest }
  refine ⟨tracker, ?_⟩
  rw [run_setItem_list hid heval hcopy, hindex]
  show (MonadExcept.ofExcept (h'.setAt id index y) >>= fun h => do
    Exec.setHeap h
    trackNesting container y).run _ = _
  rw [hset]
  exact htrack

/-- `SETITEM` at a key that is not the index of an element. -/
theorem run_setItem_outside {fault : Fault} (heval : f.eval = x :: key.item :: container :: rest)
    (hcopy : h.copyValue x s.limits.traversal = .ok (y, h'))
    (hindex : indexIn key.item (h'.items id).length = .error fault) :
    setItem.run (s.resume h f) = (.error fault, s.resume h' { f with eval := rest }) := by
  rw [run_setItem_list hid heval hcopy, hindex]
  rfl

end lists

/-- A value without a copy stops an instruction. -/
theorem run_copyValue_fault {fault : Fault} (hcopy : h.copyValue x s.limits.traversal = .error fault) :
    (Exec.copyValue x).run (s.resume h f) = (.error fault, s.resume h f) := by
  rw [Exec.copyValue, run_get_seq, State.resume_heap, State.resume_limits, hcopy]
  rfl

/-- Pushing a copy. -/
theorem run_push_copyValue :
    (do Exec.push (← Exec.copyValue x) : Exec Unit).run (s.resume h f) =
      match h.copyValue x s.limits.traversal with
      | .ok (y, h') => (.ok (), s.resume h' { f with eval := y :: f.eval })
      | .error fault => (.error fault, s.resume h f) := by
  cases hcopy : h.copyValue x s.limits.traversal with
  | ok r =>
    rw [run_seq_of_ok (Exec.run_copyValue_resume hcopy)]
    rfl
  | error fault => rw [run_seq, run_copyValue_fault hcopy]

/-- `SETITEM` of a value without a copy. -/
theorem run_setItem_uncopied {fault : Fault} (heval : f.eval = x :: rest)
    (hcopy : h.copyValue x s.limits.traversal = .error fault) :
    setItem.run (s.resume h f) = (.error fault, s.resume h { f with eval := rest }) := by
  unfold setItem
  rw [Exec.run_limits_seq, run_seq_of_ok (Exec.run_pop_resume heval), run_seq, run_copyValue_fault hcopy]

section maps

/-- `HASKEY` on a map. -/
theorem run_hasKey_map (heval : f.eval = key.item :: .map id :: rest) :
    hasKey.run (s.resume h f) = (.ok (), s.resume h { f with eval := .boolean (h.mapHas id key.item) :: rest }) := by
  unfold hasKey
  rw [run_keyed _ heval]
  rfl

/-- `PICKITEM` of a key that a map has copies the value. -/
theorem run_pickItem_known (heval : f.eval = key.item :: .map id :: rest) (hget : h.mapGet? id key.item = some x) :
    pickItem.run (s.resume h f) =
      (do Exec.push (← Exec.copyValue x) : Exec Unit).run (s.resume h { f with eval := rest }) := by
  unfold pickItem
  rw [run_keyed _ heval]
  dsimp only
  rw [hget]
  rfl

/-- `PICKITEM` of a key that a map does not have. -/
theorem run_pickItem_missing (heval : f.eval = key.item :: .map id :: rest) (hget : h.mapGet? id key.item = none) :
    pickItem.run (s.resume h f) = (.error .keyNotFound, s.resume h { f with eval := rest }) := by
  unfold pickItem
  rw [run_keyed _ heval]
  dsimp only
  rw [hget]
  rfl

/-- `REMOVE` on a map. -/
theorem run_remove_map (heval : f.eval = key.item :: .map id :: rest) :
    remove.run (s.resume h f) = (.ok (), s.resume (h.mapRemove id key.item).2 { f with eval := rest }) := by
  unfold remove
  rw [run_keyed _ heval]
  rfl

/-- `SETITEM` on a map that has the key, or room for it. -/
theorem run_setItem_room (heval : f.eval = x :: key.item :: .map id :: rest)
    (hcopy : h.copyValue x s.limits.traversal = .ok (y, h'))
    (hroom : h'.mapHas id key.item = true ∨ (h'.entries id).length < s.limits.maxArraySize) :
    ∃ tracker, setItem.run (s.resume h f) =
      (.ok (), (s.withTracker tracker).resume (h'.mapSet id key.item y) { f with eval := rest }) := by
  obtain ⟨tracker, htrack⟩ := run_trackNesting (h := h'.mapSet id key.item y) (.map id) y s { f with eval := rest }
  have hgoes : ¬ (!h'.mapHas id key.item && decide ((h'.entries id).length ≥ s.limits.maxArraySize)) = true := by
    rcases hroom with hhas | hlt
    · simp [hhas]
    · simp [hlt]
  refine ⟨tracker, ?_⟩
  unfold setItem
  refine (run_valued _ heval hcopy).trans ?_
  dsimp only
  rw [if_neg hgoes]
  exact htrack

/-- `SETITEM` of a new key on a map without room. -/
theorem run_setItem_full (heval : f.eval = x :: key.item :: .map id :: rest)
    (hcopy : h.copyValue x s.limits.traversal = .ok (y, h')) (hnew : h'.mapHas id key.item = false)
    (hfull : s.limits.maxArraySize ≤ (h'.entries id).length) :
    ∃ fault, setItem.run (s.resume h f) = (.error fault, s.resume h' { f with eval := rest }) := by
  have hstops : (!h'.mapHas id key.item && decide ((h'.entries id).length ≥ s.limits.maxArraySize)) = true := by
    simp [hnew, hfull]
  refine ⟨.tooLarge ((h'.entries id).length + 1) s.limits.maxArraySize, ?_⟩
  unfold setItem
  refine (run_valued _ heval hcopy).trans ?_
  dsimp only
  rw [if_pos hstops]
  rfl

end maps

end Instructions

/-! ## Maps after a change -/

namespace Heap

variable {h h' : Heap} {id : Nat} {ops : List MapOperation} {entries : List (Key × Item)} {key other : Key} {x y : Item}

/-- A map stays what it is when containers are added. -/
theorem Records.grown (hr : h.Records id ops entries) (hgrown : h.Grown h') : h'.Records id ops entries :=
  ⟨(hgrown.old id hr.lt_size).trans hr.cell, hr.keys, hr.values⟩

/-- The cell of a map has no elements. -/
theorem Records.items_eq (hr : h.Records id ops entries) : h.items id = [] := by
  rw [Heap.items, hr.cell]

/-- **After a key was set**, it has its value, and so do all equal keys; the others have what they had. -/
theorem Records.mapGet?_set (hr : h.Records id ops entries) :
    (h.mapSet id key.item y).mapGet? id other.item =
      if key.equal other then some y else h.mapGet? id other.item := by
  obtain ⟨entries', hr'⟩ := hr.apply (.set key y)
  have hget := hr'.mapGet?_eq other
  rw [lastValue?_concat, ← hr.mapGet?_eq] at hget
  exact hget

/-- **After a key was taken out**, no equal key has a value; the others have what they had. -/
theorem Records.mapGet?_remove (hr : h.Records id ops entries) :
    (h.mapRemove id key.item).2.mapGet? id other.item =
      if key.equal other then none else h.mapGet? id other.item := by
  obtain ⟨entries', hr'⟩ := hr.apply (.remove key)
  have hget := hr'.mapGet?_eq other
  rw [lastValue?_concat, ← hr.mapGet?_eq] at hget
  exact hget

end Heap

/-! ## Outcomes -/

/-- The instructions with a key, and what they do. -/
inductive OpCode.Keyed : OpCode → Exec Unit → Prop
  /-- Asking for an element. -/
  | hasKey : Keyed .hasKey Instructions.hasKey
  /-- Reading one. -/
  | pickItem : Keyed .pickItem Instructions.pickItem
  /-- Writing one. -/
  | setItem : Keyed .setItem Instructions.setItem
  /-- Taking one out. -/
  | remove : Keyed .remove Instructions.remove

/-- What an instruction with a key does as an opcode. -/
theorem OpCode.Keyed.perform {op : OpCode} {behaviour : Exec Unit} (hop : op.Keyed behaviour)
    (nested : Engine → Engine) (i : Instruction) : Engine.perform nested op i = Engine.onState behaviour := by
  cases hop <;> rfl

/-- An outcome is a fault. -/
def Faults (r : Except Fault Unit × Engine) : Prop := ∃ fault, r.1 = .error fault

/-- **What an instruction finds below its operands**: an engine with its objects, and its innermost frame. -/
structure Setting where
  /-- The step that an instruction may ask for. -/
  nested : Engine → Engine
  /-- The instruction with its place. -/
  instruction : Instruction
  /-- The engine. -/
  engine : Engine
  /-- The objects. -/
  heap : Heap
  /-- The innermost frame without the operands. -/
  frame : Frame

namespace Setting

variable (m : Setting)

/-- The innermost frame with these items on top of its evaluation stack. -/
def frameWith (top : Stack) : Frame := { m.frame with eval := top ++ m.frame.eval }

/-- The engine with these items on top. -/
def on (top : Stack) : Engine := m.engine.resume m.heap (m.frameWith top)

/-- The bounds of the machine. -/
def limits : Limits := m.engine.state.limits

/-- The setting with other objects. -/
def withHeap (h : Heap) : Setting := { m with heap := h }

/-- The setting with other tracked containers and other objects. -/
def withTracked (tracker : CycleTracker) (h : Heap) : Setting :=
  { m with engine := { m.engine with state := m.engine.state.withTracker tracker }, heap := h }

/-- The outcome of an opcode on its operands. -/
def run (op : OpCode) (operands : Stack) : Except Fault Unit × Engine :=
  (Engine.perform m.nested op m.instruction).run (m.on operands)

variable (container : Item) (key : Key)

/-- The outcome of `HASKEY`. -/
def hasKey : Except Fault Unit × Engine := m.run .hasKey [key.item, container]

/-- The outcome of `PICKITEM`. -/
def pickItem : Except Fault Unit × Engine := m.run .pickItem [key.item, container]

/-- The outcome of `SETITEM`. -/
def setItem (value : Item) : Except Fault Unit × Engine := m.run .setItem [value, key.item, container]

/-- The outcome of `REMOVE`. -/
def remove : Except Fault Unit × Engine := m.run .remove [key.item, container]

/-- The outcome of handing on a value: a copy is pushed, or there is none. -/
def handedOn (x : Item) : Except Fault Unit × Engine :=
  match m.heap.copyValue x m.limits.traversal with
  | .ok (y, h) => (.ok (), (m.withHeap h).on [y])
  | .error fault => (.error fault, m.on [])

variable {m container key}

/-- An outcome is told by the effect of the behaviour on the state. -/
theorem run_eq {op : OpCode} {behaviour : Exec Unit} {operands top : Stack} {r : Except Fault Unit} {h : Heap}
    (tracker : CycleTracker) (hop : op.Keyed behaviour)
    (hrun : behaviour.run (m.engine.state.resume m.heap (m.frameWith operands)) =
      (r, (m.engine.state.withTracker tracker).resume h (m.frameWith top))) :
    m.run op operands = (r, (m.withTracked tracker h).on top) := by
  have hstate : behaviour.run (m.on operands).state =
    (r, (m.engine.state.withTracker tracker).resume h (m.frameWith top)) := hrun
  rw [run, hop.perform, Engine.run_onState, hstate]
  rfl

/-- An outcome without tracked containers. -/
theorem run_eq_withHeap {op : OpCode} {behaviour : Exec Unit} {operands top : Stack} {r : Except Fault Unit} {h : Heap}
    (hop : op.Keyed behaviour)
    (hrun : behaviour.run (m.engine.state.resume m.heap (m.frameWith operands)) =
      (r, m.engine.state.resume h (m.frameWith top))) :
    m.run op operands = (r, (m.withHeap h).on top) :=
  run_eq m.engine.state.session.tracker hop hrun

/-- A fault of the behaviour is one of the opcode. -/
theorem faults_of_run {op : OpCode} {behaviour : Exec Unit} {operands : Stack} {fault : Fault} {t : State}
    (hop : op.Keyed behaviour)
    (hrun : behaviour.run (m.engine.state.resume m.heap (m.frameWith operands)) =
      (.error fault, t)) : Faults (m.run op operands) := by
  have hstate : behaviour.run (m.on operands).state = (.error fault, t) := hrun
  rw [run, hop.perform, Engine.run_onState, hstate]
  exact ⟨fault, rfl⟩

/-! ### Lists -/

/-- The instructions that work on the element at a key all fault. -/
structure Refuses (m : Setting) (container : Item) (key : Key) : Prop where
  /-- No element is read, -/
  pickItem : Faults (m.pickItem container key)
  /-- none is replaced, -/
  setItem : ∀ value, Faults (m.setItem container key value)
  /-- and none is taken out. -/
  remove : Faults (m.remove container key)

/-- **What the instructions with a key do on a list.** -/
inductive ListAccess (m : Setting) (container : Item) (id : Nat) (key : Key) : Prop where
  /-- The key is the index of an element. The list has it, and this element is handed on, replaced by a copy of a value,
  or taken out. -/
  | inside {index : Nat} (hnumber : key.item.number32? = some (index : Int)) (hlt : index < (m.heap.items id).length)
    (hasKey : m.hasKey container key = (.ok (), m.on [.boolean true]))
    (pickItem : m.pickItem container key = m.handedOn (m.heap.items id)[index])
    (setItem : ∀ value y h, m.heap.copyValue value m.limits.traversal = .ok (y, h) → ∃ tracker,
      m.setItem container key value =
        (.ok (), (m.withTracked tracker (h.setItems id ((m.heap.items id).set index y))).on []))
    (remove : m.remove container key =
      (.ok (), (m.withHeap (m.heap.setItems id ((m.heap.items id).eraseIdx index))).on []))
  /-- The key is an index behind the end. The list does not have it, and the others fault. -/
  | beyond {index : Nat} (hnumber : key.item.number32? = some (index : Int)) (hle : (m.heap.items id).length ≤ index)
    (hasKey : m.hasKey container key = (.ok (), m.on [.boolean false])) (refuses : m.Refuses container key)
  /-- The key is no number of 32 bits, or a negative one. All fault. -/
  | nowhere (hnone : ∀ index : Nat, key.item.number32? ≠ some (index : Int)) (hasKey : Faults (m.hasKey container key))
    (refuses : m.Refuses container key)

/-- A key that is not the index of an element is refused. -/
theorem refuses_of_outside {id : Nat} (hid : container.listCell? = some id) (hin : id < m.heap.size)
    (houtside : ∀ index : Nat, key.item.number32? = some (index : Int) → (m.heap.items id).length ≤ index) :
    m.Refuses container key := by
  obtain ⟨fault, hindex⟩ := Instructions.indexIn_outside houtside
  refine ⟨faults_of_run .pickItem (Instructions.run_pickItem_outside hid rfl hindex), fun value => ?_,
    faults_of_run .remove (Instructions.run_remove_outside hid rfl hindex)⟩
  cases hcopy : m.heap.copyValue value m.limits.traversal with
  | ok r =>
    rw [← (Heap.grown_copyValue hcopy).items hin] at hindex
    exact faults_of_run .setItem (Instructions.run_setItem_outside hid rfl hcopy hindex)
  | error cause => exact faults_of_run .setItem (Instructions.run_setItem_uncopied rfl hcopy)

/-- A copy is handed on. -/
theorem handedOn_of_copy {x y : Item} {h : Heap} (hcopy : m.heap.copyValue x m.limits.traversal = .ok (y, h)) :
    m.handedOn x = (.ok (), (m.withHeap h).on [y]) := by
  rw [handedOn, hcopy]

/-- An item is handed on where `PICKITEM` copies it. -/
theorem pickItem_eq {x : Item}
    (hrun : Instructions.pickItem.run (m.engine.state.resume m.heap (m.frameWith [key.item, container])) =
      (do Exec.push (← Exec.copyValue x) : Exec Unit).run (m.engine.state.resume m.heap (m.frameWith []))) :
    m.pickItem container key = m.handedOn x := by
  rw [Instructions.run_push_copyValue] at hrun
  unfold pickItem handedOn limits
  cases hcopy : m.heap.copyValue x m.engine.state.limits.traversal with
  | ok r =>
    rw [hcopy] at hrun
    exact run_eq_withHeap .pickItem hrun
  | error fault =>
    rw [hcopy] at hrun
    exact run_eq_withHeap .pickItem hrun

/-- **The instructions with a key agree on the index** of an element of a list. -/
theorem listAccess {id : Nat} (hid : container.listCell? = some id) (hin : id < m.heap.size) (key : Key) :
    m.ListAccess container id key := by
  cases key.place (m.heap.items id).length with
  | @inside index hnumber hlt =>
    have hindex := Instructions.indexIn_inside hnumber hlt
    refine .inside hnumber hlt ?_ (pickItem_eq (Instructions.run_pickItem_inside hid rfl hindex hlt))
      (fun value y h hcopy => ?_) ?_
    · have hhas := Instructions.run_hasKey_index (s := m.engine.state) (h := m.heap) hid
        (f := m.frameWith [key.item, container]) rfl hnumber
      rw [decide_eq_true hlt] at hhas
      exact run_eq_withHeap .hasKey hhas
    · have hitems := (Heap.grown_copyValue hcopy).items hin
      rw [← hitems] at hindex ⊢
      obtain ⟨tracker, hrun⟩ := Instructions.run_setItem_inside (s := m.engine.state)
        (f := m.frameWith [value, key.item, container]) hid rfl hcopy hindex
      exact ⟨tracker, run_eq tracker .setItem hrun⟩
    · exact run_eq_withHeap .remove (Instructions.run_remove_inside hid rfl hindex)
  | @beyond index hnumber hle =>
    have hhas := Instructions.run_hasKey_index (s := m.engine.state) (h := m.heap) hid
      (f := m.frameWith [key.item, container]) rfl hnumber
    rw [decide_eq_false (Nat.not_lt.2 hle)] at hhas
    refine .beyond hnumber hle (run_eq_withHeap .hasKey hhas) (refuses_of_outside hid hin fun other hother => ?_)
    obtain rfl : index = other := by simpa [hnumber] using hother
    exact hle
  | nowhere hnone =>
    obtain ⟨fault, t, hrun⟩ := Instructions.run_hasKey_nowhere (s := m.engine.state) (h := m.heap) hid
      (f := m.frameWith [key.item, container]) rfl hnone
    exact .nowhere hnone (faults_of_run .hasKey hrun)
      (refuses_of_outside hid hin fun index hnumber => absurd hnumber (hnone index))

/-! ### Maps -/

/-- **What the instructions with a key do on a map.** -/
inductive MapAccess (m : Setting) (id : Nat) (key : Key) : Prop where
  /-- The map has the key. Its value is handed on, and a copy of a value can take its place. -/
  | known {x : Item} (hget : m.heap.mapGet? id key.item = some x)
    (hasKey : m.hasKey (.map id) key = (.ok (), m.on [.boolean true]))
    (pickItem : m.pickItem (.map id) key = m.handedOn x)
    (setItem : ∀ value y h, m.heap.copyValue value m.limits.traversal = .ok (y, h) → ∃ tracker,
      m.setItem (.map id) key value = (.ok (), (m.withTracked tracker (h.mapSet id key.item y)).on []))
  /-- The map does not have the key. No value is found, and a copy of a value can be set if there is room. -/
  | unknown (hget : m.heap.mapGet? id key.item = none)
    (hasKey : m.hasKey (.map id) key = (.ok (), m.on [.boolean false]))
    (pickItem : m.pickItem (.map id) key = (.error .keyNotFound, m.on []))
    (setItem : ∀ value y h, m.heap.copyValue value m.limits.traversal = .ok (y, h) →
      if (m.heap.entries id).length < m.limits.maxArraySize then
        ∃ tracker, m.setItem (.map id) key value = (.ok (), (m.withTracked tracker (h.mapSet id key.item y)).on [])
      else Faults (m.setItem (.map id) key value))

/-- `HASKEY` on a map tells whether there is a value. -/
theorem hasKey_map {id : Nat} {value? : Option Item} (hget : m.heap.mapGet? id key.item = value?) :
    m.hasKey (.map id) key = (.ok (), m.on [.boolean value?.isSome]) := by
  rw [← hget, ← Heap.mapHas_eq_isSome]
  exact run_eq_withHeap .hasKey (Instructions.run_hasKey_map rfl)

/-- `PICKITEM` of a key that a map has. -/
theorem pickItem_known {id : Nat} {x : Item} (hget : m.heap.mapGet? id key.item = some x) :
    m.pickItem (.map id) key = m.handedOn x := pickItem_eq (Instructions.run_pickItem_known rfl hget)

/-- `PICKITEM` of a key that a map does not have. -/
theorem pickItem_missing {id : Nat} (hget : m.heap.mapGet? id key.item = none) :
    m.pickItem (.map id) key = (.error .keyNotFound, m.on []) :=
  run_eq_withHeap .pickItem (Instructions.run_pickItem_missing rfl hget)

/-- `REMOVE` on a map. -/
theorem remove_map (m : Setting) (id : Nat) (key : Key) :
    m.remove (.map id) key = (.ok (), (m.withHeap (m.heap.mapRemove id key.item).2).on []) :=
  run_eq_withHeap .remove (Instructions.run_remove_map rfl)

/-- **The instructions with a key agree on the value** of a key of a map. -/
theorem mapAccess {id : Nat} {ops : List MapOperation} {entries : List (Key × Item)}
    (hr : m.heap.Records id ops entries) (key : Key) : m.MapAccess id key := by
  -- A copy adds containers, so that the room of the map and its keys are looked at as they were before.
  have hsame : ∀ {value y h}, m.heap.copyValue value m.limits.traversal = .ok (y, h) →
      h.mapHas id key.item = (m.heap.mapGet? id key.item).isSome ∧ h.entries id = m.heap.entries id := by
    intro value y h hcopy
    have hr' := hr.grown (Heap.grown_copyValue hcopy)
    rw [Heap.mapHas_eq_isSome, hr'.mapGet?_eq, hr.mapGet?_eq, hr'.entries_eq, hr.entries_eq]
    exact ⟨rfl, rfl⟩
  cases hget : m.heap.mapGet? id key.item with
  | some x =>
    refine .known hget (hasKey_map hget) (pickItem_known hget) fun value y h hcopy => ?_
    have hknown : h.mapHas id key.item = true := by rw [(hsame hcopy).1, hget, Option.isSome_some]
    obtain ⟨tracker, hrun⟩ := Instructions.run_setItem_room (s := m.engine.state)
      (f := m.frameWith [value, key.item, .map id]) rfl hcopy (.inl hknown)
    exact ⟨tracker, run_eq tracker .setItem hrun⟩
  | none =>
    refine .unknown hget (hasKey_map hget) (pickItem_missing hget) fun value y h hcopy => ?_
    have hnew : h.mapHas id key.item = false := by rw [(hsame hcopy).1, hget, Option.isSome_none]
    have hentries := (hsame hcopy).2
    split
    · rename_i hroom
      rw [← hentries] at hroom
      obtain ⟨tracker, hrun⟩ := Instructions.run_setItem_room (s := m.engine.state)
        (f := m.frameWith [value, key.item, .map id]) rfl hcopy (.inr hroom)
      exact ⟨tracker, run_eq tracker .setItem hrun⟩
    · rename_i hfull
      rw [← hentries] at hfull
      obtain ⟨fault, hrun⟩ := Instructions.run_setItem_full (s := m.engine.state)
        (f := m.frameWith [value, key.item, .map id]) rfl hcopy hnew (Nat.not_lt.1 hfull)
      exact faults_of_run .setItem hrun

/-! ### Maps after a change -/

/-- **Two settings give the same answers** about a key of a map: the same value is there or not, and what is handed on
unfolds to the same. -/
structure SameAnswers (m m' : Setting) (id : Nat) (key : Key) : Prop where
  /-- The value. -/
  value : m'.heap.mapGet? id key.item = m.heap.mapGet? id key.item
  /-- The answers of `HASKEY`. -/
  hasKey : ∃ b, m.hasKey (.map id) key = (.ok (), m.on [.boolean b]) ∧
    m'.hasKey (.map id) key = (.ok (), m'.on [.boolean b])
  /-- The answers of `PICKITEM`. -/
  pickItem : (∃ y h y' h', m.pickItem (.map id) key = (.ok (), (m.withHeap h).on [y]) ∧
      m'.pickItem (.map id) key = (.ok (), (m'.withHeap h').on [y']) ∧ ∀ depth, h'.unfold depth y' = h.unfold depth y) ∨
    Faults (m.pickItem (.map id) key) ∧ Faults (m'.pickItem (.map id) key)

/-- **What a map answers after a value was set**: the value itself, or an equal fresh copy of it if it is a struct, for
all equal keys, and what it answered before for all others. -/
structure Stored (m m' : Setting) (id : Nat) (key : Key) (value : Item) : Prop where
  /-- It is still a map of keys. -/
  map : m'.heap.Closed ∧ ∃ ops entries, m'.heap.Records id ops entries
  /-- Equal keys. -/
  same : ∀ other : Key, key.equal other = true → m'.hasKey (.map id) other = (.ok (), m'.on [.boolean true]) ∧
    ∃ z h, m'.pickItem (.map id) other = (.ok (), (m'.withHeap h).on [z]) ∧ Heap.CopiedValue m'.heap h value z ∧
      (∀ depth, h.unfold depth z = m.heap.unfold depth value) ∧ h.equalsWithin value z m.limits.traversal = .ok true
  /-- Other keys. -/
  others : ∀ other : Key, key.equal other = false → m.SameAnswers m' id other

/-- **What a map answers after a key was taken out**: nothing for all equal keys, and what it answered before for all
others. -/
structure Removed (m m' : Setting) (id : Nat) (key : Key) : Prop where
  /-- It is still a map of keys. -/
  map : m'.heap.Closed ∧ ∃ ops entries, m'.heap.Records id ops entries
  /-- Equal keys. -/
  same : ∀ other : Key, key.equal other = true → m'.hasKey (.map id) other = (.ok (), m'.on [.boolean false])
  /-- Other keys. -/
  others : ∀ other : Key, key.equal other = false → m.SameAnswers m' id other

section

variable {m' : Setting} {id : Nat} {ops : List MapOperation} {entries : List (Key × Item)}
  (hclosed : m.heap.Closed) (hr : m.heap.Records id ops entries)
include hclosed

/-- Where a map has the same value, and no elements of structs are others, the answers are the same. -/
theorem sameAnswers (hclosed' : m'.heap.Closed) (hs : m.heap.SameElements m'.heap) (hlimits : m'.limits = m.limits)
    (hget : m'.heap.mapGet? id key.item = m.heap.mapGet? id key.item) : m.SameAnswers m' id key := by
  refine ⟨hget, ⟨_, hasKey_map rfl, hasKey_map hget⟩, ?_⟩
  cases hvalue : m.heap.mapGet? id key.item with
  | none => exact .inr ⟨⟨_, congrArg Prod.fst (pickItem_missing hvalue)⟩,
      ⟨_, congrArg Prod.fst (pickItem_missing (hget.trans hvalue))⟩⟩
  | some x =>
    have hx : x.In m.heap := hclosed id x (Heap.mem_held_of_mapGet hvalue)
    rw [pickItem_known hvalue, pickItem_known (hget.trans hvalue), handedOn, handedOn, hlimits]
    rcases Heap.copyValue_same m.limits.traversal hclosed hclosed' hx hs with
      ⟨y, h, y', h', hcopy, hcopy', hunfold⟩ | ⟨fault, fault', hcopy, hcopy'⟩
    · rw [hcopy, hcopy']
      exact .inl ⟨y, h, y', h', rfl, rfl, hunfold⟩
    · rw [hcopy, hcopy']
      exact .inr ⟨⟨_, rfl⟩, ⟨_, rfl⟩⟩

include hr

/-- **After `SETITEM`.** -/
theorem stored {value y : Item} {h : Heap} (hvalue : value.In m.heap)
    (hcopy : m.heap.copyValue value m.limits.traversal = .ok (y, h)) (tracker : CycleTracker) :
    m.Stored (m.withTracked tracker (h.mapSet id key.item y)) id key value := by
  -- The copy adds cells and the map is written: neither changes an element of an array or a struct.
  have hgrown := Heap.grown_copyValue hcopy
  obtain ⟨hextends, hy⟩ := Heap.extends_copyValue hclosed hvalue hcopy
  have hr₁ := hr.grown hgrown
  obtain ⟨entries', hr'⟩ := hr₁.apply (.set key y)
  have hwrites := Heap.writes_mapSet h id key.item y
  have hs : h.SameElements (h.mapSet id key.item y) := hwrites.sameElements hr₁.items_eq hr'.items_eq
  have hclosed' : (h.mapSet id key.item y).Closed := by
    refine hwrites.closed (hextends.closed hclosed) fun x hx => ?_
    rcases List.mem_pair.1 hx with rfl | rfl
    · exact Item.in_of_primitive (Item.cell?_eq_none key.primitive)
    · exact hy
  have hget : ∀ other : Key, (h.mapSet id key.item y).mapGet? id other.item =
      if key.equal other then some y else h.mapGet? id other.item := fun _ => hr₁.mapGet?_set
  refine ⟨⟨hclosed', _, _, hr'⟩, fun other hequal => ?_, fun other hdiffers => ?_⟩
  · have hfound : (m.withTracked tracker (h.mapSet id key.item y)).heap.mapGet? id other.item = some y :=
      (hget other).trans (if_pos hequal)
    obtain ⟨z, t, hcopy', hcopied, hunfold, hequals⟩ := Heap.copyValue_again hclosed hvalue hcopy hs hclosed'
    exact ⟨hasKey_map hfound, z, t, (pickItem_known hfound).trans (handedOn_of_copy hcopy'), hcopied, hunfold, hequals⟩
  · have hold := hget other
    rw [hdiffers, if_neg Bool.false_ne_true, hr₁.mapGet?_eq, ← hr.mapGet?_eq] at hold
    exact sameAnswers hclosed hclosed' (hgrown.sameElements.trans hs) rfl hold

/-- **After `REMOVE`.** -/
theorem removed (key : Key) : m.Removed (m.withHeap (m.heap.mapRemove id key.item).2) id key := by
  obtain ⟨entries', hr'⟩ := hr.apply (.remove key)
  have hwrites := Heap.writes_mapRemove m.heap id key.item
  have hclosed' : (m.heap.mapRemove id key.item).2.Closed :=
    hwrites.closed hclosed fun x hx => absurd hx List.not_mem_nil
  have hs := hwrites.sameElements hr.items_eq hr'.items_eq
  have hget : ∀ other : Key, (m.heap.mapRemove id key.item).2.mapGet? id other.item =
      if key.equal other then none else m.heap.mapGet? id other.item := fun _ => hr.mapGet?_remove
  refine ⟨⟨hclosed', _, _, hr'⟩, fun other hequal => ?_, fun other hdiffers => ?_⟩
  · have hgone : (m.withHeap (m.heap.mapRemove id key.item).2).heap.mapGet? id other.item = none :=
      (hget other).trans (if_pos hequal)
    exact hasKey_map hgone
  · have hold := hget other
    rw [hdiffers, if_neg Bool.false_ne_true] at hold
    exact sameAnswers hclosed hclosed' hs rfl hold

end

/-- **`HASKEY` predicts the other instructions with a key.** On a list they work on the element at the index for which
`HASKEY` pushes true, and fault for all other keys. On a map, however it was built, `HASKEY` pushes true exactly for the
keys whose value `PICKITEM` finds; `SETITEM` works for these, and for all others if there is room. After `SETITEM` and
`REMOVE` the answers for all equal keys are the new ones, and those for all other keys are the same as before. -/
theorem hasKey_predicts_access (m : Setting) (hclosed : m.heap.Closed) (key : Key) :
    (∀ container id, container.listCell? = some id → id < m.heap.size → m.ListAccess container id key) ∧
    ∀ id ops entries, m.heap.Records id ops entries →
      m.MapAccess id key ∧
      (∀ value y h tracker, value.In m.heap → m.heap.copyValue value m.limits.traversal = .ok (y, h) →
        m.Stored (m.withTracked tracker (h.mapSet id key.item y)) id key value) ∧
      m.remove (.map id) key = (.ok (), (m.withHeap (m.heap.mapRemove id key.item).2).on []) ∧
      m.Removed (m.withHeap (m.heap.mapRemove id key.item).2) id key := by
  refine ⟨fun container id hid hin => listAccess hid hin key, fun id ops entries hr => ?_⟩
  exact ⟨mapAccess hr key, fun value y h tracker hvalue hcopy => stored hclosed hr hvalue hcopy tracker,
    remove_map m id key, removed hclosed hr key⟩

/-- The number 1 as the index of the last element of an array, and as a key of an empty map, under which a struct is
stored: a fresh copy of it is found under `true`. -/
theorem hasKey_predicts_access_struct :
    let digests : CryptoSuite :=
      { sha1 := fun _ => #[], sha256 := fun _ => #[], hash160 := fun _ => #[], hash256 := fun _ => #[]
        verify := fun _ _ _ => false }
    let h : Heap := { cells := #[.list [.boolean true, .integer .zero], .map [], .list [.bytes 0 #[7]]] }
    let m : Setting := ⟨id, ⟨.hasKey, 0⟩, Engine.new .default digests, h, { script := default }⟩
    let one : Key := ⟨.integer .one, rfl, Integer.canonical_one⟩
    let yes : Key := ⟨.boolean true, rfl, trivial⟩
    (h.Closed ∧ (Item.struct 2).In h ∧ h.Records 1 [] []) ∧
    m.hasKey (.array 0) one = (.ok (), m.on [.boolean true]) ∧
    m.pickItem (.array 0) one = m.handedOn (.integer .zero) ∧
    m.hasKey (.map 1) one = (.ok (), m.on [.boolean false]) ∧
    ∃ tracker h' z t, m.setItem (.map 1) one (.struct 2) = (.ok (), (m.withTracked tracker h').on []) ∧
      (m.withTracked tracker h').pickItem (.map 1) yes = (.ok (), ((m.withTracked tracker h').withHeap t).on [z]) ∧
      Heap.CopiedValue h' t (.struct 2) z ∧ t.equalsWithin (.struct 2) z m.limits.traversal = .ok true := by
  intro digests h m one yes
  have hclosed : h.Closed := by
    rintro (_ | _ | _ | id) x hx c hc
    · rcases List.mem_pair.1 (show x ∈ [.boolean true, .integer .zero] from hx) with rfl | rfl <;> cases hc
    · exact absurd hx List.not_mem_nil
    · obtain rfl : x = .bytes 0 #[7] := List.mem_singleton.1 hx
      cases hc
    · exact absurd hx List.not_mem_nil
  have hvalue : (Item.struct 2).In h := by
    rintro _ ⟨⟩
    decide
  have hr : h.Records 1 [] [] := ⟨rfl, rfl, fun _ hentry => absurd hentry List.not_mem_nil⟩
  have hbound : ∀ depth, h.spread depth (.struct 2) ≤ m.limits.traversal := by
    rintro (_ | depth)
    · exact Nat.zero_le _
    · show 1 + (h.spread depth (.bytes 0 #[7]) + 0) ≤ _
      rw [Heap.spread_of_ne fun id hid => by cases hid]
      decide
  obtain ⟨y, h₁, hcopy⟩ := Heap.exists_copyValue hclosed hvalue hbound
  have hnumber : one.item.number32? = some ((1 : Nat) : Int) := by decide
  have hunique : ∀ {index : Nat}, one.item.number32? = some (index : Int) → index = 1 := fun hindex =>
    Int.ofNat.inj (Option.some.inj (hindex.symm.trans hnumber))
  obtain ⟨hlists, hmaps⟩ := hasKey_predicts_access m hclosed one
  obtain ⟨haccess, hstored, -⟩ := hmaps 1 [] [] hr
  refine ⟨⟨hclosed, hvalue, hr⟩, ?_⟩
  cases hlists (.array 0) 0 rfl (by decide) with
  | nowhere hnone => exact absurd hnumber (hnone 1)
  | beyond hindex hle =>
    obtain rfl := hunique hindex
    exact absurd hle (by decide)
  | inside hindex hlt hasKey pickItem =>
    obtain rfl := hunique hindex
    cases haccess with
    | known hget => cases hget
    | unknown hget hasKey' _ setItem =>
      have hset := setItem _ _ _ hcopy
      rw [if_pos (by decide)] at hset
      obtain ⟨tracker, hset⟩ := hset
      obtain ⟨-, z, t, hpick, hcopied, -, hequal⟩ := (hstored _ _ _ tracker hvalue hcopy).same yes (by decide)
      exact ⟨hasKey, pickItem, hasKey', tracker, _, z, t, hset, hpick, hcopied, hequal⟩

end Setting

end ScriptMachine
