import ScriptMachine.Heap.Container
import ScriptMachine.Proofs.Heap.Live
import ScriptMachine.Proofs.Renaming.Items

/-! # Heaps up to a renaming of their objects

Two heaps are the same under a renaming if corresponding cells have the same content. New objects correspond too: the
renaming says in advance that the identities still to be given correspond in their order, so that one renaming serves
for all times. Containers that correspond to nothing are out of play; that they also keep nothing alive which is in play
is a condition of its own, because containers on a ring keep each other.

* `Renaming.SameHeap`: the relation, with `SameHeap.write` and `SameHeap.alloc` on its changes.
* `SameHeap.equalsWithin`, `SameHeap.copyValue`: structs as values.
* `SameHeap.mapGet?`, `SameHeap.setAt`, `SameHeap.mapSet` and so on: lists and maps.
* `SameHeap.live`, `SameHeap.prune`, `SameHeap.track`: liveness and the memory of containers.
* `sameHeap_identity`: the identity relates a heap to itself only.
-/

namespace ScriptMachine

/-- No containers without the given property keep each other. -/
def Heap.Grounded (h : Heap) (known : Nat → Prop) : Prop :=
  ∀ members, h.Supported [] members → (∀ a, members a → ¬ known a) → ∀ a, ¬ members a

/-- The containers that are not known are the same as before. -/
theorem Heap.Grounded.congr {h h' : Heap} {known : Nat → Prop} (hg : h.Grounded known)
    (hsame : ∀ a, ¬ known a → h'.cells[a]? = h.cells[a]?) : h'.Grounded known := by
  intro members hmembers hunknown
  refine hg members (fun b hb => ?_) hunknown
  obtain ⟨hlt, ⟨x, hx, -⟩ | ⟨a, ha, x, hx, hcell⟩⟩ := hmembers b hb
  · exact absurd hx List.not_mem_nil
  · refine ⟨?_, Or.inr ⟨a, ha, x, ?_, hcell⟩⟩
    · have hcell := hsame b (hunknown b hb)
      rw [Array.getElem?_eq_getElem hlt] at hcell
      exact (Array.getElem?_eq_some_iff.1 hcell.symm).1
    · rw [held, hsame a (hunknown a ha)] at hx
      exact hx

/-- If all that is live is known, nothing else keeps itself. -/
theorem Heap.Grounded.of_live {h : Heap} {roots : List Item} {known : Nat → Prop}
    (hlive : ∀ a, (h.live roots).getD a false = true → known a) : h.Grounded known := by
  intro members hmembers hunknown a ha
  refine hunknown a ha (hlive a (Heap.live_iff.2 ⟨members, fun b hb => ?_, ha⟩))
  obtain ⟨hlt, ⟨x, hx, -⟩ | hheld⟩ := hmembers b hb
  · exact absurd hx List.not_mem_nil
  · exact ⟨hlt, Or.inr hheld⟩

namespace Renaming

variable {ρ : Renaming} {h k : Heap} {x y x' y' : Item} {xs ys : List Item} {a b a' b' : Nat} {c d : Cell}

/-- Two entries with the same key and the same value. -/
def SameEntry (ρ : Renaming) (entry entry' : Item × Item) : Prop :=
  ρ.SameItem entry.1 entry'.1 ∧ ρ.SameItem entry.2 entry'.2

/-- Two containers with the same content. -/
inductive SameCell (ρ : Renaming) : Cell → Cell → Prop where
  /-- Two lists. -/
  | list {xs ys : List Item} (h : ρ.SameItems xs ys) : SameCell ρ (.list xs) (.list ys)
  /-- Two maps. -/
  | map {entries entries' : List (Item × Item)} (h : List.Forall₂ ρ.SameEntry entries entries') :
    SameCell ρ (.map entries) (.map entries')

/-- **Two heaps with the same objects.** -/
structure SameHeap (ρ : Renaming) (h k : Heap) : Prop where
  /-- Corresponding containers have the same content. -/
  cells : ∀ a b, ρ.cell a b → Option.Rel ρ.SameCell h.cells[a]? k.cells[b]?
  /-- The containers that are created next correspond. -/
  nextCell : ∀ n, ρ.cell (h.size + n) (k.size + n)
  /-- The byte strings and handles that are created next correspond. -/
  nextLeaf : ∀ n, ρ.leaf (h.leaves + n) (k.leaves + n)
  /-- The other containers of the first heap keep nothing. -/
  grounded : h.Grounded fun a => ∃ b, ρ.cell a b
  /-- The other containers of the second heap keep nothing. -/
  grounded' : k.Grounded fun b => ∃ a, ρ.cell a b

/-! ## Changes -/

namespace SameHeap

/-- Corresponding containers exist both, or neither does. -/
theorem lt_size_iff (hs : ρ.SameHeap h k) (hab : ρ.cell a b) : a < h.cells.size ↔ b < k.cells.size := by
  have hrel := hs.cells a b hab
  constructor
  · intro ha
    rw [Array.getElem?_eq_getElem ha] at hrel
    by_contra hb
    rw [Array.getElem?_eq_none (Nat.le_of_not_lt hb)] at hrel
    cases hrel
  · intro hb
    rw [Array.getElem?_eq_getElem hb] at hrel
    by_contra ha
    rw [Array.getElem?_eq_none (Nat.le_of_not_lt ha)] at hrel
    cases hrel

/-- **Corresponding containers get the same content.** -/
theorem write (hs : ρ.SameHeap h k) (hab : ρ.cell a b) (hcell : ρ.SameCell c d) :
    ρ.SameHeap { h with cells := h.cells.setIfInBounds a c } { k with cells := k.cells.setIfInBounds b d } := by
  refine ⟨fun a' b' hab' => ?_, fun n => ?_, hs.nextLeaf, hs.grounded.congr fun a' ha' => ?_,
    hs.grounded'.congr fun b' hb' => ?_⟩
  · dsimp only
    rw [Array.getElem?_setIfInBounds, Array.getElem?_setIfInBounds]
    by_cases heq : a = a'
    · rw [if_pos heq, if_pos ((ρ.cell_unique hab hab').1 heq)]
      by_cases hlt : a < h.cells.size
      · rw [if_pos hlt, if_pos ((hs.lt_size_iff hab).1 hlt)]
        exact .some hcell
      · rw [if_neg hlt, if_neg fun hb => hlt ((hs.lt_size_iff hab).2 hb)]
        exact .none
    · rw [if_neg heq, if_neg fun hb => heq ((ρ.cell_unique hab hab').2 hb)]
      exact hs.cells a' b' hab'
  · dsimp only [Heap.size]
    rw [Array.size_setIfInBounds, Array.size_setIfInBounds]
    exact hs.nextCell n
  · refine Array.getElem?_setIfInBounds_ne ?_
    rintro rfl
    exact ha' ⟨b, hab⟩
  · refine Array.getElem?_setIfInBounds_ne ?_
    rintro rfl
    exact hb' ⟨a, hab⟩

/-- **New containers correspond.** -/
theorem alloc (hs : ρ.SameHeap h k) (hcell : ρ.SameCell c d) :
    ρ.cell (h.alloc c).1 (k.alloc d).1 ∧ ρ.SameHeap (h.alloc c).2 (k.alloc d).2 := by
  have hnew : ρ.cell h.cells.size k.cells.size := hs.nextCell 0
  refine ⟨hnew, fun a b hab => ?_, fun n => ?_, hs.nextLeaf, hs.grounded.congr fun a ha => ?_,
    hs.grounded'.congr fun b hb => ?_⟩
  · show Option.Rel ρ.SameCell (h.cells.push c)[a]? (k.cells.push d)[b]?
    rw [Array.getElem?_push, Array.getElem?_push]
    by_cases heq : a = h.cells.size
    · rw [if_pos heq, if_pos ((ρ.cell_unique hab hnew).1 heq)]
      exact .some hcell
    · rw [if_neg heq, if_neg fun hb => heq ((ρ.cell_unique hab hnew).2 hb)]
      exact hs.cells a b hab
  · have hnext := hs.nextCell (n + 1)
    dsimp only [Heap.alloc, Heap.size] at hnext ⊢
    rw [Array.size_push, Array.size_push, Nat.add_assoc, Nat.add_assoc, Nat.add_comm 1 n]
    exact hnext
  · refine Array.getElem?_push.trans (if_neg ?_)
    rintro rfl
    exact ha ⟨_, hnew⟩
  · refine Array.getElem?_push.trans (if_neg ?_)
    rintro rfl
    exact hb ⟨_, hnew⟩

/-- New byte strings and handles correspond. -/
theorem newLeaf (hs : ρ.SameHeap h k) :
    ρ.leaf h.leaves k.leaves ∧
      ρ.SameHeap { h with leaves := h.leaves + 1 } { k with leaves := k.leaves + 1 } := by
  refine ⟨hs.nextLeaf 0, hs.cells, hs.nextCell, fun n => ?_, hs.grounded, hs.grounded'⟩
  have hnext := hs.nextLeaf (n + 1)
  dsimp only
  rw [Nat.add_assoc, Nat.add_assoc, Nat.add_comm 1 n]
  exact hnext

/-- New byte strings are the same. -/
theorem newBytes (hs : ρ.SameHeap h k) (data : Bytes) :
    ρ.SameItem (h.newBytes data).1 (k.newBytes data).1 ∧ ρ.SameHeap (h.newBytes data).2 (k.newBytes data).2 :=
  ⟨.bytes hs.newLeaf.1 data, hs.newLeaf.2⟩

/-- New arrays of the same elements are the same. -/
theorem newArray (hs : ρ.SameHeap h k) (hxs : ρ.SameItems xs ys) :
    ρ.SameItem (h.newArray xs).1 (k.newArray ys).1 ∧ ρ.SameHeap (h.newArray xs).2 (k.newArray ys).2 :=
  ⟨.array (hs.alloc (.list hxs)).1, (hs.alloc (.list hxs)).2⟩

/-- New structs of the same elements are the same. -/
theorem newStruct (hs : ρ.SameHeap h k) (hxs : ρ.SameItems xs ys) :
    ρ.SameItem (h.newStruct xs).1 (k.newStruct ys).1 ∧ ρ.SameHeap (h.newStruct xs).2 (k.newStruct ys).2 :=
  ⟨.struct (hs.alloc (.list hxs)).1, (hs.alloc (.list hxs)).2⟩

/-- New maps are the same. -/
theorem newMap (hs : ρ.SameHeap h k) :
    ρ.SameItem h.newMap.1 k.newMap.1 ∧ ρ.SameHeap h.newMap.2 k.newMap.2 :=
  ⟨.map (hs.alloc (.map .nil)).1, (hs.alloc (.map .nil)).2⟩

/-! ## Contents -/

/-- The elements of corresponding lists are the same. -/
theorem items (hs : ρ.SameHeap h k) (hab : ρ.cell a b) : ρ.SameItems (h.items a) (k.items b) := by
  have hrel := hs.cells a b hab
  unfold Heap.items
  revert hrel
  rcases h.cells[a]? with _ | c <;> rcases k.cells[b]? with _ | d <;> rintro ⟨⟩
  · exact .nil
  · rename_i hcell
    cases hcell with
    | list h => exact h
    | map => exact .nil

/-- The entries of corresponding maps are the same. -/
theorem entries (hs : ρ.SameHeap h k) (hab : ρ.cell a b) :
    List.Forall₂ ρ.SameEntry (h.entries a) (k.entries b) := by
  have hrel := hs.cells a b hab
  unfold Heap.entries
  revert hrel
  rcases h.cells[a]? with _ | c <;> rcases k.cells[b]? with _ | d <;> rintro ⟨⟩
  · exact .nil
  · rename_i hcell
    cases hcell with
    | list => exact .nil
    | map h => exact h

/-- What corresponding containers hold is the same. -/
theorem held (hs : ρ.SameHeap h k) (hab : ρ.cell a b) : ρ.SameItems (h.held a) (k.held b) := by
  have hrel := hs.cells a b hab
  unfold Heap.held
  revert hrel
  rcases h.cells[a]? with _ | c <;> rcases k.cells[b]? with _ | d <;> rintro ⟨⟩
  · exact .nil
  · rename_i hcell
    cases hcell with
    | list h => exact h
    | map h => exact List.rel_flatMap h fun _ _ hentry => .cons hentry.1 (.cons hentry.2 .nil)

/-- Other elements. -/
theorem setItems (hs : ρ.SameHeap h k) (hab : ρ.cell a b) (hxs : ρ.SameItems xs ys) :
    ρ.SameHeap (h.setItems a xs) (k.setItems b ys) := hs.write hab (.list hxs)

/-- Other entries. -/
theorem setEntries {entries entries' : List (Item × Item)} (hs : ρ.SameHeap h k) (hab : ρ.cell a b)
    (hentries : List.Forall₂ ρ.SameEntry entries entries') :
    ρ.SameHeap (h.setEntries a entries) (k.setEntries b entries') := hs.write hab (.map hentries)

/-- The elements of the same lists; other items have none. -/
theorem elements? (hs : ρ.SameHeap h k) (hx : ρ.SameItem x y) :
    Option.Rel ρ.SameItems (h.elements? x) (k.elements? y) := by
  cases hx with
  | array hab | struct hab => exact .some (hs.items hab)
  | _ => exact .none

/-- The length of the same containers is the same. -/
theorem length? (hs : ρ.SameHeap h k) (hx : ρ.SameItem x y) : k.length? y = h.length? x := by
  cases hx with
  | array hab | struct hab => exact congrArg some (hs.items hab).length_eq.symm
  | map hab => exact congrArg some (hs.entries hab).length_eq.symm
  | _ => rfl

end SameHeap

/-! ## Structs as values -/

/-- Two pairs of cells that correspond. -/
def SamePair (ρ : Renaming) (p q : Nat × Nat) : Prop := ρ.cell p.1 q.1 ∧ ρ.cell p.2 q.2

/-- The comparison of two lists finds the same pairs of structs. -/
theorem pairElements_same {xs' ys' : List Item} {pending pending' : List (Nat × Nat)} (hxs : ρ.SameItems xs xs')
    (hys : ρ.SameItems ys ys') (hpending : List.Forall₂ ρ.SamePair pending pending') :
    Option.Rel (List.Forall₂ ρ.SamePair) (Heap.pairElements xs ys pending)
      (Heap.pairElements xs' ys' pending') := by
  -- Two elements are both structs on one side if and only if they are so on the other one.
  have hnot : ∀ {x y x' y' : Item}, ρ.SameItem x x' → ρ.SameItem y y' →
      (∀ a b, x = .struct a → y = .struct b → False) → ∀ a b, x' = .struct a → y' = .struct b → False := by
    rintro x y _ _ hx hy hstruct a b rfl rfl
    cases hx
    cases hy
    exact hstruct _ _ rfl rfl
  fun_induction Heap.pairElements xs ys pending generalizing xs' ys' pending' with
  | case1 a xs b ys pending ih =>
    obtain _ | ⟨hx, hxs⟩ := hxs
    obtain _ | ⟨hy, hys⟩ := hys
    cases hx with
    | struct ha =>
      cases hy with
      | struct hb =>
        rw [Heap.pairElements]
        exact ih hxs hys (.cons ⟨ha, hb⟩ hpending)
  | case2 x xs y ys pending hstruct hsame ih =>
    obtain _ | ⟨hx, hxs⟩ := hxs
    obtain _ | ⟨hy, hys⟩ := hys
    rw [Heap.pairElements.eq_2 _ _ _ _ _ (hnot hx hy hstruct), hx.same hy, if_pos hsame]
    exact ih hxs hys hpending
  | case3 x xs y ys pending hstruct hsame =>
    obtain _ | ⟨hx, hxs⟩ := hxs
    obtain _ | ⟨hy, hys⟩ := hys
    rw [Heap.pairElements.eq_2 _ _ _ _ _ (hnot hx hy hstruct), hx.same hy, if_neg hsame]
    exact .none
  | case4 xs ys pending _ hcons =>
    cases hxs with
    | nil =>
      simp only [Heap.pairElements]
      exact .some hpending
    | cons =>
      cases hys with
      | nil =>
        simp only [Heap.pairElements]
        exact .some hpending
      | cons => exact (hcons _ _ _ _ rfl rfl).elim

namespace SameHeap

/-- **The comparison of pending pairs of structs** ends alike. -/
theorem equalPending (hs : ρ.SameHeap h k) {pending pending' : List (Nat × Nat)}
    (hpending : List.Forall₂ ρ.SamePair pending pending') (limit visited : Nat) :
    k.equalPending limit pending' visited = h.equalPending limit pending visited := by
  -- By induction on the comparison in the first heap. Identities tell only whether two structs are the same one.
  fun_induction Heap.equalPending h limit pending visited generalizing pending' with
  | case1 =>
    cases hpending
    rw [Heap.equalPending]
  | case2 visited a b rest heq ih =>
    obtain _ | @⟨_, ⟨a', b'⟩, _, _, ⟨ha, hb⟩, hrest⟩ := hpending
    rw [Heap.equalPending, SameItem.beq_unique (ρ.cell_unique ha hb), if_pos heq]
    exact ih hrest
  | case3 visited a b rest hne hlength =>
    obtain _ | @⟨_, ⟨a', b'⟩, _, _, ⟨ha, hb⟩, hrest⟩ := hpending
    rw [Heap.equalPending, SameItem.beq_unique (ρ.cell_unique ha hb), if_neg hne, ← (hs.items ha).length_eq,
      ← (hs.items hb).length_eq, if_pos hlength]
  | case4 visited a b rest hne hlength hlimit =>
    obtain _ | @⟨_, ⟨a', b'⟩, _, _, ⟨ha, hb⟩, hrest⟩ := hpending
    rw [Heap.equalPending, SameItem.beq_unique (ρ.cell_unique ha hb), if_neg hne, ← (hs.items ha).length_eq,
      ← (hs.items hb).length_eq, if_neg hlength, if_pos hlimit]
  | case5 visited a b rest hne hlength hlimit hpairs =>
    obtain _ | @⟨_, ⟨a', b'⟩, _, _, ⟨ha, hb⟩, hrest⟩ := hpending
    have hsame := pairElements_same (hs.items ha) (hs.items hb) hrest
    rw [hpairs] at hsame
    rw [Heap.equalPending, SameItem.beq_unique (ρ.cell_unique ha hb), if_neg hne, ← (hs.items ha).length_eq,
      ← (hs.items hb).length_eq, if_neg hlength, if_neg hlimit]
    split
    · rfl
    · rename_i hpairs'
      rw [hpairs'] at hsame
      cases hsame
  | case6 visited a b rest hne hlength hlimit pairs hpairs ih =>
    obtain _ | @⟨_, ⟨a', b'⟩, _, _, ⟨ha, hb⟩, hrest⟩ := hpending
    have hsame := pairElements_same (hs.items ha) (hs.items hb) hrest
    rw [hpairs] at hsame
    rw [Heap.equalPending, SameItem.beq_unique (ρ.cell_unique ha hb), if_neg hne, ← (hs.items ha).length_eq,
      ← (hs.items hb).length_eq, if_neg hlength, if_neg hlimit]
    split
    · rename_i hpairs'
      rw [hpairs'] at hsame
      cases hsame
    · rename_i hpairs'
      rw [hpairs'] at hsame
      cases hsame with
      | some h => exact ih h

/-- **Equality of two items** is told alike. -/
theorem equalsWithin (hs : ρ.SameHeap h k) (hx : ρ.SameItem x x') (hy : ρ.SameItem y y') (limit : Nat) :
    k.equalsWithin x' y' limit = h.equalsWithin x y limit := by
  have hx' := hx
  cases hx with
  | struct ha =>
    cases hy with
    | struct hb => exact hs.equalPending (.cons ⟨ha, hb⟩ .nil) limit 0
    | _ => rfl
  | _ => exact congrArg Except.ok (hx'.same hy)

/-- Equality of two items under the default bound is told alike. -/
theorem equals (hs : ρ.SameHeap h k) (hx : ρ.SameItem x x') (hy : ρ.SameItem y y') :
    k.equals x' y' = h.equals x y := by
  unfold Heap.equals
  rw [hs.equalsWithin hx hy]

/-- The copies of the same elements are the same, and the same structs join the pending ones. -/
theorem copyElements (hs : ρ.SameHeap h k) (hxs : ρ.SameItems xs ys) {pending pending' : List (Nat × Nat)}
    (hpending : List.Forall₂ ρ.SamePair pending pending') :
    ρ.SameItems (Heap.copyElements h xs pending).1 (Heap.copyElements k ys pending').1 ∧
      List.Forall₂ ρ.SamePair (Heap.copyElements h xs pending).2.1 (Heap.copyElements k ys pending').2.1 ∧
      ρ.SameHeap (Heap.copyElements h xs pending).2.2 (Heap.copyElements k ys pending').2.2 := by
  induction hxs generalizing h k pending pending' with
  | nil => exact ⟨.nil, hpending, hs⟩
  | @cons x y xs ys hx hrest ih =>
    have hx' := hx
    cases hx with
    | @struct child child' hab =>
      obtain ⟨hnew, hs'⟩ := hs.alloc (.list .nil)
      have hpair : ρ.SamePair (child, _) (child', _) := ⟨hab, hnew⟩
      obtain ⟨hitems, hmore, hheap⟩ := ih hs' (.cons hpair hpending)
      exact ⟨.cons (.struct hnew) hitems, hmore, hheap⟩
    | _ => exact ⟨.cons hx' (ih hs hpending).1, (ih hs hpending).2⟩

/-- The pending copies are filled with the same elements. -/
theorem copyPending (hs : ρ.SameHeap h k) {pending pending' : List (Nat × Nat)}
    (hpending : List.Forall₂ ρ.SamePair pending pending') (limit visited : Nat) :
    SameResult ρ.SameHeap (Heap.copyPending limit h pending visited) (Heap.copyPending limit k pending' visited) := by
  fun_induction Heap.copyPending limit h pending visited generalizing k pending' with
  | case1 =>
    cases hpending
    rw [Heap.copyPending]
    exact .ok hs
  | case2 h visited source target rest hlimit =>
    obtain _ | @⟨_, ⟨source', target'⟩, _, _, ⟨hsource, htarget⟩, hrest⟩ := hpending
    rw [Heap.copyPending, ← (hs.items hsource).length_eq, if_pos hlimit]
    exact .error _
  | case3 h visited source target rest hlimit copied pending h' hcopy ih =>
    obtain _ | @⟨_, ⟨source', target'⟩, _, _, ⟨hsource, htarget⟩, hrest⟩ := hpending
    have hsame := hs.copyElements (hs.items hsource) hrest
    rw [hcopy] at hsame
    obtain ⟨hitems, hmore, hheap⟩ := hsame
    rw [Heap.copyPending, ← (hs.items hsource).length_eq, if_neg hlimit]
    exact ih (hheap.setItems htarget hitems) hmore

/-- **Copies of the same item are the same**, or fail alike. -/
theorem copyValue (hs : ρ.SameHeap h k) (hx : ρ.SameItem x y) (limit : Nat) :
    SameResult (fun r r' => ρ.SameItem r.1 r'.1 ∧ ρ.SameHeap r.2 r'.2) (h.copyValue x limit)
      (k.copyValue y limit) := by
  have hx' := hx
  cases hx with
  | @struct id id' hab =>
    obtain ⟨hnew, hs'⟩ := hs.alloc (.list .nil)
    have hpair : ρ.SamePair (id, _) (id', _) := ⟨hab, hnew⟩
    have hcopy := hs'.copyPending (.cons hpair .nil) limit 0
    dsimp only [Heap.copyValue, Heap.copyStruct]
    revert hcopy
    rcases Heap.copyPending limit (h.alloc (.list [])).2 _ 0 with cause | h' <;>
      rcases Heap.copyPending limit (k.alloc (.list [])).2 _ 0 with cause' | k' <;> rintro ⟨⟩
    · exact .error _
    · exact .ok ⟨.struct hnew, by assumption⟩
  | _ => exact .ok ⟨hx', hs⟩

/-! ## Lists and maps -/

/-- Replacing an element. -/
theorem setAt (hs : ρ.SameHeap h k) (hab : ρ.cell a b) (index : Nat) (hx : ρ.SameItem x y) :
    SameResult ρ.SameHeap (h.setAt a index x) (k.setAt b index y) := by
  unfold Heap.setAt
  dsimp only
  rw [(hs.items hab).length_eq]
  split
  · exact .ok (hs.setItems hab (forall₂_set (hs.items hab) hx index))
  · exact .error _

/-- Adding an element. -/
theorem append (hs : ρ.SameHeap h k) (hab : ρ.cell a b) (hx : ρ.SameItem x y) :
    ρ.SameHeap (h.append a x) (k.append b y) :=
  hs.setItems hab (List.rel_append (hs.items hab) (.cons hx .nil))

/-- Taking out an element. -/
theorem removeAt (hs : ρ.SameHeap h k) (hab : ρ.cell a b) (index : Nat) :
    SameResult (fun r r' => ρ.SameItem r.1 r'.1 ∧ ρ.SameHeap r.2 r'.2) (h.removeAt a index) (k.removeAt b index) := by
  unfold Heap.removeAt
  dsimp only
  have hget := forall₂_getElem? (hs.items hab) index
  rw [(hs.items hab).length_eq]
  revert hget
  rcases (h.items a)[index]? with _ | x <;> rcases (k.items b)[index]? with _ | y <;> rintro ⟨⟩
  · exact .error _
  · exact .ok ⟨by assumption, hs.setItems hab (forall₂_eraseIdx (hs.items hab) index)⟩

/-- Reversing a list. -/
theorem reverse (hs : ρ.SameHeap h k) (hab : ρ.cell a b) : ρ.SameHeap (h.reverse a) (k.reverse b) :=
  hs.setItems hab (List.rel_reverse (hs.items hab))

/-- A key has the same place. -/
theorem keyIndex? (hs : ρ.SameHeap h k) (hab : ρ.cell a b) (hx : ρ.SameItem x y) :
    k.keyIndex? b y = h.keyIndex? a x :=
  forall₂_findIdx? (hs.entries hab) fun _ _ hentry => hs.equals hentry.1 hx

/-- Both maps have a key, or neither has. -/
theorem mapHas (hs : ρ.SameHeap h k) (hab : ρ.cell a b) (hx : ρ.SameItem x y) : k.mapHas b y = h.mapHas a x := by
  unfold Heap.mapHas
  rw [hs.keyIndex? hab hx]

/-- The value of a key is the same. -/
theorem mapGet? (hs : ρ.SameHeap h k) (hab : ρ.cell a b) (hx : ρ.SameItem x y) :
    Option.Rel ρ.SameItem (h.mapGet? a x) (k.mapGet? b y) := by
  unfold Heap.mapGet?
  rw [hs.keyIndex? hab hx]
  cases h.keyIndex? a x with
  | none => exact .none
  | some i =>
    have hget := forall₂_getElem? (hs.entries hab) i
    dsimp only
    revert hget
    rcases (h.entries a)[i]? with _ | entry <;> rcases (k.entries b)[i]? with _ | entry' <;> rintro ⟨⟩
    · exact .none
    · rename_i hentry
      exact .some hentry.2

/-- Setting the value of a key. -/
theorem mapSet (hs : ρ.SameHeap h k) (hab : ρ.cell a b) (hx : ρ.SameItem x x') (hy : ρ.SameItem y y') :
    ρ.SameHeap (h.mapSet a x y) (k.mapSet b x' y') := by
  unfold Heap.mapSet
  dsimp only
  rw [hs.keyIndex? hab hx]
  cases h.keyIndex? a x with
  | none => exact hs.setEntries hab (List.rel_append (hs.entries hab) (.cons ⟨hx, hy⟩ .nil))
  | some i =>
    have hkept : ∀ entry entry', ρ.SameEntry entry entry' → ρ.SameEntry (entry.1, y) (entry'.1, y') :=
      fun _ _ hentry => ⟨hentry.1, hy⟩
    exact hs.setEntries hab (forall₂_modify (hs.entries hab) hkept i)

/-- Taking out a key. -/
theorem mapRemove (hs : ρ.SameHeap h k) (hab : ρ.cell a b) (hx : ρ.SameItem x y) :
    ρ.SameHeap (h.mapRemove a x).2 (k.mapRemove b y).2 := by
  unfold Heap.mapRemove
  dsimp only
  rw [hs.keyIndex? hab hx]
  cases h.keyIndex? a x with
  | none => exact hs
  | some i => exact hs.setEntries hab (forall₂_eraseIdx (hs.entries hab) i)

/-- The keys are the same. -/
theorem mapKeys (hs : ρ.SameHeap h k) (hab : ρ.cell a b) : ρ.SameItems (h.mapKeys a) (k.mapKeys b) :=
  List.rel_map (fun _ _ hentry => hentry.1) (hs.entries hab)

/-- The values are the same. -/
theorem mapValues (hs : ρ.SameHeap h k) (hab : ρ.cell a b) : ρ.SameItems (h.mapValues a) (k.mapValues b) :=
  List.rel_map (fun _ _ hentry => hentry.2) (hs.entries hab)

end SameHeap

/-! ## Liveness -/

/-- The renaming in the other direction. -/
def symm (ρ : Renaming) : Renaming where
  cell a b := ρ.cell b a
  leaf i j := ρ.leaf j i
  cell_unique h h' := (ρ.cell_unique h h').symm
  leaf_unique h h' := (ρ.leaf_unique h h').symm

/-- The same items in the other direction. -/
theorem SameItem.symm (hx : ρ.SameItem x y) : ρ.symm.SameItem y x := by
  cases hx with
  | boolean v => exact .boolean v
  | integer v => exact .integer v
  | bytes h d => exact @SameItem.bytes ρ.symm _ _ h d
  | interop h d => exact @SameItem.interop ρ.symm _ _ h d
  | array h => exact .array h
  | struct h => exact .struct h
  | map h => exact .map h

/-- The same lists in the other direction. -/
theorem SameItems.symm (hxs : ρ.SameItems xs ys) : ρ.symm.SameItems ys xs :=
  List.Forall₂.flip (hxs.imp fun _ _ hx => hx.symm)

/-- The same containers in the other direction. -/
theorem SameCell.symm (hcell : ρ.SameCell c d) : ρ.symm.SameCell d c := by
  cases hcell with
  | list h => exact .list (SameItems.symm h)
  | map h => exact .map (List.Forall₂.flip (h.imp fun _ _ hentry => ⟨hentry.1.symm, hentry.2.symm⟩))

/-- The same heaps in the other direction. -/
theorem SameHeap.symm (hs : ρ.SameHeap h k) : ρ.symm.SameHeap k h := by
  refine ⟨fun b a hab => ?_, hs.nextCell, hs.nextLeaf, hs.grounded', hs.grounded⟩
  have hrel := hs.cells a b hab
  revert hrel
  rcases h.cells[a]? with _ | c <;> rcases k.cells[b]? with _ | d <;> rintro ⟨⟩
  · exact .none
  · exact .some (SameCell.symm (by assumption))

/-- A container among the items of one list corresponds to one among those of the other list. -/
theorem SameItems.exists_cell (hxs : ρ.SameItems xs ys) (hx : ∃ x ∈ xs, x.cell? = some a) :
    ∃ b, ρ.cell a b ∧ ∃ y ∈ ys, y.cell? = some b := by
  obtain ⟨x, hx, hcell⟩ := hx
  induction hxs with
  | nil => exact absurd hx List.not_mem_nil
  | @cons x' y' xs ys hxy _ ih =>
    rcases List.mem_cons.1 hx with rfl | hx
    · have hrel := hxy.cell?
      rw [hcell] at hrel
      rcases hcell' : y'.cell? with _ | b
      · rw [hcell'] at hrel
        cases hrel
      · rw [hcell'] at hrel
        cases hrel with
        | some hab => exact ⟨b, hab, y', List.mem_cons_self, hcell'⟩
    · obtain ⟨b, hab, y, hy, hcell'⟩ := ih hx
      exact ⟨b, hab, y, List.mem_cons_of_mem _ hy, hcell'⟩

namespace SameHeap

variable {roots roots' : List Item} {members : Nat → Prop}

/-- The containers of a supported set all correspond to containers of the other heap. -/
theorem known_of_supported (hs : ρ.SameHeap h k) (hroots : ρ.SameItems roots roots')
    (hmembers : h.Supported roots members) (ha : members a) : ∃ b, ρ.cell a b := by
  by_contra hunknown
  -- Those that do not would keep each other, because what is in play holds only what is in play.
  refine hs.grounded (fun a => members a ∧ ¬ ∃ b, ρ.cell a b) (fun b hb => ?_) (fun _ hb => hb.2) a ⟨ha, hunknown⟩
  obtain ⟨hlt, hroot | ⟨a', ha', hholds⟩⟩ := hmembers b hb.1
  · obtain ⟨b', hbb', -⟩ := SameItems.exists_cell hroots hroot
    exact absurd ⟨b', hbb'⟩ hb.2
  · refine ⟨hlt, Or.inr ⟨a', ⟨ha', ?_⟩, hholds⟩⟩
    rintro ⟨b', hab'⟩
    obtain ⟨b'', hbb'', -⟩ := SameItems.exists_cell (hs.held hab') hholds
    exact hb.2 ⟨b'', hbb''⟩

/-- The containers that correspond to those of a supported set are a supported set. -/
theorem supported (hs : ρ.SameHeap h k) (hroots : ρ.SameItems roots roots') (hmembers : h.Supported roots members) :
    k.Supported roots' fun b => ∃ a, members a ∧ ρ.cell a b := by
  rintro b ⟨a, ha, hab⟩
  obtain ⟨hlt, hheld⟩ := hmembers a ha
  refine ⟨(hs.lt_size_iff hab).1 hlt, ?_⟩
  rcases hheld with hroot | ⟨a', ha', hholds⟩
  · obtain ⟨b', hab', hroot'⟩ := SameItems.exists_cell hroots hroot
    rw [← (ρ.cell_unique hab hab').1 rfl] at hroot'
    exact Or.inl hroot'
  · obtain ⟨b', hab'⟩ := hs.known_of_supported hroots hmembers ha'
    obtain ⟨b'', hab'', hholds'⟩ := SameItems.exists_cell (hs.held hab') hholds
    rw [← (ρ.cell_unique hab hab'').1 rfl] at hholds'
    exact Or.inr ⟨b', ⟨a', ha', hab'⟩, hholds'⟩

/-- What corresponds to a live container is live. -/
theorem live_of_live (hs : ρ.SameHeap h k) (hroots : ρ.SameItems roots roots') (hab : ρ.cell a b)
    (hlive : (h.live roots).getD a false = true) : (k.live roots').getD b false = true := by
  obtain ⟨members, hmembers, ha⟩ := Heap.live_iff.1 hlive
  exact Heap.live_iff.2 ⟨_, hs.supported hroots hmembers, a, ha, hab⟩

/-- **Corresponding containers are live both, or neither is.** -/
theorem live (hs : ρ.SameHeap h k) (hroots : ρ.SameItems roots roots') (hab : ρ.cell a b) :
    (k.live roots').getD b false = (h.live roots).getD a false := by
  rw [Bool.eq_iff_iff]
  exact ⟨hs.symm.live_of_live (SameItems.symm hroots) hab, hs.live_of_live hroots hab⟩

/-- A live container corresponds to one of the other heap. -/
theorem known_of_live (hs : ρ.SameHeap h k) (hroots : ρ.SameItems roots roots')
    (hlive : (h.live roots).getD a false = true) : ∃ b, ρ.cell a b := by
  obtain ⟨members, hmembers, ha⟩ := Heap.live_iff.1 hlive
  exact hs.known_of_supported hroots hmembers ha

end SameHeap

/-! ## The identity -/

/-- Under the identity the same containers are equal. -/
theorem sameCell_identity : identity.SameCell c d ↔ c = d := by
  have hentry : identity.SameEntry = Eq := by
    funext entry entry'
    rw [SameEntry, sameItem_identity, sameItem_identity, Prod.ext_iff]
  constructor
  · intro hcell
    cases hcell with
    | list h => rw [sameItems_identity.1 h]
    | map h =>
      rw [hentry, List.forall₂_eq_eq_eq] at h
      rw [h]
  · rintro rfl
    cases c with
    | list xs => exact .list (sameItems_identity.2 rfl)
    | map entries =>
      refine .map ?_
      rw [hentry, List.forall₂_eq_eq_eq]

/-- **Under the identity the same heaps are equal.** -/
theorem sameHeap_identity : identity.SameHeap h k ↔ h = k := by
  constructor
  · intro hs
    have hcells : h.cells = k.cells := by
      refine Array.ext (hs.nextCell 0) fun i hi hi' => ?_
      have hrel := hs.cells i i rfl
      rw [Array.getElem?_eq_getElem hi, Array.getElem?_eq_getElem hi'] at hrel
      cases hrel with
      | some hcell => exact sameCell_identity.1 hcell
    have hleaves : h.leaves = k.leaves := hs.nextLeaf 0
    obtain ⟨cells, leaves⟩ := h
    obtain ⟨cells', leaves'⟩ := k
    cases hcells
    cases hleaves
    rfl
  · rintro rfl
    refine ⟨?_, fun _ => rfl, fun _ => rfl, ?_, ?_⟩
    · rintro a _ rfl
      cases h.cells[a]? with
      | none => exact .none
      | some c => exact .some (sameCell_identity.2 rfl)
    · exact fun members _ hunknown a ha => hunknown a ha ⟨a, rfl⟩
    · exact fun members _ hunknown a ha => hunknown a ha ⟨a, rfl⟩

/-! ## The memory of containers -/

/-- Two remembered containers that correspond, or of which neither corresponds to anything: those are gone. -/
def SameTracked (ρ : Renaming) (a b : Nat) : Prop := ρ.cell a b ∨ (¬ ∃ b', ρ.cell a b') ∧ ¬ ∃ a', ρ.cell a' b

/-- Two memories of the same containers. -/
structure SameTracker (ρ : Renaming) (t t' : CycleTracker) : Prop where
  /-- The remembered containers are the same. -/
  entries : List.Forall₂ ρ.SameTracked t.entries t'.entries
  /-- The number of entries at which the next one prunes is the same. -/
  pruneAt : t'.pruneAt = t.pruneAt

/-- Under the identity the same memories are equal. -/
theorem sameTracker_identity {t t' : CycleTracker} : identity.SameTracker t t' ↔ t = t' := by
  constructor
  · rintro ⟨hentries, hprune⟩
    obtain ⟨entries, pruneAt⟩ := t
    obtain ⟨entries', pruneAt'⟩ := t'
    have heq : List.Forall₂ Eq entries entries' :=
      hentries.imp fun a b h => h.resolve_right fun hgone => hgone.1 ⟨a, rfl⟩
    cases (List.forall₂_eq_eq_eq ▸ heq : entries = entries')
    cases hprune
    rfl
  · rintro rfl
    exact ⟨List.forall₂_same.2 fun _ _ => Or.inl rfl, rfl⟩

/-- **Forgetting the containers that are gone** does the same: what still exists is told alike. -/
theorem SameHeap.prune (hs : ρ.SameHeap h k) {t t' : CycleTracker} (ht : ρ.SameTracker t t') {roots roots' : List Item}
    (hroots : ρ.SameItems roots roots') : ρ.SameTracker (t.prune (h.live roots)) (t'.prune (k.live roots')) := by
  have hkept : List.Forall₂ ρ.cell (t.entries.filter fun id => (h.live roots).getD id false).eraseDups
      (t'.entries.filter fun id => (k.live roots').getD id false).eraseDups := by
    -- What corresponds to nothing is not live, so that it is left out on both sides.
    have hgone : ∀ a, (¬ ∃ b, ρ.cell a b) → (h.live roots).getD a false = false :=
      fun a hunknown => Bool.eq_false_iff.2 fun hlive => hunknown (hs.known_of_live hroots hlive)
    have hgone' : ∀ b, (¬ ∃ a, ρ.cell a b) → (k.live roots').getD b false = false :=
      fun b hunknown => Bool.eq_false_iff.2 fun hlive =>
        hunknown (hs.symm.known_of_live (SameItems.symm hroots) hlive)
    refine forall₂_eraseDups (fun _ _ _ _ => ρ.cell_unique)
      (forall₂_filter ht.entries (fun a b hab => ?_) fun a b hab hlive => ?_)
    · rcases hab with hab | ⟨ha, hb⟩
      · exact hs.live hroots hab
      · rw [hgone a ha, hgone' b hb]
    · refine hab.resolve_right fun hboth => ?_
      rw [hgone a hboth.1] at hlive
      cases hlive
  refine ⟨hkept.imp fun _ _ => Or.inl, ?_⟩
  dsimp only [CycleTracker.prune]
  rw [hkept.length_eq]

/-- **Remembering the same container** is the same, also when others are forgotten. -/
theorem SameHeap.track (hs : ρ.SameHeap h k) {t t' : CycleTracker} (ht : ρ.SameTracker t t') {roots roots' : List Item}
    (hroots : ρ.SameItems roots roots') (hx : ρ.SameItem x y) :
    ρ.SameTracker (t.track h roots x) (t'.track k roots' y) := by
  have hprune := hs.prune ht hroots
  have hcell := hx.cell?
  unfold CycleTracker.track
  revert hcell
  rcases x.cell? with _ | a <;> rcases y.cell? with _ | b <;> rintro ⟨⟩
  · exact ht
  · rename_i hab
    dsimp only
    rw [ht.pruneAt, ht.entries.length_eq]
    split
    · exact ⟨.cons (Or.inl hab) hprune.entries, hprune.pruneAt⟩
    · exact ⟨.cons (Or.inl hab) ht.entries, ht.pruneAt⟩

end Renaming

end ScriptMachine
