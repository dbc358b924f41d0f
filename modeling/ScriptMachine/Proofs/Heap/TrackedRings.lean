import ScriptMachine.Proofs.Heap.Live
import ScriptMachine.Proofs.Heap.References

/-! # What the release of a tracker empties

A tracker may forget what it remembers twice and what is gone. That never matters to its release: a container that is
gone stays gone, because whoever changes containers and handles takes up nothing but what is at hand, and a container
on a ring is not gone. So the release empties those containers on rings that were ever passed to the tracker and still
exist, and no others, whatever was forgotten in between.

* `Heap.IsLive`, `Item.AtHand`: what exists; `Heap.isLive_of_change` says that what is gone stays gone.
* `CycleTracker.History`: tracking, writing, creating and dropping, in any order, since the tracker remembered nothing.
* `CycleTracker.History.remembers`: what was passed to the tracker and exists is remembered.
* `Heap.foldl_clear`, `CycleTracker.release_eq`: the effect of a release, as one equation.
* `CycleTracker.release_exact`: releases after any history.
-/

namespace ScriptMachine

/-- A cell without its content. -/
def Cell.emptied : Cell → Cell
  | .list _ => .list []
  | .map _ => .map []

/-- Emptying a cell once is enough. -/
@[simp] theorem Cell.emptied_emptied (cell : Cell) : cell.emptied.emptied = cell.emptied := by
  cases cell <;> rfl

namespace Heap

variable {h h' : Heap} {roots roots' : List Item} {a b c id : Nat}

/-! ## What is gone stays gone -/

/-- The container exists: it is held by a root or by a container that exists. -/
def IsLive (h : Heap) (roots : List Item) (id : Nat) : Prop := (h.live roots).getD id false = true

/-- The live containers hold each other or are held by roots. -/
theorem supported_isLive (h : Heap) (roots : List Item) : h.Supported roots (h.IsLive roots) := by
  intro b hb
  obtain ⟨members, hmembers, hmem⟩ := live_iff.1 hb
  obtain ⟨hlt, hholder⟩ := hmembers b hmem
  exact ⟨hlt, hholder.imp_right (Exists.imp fun a => And.imp_left fun ha => live_iff.2 ⟨members, hmembers, ha⟩)⟩

/-- A live container has a cell. -/
theorem IsLive.lt_size (hlive : h.IsLive roots id) : id < h.size := (supported_isLive h roots id hlive).1

/-- What a root holds is live. -/
theorem isLive_of_mem_roots {x : Item} (hx : x ∈ roots) (hid : x.cell? = some id) (hlt : id < h.size) :
    h.IsLive roots id := by
  refine live_iff.2 ⟨fun b => b = id ∨ h.IsLive roots b, ?_, Or.inl rfl⟩
  rintro b (rfl | hb)
  · exact ⟨hlt, Or.inl ⟨x, hx, hid⟩⟩
  · obtain ⟨hlt, hholder⟩ := supported_isLive h roots b hb
    exact ⟨hlt, hholder.imp_right (Exists.imp fun a => And.imp_left Or.inr)⟩

end Heap

/-- The container of the item, if it is one, exists. -/
def Item.AtHand (h : Heap) (roots : List Item) (x : Item) : Prop := ∀ id, x.cell? = some id → h.IsLive roots id

namespace Heap

variable {h h' : Heap} {roots roots' : List Item} {a b c id : Nat}

/-- **What is gone stays gone.** If roots and containers took up nothing but what was at hand and what is new, a
container that was there before and is live now was live before. -/
theorem isLive_of_change (hroots : ∀ x ∈ roots', ∀ c < h.size, x.cell? = some c → h.IsLive roots c)
    (hheld : ∀ a, ∀ x ∈ h'.held a, x ∈ h.held a ∨ ∀ c < h.size, x.cell? = some c → h.IsLive roots c)
    (hid : id < h.size) (hlive : h'.IsLive roots' id) : h.IsLive roots id := by
  -- Those that were live, and the old ones that are live now, hold each other in the heap before the change.
  refine live_iff.2 ⟨fun b => h.IsLive roots b ∨ h'.IsLive roots' b ∧ b < h.size, ?_, Or.inr ⟨hlive, hid⟩⟩
  have hbefore : ∀ b, h.IsLive roots b → b < h.size ∧ ((∃ x ∈ roots, x.cell? = some b) ∨
      ∃ a, (h.IsLive roots a ∨ h'.IsLive roots' a ∧ a < h.size) ∧ h.HoldsCell a b) := by
    intro b hb
    obtain ⟨hlt, hholder⟩ := supported_isLive h roots b hb
    exact ⟨hlt, hholder.imp_right (Exists.imp fun a => And.imp_left Or.inl)⟩
  rintro b (hb | ⟨hb, hlt⟩)
  · exact hbefore b hb
  · obtain ⟨-, ⟨x, hx, hcell⟩ | ⟨a, ha, x, hx, hcell⟩⟩ := supported_isLive h' roots' b hb
    · exact hbefore b (hroots x hx b hlt hcell)
    · rcases hheld a x hx with hold | hnew
      · have hholds : h.HoldsCell a b := ⟨x, hold, hcell⟩
        exact ⟨hlt, Or.inr ⟨a, Or.inr ⟨ha, hholds.lt_size⟩, hholds⟩⟩
      · exact hbefore b (hnew b hlt hcell)

/-- What is gone stays gone when a container is written. -/
theorem Writes.isLive {added : List Item} (hw : h.Writes h' id added) (hadded : ∀ x ∈ added, x.AtHand h roots)
    (hlive : h'.IsLive roots c) : h.IsLive roots c := by
  refine isLive_of_change (fun x hx c hc hcell => isLive_of_mem_roots hx hcell hc) (fun a x hx => ?_)
    (hw.size ▸ hlive.lt_size) hlive
  by_cases heq : a = id
  · subst heq
    exact (hw.held x hx).imp_right fun hmem c _ => hadded x hmem c
  · rw [Heap.held, hw.others a heq] at hx
    exact Or.inl hx

/-- What is gone stays gone when a container is created. -/
theorem isLive_of_alloc {cell : Cell} {x : Item} (hx : x.cell? = some h.size)
    (hcell : ∀ y ∈ (h.alloc cell).2.held h.size, y.AtHand h roots) (hid : id < h.size)
    (hlive : (h.alloc cell).2.IsLive (x :: roots) id) : h.IsLive roots id := by
  refine isLive_of_change (fun y hy c hc hcell => ?_) (fun a y hy => ?_) hid hlive
  · rcases List.mem_cons.1 hy with rfl | hy
    · cases hx.symm.trans hcell
      exact absurd hc (Nat.lt_irrefl _)
    · exact isLive_of_mem_roots hy hcell hc
  · rcases Nat.lt_trichotomy a h.size with hlt | rfl | hgt
    · rw [held, cells_alloc_of_lt cell hlt] at hy
      exact Or.inl hy
    · exact Or.inr fun c _ => hcell y hy c
    · rw [held_of_le (by rw [size_alloc]; omega)] at hy
      exact absurd hy List.not_mem_nil

/-! ## Emptying containers -/

/-- Emptying one container. -/
theorem cells_clear (h : Heap) (id other : Nat) :
    (h.clear other).cells[id]? = if id = other then (h.cells[id]?).map Cell.emptied else h.cells[id]? := by
  by_cases heq : id = other
  · subst heq
    rw [if_pos rfl]
    cases hcell : h.cells[id]? with
    | none =>
      unfold clear
      rw [hcell]
      exact hcell
    | some cell =>
      have hlt : id < h.cells.size := (Array.getElem?_eq_some_iff.1 hcell).1
      unfold clear
      rw [hcell]
      cases cell <;> simp [setItems, setEntries, Cell.emptied, hlt]
  · rw [if_neg heq, cells_clear_of_ne heq]

/-- Emptying many containers, in any order. -/
theorem cells_foldl_clear_eq (ids : List Nat) (h : Heap) (id : Nat) :
    (ids.foldl clear h).cells[id]? = if id ∈ ids then (h.cells[id]?).map Cell.emptied else h.cells[id]? := by
  induction ids generalizing h with
  | nil => rfl
  | cons other ids ih =>
    rw [List.foldl_cons, ih, cells_clear]
    by_cases heq : id = other
    · rw [if_pos heq, if_pos (List.mem_cons.2 (Or.inl heq)), Option.map_map]
      split
      · exact congrArg (fun f => (h.cells[id]?).map f) (funext Cell.emptied_emptied)
      · rfl
    · rw [if_neg heq]
      simp only [List.mem_cons, heq, false_or]

/-- Emptying a container creates no byte strings and no handles. -/
theorem leaves_clear (h : Heap) (id : Nat) : (h.clear id).leaves = h.leaves := by
  unfold clear
  split <;> rfl

/-- Emptying many containers creates no byte strings and no handles. -/
theorem leaves_foldl_clear (ids : List Nat) (h : Heap) : (ids.foldl clear h).leaves = h.leaves := by
  induction ids generalizing h with
  | nil => rfl
  | cons other ids ih => rw [List.foldl_cons, ih, leaves_clear]

/-- **Emptying containers changes them and nothing else.** -/
theorem foldl_clear (ids : List Nat) (h : Heap) : ids.foldl clear h =
    { h with cells := h.cells.mapIdx fun id cell => if id ∈ ids then cell.emptied else cell } := by
  have hcells : (ids.foldl clear h).cells =
      h.cells.mapIdx fun id cell => if id ∈ ids then cell.emptied else cell := by
    refine Array.ext_getElem? fun id => ?_
    rw [cells_foldl_clear_eq, Array.getElem?_mapIdx]
    split
    · rfl
    · exact Option.map_id'.symm
  have hleaves := leaves_foldl_clear ids h
  revert hcells hleaves
  rcases ids.foldl clear h with ⟨cells, leaves⟩
  rintro rfl rfl
  rfl

end Heap

namespace CycleTracker

variable {h h' : Heap} {roots roots' : List Item} {t : CycleTracker} {passed : List Nat} {id : Nat} {x : Item}

/-! ## Histories -/

/-- **The histories of a tracker** since it was created or last released: the containers that were passed to it, the
last one first, with the heap, the roots and the tracker that there are now. Containers hold each other as they like.
What is passed to the tracker, stored in a container or held by a root was at hand before. -/
inductive History : List Nat → Heap → List Item → CycleTracker → Prop where
  /-- The tracker remembers nothing. -/
  | start (h : Heap) (roots : List Item) : History [] h roots .empty
  /-- An item is passed to the tracker. -/
  | track {passed : List Nat} {h : Heap} {roots : List Item} {t : CycleTracker} {x : Item} (hx : x.AtHand h roots)
    (past : History passed h roots t) : History (x.cell?.toList ++ passed) h roots (t.track h roots x)
  /-- A container is written. -/
  | write {passed : List Nat} {h h' : Heap} {roots : List Item} {t : CycleTracker} {id : Nat} {added : List Item}
    (hwrites : h.Writes h' id added) (hadded : ∀ x ∈ added, x.AtHand h roots) (past : History passed h roots t) :
    History passed h' roots t
  /-- A container is created, and a root holds it. -/
  | create {passed : List Nat} {h : Heap} {roots : List Item} {t : CycleTracker} {cell : Cell} {x : Item}
    (hx : x.cell? = some h.size) (hcell : ∀ y ∈ (h.alloc cell).2.held h.size, y.AtHand h roots)
    (past : History passed h roots t) : History passed (h.alloc cell).2 (x :: roots) t
  /-- Roots let go of items and take others up. -/
  | hold {passed : List Nat} {h : Heap} {roots roots' : List Item} {t : CycleTracker}
    (hroots : ∀ x ∈ roots', x.AtHand h roots) (past : History passed h roots t) : History passed h roots' t

/-- The tracker that has forgotten nothing of what was passed to it. -/
def unpruned (passed : List Nat) : CycleTracker := { entries := passed }

/-- What is remembered after an item was passed: the container, and what was remembered before, as far as it exists. -/
theorem mem_track (hid : id ∈ (t.track h roots x).entries) : x.cell? = some id ∨ id ∈ t.entries := by
  unfold track at hid
  split at hid
  · exact Or.inr hid
  · rename_i c hcell
    rcases List.mem_cons.1 hid with rfl | hid
    · exact Or.inl hcell
    · -- Pruning keeps a part of what was remembered.
      refine Or.inr ?_
      split at hid
      · exact (List.mem_filter.1 (List.mem_eraseDups.1 hid)).1
      · exact hid

/-- The container that was passed is remembered. -/
theorem mem_track_self (hx : x.cell? = some id) : id ∈ (t.track h roots x).entries := by
  unfold track
  rw [hx]
  exact List.mem_cons_self

/-- **What exists is not forgotten.** -/
theorem mem_track_of_isLive (hid : id ∈ t.entries) (hlive : h.IsLive roots id) :
    id ∈ (t.track h roots x).entries := by
  unfold track
  split
  · exact hid
  · refine List.mem_cons_of_mem _ ?_
    split
    · exact List.mem_eraseDups.2 (List.mem_filter.2 ⟨hid, hlive⟩)
    · exact hid

namespace History

/-- Nothing is remembered that was not passed. -/
theorem entries_subset (past : History passed h roots t) (hid : id ∈ t.entries) : id ∈ passed := by
  induction past with
  | start => exact absurd hid List.not_mem_nil
  | track _ _ ih =>
    rw [List.mem_append, Option.mem_toList]
    exact (mem_track hid).imp_right ih
  | write _ _ _ ih | create _ _ _ ih | hold _ _ ih => exact ih hid

/-- Cells are never taken away. -/
theorem lt_size (past : History passed h roots t) (hid : id ∈ passed) : id < h.size := by
  induction past with
  | start => exact absurd hid List.not_mem_nil
  | track hx _ ih =>
    rw [List.mem_append, Option.mem_toList] at hid
    exact hid.elim (fun hcell => (hx id hcell).lt_size) ih
  | write hwrites _ _ ih => exact hwrites.size ▸ ih hid
  | create _ _ _ ih =>
    rw [Heap.size_alloc]
    exact Nat.lt_succ_of_lt (ih hid)
  | hold _ _ ih => exact ih hid

/-- **What was passed and exists is remembered**, whatever was forgotten in between. -/
theorem remembers (past : History passed h roots t) (hid : id ∈ passed) (hlive : h.IsLive roots id) :
    id ∈ t.entries := by
  -- In each case the container existed before, so that it was remembered.
  induction past with
  | start => exact absurd hid List.not_mem_nil
  | track _ _ ih =>
    rw [List.mem_append, Option.mem_toList] at hid
    exact hid.elim mem_track_self fun hid => mem_track_of_isLive (ih hid hlive) hlive
  | write hwrites hadded _ ih => exact ih hid (hwrites.isLive hadded hlive)
  | create hx hcell past ih => exact ih hid (Heap.isLive_of_alloc hx hcell (past.lt_size hid) hlive)
  | hold hroots past ih =>
    refine ih hid (Heap.isLive_of_change (fun x hx c _ => hroots x hx c) (fun _ _ => Or.inl) (past.lt_size hid) hlive)

end History

/-! ## Releases -/

/-- **The containers that a release empties**, after any history: those on rings that were passed and exist. -/
theorem History.mem_cyclic_iff (past : History passed h roots t) :
    id ∈ t.cyclic h ↔ id ∈ passed ∧ h.IsLive roots id ∧ Relation.TransGen h.Refers id id := by
  rw [mem_cyclic, Heap.exists_ring_iff]
  constructor
  · rintro ⟨hentry, hpath⟩
    obtain ⟨ring, hring, hid⟩ := Heap.exists_ring_iff.2 hpath
    exact ⟨past.entries_subset hentry, Heap.live_of_ring hring hid roots, hpath⟩
  · rintro ⟨hpassed, hlive, hpath⟩
    exact ⟨past.remembers hpassed hlive, hpath⟩

/-- **The effect of a release**: the containers that it empties, and their number. -/
theorem release_eq (t : CycleTracker) (h : Heap) : t.release h =
    ((t.cyclic h).length,
      { h with cells := h.cells.mapIdx fun id cell => if id ∈ t.cyclic h then cell.emptied else cell }) := by
  unfold release
  dsimp only
  rw [Heap.foldl_clear]

/-- Without its repetitions a list has none. -/
theorem nodup_eraseDups (ids : List Nat) : ids.eraseDups.Nodup := by
  induction hlength : ids.length using Nat.strongRecOn generalizing ids with
  | ind n ih =>
    cases ids with
    | nil => exact List.nodup_nil
    | cons id ids =>
      rw [List.eraseDups_cons, List.nodup_cons, List.mem_eraseDups, List.mem_filter]
      have hshorter : (ids.filter fun other => !other == id).length < n := by
        rw [← hlength]
        exact Nat.lt_succ_of_le (List.length_filter_le _ _)
      exact ⟨fun hid => by simpa using hid.2, ih _ hshorter _ rfl⟩

/-- No container is emptied twice. -/
theorem nodup_cyclic (t : CycleTracker) (h : Heap) : (t.cyclic h).Nodup :=
  (nodup_eraseDups t.entries).filter _

/-- Trackers that empty the same containers have the same release. -/
theorem release_congr {t' : CycleTracker} (hsame : ∀ id, id ∈ t.cyclic h ↔ id ∈ t'.cyclic h) :
    t.release h = t'.release h := by
  have hlength : (t.cyclic h).length = (t'.cyclic h).length :=
    ((List.perm_ext_iff_of_nodup (t.nodup_cyclic h) (t'.nodup_cyclic h)).2 hsame).length_eq
  simp only [release_eq, hlength, hsame]

/-- **A release empties exactly the containers on rings that were passed to the tracker and still exist**, whatever the
tracker has forgotten. After any history of tracking, with repetitions and primitive items, of writing and creating
containers and of dropping items, and in whatever way containers then hold each other, there is a list of these
containers, each of them once; their number is returned, each of them is empty afterwards, and all other containers are
as they were. A tracker that never forgets anything does the same. The search for rings is a total function: every
container is visited once. -/
theorem release_exact (past : History passed h roots t) :
    (∃ emptied : List Nat, emptied.Nodup ∧
      (∀ id, id ∈ emptied ↔ id ∈ passed ∧ h.IsLive roots id ∧ Relation.TransGen h.Refers id id) ∧
      t.release h = (emptied.length,
        { h with cells := h.cells.mapIdx fun id cell => if id ∈ emptied then cell.emptied else cell })) ∧
    t.release h = (unpruned passed).release h := by
  refine ⟨⟨t.cyclic h, t.nodup_cyclic h, fun id => past.mem_cyclic_iff, t.release_eq h⟩, ?_⟩
  refine release_congr fun id => ?_
  -- What lies on a ring exists, so that nothing on a ring was forgotten.
  rw [past.mem_cyclic_iff, mem_cyclic, Heap.exists_ring_iff]
  refine and_congr_right fun _ => and_iff_right_of_imp fun hpath => ?_
  obtain ⟨ring, hring, hid⟩ := Heap.exists_ring_iff.2 hpath
  exact Heap.live_of_ring hring hid roots

/-- Three arrays: the first one and the last one hold themselves, and the second one holds the first one. The first one
is passed twice, a truth value once and then the second array; at last all but the second one are let go of. Only the
first array is emptied: the second one lies on no ring, and the last one was never passed. -/
theorem release_exact_shared :
    let h : Heap := { cells := #[.list [.array 0], .list [.array 0], .list [.array 2]], leaves := 0 }
    let roots : List Item := [.array 0, .array 1, .array 2]
    let t := (((CycleTracker.empty.track h roots (.array 0)).track h roots (.array 0)).track h roots
      (.boolean true)).track h roots (.array 1)
    History [1, 0, 0] h [.array 1] t ∧
    t.release h = (1, { cells := #[.list [], .list [.array 0], .list [.array 2]], leaves := 0 }) := by
  intro h roots t
  have hat : ∀ id < 3, (Item.array id).AtHand h roots := by
    rintro id hid _ ⟨⟩
    refine Heap.isLive_of_mem_roots (x := .array id) ?_ rfl hid
    obtain rfl | rfl | rfl : id = 0 ∨ id = 1 ∨ id = 2 := by omega
    all_goals simp [roots]
  have hprimitive : (Item.boolean true).AtHand h roots := fun _ hcell => by cases hcell
  have hkept : ∀ x ∈ [Item.array 1], x.AtHand h roots := by
    intro x hx
    rw [List.mem_singleton.1 hx]
    exact hat 1 (by decide)
  have past : History [1, 0, 0] h [.array 1] t := by
    refine .hold hkept ?_
    have once := History.track (hat 0 (by decide)) (.start h roots)
    exact .track (hat 1 (by decide)) (.track hprimitive (.track (hat 0 (by decide)) once))
  refine ⟨past, ?_⟩
  obtain ⟨⟨emptied, hnodup, hemptied, hrelease⟩, -⟩ := release_exact past
  have hself : h.Refers 0 0 := List.mem_singleton.2 rfl
  have hnone : ∀ a, ¬ h.Refers a 1 := by
    intro a hrefers
    have hlt : a < 3 := hrefers.lt_size
    obtain rfl | rfl | rfl : a = 0 ∨ a = 1 ∨ a = 2 := by omega
    all_goals exact absurd (List.mem_singleton.1 hrefers) (by decide)
  have hfirst : ∀ id, id ∈ emptied ↔ id = 0 := by
    intro id
    rw [hemptied]
    constructor
    · rintro ⟨hpassed, -, hpath⟩
      obtain rfl | rfl : id = 1 ∨ id = 0 := by simpa using hpassed
      · obtain ⟨a, -, hrefers⟩ := Relation.TransGen.tail'_iff.1 hpath
        exact absurd hrefers (hnone a)
      · rfl
    · rintro rfl
      obtain ⟨ring, hring, hid⟩ := Heap.exists_ring_iff.2 (.single hself)
      exact ⟨by decide, Heap.live_of_ring hring hid _, .single hself⟩
  have heq : emptied = [0] := by
    refine List.perm_singleton.1 ((List.perm_ext_iff_of_nodup hnodup (by decide : [0].Nodup)).2 fun id => ?_)
    rw [hfirst, List.mem_singleton]
  rw [hrelease, heq]
  rfl

end CycleTracker

end ScriptMachine
