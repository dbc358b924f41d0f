import Mathlib.Data.List.Chain
import Mathlib.Logic.Relation
import ScriptMachine.Heap.CycleTracker

/-! # Rings of containers

The containers of a heap are a graph: a container refers to the containers among its elements or map values. A
ring is a closed path of it. The memory of a tracker *covers* the rings when each of them passes through a
remembered container, and then its release leaves no ring.

* `Heap.Refers`, `Heap.Ring`: the graph and its closed paths; `Heap.exists_ring_iff` for one container.
* `Heap.reachesItself_iff`: the search for a ring through a container finds it exactly if there is one.
* `Heap.live_of_ring`: containers on rings keep each other alive.
* `CycleTracker.Covers`: a ring passes through a remembered container; `Covers.track` and `Covers.release`.
-/

namespace ScriptMachine

namespace Heap

variable {h : Heap} {a b id : Nat}

/-! ## Paths and rings -/

/-- A container holds another one as an element or as a map value. -/
def Refers (h : Heap) (a b : Nat) : Prop := b ∈ h.contained a

/-- Containers of which each one refers to the next one, and the last one to the first one. -/
def Ring (h : Heap) (ring : List Nat) : Prop :=
  ∃ first rest, ring = first :: rest ∧ List.IsChain h.Refers (first :: rest ++ [first])

/-- From a container on a ring a path leads back to it. -/
theorem Ring.transGen {ring : List Nat} (hring : h.Ring ring) (hid : id ∈ ring) :
    Relation.TransGen h.Refers id id := by
  obtain ⟨first, rest, rfl, hchain⟩ := hring
  -- Every member comes before every later one, and the first one comes last again.
  have hpath : List.Pairwise (Relation.TransGen h.Refers) (first :: rest ++ [first]) :=
    List.isChain_iff_pairwise.1 (hchain.imp fun _ _ => Relation.TransGen.single)
  have hlast : ∀ x ∈ first :: rest, Relation.TransGen h.Refers x first := fun x hx =>
    (List.pairwise_append.1 hpath).2.2 x hx first List.mem_cons_self
  rcases List.mem_cons.1 hid with rfl | hrest
  · exact hlast _ List.mem_cons_self
  · have hfirst : Relation.TransGen h.Refers first id :=
      (List.pairwise_cons.1 hpath).1 id (List.mem_append_left _ hrest)
    exact (hlast id (List.mem_cons_of_mem _ hrest)).trans hfirst

/-- A path as a list. -/
theorem exists_chain (hpath : Relation.TransGen h.Refers a b) :
    ∃ rest, List.IsChain h.Refers (a :: rest ++ [b]) := by
  induction hpath with
  | single hab => exact ⟨[], List.isChain_pair.2 hab⟩
  | @tail b c _ hbc ih =>
    obtain ⟨rest, hrest⟩ := ih
    refine ⟨rest ++ [b], ?_⟩
    have hsplit : a :: (rest ++ [b]) ++ [c] = (a :: rest) ++ b :: c :: [] := by simp
    rw [hsplit, List.isChain_append_cons_cons]
    exact ⟨hrest, hbc, List.isChain_singleton c⟩

/-- A container lies on a ring if and only if a path leads from it back to it. -/
theorem exists_ring_iff : (∃ ring, h.Ring ring ∧ id ∈ ring) ↔ Relation.TransGen h.Refers id id := by
  constructor
  · rintro ⟨ring, hring, hid⟩
    exact hring.transGen hid
  · intro hpath
    obtain ⟨rest, hchain⟩ := exists_chain hpath
    exact ⟨id :: rest, ⟨id, rest, rfl, hchain⟩, List.mem_cons_self⟩

/-- Each member of a ring refers to a member of it. -/
theorem Ring.exists_refers {ring : List Nat} (hring : h.Ring ring) (hid : id ∈ ring) :
    ∃ b, h.Refers id b := by
  obtain ⟨b, hb, -⟩ := Relation.TransGen.head'_iff.1 (hring.transGen hid)
  exact ⟨b, hb⟩

/-- A ring whose members refer to the same containers in another heap. -/
theorem Ring.imp {h' : Heap} {ring : List Nat} (hring : h.Ring ring)
    (himp : ∀ a ∈ ring, ∀ b, h.Refers a b → h'.Refers a b) : h'.Ring ring := by
  obtain ⟨first, rest, rfl, hchain⟩ := hring
  refine ⟨first, rest, rfl, hchain.imp_of_mem_imp fun a b ha _ hab => himp a ?_ b hab⟩
  -- The first member comes again at the end, and nothing else is added.
  rcases List.mem_append.1 ha with ha | ha
  · exact ha
  · rw [List.mem_singleton.1 ha]
    exact List.mem_cons_self

/-! ## The search for a ring -/

/-- A search that finds its origin has found a path to it. -/
theorem exists_path_of_reaches {origin : Nat} {pending : List Nat} {visited : Array Bool}
    (hfound : h.reaches origin pending visited = true) :
    ∃ p ∈ pending, Relation.ReflTransGen h.Refers p origin := by
  fun_induction reaches h origin pending visited with
  | case1 => cases hfound
  | case2 visited next rest heq =>
    rw [beq_iff_eq.1 heq]
    exact ⟨origin, List.mem_cons_self, .refl⟩
  | case3 visited next rest _ _ _ ih =>
    obtain ⟨p, hp, hpath⟩ := ih hfound
    exact ⟨p, List.mem_cons_of_mem _ hp, hpath⟩
  | case4 visited next rest _ _ _ ih =>
    obtain ⟨p, hp, hpath⟩ := ih hfound
    rcases List.mem_append.1 hp with hp | hp
    · exact ⟨next, List.mem_cons_self, hpath.head hp⟩
    · exact ⟨p, List.mem_cons_of_mem _ hp, hpath⟩
  | case5 visited next rest _ _ ih =>
    obtain ⟨p, hp, hpath⟩ := ih hfound
    exact ⟨p, List.mem_cons_of_mem _ hp, hpath⟩

/-- A container that the search has dealt with: it was visited, or it does not exist. -/
def Done (origin : Nat) (visited : Array Bool) (id : Nat) : Prop :=
  visited[id]? = some true ∨ visited.size ≤ id ∧ id ≠ origin

/-- What the visited containers refer to is pending or done, and the origin is not among them. -/
def Searched (h : Heap) (origin : Nat) (pending : List Nat) (visited : Array Bool) : Prop :=
  ∀ v, visited[v]? = some true → v ≠ origin ∧ ∀ w, h.Refers v w → w ∈ pending ∨ Done origin visited w

/-- A pending container that is done need not be pending. -/
theorem Searched.tail {origin next : Nat} {rest : List Nat} {visited : Array Bool}
    (hs : h.Searched origin (next :: rest) visited) (hnext : Done origin visited next) :
    h.Searched origin rest visited := by
  intro v hv
  refine ⟨(hs v hv).1, fun w hw => ?_⟩
  rcases (hs v hv).2 w hw with hw | hw
  · rcases List.mem_cons.1 hw with rfl | hw
    · exact Or.inr hnext
    · exact Or.inl hw
  · exact Or.inr hw

/-- What is done stays so when another container is visited. -/
theorem Done.set {origin next v : Nat} {visited : Array Bool} (hv : Done origin visited v)
    (hlt : next < visited.size) : Done origin (visited.set next true) v := by
  rcases hv with hv | hv
  · refine Or.inl ?_
    rw [Array.getElem?_set]
    split
    · rfl
    · exact hv
  · refine Or.inr ?_
    rw [Array.size_set]
    exact hv

/-- Visiting a container makes all that it refers to pending. -/
theorem Searched.visit {origin next : Nat} {rest : List Nat} {visited : Array Bool}
    (hs : h.Searched origin (next :: rest) visited) (hne : next ≠ origin) (hlt : next < visited.size) :
    h.Searched origin (h.contained next ++ rest) (visited.set next true) := by
  intro v hv
  by_cases heq : next = v
  · subst heq
    exact ⟨hne, fun w hw => Or.inl (List.mem_append_left _ hw)⟩
  · rw [Array.getElem?_set, if_neg heq] at hv
    refine ⟨(hs v hv).1, fun w hw => ?_⟩
    rcases (hs v hv).2 w hw with hw | hw
    · rcases List.mem_cons.1 hw with rfl | hw
      · exact Or.inr (Or.inl (by rw [Array.getElem?_set, if_pos rfl]))
      · exact Or.inl (List.mem_append_right _ hw)
    · exact Or.inr (hw.set hlt)

/-- A search that does not find its origin has found a set of containers that is closed under references and
does not have it. -/
theorem exists_closed_of_not_reaches {origin : Nat} {pending : List Nat} {visited : Array Bool}
    (hsize : visited.size = h.size) (hs : h.Searched origin pending visited)
    (hfailed : h.reaches origin pending visited = false) :
    ∃ S : Nat → Prop, (∀ p ∈ pending, S p) ∧ (∀ v, Done origin visited v → S v) ∧ ¬ S origin ∧
      ∀ v w, S v → h.Refers v w → S w := by
  fun_induction reaches h origin pending visited with
  | case1 visited =>
    refine ⟨Done origin visited, fun p hp => absurd hp List.not_mem_nil, fun _ hv => hv, ?_, ?_⟩
    · rintro (horigin | ⟨-, hne⟩)
      · exact (hs origin horigin).1 rfl
      · exact hne rfl
    · rintro v w (hv | ⟨hv, -⟩) hw
      · exact ((hs v hv).2 w hw).resolve_left List.not_mem_nil
      · -- A container that does not exist refers to nothing.
        rw [hsize] at hv
        have hnone : h.cells[v]? = none := Array.getElem?_eq_none hv
        rw [Refers, contained, hnone] at hw
        exact absurd hw List.not_mem_nil
  | case2 => cases hfailed
  | case3 visited next rest hne hlt hvisited ih =>
    have hnext : Done origin visited next := Or.inl (by rw [Array.getElem?_eq_getElem hlt, hvisited])
    obtain ⟨S, hpending, hdone, hrest⟩ := ih hsize (hs.tail hnext) hfailed
    exact ⟨S, List.forall_mem_cons.2 ⟨hdone _ hnext, hpending⟩, hdone, hrest⟩
  | case4 visited next rest hne hlt hvisited ih =>
    have hnext : Done origin (visited.set next true) next :=
      Or.inl (by rw [Array.getElem?_set, if_pos rfl])
    have hvisit := hs.visit (fun horigin => hne (beq_iff_eq.2 horigin)) hlt
    obtain ⟨S, hpending, hdone, hrest⟩ := ih (by rw [Array.size_set, hsize]) hvisit hfailed
    refine ⟨S, List.forall_mem_cons.2 ⟨hdone _ hnext, fun p hp => ?_⟩,
      fun v hv => hdone v (hv.set hlt), hrest⟩
    exact hpending p (List.mem_append_right _ hp)
  | case5 visited next rest hne hlt ih =>
    have hnext : Done origin visited next :=
      Or.inr ⟨Nat.le_of_not_lt hlt, fun horigin => hne (beq_iff_eq.2 horigin)⟩
    obtain ⟨S, hpending, hdone, hrest⟩ := ih hsize (hs.tail hnext) hfailed
    exact ⟨S, List.forall_mem_cons.2 ⟨hdone _ hnext, hpending⟩, hdone, hrest⟩

/-- **The search finds a ring through a container exactly if there is one.** -/
theorem reachesItself_iff : h.reachesItself id = true ↔ ∃ ring, h.Ring ring ∧ id ∈ ring := by
  rw [exists_ring_iff, Relation.TransGen.head'_iff]
  constructor
  · exact exists_path_of_reaches
  · rintro ⟨p, hp, hpath⟩
    by_contra hfailed
    have hstart : h.Searched id (h.contained id) (Array.replicate h.size false) := by
      intro v hv
      rw [Array.getElem?_replicate] at hv
      split at hv <;> cases hv
    obtain ⟨S, hpending, -, horigin, hclosed⟩ := exists_closed_of_not_reaches Array.size_replicate hstart
      (Bool.not_eq_true _ ▸ hfailed)
    -- The closed set has the first container of the path, so that it has all of them.
    have hall : ∀ b, Relation.ReflTransGen h.Refers p b → S b := by
      intro b hpb
      induction hpb with
      | refl => exact hpending p hp
      | tail _ hbc ih => exact hclosed _ _ ih hbc
    exact horigin (hall id hpath)

/-! ## Containers that keep each other alive -/

/-- Marks the container of one item. -/
def mark (marks : Array Bool) (x : Item) : Array Bool :=
  match x.cell? with
  | some id => marks.setIfInBounds id true
  | none => marks

/-- The containers are marked one by one. -/
theorem markHeld_cons (marks : Array Bool) (x : Item) (items : List Item) :
    markHeld marks (x :: items) = markHeld (mark marks x) items := rfl

/-- Marking does not change the number of marks. -/
theorem size_mark (marks : Array Bool) (x : Item) : (mark marks x).size = marks.size := by
  unfold mark
  split
  · exact Array.size_setIfInBounds
  · rfl

/-- Marking keeps the marks that are there. -/
theorem mark_mono {marks : Array Bool} (hid : marks[id]? = some true) (x : Item) :
    (mark marks x)[id]? = some true := by
  unfold mark
  split
  · rename_i other _
    rw [Array.getElem?_setIfInBounds]
    by_cases heq : other = id
    · subst heq
      rw [if_pos rfl, if_pos (Array.getElem?_eq_some_iff.1 hid).1]
    · rw [if_neg heq]
      exact hid
  · exact hid

/-- Marking many keeps the marks that are there. -/
theorem markHeld_mono {marks : Array Bool} (hid : marks[id]? = some true) (items : List Item) :
    (markHeld marks items)[id]? = some true := by
  induction items generalizing marks with
  | nil => exact hid
  | cons x items ih => exact ih (mark_mono hid x)

/-- Marking many does not change the number of marks. -/
theorem size_markHeld (marks : Array Bool) (items : List Item) :
    (markHeld marks items).size = marks.size := by
  induction items generalizing marks with
  | nil => rfl
  | cons x items ih => rw [markHeld_cons, ih, size_mark]

/-- A container among the items is marked. -/
theorem markHeld_mem {marks : Array Bool} {items : List Item} {x : Item} (hx : x ∈ items)
    (hcell : x.cell? = some id) (hlt : id < marks.size) : (markHeld marks items)[id]? = some true := by
  induction items generalizing marks with
  | nil => exact absurd hx List.not_mem_nil
  | cons y items ih =>
    rw [markHeld_cons]
    rcases List.mem_cons.1 hx with rfl | hx
    · refine markHeld_mono ?_ items
      rw [mark, hcell]
      dsimp only
      rw [Array.getElem?_setIfInBounds, if_pos rfl, if_pos hlt]
    · exact ih hx (by rw [size_mark]; exact hlt)

/-- What a container refers to is among the items that it holds. -/
theorem Refers.exists_held (hab : h.Refers a b) : ∃ x ∈ h.held a, x.cell? = some b := by
  unfold Refers contained at hab
  unfold held
  split at hab
  · rename_i items _
    obtain ⟨x, hx, hcell⟩ := List.mem_filterMap.1 hab
    exact ⟨x, hx, hcell⟩
  · rename_i entries _
    obtain ⟨entry, hentry, hcell⟩ := List.mem_filterMap.1 hab
    exact ⟨entry.2, List.mem_flatMap.2 ⟨entry, hentry, by simp⟩, hcell⟩
  · exact absurd hab List.not_mem_nil

/-- A container that refers to another one exists. -/
theorem Refers.lt_size (hab : h.Refers a b) : a < h.size := by
  by_contra hge
  have hnone : h.cells[a]? = none := Array.getElem?_eq_none (Nat.le_of_not_lt hge)
  rw [Refers, contained, hnone] at hab
  exact absurd hab List.not_mem_nil

/-- The containers that marked ones hold are marked in the next round. -/
theorem heldBy_of_refers {roots : List Item} {holders : Array Bool} (ha : holders[a]? = some true)
    (hab : h.Refers a b) (hb : b < h.size) : (h.heldBy roots holders)[b]? = some true := by
  -- The rounds after the one of the holder keep its mark.
  have hround : ∀ (ids : List Nat) (marks : Array Bool), marks.size = h.size →
      (a ∈ ids ∨ marks[b]? = some true) →
      (ids.foldl (fun marks id => if holders.getD id false then markHeld marks (h.held id) else marks)
        marks)[b]? = some true := by
    intro ids
    induction ids with
    | nil => exact fun marks _ hmarked => hmarked.resolve_left List.not_mem_nil
    | cons id ids ih =>
      intro marks hsize hmarked
      refine ih _ ?_ ?_
      · dsimp only
        split
        · rw [size_markHeld, hsize]
        · exact hsize
      · dsimp only
        rcases hmarked with hmem | hmarked
        · rcases List.mem_cons.1 hmem with rfl | hmem
          · obtain ⟨x, hx, hcell⟩ := hab.exists_held
            have hholds : holders.getD a false = true := by rw [Array.getD_eq_getD_getElem?, ha]; rfl
            rw [if_pos hholds]
            exact Or.inr (markHeld_mem hx hcell (hsize ▸ hb))
          · exact Or.inl hmem
        · refine Or.inr ?_
          split
          · exact markHeld_mono hmarked _
          · exact hmarked
  refine hround _ _ ?_ (Or.inl (List.mem_range.2 hab.lt_size))
  rw [size_markHeld, Array.size_replicate]

/-- **Containers on a ring are live**, whatever the roots are: each of them is held by another one. -/
theorem live_of_ring {ring : List Nat} (hring : h.Ring ring) (hid : id ∈ ring) (roots : List Item) :
    (h.live roots).getD id false = true := by
  -- The containers on rings hold each other in every round.
  have hround : ∀ holders : Array Bool,
      (∀ v, Relation.TransGen h.Refers v v → holders[v]? = some true) →
      ∀ v, Relation.TransGen h.Refers v v → (h.heldBy roots holders)[v]? = some true := by
    intro holders hholders v hv
    obtain ⟨p, hpath, hpv⟩ := Relation.TransGen.tail'_iff.1 hv
    have hlt : v < h.size := by
      obtain ⟨w, hvw, -⟩ := Relation.TransGen.head'_iff.1 hv
      exact hvw.lt_size
    have hp : Relation.TransGen h.Refers p p := Relation.TransGen.head' hpv hpath
    exact heldBy_of_refers (hholders p hp) hpv hlt
  have hsettle : ∀ fuel (holders : Array Bool),
      (∀ v, Relation.TransGen h.Refers v v → holders[v]? = some true) →
      ∀ v, Relation.TransGen h.Refers v v → (h.settle roots fuel holders)[v]? = some true := by
    intro fuel
    induction fuel with
    | zero => exact fun holders hholders => hholders
    | succ fuel ih =>
      intro holders hholders
      unfold settle
      dsimp only
      split
      · exact hholders
      · exact ih _ (hround holders hholders)
  have hlive : (h.live roots)[id]? = some true := by
    refine hsettle _ _ (fun v hv => ?_) id (hring.transGen hid)
    obtain ⟨w, hvw, -⟩ := Relation.TransGen.head'_iff.1 hv
    rw [Array.getElem?_replicate, if_pos hvw.lt_size]
  rw [Array.getD_eq_getD_getElem?, hlive]
  rfl

/-! ## Emptied containers -/

/-- Emptying a container leaves all others as they are. -/
theorem cells_clear_of_ne {other : Nat} (hne : id ≠ other) : (h.clear other).cells[id]? = h.cells[id]? := by
  unfold clear
  split
  · exact Array.getElem?_setIfInBounds_ne hne.symm
  · exact Array.getElem?_setIfInBounds_ne hne.symm
  · rfl

/-- An emptied container refers to nothing. -/
theorem not_refers_clear : ¬ (h.clear id).Refers id b := by
  intro hrefers
  unfold Refers contained clear at hrefers
  cases hcell : h.cells[id]? with
  | none =>
    rw [hcell] at hrefers
    dsimp only at hrefers
    rw [hcell] at hrefers
    exact absurd hrefers List.not_mem_nil
  | some cell =>
    have hid : id < h.cells.size := (Array.getElem?_eq_some_iff.1 hcell).1
    rw [hcell] at hrefers
    cases cell with
    | list items =>
      dsimp only [setItems] at hrefers
      rw [Array.getElem?_setIfInBounds, if_pos rfl, if_pos hid] at hrefers
      exact absurd hrefers List.not_mem_nil
    | map entries =>
      dsimp only [setEntries] at hrefers
      rw [Array.getElem?_setIfInBounds, if_pos rfl, if_pos hid] at hrefers
      exact absurd hrefers List.not_mem_nil

/-- Emptying a container takes references away and adds none. -/
theorem Refers.of_clear {other : Nat} (hab : (h.clear other).Refers a b) : a ≠ other ∧ h.Refers a b := by
  have hne : a ≠ other := by
    rintro rfl
    exact not_refers_clear hab
  refine ⟨hne, ?_⟩
  rw [Refers, contained, cells_clear_of_ne hne] at hab
  exact hab

/-- Emptying many containers leaves all others as they are. -/
theorem cells_foldl_clear {ids : List Nat} (hid : id ∉ ids) :
    (ids.foldl clear h).cells[id]? = h.cells[id]? := by
  induction ids generalizing h with
  | nil => rfl
  | cons other ids ih =>
    rw [List.mem_cons, not_or] at hid
    exact (ih hid.2).trans (cells_clear_of_ne hid.1)

/-- After many containers were emptied, none of them refers to anything. -/
theorem Refers.of_foldl_clear {ids : List Nat} (hab : (ids.foldl clear h).Refers a b) :
    a ∉ ids ∧ h.Refers a b := by
  induction ids generalizing h with
  | nil => exact ⟨List.not_mem_nil, hab⟩
  | cons other ids ih =>
    obtain ⟨hmem, hab'⟩ := ih hab
    obtain ⟨hne, hold⟩ := hab'.of_clear
    exact ⟨fun hmem' => (List.mem_cons.1 hmem').elim hne hmem, hold⟩

end Heap

/-! ## Trackers -/

namespace CycleTracker

variable {t : CycleTracker} {h : Heap} {id : Nat}

/-- Every ring passes through a remembered container. -/
def Covers (t : CycleTracker) (h : Heap) : Prop := ∀ ring, h.Ring ring → ∃ id ∈ ring, id ∈ t.entries

/-- **Remembering a container**: if all rings that do not pass through it were covered, all rings are covered
now, also when the tracker prunes its memory. -/
theorem Covers.track {x : Item} (hx : x.cell? = some id) (roots : List Item)
    (hold : ∀ ring, h.Ring ring → id ∈ ring ∨ ∃ other ∈ ring, other ∈ t.entries) :
    (t.track h roots x).Covers h := by
  intro ring hring
  unfold CycleTracker.track
  rw [hx]
  dsimp only
  rcases hold ring hring with hid | ⟨other, hmem, hentry⟩
  · exact ⟨id, hid, List.mem_cons_self⟩
  · refine ⟨other, hmem, List.mem_cons_of_mem _ ?_⟩
    split
    · -- What lies on a ring is live, and the live containers are kept.
      unfold prune
      rw [List.mem_eraseDups, List.mem_filter]
      exact ⟨hentry, Heap.live_of_ring hring hmem roots⟩
    · exact hentry

/-- The remembered containers that are emptied are those on rings. -/
theorem mem_cyclic : id ∈ t.cyclic h ↔ id ∈ t.entries ∧ ∃ ring, h.Ring ring ∧ id ∈ ring := by
  unfold cyclic
  rw [List.mem_filter, List.mem_eraseDups, Heap.reachesItself_iff]

/-- **After its release no ring is left that the tracker covered.** -/
theorem Covers.release (hcovers : t.Covers h) (ring : List Nat) : ¬ (t.release h).2.Ring ring := by
  intro hring
  have hold : h.Ring ring := hring.imp fun a _ b hab => (Heap.Refers.of_foldl_clear hab).2
  obtain ⟨id, hid, hentry⟩ := hcovers ring hold
  -- A member of the ring was emptied, but a member of a ring refers to another one.
  obtain ⟨b, hb⟩ := hring.exists_refers hid
  exact (Heap.Refers.of_foldl_clear hb).1 (mem_cyclic.2 ⟨hentry, ring, hold, hid⟩)

/-- A container that lies on no ring keeps its content. -/
theorem release_cells (hid : ∀ ring, h.Ring ring → id ∉ ring) :
    (t.release h).2.cells[id]? = h.cells[id]? := by
  refine Heap.cells_foldl_clear fun hmem => ?_
  obtain ⟨-, ring, hring, hmem⟩ := mem_cyclic.1 hmem
  exact hid ring hring hmem

end CycleTracker

end ScriptMachine
