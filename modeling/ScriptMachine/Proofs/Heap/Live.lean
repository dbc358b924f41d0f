import ScriptMachine.Proofs.Heap.Rings

/-! # Which containers are live

The live containers are found by dropping those that nobody holds, again and again. What is left is the largest set of
containers of which each one is held by a root or by a member of the set.

* `Heap.HoldsCell`, `Heap.Supported`: who holds a container, and sets that keep themselves.
* `Heap.heldBy_iff`: one round.
* `Heap.heldBy_live`: the rounds come to an end.
* `Heap.live_iff`: the live containers are the largest set that is supported.
-/

namespace ScriptMachine

namespace Heap

variable {h : Heap} {roots : List Item} {a b c : Nat} {holders marks : Array Bool}

/-- A container holds another one, as an element, a key or a value. -/
def HoldsCell (h : Heap) (a b : Nat) : Prop := ∃ x ∈ h.held a, x.cell? = some b

/-- Each member exists and is held by a root or by a member. -/
def Supported (h : Heap) (roots : List Item) (members : Nat → Prop) : Prop :=
  ∀ b, members b → b < h.size ∧ ((∃ x ∈ roots, x.cell? = some b) ∨ ∃ a, members a ∧ h.HoldsCell a b)

/-- A container that holds another one exists. -/
theorem HoldsCell.lt_size (hab : h.HoldsCell a b) : a < h.size := by
  obtain ⟨x, hx, -⟩ := hab
  by_contra hge
  have hnone : h.cells[a]? = none := Array.getElem?_eq_none (Nat.le_of_not_lt hge)
  rw [held, hnone] at hx
  exact absurd hx List.not_mem_nil

/-! ## Marks -/

/-- The marks after one more item. -/
theorem mark_iff {x : Item} :
    (mark marks x)[c]? = some true ↔ marks[c]? = some true ∨ c < marks.size ∧ x.cell? = some c := by
  unfold mark
  cases hcell : x.cell? with
  | none => simp
  | some other =>
    dsimp only
    rw [Array.getElem?_setIfInBounds]
    by_cases heq : other = c
    · subst heq
      by_cases hlt : other < marks.size <;> simp [hlt]
    · simp [heq]

/-- The marks after many items. -/
theorem markHeld_iff {items : List Item} :
    (markHeld marks items)[c]? = some true ↔
      marks[c]? = some true ∨ c < marks.size ∧ ∃ x ∈ items, x.cell? = some c := by
  induction items generalizing marks with
  | nil => simp [markHeld]
  | cons x items ih =>
    rw [markHeld_cons, ih, mark_iff, size_mark, or_assoc, ← and_or_left, List.exists_mem_cons_iff]

/-- **One round** marks the containers that a root or a holder holds. -/
theorem heldBy_iff :
    (h.heldBy roots holders)[b]? = some true ↔
      b < h.size ∧ ((∃ x ∈ roots, x.cell? = some b) ∨ ∃ a, holders[a]? = some true ∧ h.HoldsCell a b) := by
  -- The holders are gone through one by one.
  have hround : ∀ (ids : List Nat) (marks : Array Bool), marks.size = h.size →
      ((ids.foldl (fun marks id => if holders.getD id false then markHeld marks (h.held id) else marks)
        marks)[b]? = some true ↔
        marks[b]? = some true ∨ b < h.size ∧ ∃ a ∈ ids, holders[a]? = some true ∧ h.HoldsCell a b) := by
    intro ids
    induction ids with
    | nil => intro marks _; simp
    | cons id ids ih =>
      intro marks hsize
      rw [List.foldl_cons, List.exists_mem_cons_iff]
      by_cases hholds : holders[id]? = some true
      · have hget : holders.getD id false = true := by rw [Array.getD_eq_getD_getElem?, hholds]; rfl
        rw [if_pos hget, ih _ (by rw [size_markHeld, hsize]), markHeld_iff, hsize, or_assoc, ← and_or_left]
        simp only [hholds, true_and, HoldsCell]
      · have hget : ¬ holders.getD id false = true := by
          rw [Array.getD_eq_getD_getElem?]
          cases hmark : holders[id]? with
          | none => exact Bool.false_ne_true
          | some mark => exact fun h => hholds (hmark.trans (congrArg some h))
        rw [if_neg hget, ih _ hsize]
        simp only [hholds, false_and, false_or]
  have hclear : (Array.replicate h.size false)[b]? ≠ some true := by
    rw [Array.getElem?_replicate]
    split <;> simp
  unfold heldBy
  rw [hround _ _ (by rw [size_markHeld, Array.size_replicate]), markHeld_iff, Array.size_replicate, or_iff_right hclear,
    ← and_or_left]
  refine and_congr_right fun _ => or_congr_right (exists_congr fun a => ?_)
  rw [List.mem_range]
  exact ⟨fun ⟨_, hmark⟩ => hmark, fun hmark => ⟨hmark.2.lt_size, hmark⟩⟩

/-- A round has a mark for each container. -/
theorem size_heldBy (h : Heap) (roots : List Item) (holders : Array Bool) :
    (h.heldBy roots holders).size = h.size := by
  have hround : ∀ (ids : List Nat) (marks : Array Bool), marks.size = h.size →
      (ids.foldl (fun marks id => if holders.getD id false then markHeld marks (h.held id) else marks)
        marks).size = h.size := by
    intro ids
    induction ids with
    | nil => exact fun _ hsize => hsize
    | cons id ids ih =>
      intro marks hsize
      refine ih _ ?_
      dsimp only
      split
      · rw [size_markHeld, hsize]
      · exact hsize
  exact hround _ _ (by rw [size_markHeld, Array.size_replicate])

/-! ## The rounds -/

/-- A list of marks of which some are missing has fewer of them, or it is the same. -/
theorem countP_lt_of_forall₂ {xs ys : List Bool} (hle : List.Forall₂ (fun x y => y = true → x = true) xs ys)
    (hne : xs ≠ ys) : ys.countP id < xs.countP id := by
  have hmono : ∀ {xs ys : List Bool}, List.Forall₂ (fun x y => y = true → x = true) xs ys →
      ys.countP id ≤ xs.countP id := by
    intro xs ys hle
    induction hle with
    | nil => exact Nat.le_refl _
    | @cons x y xs ys hxy _ ih =>
      rw [List.countP_cons, List.countP_cons]
      refine Nat.add_le_add ih ?_
      cases y with
      | false => exact Nat.zero_le _
      | true => rw [hxy rfl]
  induction hle with
  | nil => exact absurd rfl hne
  | @cons x y xs ys hxy hrest ih =>
    rw [List.countP_cons, List.countP_cons]
    by_cases hxs : xs = ys
    · subst hxs
      refine Nat.add_lt_add_left ?_ _
      cases y with
      | false => cases x with
        | false => exact absurd rfl hne
        | true => exact Nat.zero_lt_one
      | true => exact absurd (congrArg (· :: xs) (hxy rfl)) hne
    · refine Nat.add_lt_add_of_lt_of_le (ih hxs) ?_
      cases y with
      | false => exact Nat.zero_le _
      | true => rw [hxy rfl]

/-- Marks of which some are missing are fewer, or they are the same. -/
theorem countP_lt_of_marks (hsize : marks.size = holders.size)
    (hle : ∀ i : Nat, marks[i]? = some true → holders[i]? = some true) (hne : marks ≠ holders) :
    marks.countP id < holders.countP id := by
  rw [← Array.countP_toList, ← Array.countP_toList]
  refine countP_lt_of_forall₂ ?_ fun heq => hne (Array.toList_inj.1 heq).symm
  refine List.forall₂_of_length_eq_of_get (by simpa using hsize.symm) fun i hi hi' hmark => ?_
  have hlt : i < marks.size := by simpa using hi'
  have hlt' : i < holders.size := by simpa using hi
  have := hle i (by rw [Array.getElem?_eq_getElem hlt]; simpa using hmark)
  rw [Array.getElem?_eq_getElem hlt'] at this
  simpa using this

/-- Rounds that only drop containers come to an end when there are more of them than marks. -/
theorem heldBy_settle {fuel : Nat} (hfuel : holders.countP id < fuel) (hsize : holders.size = h.size)
    (hle : ∀ i : Nat, (h.heldBy roots holders)[i]? = some true → holders[i]? = some true) :
    h.heldBy roots (h.settle roots fuel holders) = h.settle roots fuel holders := by
  induction fuel generalizing holders with
  | zero => exact absurd hfuel (Nat.not_lt_zero _)
  | succ fuel ih =>
    unfold settle
    dsimp only
    split
    · rename_i heq
      exact eq_of_beq heq
    · rename_i hne
      have hnext : h.heldBy roots holders ≠ holders := fun heq => hne (beq_iff_eq.2 heq)
      have hcount := countP_lt_of_marks ((size_heldBy h roots holders).trans hsize.symm) hle hnext
      refine ih (by omega) (size_heldBy h roots holders) fun i hi => ?_
      -- Fewer holders hold fewer containers.
      rw [heldBy_iff] at hi ⊢
      exact ⟨hi.1, hi.2.imp_right (Exists.imp fun a => And.imp_left (hle a))⟩

/-- **The rounds come to an end**: the live containers are those that a root or a live container holds. -/
theorem heldBy_live (h : Heap) (roots : List Item) : h.heldBy roots (h.live roots) = h.live roots := by
  refine heldBy_settle ?_ Array.size_replicate fun i hi => ?_
  · refine Nat.lt_succ_of_le (Nat.le_trans (Array.countP_le_size) ?_)
    rw [Array.size_replicate]
  · rw [Array.getElem?_replicate, if_pos (heldBy_iff.1 hi).1]

/-- A supported set of marked containers stays marked. -/
theorem Supported.settle {members : Nat → Prop} (hmembers : h.Supported roots members) {fuel : Nat}
    (hmarked : ∀ b, members b → holders[b]? = some true) (hb : members b) :
    (h.settle roots fuel holders)[b]? = some true := by
  induction fuel generalizing holders with
  | zero => exact hmarked b hb
  | succ fuel ih =>
    unfold Heap.settle
    dsimp only
    split
    · exact hmarked b hb
    · refine ih fun c hc => heldBy_iff.2 ⟨(hmembers c hc).1, ?_⟩
      exact (hmembers c hc).2.imp_right (Exists.imp fun a => And.imp_left (hmarked a))

/-- **A container is live if and only if it belongs to a set that is supported.** -/
theorem live_iff :
    (h.live roots).getD c false = true ↔ ∃ members, h.Supported roots members ∧ members c := by
  have hget : (h.live roots).getD c false = true ↔ (h.live roots)[c]? = some true := by
    rw [Array.getD_eq_getD_getElem?]
    cases (h.live roots)[c]? <;> simp
  rw [hget]
  constructor
  · intro hlive
    refine ⟨fun b => (h.live roots)[b]? = some true, fun b hb => ?_, hlive⟩
    rw [← heldBy_live] at hb
    exact heldBy_iff.1 hb
  · rintro ⟨members, hmembers, hc⟩
    refine hmembers.settle (fun b hb => ?_) hc
    rw [Array.getElem?_replicate, if_pos (hmembers b hb).1]

end Heap

end ScriptMachine
