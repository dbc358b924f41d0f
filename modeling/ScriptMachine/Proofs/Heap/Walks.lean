import Mathlib.Logic.Relation
import ScriptMachine.Heap.Struct

/-! # Walks through structs

A struct is copied, and two structs are compared, by a walk in rounds. A round takes what was found last from the list
of what is pending, and meets the elements of it; the structs among them are found by that. A walk is given up when more
elements were met than the bound allows. So every walk ends, on any heap: each round meets elements, for which there is
room, or leaves less pending. What each round keeps, the whole walk keeps.

* `Heap.CopyWalk`: the walk that copies, with `Heap.copyStruct_ends` and `Heap.copyStruct_keeps`.
* `Heap.EqualWalk`: the walk that compares, with `Heap.structEquals_ends` and `Heap.EqualWalk.Reaches.equalPending_eq`.
-/

namespace ScriptMachine

namespace Heap

variable {h h' : Heap} {a b limit source : Nat} {y : Item}

/-! ## Copies -/

/-- A state of the walk that fills copies: the heap, the pending pairs of a source and its copy, the one that was found
last first, and the number of elements met so far. -/
structure CopyWalk where
  /-- The heap. -/
  heap : Heap
  /-- The pending pairs. -/
  pending : List (Nat × Nat)
  /-- The elements met so far. -/
  visited : Nat

namespace CopyWalk

/-- The start of a copy of a struct: its copy is a new cell. -/
def start (h : Heap) (source : Nat) : CopyWalk := ⟨(h.alloc (.list [])).2, [(source, h.size)], 0⟩

/-- The state after a source was copied. -/
def next (h : Heap) (source target : Nat) (rest : List (Nat × Nat)) (visited : Nat) : CopyWalk :=
  let copied := copyElements h (h.items source) rest
  ⟨copied.2.2.setItems target copied.1, copied.2.1, visited + (h.items source).length⟩

/-- One round: a source is copied if there is room for its elements. -/
inductive Round (limit : Nat) : CopyWalk → CopyWalk → Prop where
  /-- The source that was found last. -/
  | copy {h : Heap} {source target visited : Nat} {rest : List (Nat × Nat)}
    (hroom : visited + (h.items source).length ≤ limit) :
    Round limit ⟨h, (source, target) :: rest, visited⟩ (next h source target rest visited)

/-- The states that a walk goes through. -/
def Reaches (limit : Nat) : CopyWalk → CopyWalk → Prop := Relation.ReflTransGen (Round limit)

/-- The walk is over: nothing is pending, or there is no room for the elements of the next source. -/
inductive Ends (limit : Nat) : CopyWalk → Except Fault Heap → Prop where
  /-- Nothing is pending. -/
  | done (h : Heap) (visited : Nat) : Ends limit ⟨h, [], visited⟩ (.ok h)
  /-- The next source has too many elements. -/
  | tooLarge {h : Heap} {source target visited : Nat} {rest : List (Nat × Nat)}
    (hlimit : limit < visited + (h.items source).length) :
    Ends limit ⟨h, (source, target) :: rest, visited⟩ (.error (.tooLarge (visited + (h.items source).length) limit))

/-- **No copy goes on forever.** -/
theorem wellFounded_round (limit : Nat) : WellFounded fun w' w : CopyWalk => Round limit w w' := by
  refine Subrelation.wf ?_ (measure fun w : CopyWalk => (limit - w.visited) + w.pending.length).wf
  rintro w' w hround
  cases hround with
  | @copy h source target visited rest hroom =>
    have hpending := length_copyElements h (h.items source) rest
    show (limit - (visited + (h.items source).length)) + (copyElements h (h.items source) rest).2.1.length <
      (limit - visited) + (rest.length + 1)
    omega

/-- What each round keeps, a walk keeps. -/
theorem Reaches.keeps {P : CopyWalk → Prop} {w w' : CopyWalk} (hreaches : Reaches limit w w')
    (hround : ∀ w w', Round limit w w' → P w → P w') (hw : P w) : P w' := by
  induction hreaches with
  | refl => exact hw
  | tail _ hstep ih => exact hround _ _ hstep ih

end CopyWalk

/-- Copies are filled by a walk, and as its last state says. -/
theorem copyPending_ends (limit : Nat) (h : Heap) (pending : List (Nat × Nat)) (visited : Nat) :
    ∃ w, CopyWalk.Reaches limit ⟨h, pending, visited⟩ w ∧ w.Ends limit (copyPending limit h pending visited) := by
  fun_induction copyPending limit h pending visited with
  | case1 h visited => exact ⟨_, .refl, .done h visited⟩
  | case2 h visited source target rest hlimit => exact ⟨_, .refl, .tooLarge hlimit⟩
  | case3 h visited source target rest hlimit copied pending' h' hcopy ih =>
    have hround : CopyWalk.Round limit ⟨h, (source, target) :: rest, visited⟩
        (CopyWalk.next h source target rest visited) := .copy (Nat.le_of_not_lt hlimit)
    -- The first round, and then those that the induction gives.
    rw [CopyWalk.next, hcopy] at hround
    obtain ⟨w, hreaches, hends⟩ := ih
    exact ⟨w, .head hround hreaches, hends⟩

/-- **A copy of a struct ends**, and as the last state of the walk says. -/
theorem copyStruct_ends (limit : Nat) (h : Heap) (source : Nat) :
    ∃ w result, CopyWalk.Reaches limit (.start h source) w ∧ w.Ends limit result ∧
      h.copyStruct source limit = result.map (Item.struct h.size, ·) := by
  obtain ⟨w, hreaches, hends⟩ := copyPending_ends limit (h.alloc (.list [])).2 [(source, h.size)] 0
  refine ⟨w, _, hreaches, hends, ?_⟩
  unfold copyStruct
  dsimp only
  rw [show (h.alloc (.list [])).1 = h.size from rfl]
  split <;> rename_i hfilled <;> rw [hfilled, Except.map]

/-- **What each round keeps holds of a copied struct.** -/
theorem copyStruct_keeps {P : CopyWalk → Prop} (hround : ∀ w w', CopyWalk.Round limit w w' → P w → P w')
    (hstart : P (.start h source)) (hrun : h.copyStruct source limit = .ok (y, h')) :
    y = .struct h.size ∧ ∃ visited, P ⟨h', [], visited⟩ := by
  obtain ⟨w, result, hreaches, hends, heq⟩ := copyStruct_ends limit h source
  rw [hrun] at heq
  cases hends with
  | done filled visited =>
    cases heq
    exact ⟨rfl, visited, hreaches.keeps hround hstart⟩
  | tooLarge => cases heq

/-- A copy that is given up says how many elements were met. -/
theorem tooLarge_of_copyStruct {f : Fault} (hrun : h.copyStruct source limit = .error f) :
    ∃ met, limit < met ∧ f = .tooLarge met limit := by
  obtain ⟨w, result, -, hends, heq⟩ := copyStruct_ends limit h source
  rw [hrun] at heq
  cases hends with
  | done => cases heq
  | tooLarge hlimit =>
    cases heq
    exact ⟨_, hlimit, rfl⟩

/-! ## Comparisons -/

/-- A state of a comparison: the pending pairs of structs, the one found last first, and the number of pairs of
elements met so far. -/
structure EqualWalk where
  /-- The pending pairs. -/
  pending : List (Nat × Nat)
  /-- The pairs of elements met so far. -/
  visited : Nat

namespace EqualWalk

/-- The start of a comparison. -/
def start (a b : Nat) : EqualWalk := ⟨[(a, b)], 0⟩

/-- One round. -/
inductive Round (h : Heap) (limit : Nat) : EqualWalk → EqualWalk → Prop where
  /-- A struct is not compared with itself. -/
  | skip {a visited : Nat} {rest : List (Nat × Nat)} : Round h limit ⟨(a, a) :: rest, visited⟩ ⟨rest, visited⟩
  /-- The elements of two structs are equal, apart from the pairs of structs among them. -/
  | compare {a b visited : Nat} {rest pending : List (Nat × Nat)} (hne : a ≠ b)
    (hlength : (h.items a).length = (h.items b).length) (hroom : visited + (h.items a).length ≤ limit)
    (hpairs : pairElements (h.items a) (h.items b) rest = some pending) :
    Round h limit ⟨(a, b) :: rest, visited⟩ ⟨pending, visited + (h.items a).length⟩

/-- The states that a comparison goes through. -/
def Reaches (h : Heap) (limit : Nat) : EqualWalk → EqualWalk → Prop := Relation.ReflTransGen (Round h limit)

/-- The comparison is over: nothing is pending, or the next two structs differ in their lengths, have too many
elements, or differ in elements that are not both structs. -/
inductive Ends (h : Heap) (limit : Nat) : EqualWalk → Except Fault Bool → Prop where
  /-- Nothing is pending. -/
  | done (visited : Nat) : Ends h limit ⟨[], visited⟩ (.ok true)
  /-- The lengths differ. -/
  | lengths {a b visited : Nat} {rest : List (Nat × Nat)} (hne : a ≠ b)
    (hlength : (h.items a).length ≠ (h.items b).length) : Ends h limit ⟨(a, b) :: rest, visited⟩ (.ok false)
  /-- There are too many elements. -/
  | tooLarge {a b visited : Nat} {rest : List (Nat × Nat)} (hne : a ≠ b)
    (hlength : (h.items a).length = (h.items b).length) (hlimit : limit < visited + (h.items a).length) :
    Ends h limit ⟨(a, b) :: rest, visited⟩ (.error (.tooLarge (visited + (h.items a).length) limit))
  /-- The elements differ. -/
  | elements {a b visited : Nat} {rest : List (Nat × Nat)} (hne : a ≠ b)
    (hlength : (h.items a).length = (h.items b).length) (hroom : visited + (h.items a).length ≤ limit)
    (hpairs : pairElements (h.items a) (h.items b) rest = none) : Ends h limit ⟨(a, b) :: rest, visited⟩ (.ok false)

/-- **No comparison goes on forever**: each round meets elements, for which there is room, or leaves less pending. -/
theorem wellFounded_round (h : Heap) (limit : Nat) : WellFounded fun w' w : EqualWalk => Round h limit w w' := by
  refine Subrelation.wf ?_ (measure fun w : EqualWalk => (limit - w.visited) + w.pending.length).wf
  rintro w' w hround
  cases hround with
  | @skip a visited rest =>
    show (limit - visited) + rest.length < (limit - visited) + (rest.length + 1)
    omega
  | @compare a b visited rest pending _ _ hroom hpairs =>
    have hpending := length_pairElements hpairs
    show (limit - (visited + (h.items a).length)) + pending.length < (limit - visited) + (rest.length + 1)
    omega

end EqualWalk

/-- **Every comparison ends**, and as its last state says. -/
theorem equalPending_ends (h : Heap) (limit : Nat) (pending : List (Nat × Nat)) (visited : Nat) :
    ∃ w, EqualWalk.Reaches h limit ⟨pending, visited⟩ w ∧ w.Ends h limit (h.equalPending limit pending visited) := by
  fun_induction equalPending h limit pending visited with
  | case1 visited => exact ⟨_, .refl, .done visited⟩
  | case2 visited a b rest heq ih =>
    obtain rfl := beq_iff_eq.1 heq
    obtain ⟨w, hreaches, hends⟩ := ih
    exact ⟨w, .head .skip hreaches, hends⟩
  | case3 visited a b rest hne hlength =>
    exact ⟨_, .refl, .lengths (mt beq_iff_eq.2 hne) (bne_iff_ne.1 hlength)⟩
  | case4 visited a b rest hne hlength hlimit =>
    rw [bne_iff_ne, Decidable.not_not] at hlength
    exact ⟨_, .refl, .tooLarge (mt beq_iff_eq.2 hne) hlength hlimit⟩
  | case5 visited a b rest hne hlength hlimit hpairs =>
    rw [bne_iff_ne, Decidable.not_not] at hlength
    exact ⟨_, .refl, .elements (mt beq_iff_eq.2 hne) hlength (Nat.le_of_not_lt hlimit) hpairs⟩
  | case6 visited a b rest hne hlength hlimit pending hpairs ih =>
    rw [bne_iff_ne, Decidable.not_not] at hlength
    obtain ⟨w, hreaches, hends⟩ := ih
    exact ⟨w, .head (.compare (mt beq_iff_eq.2 hne) hlength (Nat.le_of_not_lt hlimit) hpairs) hreaches, hends⟩

namespace EqualWalk

variable {w w' : EqualWalk} {r : Except Fault Bool}

/-- A round does not change the result. -/
theorem Round.equalPending_eq (hround : Round h limit w w') :
    h.equalPending limit w.pending w.visited = h.equalPending limit w'.pending w'.visited := by
  cases hround with
  | skip => rw [equalPending, if_pos (beq_self_eq_true _)]
  | compare hne hlength hroom hpairs =>
    rw [equalPending, if_neg (mt beq_iff_eq.1 hne), if_neg (fun hbne => bne_iff_ne.1 hbne hlength),
      if_neg (Nat.not_lt.2 hroom)]
    split <;> rename_i heq <;> cases hpairs.symm.trans heq
    rfl

/-- The result of a state that is over. -/
theorem Ends.equalPending_eq (hends : Ends h limit w r) : h.equalPending limit w.pending w.visited = r := by
  cases hends with
  | done => rw [equalPending]
  | lengths hne hlength => rw [equalPending, if_neg (mt beq_iff_eq.1 hne), if_pos (bne_iff_ne.2 hlength)]
  | tooLarge hne hlength hlimit =>
    rw [equalPending, if_neg (mt beq_iff_eq.1 hne), if_neg (fun hbne => bne_iff_ne.1 hbne hlength), if_pos hlimit]
  | elements hne hlength hroom hpairs =>
    rw [equalPending, if_neg (mt beq_iff_eq.1 hne), if_neg (fun hbne => bne_iff_ne.1 hbne hlength),
      if_neg (Nat.not_lt.2 hroom)]
    split <;> rename_i heq <;> cases hpairs.symm.trans heq
    rfl

/-- What a state that is over says is the result of all comparisons that go there. -/
theorem Reaches.equalPending_eq (hreaches : Reaches h limit w w') (hends : Ends h limit w' r) :
    h.equalPending limit w.pending w.visited = r := by
  induction hreaches using Relation.ReflTransGen.head_induction_on with
  | refl => exact hends.equalPending_eq
  | head hround _ ih => exact hround.equalPending_eq.trans ih

end EqualWalk

/-- **A comparison ends**, and as its last state says. -/
theorem structEquals_ends (h : Heap) (a b limit : Nat) :
    ∃ w, EqualWalk.Reaches h limit (.start a b) w ∧ w.Ends h limit (h.structEquals a b limit) :=
  equalPending_ends h limit [(a, b)] 0

/-- A comparison without an answer says how many pairs of elements were met. -/
theorem tooLarge_of_structEquals {f : Fault} (hrun : h.structEquals a b limit = .error f) :
    ∃ met, limit < met ∧ f = .tooLarge met limit := by
  obtain ⟨w, -, hends⟩ := structEquals_ends h a b limit
  rw [hrun] at hends
  cases hends with
  | tooLarge _ _ hlimit => exact ⟨_, hlimit, rfl⟩

end Heap

end ScriptMachine
