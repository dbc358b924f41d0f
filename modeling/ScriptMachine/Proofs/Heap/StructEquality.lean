import ScriptMachine.Proofs.Heap.Unfoldings
import ScriptMachine.Proofs.ItemEquality

/-! # Equality of structs

Two structs are similar if they unfold to trees of the same form, without end maybe, with equal items at the places that
are no structs. A comparison tells whether they are. Its rounds keep what is asked, whether all pending pairs are
similar, so that the answer is right on every heap, also if structs are shared or contain themselves. The only other
outcome is that more pairs of elements were met than the bound allows.

* `Unfolding.Similar`, `Heap.Similar`: similar structs; `Heap.similar_struct`, `Heap.SimilarAt.trans`.
* `Heap.structEquals_comm`: comparisons with the operands exchanged.
* `Heap.EqualWalk.Round.allSimilar`: what a round keeps; `Heap.similar_of_structEquals`.
* `Heap.EqualWalk.Fits`: comparisons that stay within the bound; `Heap.exists_structEquals`.
* `Heap.structEquals_decides`: what a comparison decides, and when.
-/

namespace ScriptMachine

namespace Unfolding

/-- **Two unfoldings are similar** if they have structs at the same places, with as many elements, and items at all
other places that are equal. -/
inductive Similar (h : Heap) : Unfolding → Unfolding → Prop where
  /-- Items that are no structs. -/
  | item {x y : Item} (hequal : h.equals x y = true) : Similar h (.item x) (.item y)
  /-- Structs, element for element. -/
  | struct {us vs : List Unfolding} (helements : List.Forall₂ (Similar h) us vs) : Similar h (.struct us) (.struct vs)
  /-- The depth at which the unfoldings end. -/
  | cut : Similar h .cut .cut

mutual

/-- The number of pairs of elements at the same places of two unfoldings. -/
def pairs : Unfolding → Unfolding → Nat
  | .struct us, .struct vs => pairsAll us vs
  | _, _ => 0

/-- The number of pairs of elements of two structs and of the pairs of elements in them. -/
def pairsAll : List Unfolding → List Unfolding → Nat
  | u :: us, v :: vs => 1 + pairs u v + pairsAll us vs
  | _, _ => 0

end

/-- The pairs in two structs are those of their elements, and the pairs in these. -/
theorem pairsAll_eq (us vs : List Unfolding) :
    pairsAll us vs = (us.zip vs).length + ((us.zip vs).map fun pair => pair.1.pairs pair.2).sum := by
  induction us generalizing vs with
  | nil => cases vs <;> rfl
  | cons u us ih =>
    cases vs with
    | nil => rfl
    | cons v vs =>
      simp only [pairsAll, ih, List.zip_cons_cons, List.length_cons, List.map_cons, List.sum_cons]
      omega

end Unfolding

namespace Heap

variable {h : Heap} {x y z : Item} {a b c depth limit visited : Nat} {pending pending' rest : List (Nat × Nat)}
  {xs ys : List Item}

/-! ## Similar structs -/

/-- Two items unfold to similar trees, down to a depth. -/
def SimilarAt (h : Heap) (depth : Nat) (x y : Item) : Prop := (h.unfold depth x).Similar h (h.unfold depth y)

/-- **Two items are similar** if they unfold to similar trees. -/
def Similar (h : Heap) (x y : Item) : Prop := ∀ depth, h.SimilarAt depth x y

/-- Structs are similar down to a depth if their elements are so on the next level. -/
theorem similarAt_struct :
    h.SimilarAt (depth + 1) (.struct a) (.struct b) ↔ List.Forall₂ (h.SimilarAt depth) (h.items a) (h.items b) := by
  constructor
  · intro hsimilar
    cases hsimilar with
    | struct helements =>
      rw [List.forall₂_map_left_iff, List.forall₂_map_right_iff] at helements
      exact helements
  · intro helements
    refine .struct ?_
    rw [List.forall₂_map_left_iff, List.forall₂_map_right_iff]
    exact helements

/-- Two items are structs, or one of them is none. -/
theorem structs_or_other (x y : Item) :
    (∃ a b, x = .struct a ∧ y = .struct b) ∨ ∀ a b, x = .struct a → y = .struct b → False := by
  by_cases hxy : ∃ a b, x = .struct a ∧ y = .struct b
  · exact .inl hxy
  · exact .inr fun a b ha hb => hxy ⟨a, b, ha, hb⟩

/-- Items of which one is no struct are similar if they are equal. -/
theorem similarAt_other (hxy : ∀ a b, x = .struct a → y = .struct b → False) :
    h.SimilarAt depth x y ↔ x.same y = true := by
  obtain ⟨a, rfl⟩ | hx := x.struct_or_other
  · -- A struct is similar to structs only.
    rw [SimilarAt, unfold_item fun b hb => hxy a b rfl hb, Item.same_struct]
    refine ⟨fun hsimilar => ?_, fun h => absurd h Bool.false_ne_true⟩
    cases depth <;> cases hsimilar
  · obtain ⟨b, rfl⟩ | hy := y.struct_or_other
    · rw [SimilarAt, unfold_item hx, Item.same_comm, Item.same_struct]
      refine ⟨fun hsimilar => ?_, fun h => absurd h Bool.false_ne_true⟩
      cases depth <;> cases hsimilar
    · rw [SimilarAt, unfold_item hx, unfold_item hy, ← equals_eq_same (h := h) hx]
      exact ⟨fun hsimilar => by cases hsimilar; assumption, .item⟩

/-- Only structs are similar to structs. -/
theorem SimilarAt.exists_struct (hxy : h.SimilarAt depth (.struct a) y) : ∃ b, y = .struct b := by
  rcases structs_or_other (.struct a) y with ⟨_, b, -, rfl⟩ | hother
  · exact ⟨b, rfl⟩
  · rw [similarAt_other hother, Item.same_struct] at hxy
    exact absurd hxy Bool.false_ne_true

/-- An item is similar to itself. -/
theorem SimilarAt.refl (h : Heap) (depth : Nat) : ∀ x, h.SimilarAt depth x x := by
  induction depth with
  | zero =>
    intro x
    rcases structs_or_other x x with ⟨a, _, rfl, -⟩ | hother
    · exact .cut
    · exact (similarAt_other hother).2 (Item.same_refl fun a ha => hother a a ha ha)
  | succ depth ih =>
    intro x
    rcases structs_or_other x x with ⟨a, _, rfl, -⟩ | hother
    · exact similarAt_struct.2 (List.forall₂_same.2 fun x _ => ih x)
    · exact (similarAt_other hother).2 (Item.same_refl fun a ha => hother a a ha ha)

/-- Similarity does not mind the order. -/
theorem SimilarAt.symm (hxy : h.SimilarAt depth x y) : h.SimilarAt depth y x := by
  induction depth generalizing x y with
  | zero =>
    rcases structs_or_other x y with ⟨a, b, rfl, rfl⟩ | hother
    · exact .cut
    · rw [similarAt_other hother, Item.same_comm] at hxy
      exact (similarAt_other fun b a hb ha => hother a b ha hb).2 hxy
  | succ depth ih =>
    rcases structs_or_other x y with ⟨a, b, rfl, rfl⟩ | hother
    · exact similarAt_struct.2 ((similarAt_struct.1 hxy).flip.imp fun _ _ hyx => ih hyx)
    · rw [similarAt_other hother, Item.same_comm] at hxy
      exact (similarAt_other fun b a hb ha => hother a b ha hb).2 hxy

/-- The integers in all structs are in their chosen representation. -/
def CanonicalItems (h : Heap) : Prop := ∀ id, ∀ x ∈ h.items id, x.Canonical

/-- Similarity to an item that is no struct is equality. -/
theorem SimilarAt.trans_other (hother : ∀ a b, x = .struct a → y = .struct b → False) (hx : x.Canonical)
    (hy : y.Canonical) (hz : z.Canonical) (hxy : h.SimilarAt depth x y) (hyz : h.SimilarAt depth y z) :
    h.SimilarAt depth x z := by
  have hxne : ∀ a, x ≠ .struct a := by
    rintro a rfl
    obtain ⟨b, rfl⟩ := hxy.exists_struct
    exact hother a b rfl rfl
  have hyne : ∀ b, y ≠ .struct b := by
    rintro b rfl
    obtain ⟨a, rfl⟩ := hxy.symm.exists_struct
    exact hother a b rfl rfl
  rw [similarAt_other hother] at hxy
  rw [similarAt_other fun b _ hb _ => hyne b hb] at hyz
  exact (similarAt_other fun a _ ha _ => hxne a ha).2 (Item.same_trans hx hy hz hxy hyz)

/-- **Similarity is transitive.** -/
theorem SimilarAt.trans (hcanonical : h.CanonicalItems) (hx : x.Canonical) (hy : y.Canonical) (hz : z.Canonical)
    (hxy : h.SimilarAt depth x y) (hyz : h.SimilarAt depth y z) : h.SimilarAt depth x z := by
  induction depth generalizing x y z with
  | zero =>
    rcases structs_or_other x y with ⟨a, b, rfl, rfl⟩ | hother
    · obtain ⟨c, rfl⟩ := hyz.exists_struct
      exact .cut
    · exact trans_other hother hx hy hz hxy hyz
  | succ depth ih =>
    rcases structs_or_other x y with ⟨a, b, rfl, rfl⟩ | hother
    · obtain ⟨c, rfl⟩ := hyz.exists_struct
      -- The elements are compared one level less deep, at each place for itself.
      rw [similarAt_struct, List.forall₂_iff_get] at hxy hyz ⊢
      refine ⟨hxy.1.trans hyz.1, fun i hi hi' => ?_⟩
      have hi'' : i < (h.items b).length := hxy.1 ▸ hi
      exact ih (hcanonical a _ (List.get_mem _ _)) (hcanonical b _ (List.get_mem _ ⟨i, hi''⟩))
        (hcanonical c _ (List.get_mem _ _)) (hxy.2 i hi hi'') (hyz.2 i hi'' hi')
    · exact trans_other hother hx hy hz hxy hyz

/-- Items of which one is no struct are similar if they are equal. -/
theorem similar_other (hxy : ∀ a b, x = .struct a → y = .struct b → False) : h.Similar x y ↔ x.same y = true :=
  ⟨fun hsimilar => (similarAt_other hxy).1 (hsimilar 0), fun hsame _ => (similarAt_other hxy).2 hsame⟩

/-- **Structs are similar if their elements are.** -/
theorem similar_struct : h.Similar (.struct a) (.struct b) ↔ List.Forall₂ h.Similar (h.items a) (h.items b) := by
  constructor
  · intro hsimilar
    -- The lengths are the same at every depth, so that the depth can be chosen at each place.
    have helements := fun depth => List.forall₂_iff_get.1 (similarAt_struct.1 (hsimilar (depth + 1)))
    exact List.forall₂_iff_get.2 ⟨(helements 0).1, fun i hi hi' depth => (helements depth).2 i hi hi'⟩
  · rintro helements (_ | depth)
    · exact .cut
    · exact similarAt_struct.2 (helements.imp fun _ _ hxy => hxy depth)

/-! ## Comparisons -/

/-- All pending pairs are similar. -/
def AllSimilar (h : Heap) (pending : List (Nat × Nat)) : Prop :=
  ∀ pair ∈ pending, h.Similar (.struct pair.1) (.struct pair.2)

/-- A pair and the pairs after it. -/
theorem allSimilar_cons :
    h.AllSimilar ((a, b) :: rest) ↔ h.Similar (.struct a) (.struct b) ∧ h.AllSimilar rest := List.forall_mem_cons

/-- The pairs of structs among elements are added, and all other elements are equal. -/
theorem allSimilar_pairElements (hlength : xs.length = ys.length)
    (hpairs : pairElements xs ys pending = some pending') :
    h.AllSimilar pending' ↔ List.Forall₂ h.Similar xs ys ∧ h.AllSimilar pending := by
  fun_induction pairElements xs ys pending with
  | case1 a xs b ys pending ih =>
    rw [ih (Nat.succ.inj hlength) hpairs, allSimilar_cons, List.forall₂_cons]
    tauto
  | case2 x xs y ys pending hother heq ih =>
    rw [ih (Nat.succ.inj hlength) hpairs, List.forall₂_cons, similar_other fun a b ha hb => hother a b ha hb]
    tauto
  | case3 => cases hpairs
  | case4 xs ys pending hstructs hcons =>
    cases hpairs
    obtain rfl : xs = [] := by
      cases xs with
      | nil => rfl
      | cons x xs =>
        obtain ⟨y, ys, rfl⟩ := List.exists_cons_of_length_eq_add_one hlength.symm
        exact absurd rfl (hcons x xs y ys rfl)
    obtain rfl := List.length_eq_zero_iff.1 hlength.symm
    rw [List.forall₂_nil_left_iff]
    tauto

/-- Elements that are not equal are not similar. -/
theorem not_similar_pairElements (hpairs : pairElements xs ys pending = none) : ¬ List.Forall₂ h.Similar xs ys := by
  fun_induction pairElements xs ys pending with
  | case1 a xs b ys pending ih =>
    rw [List.forall₂_cons]
    exact fun hall => ih hpairs hall.2
  | case2 x xs y ys pending hother heq ih =>
    rw [List.forall₂_cons]
    exact fun hall => ih hpairs hall.2
  | case3 x xs y ys pending hother hne =>
    rw [List.forall₂_cons, similar_other fun a b ha hb => hother a b ha hb]
    exact fun hall => hne hall.1
  | case4 => cases hpairs

/-- The order of the operands does not matter to elements. -/
theorem pairElements_swap (xs ys : List Item) (pending : List (Nat × Nat)) :
    pairElements ys xs (pending.map Prod.swap) = (pairElements xs ys pending).map (List.map Prod.swap) := by
  fun_induction pairElements xs ys pending with
  | case1 a xs b ys pending ih =>
    rw [pairElements, ← ih]
    rfl
  | case2 x xs y ys pending hother hsame ih =>
    rw [Item.same_comm] at hsame
    rw [pairElements, if_pos hsame, ih]
    exact fun b a hb ha => hother a b ha hb
  | case3 x xs y ys pending hother hne =>
    rw [Item.same_comm] at hne
    rw [pairElements, if_neg hne, Option.map_none]
    exact fun b a hb ha => hother a b ha hb
  | case4 xs ys pending hstructs hcons =>
    rw [pairElements, Option.map_some]
    · exact fun b ys' a xs' hys hxs => hstructs a xs' b ys' hxs hys
    · exact fun y ys' x xs' hys hxs => hcons x xs' y ys' hxs hys

namespace EqualWalk

variable {w w' : EqualWalk} {r : Except Fault Bool}

/-- The state with the operands exchanged. -/
def swap (w : EqualWalk) : EqualWalk := ⟨w.pending.map Prod.swap, w.visited⟩

/-- A round with the operands exchanged. -/
theorem Round.swap (hround : Round h limit w w') : Round h limit w.swap w'.swap := by
  cases hround with
  | skip => exact .skip
  | @compare a b visited rest pending hne hlength hroom hpairs =>
    have hpairs' : pairElements (h.items b) (h.items a) (rest.map Prod.swap) = some (pending.map Prod.swap) := by
      rw [pairElements_swap, hpairs, Option.map_some]
    -- A round counts the elements of the first struct; the second one has as many.
    rw [hlength] at hroom
    have hround : Round h limit ⟨(b, a) :: rest.map Prod.swap, visited⟩ _ :=
      .compare hne.symm hlength.symm hroom hpairs'
    rw [← hlength] at hround
    exact hround

/-- The end of a comparison with the operands exchanged. -/
theorem Ends.swap (hends : Ends h limit w r) : Ends h limit w.swap r := by
  cases hends with
  | done visited => exact .done visited
  | lengths hne hlength => exact .lengths hne.symm hlength.symm
  | @tooLarge a b visited rest hne hlength hlimit =>
    rw [hlength] at hlimit ⊢
    exact .tooLarge hne.symm hlength.symm hlimit
  | @elements a b visited rest hne hlength hroom hpairs =>
    have hpairs' : pairElements (h.items b) (h.items a) (rest.map Prod.swap) = none := by
      rw [pairElements_swap, hpairs, Option.map_none]
    exact .elements hne.symm hlength.symm (hlength ▸ hroom) hpairs'

/-- A comparison with the operands exchanged. -/
theorem Reaches.swap (hreaches : Reaches h limit w w') : Reaches h limit w.swap w'.swap :=
  hreaches.lift EqualWalk.swap fun _ _ hround => hround.swap

end EqualWalk

/-- **The order of the operands does not matter.** -/
theorem structEquals_comm (h : Heap) (a b limit : Nat) : h.structEquals b a limit = h.structEquals a b limit := by
  obtain ⟨w, hreaches, hends⟩ := structEquals_ends h a b limit
  exact hreaches.swap.equalPending_eq hends.swap

/-! ## What comparisons decide -/

/-- **A round keeps what is asked.** -/
theorem EqualWalk.Round.allSimilar {w w' : EqualWalk} (hround : Round h limit w w') :
    h.AllSimilar w.pending ↔ h.AllSimilar w'.pending := by
  cases hround with
  | @skip a visited rest =>
    -- Nothing is lost by passing over a pair of one struct and itself.
    rw [allSimilar_cons]
    exact ⟨And.right, fun hrest => ⟨fun depth => SimilarAt.refl h depth _, hrest⟩⟩
  | compare _ hlength _ hpairs => rw [allSimilar_cons, similar_struct, allSimilar_pairElements hlength hpairs]

/-- A comparison keeps what is asked. -/
theorem EqualWalk.Reaches.allSimilar {w w' : EqualWalk} (hreaches : Reaches h limit w w') :
    h.AllSimilar w.pending ↔ h.AllSimilar w'.pending := by
  induction hreaches with
  | refl => rfl
  | tail _ hround ih => exact ih.trans hround.allSimilar

/-- The answer at the end is right. -/
theorem EqualWalk.Ends.allSimilar {w : EqualWalk} {v : Bool} (hends : Ends h limit w (.ok v)) :
    v = true ↔ h.AllSimilar w.pending := by
  cases hends with
  | done => exact ⟨fun _ _ hpair => absurd hpair List.not_mem_nil, fun _ => rfl⟩
  | lengths _ hlength =>
    rw [allSimilar_cons, similar_struct]
    exact ⟨fun h => absurd h Bool.false_ne_true, fun hall => absurd hall.1.length_eq hlength⟩
  | elements _ _ _ hpairs =>
    rw [allSimilar_cons, similar_struct]
    exact ⟨fun h => absurd h Bool.false_ne_true, fun hall => absurd hall.1 (not_similar_pairElements hpairs)⟩

/-- **Structs are equal if they are similar**, as far as there is an answer. -/
theorem similar_of_structEquals {v : Bool} (hrun : h.structEquals a b limit = .ok v) :
    v = true ↔ h.Similar (.struct a) (.struct b) := by
  obtain ⟨w, hreaches, hends⟩ := structEquals_ends h a b limit
  rw [hrun] at hends
  have hstart : h.AllSimilar [(a, b)] ↔ h.AllSimilar w.pending := hreaches.allSimilar
  rw [hends.allSimilar, ← hstart, allSimilar_cons]
  exact and_iff_left fun _ hpair => absurd hpair List.not_mem_nil

/-! ## Comparisons within the bound -/

/-- The number of pairs of elements at the same places of two items, down to a depth. -/
def pairsWithin (h : Heap) (depth : Nat) (x y : Item) : Nat := (h.unfold depth x).pairs (h.unfold depth y)

/-- The pairs of elements in two structs. -/
theorem pairsWithin_struct : h.pairsWithin (depth + 1) (.struct a) (.struct b) = ((h.items a).zip (h.items b)).length +
    (((h.items a).zip (h.items b)).map fun pair => h.pairsWithin depth pair.1 pair.2).sum := by
  show Unfolding.pairsAll ((h.items a).map (h.unfold depth)) ((h.items b).map (h.unfold depth)) = _
  rw [Unfolding.pairsAll_eq, List.zip_map, List.length_map, List.map_map]
  rfl

/-- There are no pairs of elements in items of which one is no struct. -/
theorem pairsWithin_other (hxy : ∀ a b, x = .struct a → y = .struct b → False) : h.pairsWithin depth x y = 0 := by
  obtain ⟨a, rfl⟩ | hx := x.struct_or_other
  · rw [pairsWithin, unfold_item fun b hb => hxy a b rfl hb]
    cases depth <;> rfl
  · rw [pairsWithin, unfold_item hx]
    rfl

/-- There are more pairs of elements further down. -/
theorem pairsWithin_le_succ (depth : Nat) : ∀ x y, h.pairsWithin depth x y ≤ h.pairsWithin (depth + 1) x y := by
  induction depth with
  | zero =>
    intro x y
    cases x <;> exact Nat.zero_le _
  | succ depth ih =>
    intro x y
    rcases structs_or_other x y with ⟨a, b, rfl, rfl⟩ | hother
    · rw [pairsWithin_struct, pairsWithin_struct]
      exact Nat.add_le_add_left (List.sum_le_sum fun pair _ => ih pair.1 pair.2) _
    · rw [pairsWithin_other hother]
      exact Nat.zero_le _

/-- There are more pairs of elements further down. -/
theorem pairsWithin_mono {deeper : Nat} (hle : depth ≤ deeper) (x y : Item) :
    h.pairsWithin depth x y ≤ h.pairsWithin deeper x y :=
  monotone_nat_of_le_succ (fun d => pairsWithin_le_succ (h := h) d x y) hle

/-- Two finite unfoldings show all their pairs of elements. -/
theorem pairsWithin_le_of_unfoldsTo {u v : Unfolding} (hu : h.UnfoldsTo x u) (hv : h.UnfoldsTo y v) (depth : Nat) :
    h.pairsWithin depth x y ≤ u.pairs v := by
  obtain ⟨hwhole, d, rfl⟩ := hu
  obtain ⟨hwhole', d', rfl⟩ := hv
  -- From some depth on, both unfoldings are whole.
  calc h.pairsWithin depth x y ≤ h.pairsWithin (max depth (max d d')) x y := pairsWithin_mono (le_max_left _ _) x y
    _ = (h.unfold d x).pairs (h.unfold d' y) := by
      rw [pairsWithin, unfold_of_whole_of_le hwhole (by omega), unfold_of_whole_of_le hwhole' (by omega)]

/-- The pending pairs after elements were compared: the pairs of structs among the elements were added. -/
theorem sum_pairElements (weight : Item → Item → Nat)
    (hweight : ∀ x y, (∀ a b, x = .struct a → y = .struct b → False) → weight x y = 0)
    (hpairs : pairElements xs ys pending = some pending') :
    (pending'.map fun pair => weight (.struct pair.1) (.struct pair.2)).sum =
      ((xs.zip ys).map fun pair => weight pair.1 pair.2).sum +
        (pending.map fun pair => weight (.struct pair.1) (.struct pair.2)).sum := by
  fun_induction pairElements xs ys pending with
  | case1 a xs b ys pending ih =>
    simp only [ih hpairs, List.map_cons, List.sum_cons, List.zip_cons_cons]
    omega
  | case2 x xs y ys pending hother hsame ih =>
    simp only [ih hpairs, List.map_cons, List.sum_cons, List.zip_cons_cons, hweight x y fun a b ha hb => hother a b ha hb]
    omega
  | case3 => cases hpairs
  | case4 xs ys pending hstructs hcons =>
    cases hpairs
    have hzip : xs.zip ys = [] := by
      cases xs with
      | nil => rfl
      | cons x xs =>
        cases ys with
        | nil => rfl
        | cons y ys => exact absurd rfl (hcons x xs y ys rfl)
    rw [hzip, List.map_nil, List.sum_nil, Nat.zero_add]

namespace EqualWalk

/-- The pairs of elements that were met, and all that are still to meet, are within the bound. -/
def Fits (h : Heap) (limit : Nat) (w : EqualWalk) : Prop :=
  ∀ depth, w.visited + (w.pending.map fun pair => h.pairsWithin depth (.struct pair.1) (.struct pair.2)).sum ≤ limit

variable {w w' : EqualWalk}

/-- A round stays within the bound. -/
theorem Fits.round (hw : w.Fits h limit) (hround : Round h limit w w') : w'.Fits h limit := by
  intro depth
  have hbound := hw (depth + 1)
  cases hround with
  | @skip a visited rest =>
    have hdepth := hw depth
    simp only [List.map_cons, List.sum_cons] at hdepth
    dsimp only
    omega
  | @compare a b visited rest pending hne hlength _ hpairs =>
    -- The pairs that were met are taken off the two structs, one level down.
    have hrest : (rest.map fun pair => h.pairsWithin depth (.struct pair.1) (.struct pair.2)).sum ≤
        (rest.map fun pair => h.pairsWithin (depth + 1) (.struct pair.1) (.struct pair.2)).sum :=
      List.sum_le_sum fun pair _ => pairsWithin_le_succ depth _ _
    have hzip : ((h.items a).zip (h.items b)).length = (h.items a).length := by
      rw [List.length_zip, hlength, Nat.min_self]
    simp only [List.map_cons, List.sum_cons] at hbound
    rw [pairsWithin_struct, hzip] at hbound
    dsimp only
    rw [sum_pairElements (h.pairsWithin depth) (fun _ _ hother => pairsWithin_other hother) hpairs]
    omega

/-- All states of a comparison are within the bound. -/
theorem Fits.reaches (hw : w.Fits h limit) (hreaches : Reaches h limit w w') : w'.Fits h limit := by
  induction hreaches with
  | refl => exact hw
  | tail _ hround ih => exact ih.round hround

/-- A comparison within the bound has an answer. -/
theorem Fits.exists_of_ends {r : Except Fault Bool} (hw : w.Fits h limit) (hends : Ends h limit w r) :
    ∃ v, r = .ok v := by
  cases hends with
  | tooLarge _ hlength hlimit =>
    have hbound := hw 1
    simp only [List.map_cons, List.sum_cons, pairsWithin_struct, List.length_zip] at hbound
    omega
  | _ => exact ⟨_, rfl⟩

end EqualWalk

/-- **Structs with finite unfoldings are compared** if there are no more pairs of elements in these than the bound. -/
theorem exists_structEquals {u v : Unfolding} (hu : h.UnfoldsTo (.struct a) u) (hv : h.UnfoldsTo (.struct b) v)
    (hpairs : u.pairs v ≤ limit) : ∃ r, h.structEquals a b limit = .ok r := by
  have hstart : (EqualWalk.start a b).Fits h limit := by
    intro depth
    have hle := pairsWithin_le_of_unfoldsTo hu hv depth
    simp only [EqualWalk.start, List.map_cons, List.map_nil, List.sum_cons, List.sum_nil]
    omega
  obtain ⟨w, hreaches, hends⟩ := structEquals_ends h a b limit
  exact (hstart.reaches hreaches).exists_of_ends hends

end Heap

end ScriptMachine
