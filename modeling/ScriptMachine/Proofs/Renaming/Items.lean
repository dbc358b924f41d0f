import Mathlib.Data.List.Forall2
import ScriptMachine.Item.Basic
import ScriptMachine.Stack

/-! # Items up to a renaming of their objects

The number of a cell, and the identity of a byte string or of a handle, are chosen by whoever creates the object. A
`Renaming` says which objects of two machines correspond; no object corresponds to two others. Two items are the same
under it if they are equal but for their objects, which correspond. No reading of an item can tell them apart, and
whether two items refer to one object is told alike on both sides.

* `Renaming`, `Renaming.identity`: which objects correspond.
* `Renaming.SameItem`, `Renaming.SameItems`: items and lists of items.
* `Renaming.SameItem.kind`, `Renaming.SameItem.byteView` and so on: the readings of an item.
* `Renaming.SameItem.same`: equality of two items.
* `SameResult`: results of computations that may fail.
-/

namespace ScriptMachine

/-! ## Related lists -/

section

variable {α β : Type} {R : α → β → Prop} {xs : List α} {ys : List β} {x : α} {y : β}

/-- What stands at one position is related. -/
theorem forall₂_getElem? (h : List.Forall₂ R xs ys) (i : Nat) : Option.Rel R xs[i]? ys[i]? := by
  induction h generalizing i with
  | nil => exact .none
  | cons hxy _ ih =>
    cases i with
    | zero => exact .some hxy
    | succ i => exact ih i

/-- If the relation tells what stands in the second list, that list is a map of the first one. -/
theorem eq_map_of_forall₂ {F : α → β} (h : List.Forall₂ R xs ys) (hF : ∀ x y, R x y → F x = y) : ys = xs.map F := by
  have hmap : List.Forall₂ (fun x y => F x = y) xs ys := h.imp hF
  rw [← List.forall₂_map_left_iff, List.forall₂_eq_eq_eq] at hmap
  exact hmap.symm

/-- One element of each list is replaced. -/
theorem forall₂_set (h : List.Forall₂ R xs ys) (hx : R x y) (i : Nat) : List.Forall₂ R (xs.set i x) (ys.set i y) := by
  induction h generalizing i with
  | nil => exact .nil
  | cons hxy hrest ih =>
    cases i with
    | zero => exact .cons hx hrest
    | succ i => exact .cons hxy (ih i)

/-- One element is taken out of each list. -/
theorem forall₂_eraseIdx (h : List.Forall₂ R xs ys) (i : Nat) : List.Forall₂ R (xs.eraseIdx i) (ys.eraseIdx i) := by
  induction h generalizing i with
  | nil => exact .nil
  | cons hxy hrest ih =>
    cases i with
    | zero => exact hrest
    | succ i => exact .cons hxy (ih i)

/-- One element is put into each list. -/
theorem forall₂_insertIdx (h : List.Forall₂ R xs ys) (hx : R x y) (i : Nat) :
    List.Forall₂ R (xs.insertIdx i x) (ys.insertIdx i y) := by
  induction h generalizing i with
  | nil =>
    cases i with
    | zero => exact .cons hx .nil
    | succ i => exact .nil
  | cons hxy hrest ih =>
    cases i with
    | zero => exact .cons hx (.cons hxy hrest)
    | succ i => exact .cons hxy (ih i)

/-- One element of each list is changed. -/
theorem forall₂_modify {f : α → α} {g : β → β} (h : List.Forall₂ R xs ys) (hf : ∀ x y, R x y → R (f x) (g y))
    (i : Nat) : List.Forall₂ R (xs.modify i f) (ys.modify i g) := by
  induction h generalizing i with
  | nil =>
    rw [List.modify_nil, List.modify_nil]
    exact .nil
  | cons hxy hrest ih =>
    cases i with
    | zero => exact .cons (hf _ _ hxy) hrest
    | succ i => exact .cons hxy (ih i)

/-- What has a property is kept in each list, if the relation tells it alike. -/
theorem forall₂_filter {S : α → β → Prop} {p : α → Bool} {q : β → Bool} (h : List.Forall₂ R xs ys)
    (hp : ∀ x y, R x y → q y = p x) (hS : ∀ x y, R x y → p x = true → S x y) :
    List.Forall₂ S (xs.filter p) (ys.filter q) := by
  induction h with
  | nil => exact .nil
  | @cons x y _ _ hxy _ ih =>
    rw [List.filter_cons, List.filter_cons, hp _ _ hxy]
    split
    · exact .cons (hS _ _ hxy (by assumption)) ih
    · exact ih

/-- Repetitions are left out of each list, if the relation tells them alike. -/
theorem forall₂_eraseDups [BEq α] [LawfulBEq α] [BEq β] [LawfulBEq β]
    (hunique : ∀ x y x' y', R x y → R x' y' → (x = x' ↔ y = y')) (h : List.Forall₂ R xs ys) :
    List.Forall₂ R xs.eraseDups ys.eraseDups := by
  induction hlength : xs.length using Nat.strongRecOn generalizing xs ys with
  | ind n ih =>
    cases h with
    | nil => exact .nil
    | @cons x y xs ys hxy hrest =>
      rw [List.eraseDups_cons, List.eraseDups_cons]
      have hfilter : List.Forall₂ R (xs.filter fun b => !b == x) (ys.filter fun b => !b == y) := by
        refine List.rel_filter (fun x' y' hxy' => ?_) hrest
        simp only [Bool.not_eq_true', beq_eq_false_iff_ne, ne_eq, hunique _ _ _ _ hxy' hxy]
      refine .cons hxy (ih _ ?_ hfilter rfl)
      rw [← hlength]
      exact Nat.lt_succ_of_le (List.length_filter_le _ _)

/-- The first place with a property that is told alike. -/
theorem forall₂_findIdx? {p : α → Bool} {q : β → Bool} (h : List.Forall₂ R xs ys) (hp : ∀ x y, R x y → q y = p x) :
    ys.findIdx? q = xs.findIdx? p := by
  induction h with
  | nil => rfl
  | cons hxy _ ih => rw [List.findIdx?_cons, List.findIdx?_cons, hp _ _ hxy, ih]

end

/-! ## Renamings -/

/-- Which objects of two machines correspond. -/
structure Renaming where
  /-- The containers that correspond, by their cells. -/
  cell : Nat → Nat → Prop
  /-- The byte strings and handles that correspond, by their identities. -/
  leaf : Nat → Nat → Prop
  /-- A container corresponds to at most one container, in both directions. -/
  cell_unique : ∀ {a b a' b' : Nat}, cell a b → cell a' b' → (a = a' ↔ b = b')
  /-- A byte string or handle corresponds to at most one, in both directions. -/
  leaf_unique : ∀ {i j i' j' : Nat}, leaf i j → leaf i' j' → (i = i' ↔ j = j')

namespace Renaming

variable {ρ : Renaming} {x y x' y' : Item} {xs ys xs' ys' : List Item} {a b : Nat}

/-- Each object corresponds to itself. -/
def identity : Renaming where
  cell := Eq
  leaf := Eq
  cell_unique := by
    rintro a _ a' _ rfl rfl
    exact Iff.rfl
  leaf_unique := by
    rintro i _ i' _ rfl rfl
    exact Iff.rfl

/-- **Two items that are equal but for their objects**, which correspond. -/
inductive SameItem (ρ : Renaming) : Item → Item → Prop where
  /-- A truth value. -/
  | boolean (value : Bool) : SameItem ρ (.boolean value) (.boolean value)
  /-- An integer. -/
  | integer (value : Integer) : SameItem ρ (.integer value) (.integer value)
  /-- Two byte strings of one content. -/
  | bytes {i j : Nat} (h : ρ.leaf i j) (data : Bytes) : SameItem ρ (.bytes i data) (.bytes j data)
  /-- Two handles of one content. -/
  | interop {i j : Nat} (h : ρ.leaf i j) (data : Bytes) : SameItem ρ (.interop i data) (.interop j data)
  /-- Two arrays. -/
  | array {a b : Nat} (h : ρ.cell a b) : SameItem ρ (.array a) (.array b)
  /-- Two structs. -/
  | struct {a b : Nat} (h : ρ.cell a b) : SameItem ρ (.struct a) (.struct b)
  /-- Two maps. -/
  | map {a b : Nat} (h : ρ.cell a b) : SameItem ρ (.map a) (.map b)

/-- Two lists that are the same item by item. -/
abbrev SameItems (ρ : Renaming) (xs ys : List Item) : Prop := List.Forall₂ ρ.SameItem xs ys

/-- Under the identity the same items are equal. -/
theorem sameItem_identity : identity.SameItem x y ↔ x = y := by
  constructor
  · intro h
    cases h with
    | boolean | integer => rfl
    | bytes h _ | interop h _ | array h | struct h | map h =>
      cases h
      rfl
  · rintro rfl
    cases x with
    | boolean value => exact .boolean value
    | integer value => exact .integer value
    | bytes _ data => exact .bytes rfl data
    | interop _ data => exact .interop rfl data
    | array _ => exact .array rfl
    | struct _ => exact .struct rfl
    | map _ => exact .map rfl

/-- Under the identity the same lists of items are equal. -/
theorem sameItems_identity : identity.SameItems xs ys ↔ xs = ys := by
  have heq : identity.SameItem = Eq := funext fun x => funext fun y => propext sameItem_identity
  rw [SameItems, heq, List.forall₂_eq_eq_eq]

namespace SameItem

/-! ## Readings of an item -/

/-- The kind is the same. -/
theorem kind (h : ρ.SameItem x y) : y.kind = x.kind := by cases h <;> rfl

/-- Both are containers, or neither is. -/
theorem isCompound (h : ρ.SameItem x y) : y.isCompound = x.isCompound := by cases h <;> rfl

/-- The truth is the same. -/
theorem truth (h : ρ.SameItem x y) : y.truth = x.truth := by cases h <;> rfl

/-- The integer value is the same, and so is its absence. -/
theorem integerValue (h : ρ.SameItem x y) : y.integerValue = x.integerValue := by cases h <;> rfl

/-- The value of 32 bits is the same, and so is its absence. -/
theorem int32 (h : ρ.SameItem x y) : y.int32 = x.int32 := by
  unfold Item.int32
  rw [h.integerValue]

/-- The byte view is the same, and so is its absence. -/
theorem byteView (h : ρ.SameItem x y) : y.byteView = x.byteView := by cases h <;> rfl

/-- The length of the byte view is the same, and so is its absence. -/
theorem byteViewSize (h : ρ.SameItem x y) : y.byteViewSize = x.byteViewSize := by cases h <;> rfl

/-- The cells of the same containers correspond. -/
theorem cell? (h : ρ.SameItem x y) : Option.Rel ρ.cell x.cell? y.cell? := by
  cases h with
  | array h | struct h | map h => exact .some h
  | _ => exact .none

/-- The cells of the same lists correspond. -/
theorem listCell? (h : ρ.SameItem x y) : Option.Rel ρ.cell x.listCell? y.listCell? := by
  cases h with
  | array h | struct h => exact .some h
  | _ => exact .none

/-! ## Equality -/

/-- Numbers of corresponding objects are compared alike. -/
theorem beq_unique {i j i' j' : Nat} (h : i = i' ↔ j = j') : (j == j') = (i == i') := by
  rw [Bool.eq_iff_iff, beq_iff_eq, beq_iff_eq, h]

/-- **Equality of items that are not structs** is told alike: it compares contents, and objects by their
correspondence. -/
theorem same (h : ρ.SameItem x y) (h' : ρ.SameItem x' y') : y.same y' = x.same x' := by
  cases h with
  | array h =>
    cases h' with
    | array h' => exact beq_unique (ρ.cell_unique h h')
    | _ => rfl
  | map h =>
    cases h' with
    | map h' => exact beq_unique (ρ.cell_unique h h')
    | _ => rfl
  | interop h _ =>
    cases h' with
    | interop h' _ => exact beq_unique (ρ.leaf_unique h h')
    | _ => rfl
  | _ => cases h' <;> rfl

end SameItem

end Renaming

/-! ## Results -/

/-- Two results of computations that may fail: both are values that are related, or both are the same fault. -/
inductive SameResult {α β : Type} (R : α → β → Prop) : Except Fault α → Except Fault β → Prop where
  /-- Two values. -/
  | ok {a : α} {b : β} (h : R a b) : SameResult R (.ok a) (.ok b)
  /-- A fault. -/
  | error (cause : Fault) : SameResult R (.error cause) (.error cause)

/-- A result is the same as itself. -/
theorem SameResult.of_eq {α : Type} {r r' : Except Fault α} (h : r' = r) : SameResult Eq r r' := by
  subst h
  cases r' with
  | ok a => exact .ok rfl
  | error cause => exact .error cause

namespace Stack

variable {ρ : Renaming} {xs ys : Stack} {x y : Item}

/-- The top items and the rests are the same. -/
theorem sameResult_pop (h : ρ.SameItems xs ys) :
    SameResult (fun r r' => ρ.SameItem r.1 r'.1 ∧ ρ.SameItems r.2 r'.2) (pop xs) (pop ys) := by
  cases h with
  | nil => exact .error _
  | cons hx hrest => exact .ok ⟨hx, hrest⟩

/-- The items at a position are the same. -/
theorem sameResult_peek (h : ρ.SameItems xs ys) (n : Nat) : SameResult ρ.SameItem (peek xs n) (peek ys n) := by
  unfold peek
  rw [h.length_eq]
  have hget := forall₂_getElem? h n
  revert hget
  rcases xs[n]? with _ | x <;> rcases ys[n]? with _ | y <;> rintro ⟨⟩
  · exact .error _
  · exact .ok (by assumption)

/-- Replacing an item. -/
theorem sameResult_set (h : ρ.SameItems xs ys) (hx : ρ.SameItem x y) (n : Nat) :
    SameResult ρ.SameItems (Stack.set xs n x) (Stack.set ys n y) := by
  unfold Stack.set
  rw [h.length_eq]
  split
  · exact .ok (forall₂_set h hx n)
  · exact .error _

/-- Taking out an item. -/
theorem sameResult_remove (h : ρ.SameItems xs ys) (n : Nat) :
    SameResult (fun r r' => ρ.SameItem r.1 r'.1 ∧ ρ.SameItems r.2 r'.2) (remove xs n) (remove ys n) := by
  unfold remove
  rw [h.length_eq]
  have hget := forall₂_getElem? h n
  revert hget
  rcases xs[n]? with _ | x <;> rcases ys[n]? with _ | y <;> rintro ⟨⟩
  · exact .error _
  · exact .ok ⟨by assumption, forall₂_eraseIdx h n⟩

/-- Inserting an item. -/
theorem sameResult_insert (h : ρ.SameItems xs ys) (hx : ρ.SameItem x y) (n : Nat) :
    SameResult ρ.SameItems (insert xs n x) (insert ys n y) := by
  unfold insert
  rw [h.length_eq]
  split
  · exact .ok (forall₂_insertIdx h hx n)
  · exact .error _

/-- Taking off the top items. -/
theorem sameResult_split (h : ρ.SameItems xs ys) (n : Nat) :
    SameResult (fun r r' => ρ.SameItems r.1 r'.1 ∧ ρ.SameItems r.2 r'.2) (split xs n) (split ys n) := by
  unfold split
  rw [h.length_eq]
  split
  · exact .ok ⟨List.forall₂_take n h, List.forall₂_drop n h⟩
  · exact .error _

end Stack

end ScriptMachine
