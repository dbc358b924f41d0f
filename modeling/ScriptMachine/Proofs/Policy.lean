import ScriptMachine.Proofs.Heap.Walks
import ScriptMachine.Proofs.Keeps

/-! # Data policies

A `Policy` says which byte strings, integers, container sizes and map keys may occur in a machine. It is
*admitted* by limits and a cryptography when it allows all that instructions make under them:
`Policy.Admits` is the list of these things, one line for each way of making data. The bounds of a machine
are such a policy, and so is the policy that allows everything.

* `Policy.AllowsItem`, `Policy.AllowsCell`, `Policy.AllowsHeap`: the policy of all data in a machine.
* `Policy.Admits`: closure under what instructions make.
* `AllowsHeap.alloc`, `AllowsHeap.setItems`, `AllowsHeap.copyValue`, `AllowsHeap.mapSet` and so on: every
  operation on the heap keeps an admitted policy.
-/

namespace ScriptMachine

/-- Which data may occur in a machine. -/
structure Policy where
  /-- The byte strings that may occur. -/
  bytes : Bytes → Prop
  /-- The integers that may occur. -/
  integer : Integer → Prop
  /-- The numbers of elements or entries that a container may have. -/
  size : Nat → Prop
  /-- The items that may be keys of a map. -/
  key : Item → Prop

namespace Policy

/-- An item of allowed content. -/
def AllowsItem (p : Policy) : Item → Prop
  | .integer v => p.integer v
  | .bytes _ data => p.bytes data
  | _ => True

/-- A list of allowed items. -/
def AllowsItems (p : Policy) (xs : List Item) : Prop := ∀ x ∈ xs, p.AllowsItem x

/-- A container of allowed size and content. -/
def AllowsCell (p : Policy) : Cell → Prop
  | .list items => p.size items.length ∧ p.AllowsItems items
  | .map entries => p.size entries.length ∧
      ∀ entry ∈ entries, p.key entry.1 ∧ p.AllowsItem entry.1 ∧ p.AllowsItem entry.2

/-- A heap of allowed containers. -/
def AllowsHeap (p : Policy) (h : Heap) : Prop :=
  ∀ (id : Nat) (c : Cell), h.cells[id]? = some c → p.AllowsCell c

/-- The policy allows all that the instructions of a machine make: short and bounded byte strings and
their parts, byte views and digests, counts and bounded results, and containers and keys as far as the
instructions that make them check. -/
structure Admits (p : Policy) (l : Limits) (c : CryptoSuite) : Prop where
  /-- Byte strings that an opcode announces by itself. -/
  short : ∀ d : Bytes, d.size ≤ 75 → p.bytes d
  /-- Byte strings whose length was checked. -/
  bounded : ∀ d : Bytes, d.size ≤ l.maxItemSize → p.bytes d
  /-- Parts of byte strings. -/
  part : ∀ (d : Bytes) (i j : Nat), p.bytes d → p.bytes (d.extract i j)
  /-- Byte views of integers. -/
  view : ∀ v : Integer, p.integer v → p.bytes v.toBytes
  /-- Digests of 20 bytes, made by `sha1`. -/
  sha1 : ∀ d, p.bytes (c.sha1 d)
  /-- Digests of 32 bytes, made by `sha256`. -/
  sha256 : ∀ d, p.bytes (c.sha256 d)
  /-- Digests of 20 bytes, made by `hash160`. -/
  hash160 : ∀ d, p.bytes (c.hash160 d)
  /-- Digests of 32 bytes, made by `hash256`. -/
  hash256 : ∀ d, p.bytes (c.hash256 d)
  /-- Counts and sizes. -/
  count : ∀ n, p.integer (.ofNat n)
  /-- The constant -1. -/
  minusOne : p.integer (.small (-1))
  /-- Results whose length was checked. -/
  computed : ∀ v : Integer, v.byteLength ≤ l.maxBigIntegerSize → p.integer v
  /-- Containers whose size was checked. -/
  room : ∀ n, n ≤ l.maxArraySize → p.size n
  /-- Containers that are not larger than another one. -/
  smaller : ∀ m n, n ≤ m → p.size m → p.size n
  /-- Keys that were checked. -/
  primitive : ∀ x : Item, x.isCompound = false → p.key x

variable {p : Policy} {l : Limits} {c : CryptoSuite} {h : Heap}

/-- No items are allowed items. -/
theorem allowsItems_nil : p.AllowsItems [] := fun x hx => by cases hx

/-- Allowed items are allowed one by one. -/
theorem allowsItems_cons {x : Item} {xs : List Item} :
    p.AllowsItems (x :: xs) ↔ p.AllowsItem x ∧ p.AllowsItems xs := List.forall_mem_cons

/-- Two lists of allowed items make one. -/
theorem AllowsItems.append {xs ys : List Item} (hx : p.AllowsItems xs) (hy : p.AllowsItems ys) :
    p.AllowsItems (xs ++ ys) := by
  intro x hmem
  rcases List.mem_append.1 hmem with hmem | hmem
  · exact hx x hmem
  · exact hy x hmem

/-- Allowed items of which some were left out. -/
theorem AllowsItems.sublist {xs ys : List Item} (hy : p.AllowsItems ys) (hs : xs.Sublist ys) :
    p.AllowsItems xs := fun x hx => hy x (hs.mem hx)

/-- Allowed items of which one was replaced by an allowed item. -/
theorem AllowsItems.set {xs : List Item} {x : Item} (hxs : p.AllowsItems xs) (hx : p.AllowsItem x)
    (i : Nat) : p.AllowsItems (xs.set i x) := by
  intro y hy
  rcases List.mem_or_eq_of_mem_set hy with hy | rfl
  · exact hxs y hy
  · exact hx

/-- The byte view of an allowed item is an allowed byte string. -/
theorem AllowsItem.byteView (hp : p.Admits l c) {x : Item} {b : Bytes} (hx : p.AllowsItem x)
    (hb : x.byteView = .ok b) : p.bytes b := by
  have hempty : p.bytes #[] := hp.short _ (by decide)
  unfold Item.byteView at hb
  split at hb
  · -- A Boolean is one byte or none.
    cases hb
    split
    · exact hp.short _ (by decide)
    · exact hempty
  · -- Zero has no bytes, unlike in the codec of integers.
    cases hb
    split
    · exact hempty
    · exact hp.view _ hx
  · cases hb
    exact hx
  · cases hb

/-! ## Contents of the heap -/

/-- The elements in a cell are allowed, and so is their number. -/
theorem AllowsHeap.items (hp : p.Admits l c) (hh : p.AllowsHeap h) (id : Nat) :
    p.AllowsCell (.list (h.items id)) := by
  unfold Heap.items
  split
  · rename_i items hcell
    exact hh id _ hcell
  · exact ⟨hp.room 0 (Nat.zero_le _), allowsItems_nil⟩

/-- The entries in a cell are allowed, and so is their number. -/
theorem AllowsHeap.entries (hp : p.Admits l c) (hh : p.AllowsHeap h) (id : Nat) :
    p.AllowsCell (.map (h.entries id)) := by
  unfold Heap.entries
  split
  · rename_i entries hcell
    exact hh id _ hcell
  · exact ⟨hp.room 0 (Nat.zero_le _), fun entry hentry => by cases hentry⟩

/-- The elements of a list that an item refers to are allowed. -/
theorem AllowsHeap.elements (hp : p.Admits l c) (hh : p.AllowsHeap h) {x : Item}
    {items : List Item} (hx : h.elements? x = some items) : p.AllowsCell (.list items) := by
  unfold Heap.elements? at hx
  obtain ⟨id, -, rfl⟩ := Option.map_eq_some_iff.1 hx
  exact hh.items hp id

/-! ## Changes of the heap -/

/-- A new cell with allowed content. -/
theorem AllowsHeap.alloc {cell : Cell} (hh : p.AllowsHeap h) (hc : p.AllowsCell cell) :
    p.AllowsHeap (h.alloc cell).2 := by
  intro id d hd
  have hd' : (h.cells.push cell)[id]? = some d := hd
  rw [Array.getElem?_push] at hd'
  split at hd'
  · cases hd'
    exact hc
  · exact hh id d hd'

/-- A cell that gets other allowed content. -/
theorem AllowsHeap.replace {cell : Cell} (hh : p.AllowsHeap h) (hc : p.AllowsCell cell) (id : Nat) :
    p.AllowsHeap { h with cells := h.cells.setIfInBounds id cell } := by
  intro id' d hd
  have hd' : (h.cells.setIfInBounds id cell)[id']? = some d := hd
  rw [Array.getElem?_setIfInBounds] at hd'
  split at hd'
  · split at hd'
    · cases hd'
      exact hc
    · -- Writing to a cell that does not exist does nothing.
      cases hd'
  · exact hh id' d hd'

/-- A list that gets other allowed elements. -/
theorem AllowsHeap.setItems {items : List Item} (hh : p.AllowsHeap h)
    (hc : p.AllowsCell (.list items)) (id : Nat) : p.AllowsHeap (h.setItems id items) :=
  hh.replace hc id

/-- A map that gets other allowed entries. -/
theorem AllowsHeap.setEntries {entries : List (Item × Item)} (hh : p.AllowsHeap h)
    (hc : p.AllowsCell (.map entries)) (id : Nat) : p.AllowsHeap (h.setEntries id entries) :=
  hh.replace hc id

/-! ## Copies of structs -/

/-- Copying elements keeps their number, and gives allowed items in an allowed heap. -/
theorem AllowsHeap.copyElements (hp : p.Admits l c) {items : List Item}
    (pending : List (Nat × Nat)) (hh : p.AllowsHeap h) (hi : p.AllowsItems items) :
    (Heap.copyElements h items pending).1.length = items.length ∧
      p.AllowsItems (Heap.copyElements h items pending).1 ∧
      p.AllowsHeap (Heap.copyElements h items pending).2.2 := by
  -- A nested struct gets a fresh empty cell; only the heap changes, and it stays allowed.
  fun_induction Heap.copyElements h items pending with
  | case1 => exact ⟨rfl, allowsItems_nil, hh⟩
  | case2 h child rest pending copy h' hcopy copied pending' h'' hrest ih =>
    have hh' : p.AllowsHeap (h.alloc (.list [])).2 :=
      hh.alloc ⟨hp.room 0 (Nat.zero_le _), allowsItems_nil⟩
    rw [hcopy] at hh'
    obtain ⟨hlen, hitems, hheap⟩ := ih hh' (allowsItems_cons.1 hi).2
    rw [hrest] at hlen hitems hheap
    refine ⟨?_, allowsItems_cons.2 ⟨trivial, hitems⟩, hheap⟩
    rw [List.length_cons, List.length_cons, hlen]
  | case3 h item rest pending hitem copied pending' h' hrest ih =>
    obtain ⟨hlen, hitems, hheap⟩ := ih hh (allowsItems_cons.1 hi).2
    rw [hrest] at hlen hitems hheap
    refine ⟨?_, allowsItems_cons.2 ⟨(allowsItems_cons.1 hi).1, hitems⟩, hheap⟩
    rw [List.length_cons, List.length_cons, hlen]

/-- A round of a copy keeps the policy: each copy is as long as its source. -/
theorem AllowsHeap.round (hp : p.Admits l c) {limit : Nat} {w w' : Heap.CopyWalk}
    (hround : Heap.CopyWalk.Round limit w w') (hh : p.AllowsHeap w.heap) : p.AllowsHeap w'.heap := by
  cases hround with
  | @copy h source target visited rest =>
    obtain ⟨hsize, hitems⟩ := hh.items hp source
    obtain ⟨hlen, hcopied, hheap⟩ := hh.copyElements hp rest hitems
    -- The size of the copy is allowed because the size of its source is: nothing checks it here.
    refine hheap.setItems ⟨?_, hcopied⟩ target
    rw [hlen]
    exact hsize

/-- A copy of an allowed item is an allowed item in an allowed heap. -/
theorem AllowsHeap.copyValue (hp : p.Admits l c) {limit : Nat} {x y : Item} {h' : Heap}
    (hh : p.AllowsHeap h) (hx : p.AllowsItem x) (hrun : h.copyValue x limit = .ok (y, h')) :
    p.AllowsItem y ∧ p.AllowsHeap h' := by
  unfold Heap.copyValue at hrun
  split at hrun
  · have hstart : p.AllowsHeap (h.alloc (.list [])).2 := hh.alloc ⟨hp.room 0 (Nat.zero_le _), allowsItems_nil⟩
    obtain ⟨rfl, _, hall⟩ := Heap.copyStruct_keeps (P := fun w => p.AllowsHeap w.heap)
      (fun _ _ hround hh => hh.round hp hround) hstart hrun
    exact ⟨trivial, hall⟩
  · cases hrun
    exact ⟨hx, hh⟩

/-! ## Lists and maps -/

/-- A list in which one element was replaced. -/
theorem AllowsHeap.setAt (hp : p.Admits l c) {id index : Nat} {x : Item} {h' : Heap}
    (hh : p.AllowsHeap h) (hx : p.AllowsItem x) (hrun : h.setAt id index x = .ok h') :
    p.AllowsHeap h' := by
  obtain ⟨hsize, hitems⟩ := hh.items hp id
  unfold Heap.setAt at hrun
  dsimp only at hrun
  split at hrun
  · cases hrun
    refine hh.setItems ⟨?_, hitems.set hx index⟩ id
    rw [List.length_set]
    exact hsize
  · cases hrun

/-- A list from which one element was taken out. -/
theorem AllowsHeap.removeAt (hp : p.Admits l c) {id index : Nat} {x : Item} {h' : Heap}
    (hh : p.AllowsHeap h) (hrun : h.removeAt id index = .ok (x, h')) : p.AllowsHeap h' := by
  obtain ⟨hsize, hitems⟩ := hh.items hp id
  unfold Heap.removeAt at hrun
  dsimp only at hrun
  split at hrun
  · cases hrun
    have hsub := List.eraseIdx_sublist (h.items id) index
    exact hh.setItems ⟨hp.smaller _ _ hsub.length_le hsize, hitems.sublist hsub⟩ id
  · cases hrun

/-- A list that was reversed. -/
theorem AllowsHeap.reverse (hp : p.Admits l c) (hh : p.AllowsHeap h) (id : Nat) :
    p.AllowsHeap (h.reverse id) := by
  obtain ⟨hsize, hitems⟩ := hh.items hp id
  refine hh.setItems ⟨?_, fun x hx => hitems x (List.mem_reverse.1 hx)⟩ id
  rw [List.length_reverse]
  exact hsize

/-- A list with room to which an element was added. -/
theorem AllowsHeap.append (hp : p.Admits l c) {id : Nat} {x : Item} (hh : p.AllowsHeap h)
    (hx : p.AllowsItem x) (hroom : (h.items id).length < l.maxArraySize) :
    p.AllowsHeap (h.append id x) := by
  refine hh.setItems ⟨?_, (hh.items hp id).2.append (allowsItems_cons.2 ⟨hx, allowsItems_nil⟩)⟩ id
  rw [List.length_append, List.length_singleton]
  exact hp.room _ hroom

/-- An entry of a list in which one entry was changed was there before, changed or not. -/
theorem exists_of_mem_modify {α : Type} {f : α → α} {xs : List α} {i : Nat} {y : α}
    (hy : y ∈ xs.modify i f) : ∃ x ∈ xs, y = x ∨ y = f x := by
  obtain ⟨j, hj⟩ := List.mem_iff_getElem?.1 hy
  rw [List.getElem?_modify] at hj
  obtain ⟨x, hx, rfl⟩ := Option.map_eq_some_iff.1 hj
  refine ⟨x, List.mem_iff_getElem?.2 ⟨j, hx⟩, ?_⟩
  by_cases hij : i = j
  · rw [if_pos hij]
    exact Or.inr rfl
  · rw [if_neg hij]
    exact Or.inl rfl

/-- A map in which a key was set: a known key keeps its item and needs no room. -/
theorem AllowsHeap.mapSet (hp : p.Admits l c) {id : Nat} {k x : Item} (hh : p.AllowsHeap h)
    (hk : k.isCompound = false) (hk' : p.AllowsItem k) (hx : p.AllowsItem x)
    (hroom : h.mapHas id k = true ∨ (h.entries id).length < l.maxArraySize) :
    p.AllowsHeap (h.mapSet id k x) := by
  obtain ⟨hsize, hentries⟩ := hh.entries hp id
  unfold Heap.mapSet
  dsimp only
  split
  · -- The key is known: its entry keeps the old key and gets the new value.
    refine hh.setEntries ⟨?_, fun entry hentry => ?_⟩ id
    · rw [List.length_modify]
      exact hsize
    · obtain ⟨old, hold, rfl | rfl⟩ := exists_of_mem_modify hentry
      · exact hentries _ hold
      · exact ⟨(hentries _ hold).1, (hentries _ hold).2.1, hx⟩
  · -- The key is new: its entry goes to the end, for which room was checked.
    rename_i hnone
    rw [Heap.mapHas, hnone] at hroom
    refine hh.setEntries ⟨?_, fun entry hentry => ?_⟩ id
    · rw [List.length_append, List.length_singleton]
      exact hp.room _ (hroom.resolve_left (by decide))
    · rcases List.mem_append.1 hentry with hentry | hentry
      · exact hentries _ hentry
      · cases List.mem_singleton.1 hentry
        exact ⟨hp.primitive k hk, hk', hx⟩

/-- A map from which a key was taken out. -/
theorem AllowsHeap.mapRemove (hp : p.Admits l c) {id : Nat} {k : Item} (hh : p.AllowsHeap h) :
    p.AllowsHeap (h.mapRemove id k).2 := by
  obtain ⟨hsize, hentries⟩ := hh.entries hp id
  unfold Heap.mapRemove
  dsimp only
  split
  · rename_i i hi
    have hsub := List.eraseIdx_sublist (h.entries id) i
    refine hh.setEntries ⟨hp.smaller _ _ hsub.length_le hsize, fun entry hentry => ?_⟩ id
    exact hentries _ (hsub.mem hentry)
  · exact hh

/-- The value of a key is allowed. -/
theorem AllowsHeap.mapGet (hp : p.Admits l c) {id : Nat} {k x : Item} (hh : p.AllowsHeap h)
    (hx : h.mapGet? id k = some x) : p.AllowsItem x := by
  unfold Heap.mapGet? at hx
  split at hx
  · obtain ⟨entry, hentry, rfl⟩ := Option.map_eq_some_iff.1 hx
    exact ((hh.entries hp id).2 _ (List.mem_of_getElem? hentry)).2.2
  · cases hx

/-- The keys and the values of a map are allowed, and so is their number. -/
theorem AllowsHeap.keysValues (hp : p.Admits l c) (hh : p.AllowsHeap h) (id : Nat) :
    p.AllowsCell (.list (h.mapKeys id)) ∧ p.AllowsCell (.list (h.mapValues id)) := by
  obtain ⟨hsize, hentries⟩ := hh.entries hp id
  have hmap : ∀ f : Item × Item → Item, p.size ((h.entries id).map f).length := by
    intro f
    rw [List.length_map]
    exact hsize
  refine ⟨⟨hmap _, fun x hx => ?_⟩, hmap _, fun x hx => ?_⟩
  · obtain ⟨entry, hentry, rfl⟩ := List.mem_map.1 hx
    exact (hentries _ hentry).2.1
  · obtain ⟨entry, hentry, rfl⟩ := List.mem_map.1 hx
    exact (hentries _ hentry).2.2

/-! ## Everything is allowed -/

/-- The policy that allows all data. -/
def all : Policy where
  bytes _ := True
  integer _ := True
  size _ := True
  key _ := True

/-- The policy that allows everything is admitted by all limits. -/
theorem all_admits (l : Limits) (c : CryptoSuite) : Policy.all.Admits l c := by
  constructor <;> intros <;> trivial

/-- Every item is allowed. -/
theorem all_allowsItems (xs : List Item) : Policy.all.AllowsItems xs := by
  intro x _
  cases x <;> trivial

/-- Every heap is allowed. -/
theorem all_allowsHeap (h : Heap) : Policy.all.AllowsHeap h := by
  intro id cell _
  cases cell with
  | list items => exact ⟨trivial, all_allowsItems items⟩
  | map entries =>
    refine ⟨trivial, fun entry _ => ⟨trivial, ?_, ?_⟩⟩
    · exact all_allowsItems [entry.1] _ List.mem_cons_self
    · exact all_allowsItems [entry.2] _ List.mem_cons_self

end Policy

end ScriptMachine
