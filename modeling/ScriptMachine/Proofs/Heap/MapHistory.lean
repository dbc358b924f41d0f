import ScriptMachine.Proofs.Heap.Maps

/-! # Maps and their history

What a map holds is told by the operations that led to it. Under a key there is the value of the last operation that
concerned the key, if it set one. The keys stand in the order in which they were inserted: a key was inserted by the
first operation that set it since it was last taken out, and it is the item of that operation that is stored, whatever
equal items were used for it later.

* `MapOperation`, `MapOperation.run`: operations and histories.
* `lastValue?`, `insertions`: what is read off a history, with `lastValue?_concat` and `insertions_concat`.
* `Heap.Records`: a map holds what its history says; `Heap.Records.apply` for one operation and
  `Heap.records_run` for all of them.
* `Heap.map_refines_history`: maps as they are seen through their operations.
-/

namespace ScriptMachine

/-! ## Histories -/

/-- An operation that changes a map. -/
inductive MapOperation where
  /-- Sets the value of a key. -/
  | set (key : Key) (value : Item)
  /-- Takes out a key. -/
  | remove (key : Key)
  /-- Takes out all keys. -/
  | clear

namespace MapOperation

/-- An operation on the map in a cell. -/
def apply (h : Heap) (id : Nat) : MapOperation → Heap
  | set key value => h.mapSet id key.item value
  | remove key => (h.mapRemove id key.item).2
  | clear => h.clear id

/-- Operations on the map in a cell, the first one first. -/
def run (h : Heap) (id : Nat) (ops : List MapOperation) : Heap := ops.foldl (fun h op => op.apply h id) h

/-- Whether an operation sets a key or takes it out. -/
def concerns (key : Key) : MapOperation → Bool
  | set other _ | remove other => other.equal key
  | clear => true

/-- Whether an operation takes out a key. -/
def removes (key : Key) : MapOperation → Bool
  | set .. => false
  | remove other => other.equal key
  | clear => true

/-- The value that an operation sets. -/
def value? : MapOperation → Option Item
  | set _ value => some value
  | _ => none

end MapOperation

open MapOperation

/-- The value that a history leaves under a key: the one that the last operation on the key has set. -/
def lastValue? (ops : List MapOperation) (key : Key) : Option Item :=
  (ops.reverse.find? (·.concerns key)).bind value?

/-- The keys that a history leaves, in the order of insertion. A key that is set and not taken out later comes before
the keys that are inserted later; the same key set again is not inserted. -/
def insertions : List MapOperation → List Key
  | [] => []
  | .set key _ :: later =>
    if later.any (·.removes key) then insertions later
    else key :: (insertions later).filter fun other => !other.equal key
  | _ :: later => insertions later

variable {ops : List MapOperation} {op : MapOperation} {key other : Key} {value : Item}

/-- One more operation decides about the keys that it concerns. -/
theorem lastValue?_concat (ops : List MapOperation) (op : MapOperation) (key : Key) :
    lastValue? (ops ++ [op]) key = if op.concerns key then op.value? else lastValue? ops key := by
  unfold lastValue?
  rw [List.reverse_append, List.reverse_singleton, List.singleton_append, List.find?_cons]
  cases op.concerns key <;> rfl

/-- Equal keys have the same value. -/
theorem lastValue?_congr (hkey : key.equal other = true) : lastValue? ops key = lastValue? ops other := by
  have hconcerns : ∀ op : MapOperation, op.concerns key = op.concerns other := by
    rintro (_ | _ | _)
    · exact Key.equal_congr hkey _
    · exact Key.equal_congr hkey _
    · rfl
  simp only [lastValue?, hconcerns]

/-- Leaving out the keys equal to one of two equal keys leaves out those equal to the other one. -/
theorem filter_filter_of_equal (hkey : key.equal other = true) (keys : List Key) :
    (keys.filter fun k => !k.equal key).filter (fun k => !k.equal other) = keys.filter fun k => !k.equal other := by
  rw [List.filter_filter]
  refine List.filter_congr fun k _ => ?_
  rw [Key.equal_congr hkey, Bool.and_self]

/-- Leaving out the keys equal to another key does not matter to the search for a key. -/
theorem any_filter_of_not_equal (hkey : other.equal key = false) (keys : List Key) :
    (keys.filter fun k => !k.equal other).any (·.equal key) = keys.any (·.equal key) := by
  rw [List.any_filter]
  congr 1
  funext k
  cases hk : k.equal key with
  | false => rw [Bool.and_false]
  | true =>
    have hdiffers : k.equal other = false := by rw [Key.equal_comm, Key.equal_congr hk, hkey]
    rw [hdiffers]
    rfl

/-- **The keys after one more operation.** A key that is set goes to the end, unless it is there. -/
theorem insertions_concat (ops : List MapOperation) (op : MapOperation) :
    insertions (ops ++ [op]) =
      match op with
      | .set key _ => if (insertions ops).any (·.equal key) then insertions ops else insertions ops ++ [key]
      | .remove key => (insertions ops).filter fun other => !other.equal key
      | .clear => [] := by
  induction ops with
  | nil => cases op <;> rfl
  | cons first later ih =>
    cases first with
    | remove _ => exact ih
    | clear => exact ih
    | set old _ =>
      rw [List.cons_append, insertions, List.any_append, ih, insertions]
      -- A key that is taken out later plays no part.
      by_cases hremoved : later.any (·.removes old) = true
      · rw [if_pos hremoved, hremoved]
        rfl
      rw [Bool.not_eq_true] at hremoved
      rw [hremoved, if_neg Bool.false_ne_true]
      cases op with
      | clear => rfl
      | set key value =>
        rw [if_neg (by simp [removes])]
        dsimp only
        cases hkey : old.equal key with
        | true =>
          have hsame : key.equal old = true := by rw [Key.equal_comm, hkey]
          split <;> simp [hkey, hsame]
        | false =>
          have hdiffers : key.equal old = false := by rw [Key.equal_comm, hkey]
          rw [List.any_cons, hkey, Bool.false_or, any_filter_of_not_equal hkey]
          split <;> simp [hdiffers]
      | remove key =>
        dsimp only
        rw [List.filter_cons]
        cases hkey : old.equal key with
        | true =>
          have hsame : key.equal old = true := by rw [Key.equal_comm, hkey]
          rw [if_pos (by simp [removes, hsame]), if_neg (by simp), filter_filter_of_equal hkey]
        | false =>
          have hdiffers : key.equal old = false := by rw [Key.equal_comm, hkey]
          rw [if_neg (by simp [removes, hdiffers]), Bool.not_false, if_pos rfl, List.filter_comm]

/-- **No two keys of a history are equal.** -/
theorem pairwise_insertions (ops : List MapOperation) :
    (insertions ops).Pairwise fun a b => a.equal b = false := by
  induction ops with
  | nil => exact .nil
  | cons op later ih =>
    cases op with
    | remove _ => exact ih
    | clear => exact ih
    | set key _ =>
      rw [insertions]
      split
      · exact ih
      · refine List.pairwise_cons.2 ⟨fun other hother => ?_, ih.filter _⟩
        rw [Key.equal_comm]
        simpa using (List.mem_filter.1 hother).2

/-- A key with a value was inserted, or an equal one was. -/
theorem exists_insertion (hvalue : lastValue? ops key = some value) : ∃ k ∈ insertions ops, k.equal key = true := by
  induction ops using List.reverseRecOn with
  | nil => cases hvalue
  | append_singleton ops op ih =>
    rw [lastValue?_concat] at hvalue
    rw [insertions_concat]
    cases op with
    | clear => cases hvalue
    | set other v =>
      dsimp only
      split at hvalue
      · rename_i hequal
        -- The key that was set is there now, or an equal one was there before.
        split
        · rename_i hany
          obtain ⟨k, hk, hequal'⟩ := List.any_eq_true.1 hany
          exact ⟨k, hk, (Key.equal_congr hequal k) ▸ hequal'⟩
        · exact ⟨other, List.mem_append_right _ List.mem_cons_self, hequal⟩
      · obtain ⟨k, hk, hequal⟩ := ih hvalue
        split
        · exact ⟨k, hk, hequal⟩
        · exact ⟨k, List.mem_append_left _ hk, hequal⟩
    | remove other =>
      split at hvalue
      · cases hvalue
      · rename_i hconcerns
        obtain ⟨k, hk, hequal⟩ := ih hvalue
        refine ⟨k, List.mem_filter.2 ⟨hk, ?_⟩, hequal⟩
        have hother : other.equal key = false := by simpa [concerns] using hconcerns
        rw [Key.equal_comm, Key.equal_congr hequal, hother]
        rfl

/-- Taking out the first key that equals another one leaves all that do not equal it, if no two keys are equal. -/
theorem eraseP_eq_filter {keys : List Key} (hkeys : keys.Pairwise fun a b => a.equal b = false) (key : Key) :
    keys.eraseP (·.equal key) = keys.filter fun k => !k.equal key := by
  induction hkeys with
  | nil => rfl
  | @cons k rest hk _ ih =>
    cases hequal : k.equal key with
    | false => rw [List.eraseP_cons_of_neg (by simp [hequal]), List.filter_cons_of_pos (by simp [hequal]), ih]
    | true =>
      have hrest : ∀ other ∈ rest, (!other.equal key) = true := by
        intro other hother
        rw [← Key.equal_congr hequal, Key.equal_comm, hk other hother]
        rfl
      rw [List.eraseP_cons_of_pos (by exact hequal), List.filter_cons_of_neg (by simp [hequal]),
        List.filter_eq_self.2 hrest]

/-- Changing an element and then reading all of them is reading them and then making the change that it amounts to. -/
theorem map_modify {α β : Type} {f : α → β} {g : α → α} {g' : β → β} (hread : ∀ x, f (g x) = g' (f x)) (xs : List α)
    (i : Nat) : (xs.modify i g).map f = (xs.map f).modify i g' := by
  induction xs generalizing i with
  | nil => cases i <;> rfl
  | cons x xs ih =>
    cases i with
    | zero => simp [hread]
    | succ i => simp [ih]

namespace Heap

variable {h : Heap} {id i : Nat} {entries : List (Key × Item)}

/-- An entry as it stands in a map. -/
def storedEntry (entry : Key × Item) : Item × Item := (entry.1.item, entry.2)

/-- **The map in a cell holds what its history says**: its entries have the inserted keys in their order, each one with
the value that it was given last. -/
structure Records (h : Heap) (id : Nat) (ops : List MapOperation) (entries : List (Key × Item)) : Prop where
  /-- The cell. -/
  cell : h.cells[id]? = some (.map (entries.map storedEntry))
  /-- The keys. -/
  keys : entries.map Prod.fst = insertions ops
  /-- The values. -/
  values : ∀ entry ∈ entries, lastValue? ops entry.1 = some entry.2

namespace Records

/-- The cell exists. -/
theorem lt_size (hr : h.Records id ops entries) : id < h.size := (Array.getElem?_eq_some_iff.1 hr.cell).1

/-- The entries of the map. -/
theorem entries_eq (hr : h.Records id ops entries) : h.entries id = entries.map storedEntry := by
  rw [Heap.entries, hr.cell]

/-- The place of a key. -/
theorem keyIndex?_eq (hr : h.Records id ops entries) (key : Key) :
    h.keyIndex? id key.item = (insertions ops).findIdx? (·.equal key) := by
  rw [keyIndex?, hr.entries_eq, ← hr.keys, List.findIdx?_map, List.findIdx?_map]
  exact congrArg (List.findIdx? · _) (funext fun entry => Key.equals_eq_equal h entry.1 key)

/-- The keys of the map. -/
theorem mapKeys_eq (hr : h.Records id ops entries) : h.mapKeys id = (insertions ops).map Key.item := by
  rw [mapKeys, hr.entries_eq, ← hr.keys, List.map_map, List.map_map]
  rfl

/-- The values of the map. -/
theorem mapValues_eq (hr : h.Records id ops entries) : h.mapValues id = entries.map Prod.snd := by
  rw [mapValues, hr.entries_eq, List.map_map]
  rfl

/-- Where a key is found, there is an entry with an equal key. -/
theorem exists_entry (hr : h.Records id ops entries) (hindex : h.keyIndex? id key.item = some i) :
    ∃ hi : i < entries.length, entries[i].1.equal key = true := by
  rw [hr.keyIndex?_eq, ← hr.keys, List.findIdx?_map] at hindex
  obtain ⟨hi, hequal, -⟩ := List.findIdx?_eq_some_iff_getElem.1 hindex
  exact ⟨hi, hequal⟩

/-- A key that is not found was not inserted. -/
theorem not_inserted (hr : h.Records id ops entries) (hindex : h.keyIndex? id key.item = none) :
    ∀ k ∈ insertions ops, k.equal key = false := by
  rw [hr.keyIndex?_eq, List.findIdx?_eq_none_iff] at hindex
  exact hindex

/-- Equal keys are at one place. -/
theorem place_unique (hr : h.Records id ops entries) {j : Nat} (hi : i < entries.length) (hj : j < entries.length)
    (hequal : entries[i].1.equal entries[j].1 = true) : i = j := by
  have hpairs : entries.Pairwise fun a b => a.1.equal b.1 = false := by
    have hkeys := pairwise_insertions ops
    rw [← hr.keys, List.pairwise_map] at hkeys
    exact hkeys
  rw [List.pairwise_iff_getElem] at hpairs
  obtain hlt | heq | hgt := Nat.lt_trichotomy i j
  · rw [hpairs i j hi hj hlt] at hequal
    cases hequal
  · exact heq
  · rw [Key.equal_comm, hpairs j i hj hi hgt] at hequal
    cases hequal

/-- A key that the map has is not inserted again. -/
theorem insertions_set_known (hr : h.Records id ops entries) (hindex : h.keyIndex? id key.item = some i)
    (value : Item) : insertions (ops ++ [.set key value]) = insertions ops := by
  obtain ⟨hi, hequal⟩ := hr.exists_entry hindex
  have hany : (insertions ops).any (·.equal key) = true := by
    refine List.any_eq_true.2 ⟨entries[i].1, ?_, hequal⟩
    rw [← hr.keys]
    exact List.mem_map_of_mem (List.getElem_mem hi)
  rw [insertions_concat]
  dsimp only
  rw [if_pos hany]

/-- **Setting a key that the map has** replaces its value; the key stays as it is. -/
theorem set_known (hr : h.Records id ops entries) (hindex : h.keyIndex? id key.item = some i) (value : Item) :
    (h.mapSet id key.item value).Records id (ops ++ [.set key value])
      (entries.modify i fun entry => (entry.1, value)) := by
  obtain ⟨hi, hequal⟩ := hr.exists_entry hindex
  have hkeys : (entries.modify i fun entry => (entry.1, value)).map Prod.fst = insertions ops := by
    have hread : (entries.modify i fun entry => (entry.1, value)).map Prod.fst =
        (entries.map Prod.fst).modify i fun k => k := map_modify (fun _ => by rfl) entries i
    rw [hread, ← hr.keys]
    exact List.modify_id i _
  refine ⟨?_, ?_, fun entry hentry => ?_⟩
  · have hread : (entries.modify i fun entry => (entry.1, value)).map storedEntry =
        (entries.map storedEntry).modify i fun entry => (entry.1, value) := map_modify (fun _ => by rfl) entries i
    rw [mapSet_of_known hindex, cells_setEntries_self hr.lt_size, hr.entries_eq, hread]
  · rw [hkeys, hr.insertions_set_known hindex value]
  · obtain ⟨j, hj, rfl⟩ := List.mem_iff_getElem.1 hentry
    rw [List.length_modify] at hj
    rw [lastValue?_concat, List.getElem_modify]
    by_cases hij : i = j
    · subst hij
      rw [if_pos rfl, if_pos (by rw [concerns, Key.equal_comm]; exact hequal)]
      rfl
    · have hother : ¬ concerns entries[j].1 (.set key value) = true := by
        intro hconcerns
        exact hij (hr.place_unique hi hj ((Key.equal_congr hconcerns _).symm.trans hequal))
      rw [if_neg hij, if_neg hother]
      exact hr.values _ (List.getElem_mem hj)

/-- **Setting a key that is new** adds it at the end. -/
theorem set_new (hr : h.Records id ops entries) (hindex : h.keyIndex? id key.item = none) (value : Item) :
    (h.mapSet id key.item value).Records id (ops ++ [.set key value]) (entries ++ [(key, value)]) := by
  have hnew := hr.not_inserted hindex
  refine ⟨?_, ?_, fun entry hentry => ?_⟩
  · rw [mapSet_of_new hindex, cells_setEntries_self hr.lt_size, hr.entries_eq, List.map_append]
    rfl
  · have hany : ¬ (insertions ops).any (·.equal key) = true := by
      rw [List.any_eq_true]
      rintro ⟨k, hk, hequal⟩
      rw [hnew k hk] at hequal
      cases hequal
    rw [insertions_concat, List.map_append, hr.keys]
    dsimp only
    rw [if_neg hany]
    rfl
  · rw [lastValue?_concat]
    rcases List.mem_append.1 hentry with hentry | hentry
    · have hdiffers : key.equal entry.1 = false := by
        rw [Key.equal_comm]
        refine hnew entry.1 ?_
        rw [← hr.keys]
        exact List.mem_map_of_mem hentry
      rw [if_neg (by simp [concerns, hdiffers])]
      exact hr.values entry hentry
    · rw [List.mem_singleton.1 hentry]
      exact if_pos (Key.equal_self key)

/-- **Taking out a key** leaves the entries whose keys are not equal to it. -/
theorem remove (hr : h.Records id ops entries) (key : Key) :
    ∃ entries', (h.mapRemove id key.item).2.Records id (ops ++ [.remove key]) entries' := by
  have hkeys := insertions_concat ops (.remove key)
  have hvalues : ∀ entries' : List (Key × Item), entries' ⊆ entries →
      entries'.map Prod.fst = (insertions ops).filter (fun k => !k.equal key) →
      ∀ entry ∈ entries', lastValue? (ops ++ [.remove key]) entry.1 = some entry.2 := by
    intro entries' hsub hleft entry hentry
    have hmem := List.mem_map_of_mem (f := Prod.fst) hentry
    rw [hleft, List.mem_filter, Bool.not_eq_true', Key.equal_comm] at hmem
    rw [lastValue?_concat, if_neg (by simp [concerns, hmem.2])]
    exact hr.values entry (hsub hentry)
  unfold mapRemove
  dsimp only
  cases hindex : h.keyIndex? id key.item with
  | some i =>
    have hleft : (entries.eraseIdx i).map Prod.fst = (insertions ops).filter (fun k => !k.equal key) := by
      rw [hr.keyIndex?_eq] at hindex
      rw [← List.eraseIdx_map, hr.keys, ← eraseP_eq_filter (pairwise_insertions ops), List.eraseP_eq_eraseIdx, hindex]
    refine ⟨entries.eraseIdx i, ?_, hleft.trans hkeys.symm, hvalues _ (List.eraseIdx_subset ..) hleft⟩
    rw [cells_setEntries_self hr.lt_size, hr.entries_eq, List.eraseIdx_map]
  | none =>
    have hleft : entries.map Prod.fst = (insertions ops).filter (fun k => !k.equal key) := by
      rw [hr.keys, List.filter_eq_self.2 fun k hk => by rw [hr.not_inserted hindex k hk]; rfl]
    exact ⟨entries, hr.cell, hleft.trans hkeys.symm, hvalues _ (List.Subset.refl _) hleft⟩

/-- **One operation.** -/
theorem apply (hr : h.Records id ops entries) (op : MapOperation) :
    ∃ entries', (op.apply h id).Records id (ops ++ [op]) entries' := by
  cases op with
  | set key value =>
    cases hindex : h.keyIndex? id key.item with
    | some i => exact ⟨_, hr.set_known hindex value⟩
    | none => exact ⟨_, hr.set_new hindex value⟩
  | remove key => exact hr.remove key
  | clear =>
    refine ⟨[], ?_, (insertions_concat ops .clear).symm, fun _ hentry => absurd hentry List.not_mem_nil⟩
    show (h.clear id).cells[id]? = some (.map [])
    unfold clear
    rw [hr.cell]
    exact cells_setEntries_self hr.lt_size

/-- **The value under a key** is the last one that it was given. -/
theorem mapGet?_eq (hr : h.Records id ops entries) (key : Key) : h.mapGet? id key.item = lastValue? ops key := by
  unfold mapGet?
  cases hindex : h.keyIndex? id key.item with
  | some i =>
    obtain ⟨hi, hequal⟩ := hr.exists_entry hindex
    dsimp only
    rw [hr.entries_eq, List.getElem?_map, List.getElem?_eq_getElem hi, ← lastValue?_congr hequal,
      hr.values _ (List.getElem_mem hi)]
    rfl
  | none =>
    refine (Option.eq_none_iff_forall_ne_some.2 fun value hvalue => ?_).symm
    obtain ⟨k, hk, hequal⟩ := exists_insertion hvalue
    rw [hr.not_inserted hindex k hk] at hequal
    cases hequal

end Records

/-- **A history of operations** on a map that is empty at first. -/
theorem records_run (hempty : h.cells[id]? = some (.map [])) (ops : List MapOperation) :
    ∃ entries, (run h id ops).Records id ops entries := by
  induction ops using List.reverseRecOn with
  | nil => exact ⟨[], hempty, rfl, fun _ hentry => absurd hentry List.not_mem_nil⟩
  | append_singleton ops op ih =>
    obtain ⟨entries, hr⟩ := ih
    rw [run, List.foldl_append]
    exact hr.apply op

/-! ## Maps -/

/-- A map has the keys that it has values for. -/
theorem mapHas_eq_isSome (h : Heap) (id : Nat) (key : Item) : h.mapHas id key = (h.mapGet? id key).isSome := by
  unfold mapHas mapGet?
  cases hindex : h.keyIndex? id key with
  | none => rfl
  | some i =>
    dsimp only
    rw [List.getElem?_eq_getElem (lt_of_keyIndex? hindex)]
    rfl

/-- Taking out a key hands out its value. -/
theorem mapRemove_fst (h : Heap) (id : Nat) (key : Item) : (h.mapRemove id key).1 = h.mapGet? id key := by
  unfold mapRemove mapGet?
  dsimp only
  split <;> rfl

/-- **The keys and the values of a map correspond.** -/
theorem Records.map_mapGet? (hr : h.Records id ops entries) :
    (h.mapKeys id).map (h.mapGet? id) = (h.mapValues id).map some := by
  rw [hr.mapKeys_eq, hr.mapValues_eq, ← hr.keys, List.map_map, List.map_map, List.map_map]
  refine List.map_congr_left fun entry hentry => ?_
  exact (hr.mapGet?_eq entry.1).trans (hr.values entry hentry)

/-- **No two keys of a map are equal.** -/
theorem Records.pairwise_mapKeys (hr : h.Records id ops entries) :
    (h.mapKeys id).Pairwise fun a b => h.equals a b = false := by
  rw [hr.mapKeys_eq, List.pairwise_map]
  refine (pairwise_insertions ops).imp fun {a b} hdiffers => ?_
  rw [Key.equals_eq_equal, hdiffers]

/-- **Maps are finite maps over equality of keys, in the order of insertion.** After any operations on a map that was
empty at first, its keys are different from each other, there is a value under a key if and only if the map has it, and
it is the one that the last operation on an equal key has set. Taking out a key hands out its value and leaves the other
keys with their values in their order; setting a key that the map has leaves all keys as they are, and changes the value
at its place only. The keys stand in the order of their insertion, as the items with which they were inserted, and the
values correspond to them. Keys of different kinds are equal if their byte views are, which is an equivalence. -/
theorem map_refines_history (hempty : h.cells[id]? = some (.map [])) (ops : List MapOperation) :
    let m := run h id ops
    ((∀ a b : Key, m.equals a.item b.item = a.equal b) ∧ Equivalence fun a b : Key => a.equal b = true) ∧
    (m.mapKeys id).Pairwise (fun a b => m.equals a b = false) ∧
    (∀ key : Key, m.mapGet? id key.item = lastValue? ops key ∧
      m.mapHas id key.item = (m.mapGet? id key.item).isSome) ∧
    (∀ key : Key, (m.mapRemove id key.item).1 = m.mapGet? id key.item ∧
      (m.mapRemove id key.item).2.mapKeys id = (m.mapKeys id).filter (fun k => !m.equals k key.item) ∧
      ∀ other : Key, other.equal key = false →
        (m.mapRemove id key.item).2.mapGet? id other.item = m.mapGet? id other.item) ∧
    (∀ (key : Key) (value : Item) (i : Nat), m.keyIndex? id key.item = some i →
      (m.mapSet id key.item value).mapKeys id = m.mapKeys id ∧
      (m.mapSet id key.item value).mapValues id = (m.mapValues id).set i value) ∧
    m.mapKeys id = (insertions ops).map Key.item ∧
    (m.mapKeys id).map (m.mapGet? id) = (m.mapValues id).map some := by
  intro m
  obtain ⟨entries, hr⟩ : ∃ entries, m.Records id ops entries := records_run hempty ops
  refine ⟨⟨Key.equals_eq_equal m, Key.equal_equivalence⟩, hr.pairwise_mapKeys, fun key => ?_, fun key => ?_,
    fun key value i hindex => ?_, hr.mapKeys_eq, hr.map_mapGet?⟩
  · exact ⟨hr.mapGet?_eq key, mapHas_eq_isSome m id key.item⟩
  · obtain ⟨entries', hr'⟩ := hr.remove key
    refine ⟨mapRemove_fst m id key.item, ?_, fun other hdiffers => ?_⟩
    · have hequal : ((fun k => !m.equals k key.item) ∘ Key.item) = fun k => !k.equal key :=
        funext fun k => congrArg not (Key.equals_eq_equal m k key)
      rw [hr'.mapKeys_eq, insertions_concat, hr.mapKeys_eq, List.filter_map, hequal]
    · rw [hr'.mapGet?_eq, hr.mapGet?_eq, lastValue?_concat, if_neg]
      rw [concerns, Key.equal_comm, hdiffers]
      exact Bool.false_ne_true
  · have hr' := hr.set_known hindex value
    have hread : (entries.modify i fun entry => (entry.1, value)).map Prod.snd =
        (entries.map Prod.snd).modify i fun _ => value := map_modify (fun _ => by rfl) entries i
    constructor
    · rw [hr'.mapKeys_eq, hr.insertions_set_known hindex value, hr.mapKeys_eq]
    · rw [hr'.mapValues_eq, hr.mapValues_eq, hread, List.set_eq_modify]

/-- A history with keys of all kinds. The number 1 stays when it is set again as `true` and gets the new value; the
number 0 is taken out as `false`, and inserted again, as an empty byte string, after the handle. -/
theorem map_refines_history_kinds :
    let key (x : Item) (hx : x.isCompound = false) (hx' : x.Canonical) : Key := ⟨x, hx, hx'⟩
    let one := key (.integer .one) rfl Integer.canonical_one
    let zero := key (.integer .zero) rfl fun h => by cases h
    let ops : List MapOperation :=
      [.set one (.array 1), .set zero (.array 2), .set (key (.boolean true) rfl trivial) (.array 3),
        .set (key (.interop 5 #[]) rfl trivial) (.array 4), .remove (key (.boolean false) rfl trivial),
        .set (key (.bytes 6 #[]) rfl trivial) (.array 5)]
    let h : Heap := { cells := #[.map []] }
    let m := run h 0 ops
    h.cells[0]? = some (.map []) ∧ m.mapKeys 0 = [.integer .one, .interop 5 #[], .bytes 6 #[]] ∧
      m.mapGet? 0 (.integer .one) = some (.array 3) ∧ m.mapGet? 0 (.integer .zero) = some (.array 5) := by
  intro key one zero ops h m
  have hempty : h.cells[0]? = some (.map []) := rfl
  obtain ⟨-, -, hvalues, -, -, hkeys, -⟩ := map_refines_history hempty ops
  refine ⟨hempty, hkeys.trans ?_, (hvalues one).1.trans ?_, (hvalues zero).1.trans ?_⟩ <;> decide

end Heap

end ScriptMachine
