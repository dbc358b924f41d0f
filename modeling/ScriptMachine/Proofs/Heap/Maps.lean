import ScriptMachine.Proofs.Heap.References
import ScriptMachine.Proofs.ItemEquality

/-! # Maps

A map finds a key by equality. Keys are no containers, so that they are compared by what they are and not by what
the heap holds; setting a value leaves the keys in their places, and the value is found under its key.

* `Heap.equals_key`: equality of keys.
* `Heap.mapGet?_mapSet`: the value that was set.
* `Heap.mapSet_of_new`: a new key goes to the end.
* `Heap.countP_held_mapSet`: what a map holds after its value was set.
-/

namespace ScriptMachine

namespace Heap

variable {h : Heap} {id i : Nat} {key value x : Item} {entries : List (Item × Item)}

/-- A key is compared in the same way in all heaps. -/
theorem equals_key (hkey : key.isCompound = false) : h.equals x key = x.same key := by
  cases key with
  | array _ | struct _ | map _ => cases hkey
  | _ => cases x <;> rfl

/-- The entries of a map after they were replaced. -/
theorem cells_setEntries_self (hid : id < h.size) :
    (h.setEntries id entries).cells[id]? = some (.map entries) := by
  have hin : id < h.cells.size := hid
  unfold setEntries
  rw [Array.getElem?_setIfInBounds, if_pos rfl, if_pos hin]

/-- Replacing the entries of a map. -/
theorem entries_setEntries_self (hid : id < h.size) : (h.setEntries id entries).entries id = entries := by
  rw [Heap.entries, cells_setEntries_self hid]

/-- Replacing the entries replaces what the map holds. -/
theorem held_setEntries_self (hid : id < h.size) :
    (h.setEntries id entries).held id = entries.flatMap fun entry => [entry.1, entry.2] := by
  rw [held, cells_setEntries_self hid]

/-- The place of a key depends on the keys only. -/
theorem keyIndex?_eq (hkey : key.isCompound = false) :
    h.keyIndex? id key = ((h.entries id).map Prod.fst).findIdx? (·.same key) := by
  rw [keyIndex?, List.findIdx?_map]
  exact congrArg (List.findIdx? · _) (funext fun entry => equals_key hkey)

/-- Setting a value leaves the keys in their places. -/
theorem keys_modify (entries : List (Item × Item)) (i : Nat) (value : Item) :
    (entries.modify i fun entry => (entry.1, value)).map Prod.fst = entries.map Prod.fst := by
  refine List.ext_getElem? fun j => ?_
  rw [List.getElem?_map, List.getElem?_map, List.getElem?_modify]
  cases entries[j]? with
  | none => rfl
  | some entry =>
    show some (if i = j then (entry.1, value) else entry).1 = some entry.1
    split <;> rfl

/-- The place of a key is one of the entries. -/
theorem lt_of_keyIndex? (hindex : h.keyIndex? id key = some i) : i < (h.entries id).length :=
  (List.findIdx?_eq_some_iff_getElem.1 hindex).1

/-- A new key goes to the end, with its value. -/
theorem mapSet_of_new (hnew : h.keyIndex? id key = none) :
    h.mapSet id key value = h.setEntries id (h.entries id ++ [(key, value)]) := by
  unfold mapSet
  rw [hnew]

/-- A known key keeps its place. -/
theorem mapSet_of_known (hknown : h.keyIndex? id key = some i) :
    h.mapSet id key value = h.setEntries id ((h.entries id).modify i fun entry => (entry.1, value)) := by
  unfold mapSet
  rw [hknown]

/-- **The value that was set** is found under its key. -/
theorem mapGet?_mapSet (hid : id < h.size) (hkey : key.isCompound = false) :
    (h.mapSet id key value).mapGet? id key = some value := by
  unfold mapGet?
  rw [keyIndex?_eq hkey]
  cases hindex : h.keyIndex? id key with
  | some i =>
    have hlt := lt_of_keyIndex? hindex
    rw [mapSet_of_known hindex, entries_setEntries_self hid, keys_modify, ← keyIndex?_eq hkey, hindex]
    dsimp only
    rw [List.getElem?_modify_eq, List.getElem?_eq_getElem hlt]
    rfl
  | none =>
    have hnone := hindex
    rw [keyIndex?_eq hkey] at hnone
    rw [mapSet_of_new hindex, entries_setEntries_self hid, List.map_append, List.findIdx?_append, hnone]
    simp [Item.same_refl (Item.ne_struct hkey)]

/-- What a map holds after a value was set, if none of it counts before, and the key does not count. -/
theorem countP_held_mapSet (p : Item → Bool) (hid : id < h.size) (hnone : ∀ x ∈ h.held id, ¬ p x = true)
    (hkey : ¬ p key = true) :
    ((h.mapSet id key value).held id).countP p = [value].countP p := by
  have hold : ∀ entry ∈ h.entries id, ([entry.1, entry.2] : List Item).countP p = 0 := by
    intro entry hentry
    obtain ⟨hfirst, hsecond⟩ := mem_held_of_mem_entries hentry
    simp [hnone _ hfirst, hnone _ hsecond]
  have hzero : ∀ entries, entries ⊆ h.entries id →
      (entries.flatMap fun entry => [entry.1, entry.2]).countP p = 0 := by
    intro entries hsub
    rw [List.countP_eq_zero]
    intro x hx
    obtain ⟨entry, hentry, hx⟩ := List.mem_flatMap.1 hx
    exact List.countP_eq_zero.1 (hold entry (hsub hentry)) x hx
  cases hindex : h.keyIndex? id key with
  | some i =>
    have hlt := lt_of_keyIndex? hindex
    have hfirst := hnone _ (mem_held_of_mem_entries (List.getElem_mem hlt)).1
    rw [mapSet_of_known hindex, held_setEntries_self hid, List.modify_eq_take_cons_drop hlt, List.flatMap_append,
      List.flatMap_cons, List.countP_append, List.countP_append, hzero _ (List.take_subset _ _),
      hzero _ (List.drop_subset _ _), List.countP_cons_of_neg hfirst, Nat.zero_add, Nat.add_zero]
  | none =>
    rw [mapSet_of_new hindex, held_setEntries_self hid, List.flatMap_append, List.countP_append,
      hzero _ (List.Subset.refl _), List.flatMap_cons, List.flatMap_nil, List.append_nil,
      List.countP_cons_of_neg hkey, Nat.zero_add]

end Heap

end ScriptMachine
