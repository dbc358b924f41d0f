import ScriptMachine.Proofs.Heap.Finite
import ScriptMachine.Proofs.Integer.Decimal
import ScriptMachine.Proofs.Numbers
import ScriptMachine.Runner.Report

/-! # What a report tells

An item is shown level by level, down to a greatest depth, so that showing it comes to an end also if it contains
itself. An item of which nothing lies deeper is shown as a whole: its kind, value and elements can be read off, so that
two such items are shown alike exactly if they unfold to the same tree. Which objects they are does not matter.

* `Heap.SameUnfolding`: items that unfold to the same tree, without end maybe.
* `Heap.HeldAt`, `Heap.NestedWithin`: how deep an item lies inside of another one.
* `Report.Rendered`, `Report.Rendered.eq`, `Report.rendered_itemWithin`: showing an item level by level, and its end.
* `Bytes.toHex_inj`, `ItemKind.name_inj`: bytes and kinds by their texts.
* `Report.Alike.sameLevel`, `Report.itemWithin_eq_of_related`: items that are shown alike, and items that unfold alike.
* `Report.item_faithful`: reports as a whole.
-/

namespace ScriptMachine

/-! ## Unfoldings up to identity -/

namespace Heap

variable {g h : Heap} {x y z : Item} {depth : Nat}

/-- **Two items agree on one level**: they are of the same kind, with the same truth, number or bytes, or with as many
elements or entries, which are related in their order. Which objects they are does not matter. -/
inductive SameLevel (g h : Heap) (R : Item → Item → Prop) : Item → Item → Prop where
  /-- The same truth value. -/
  | boolean (b : Bool) : SameLevel g h R (.boolean b) (.boolean b)
  /-- The same number. -/
  | integer {v w : Integer} (hvalue : v.toInt = w.toInt) : SameLevel g h R (.integer v) (.integer w)
  /-- Byte strings of the same bytes. -/
  | bytes (i j : Nat) (data : Bytes) : SameLevel g h R (.bytes i data) (.bytes j data)
  /-- Handles with the same bytes. -/
  | interop (i j : Nat) (data : Bytes) : SameLevel g h R (.interop i data) (.interop j data)
  /-- Arrays, element for element. -/
  | array {a b : Nat} (hitems : List.Forall₂ R (g.items a) (h.items b)) : SameLevel g h R (.array a) (.array b)
  /-- Structs, element for element. -/
  | struct {a b : Nat} (hitems : List.Forall₂ R (g.items a) (h.items b)) : SameLevel g h R (.struct a) (.struct b)
  /-- Maps, entry for entry. -/
  | map {a b : Nat} (hentries : List.Forall₂ (fun e f => R e.1 f.1 ∧ R e.2 f.2) (g.entries a) (h.entries b)) :
    SameLevel g h R (.map a) (.map b)

/-- **Two items have the same unfolding**: they agree on one level, and so do the items inside of them, level by level
and without end. -/
def SameUnfolding (g h : Heap) (x y : Item) : Prop :=
  ∃ R : Item → Item → Prop, (∀ x y, R x y → g.SameLevel h R x y) ∧ R x y

/-- The item `y` lies inside of the item `x` at this depth: at depth zero there is the item itself, and the elements,
keys and values of a container lie one level deeper. -/
def HeldAt (h : Heap) : (depth : Nat) → Item → Item → Prop
  | 0, x, y => x = y
  | depth + 1, x, y => ∃ z, h.Holds x z ∧ h.HeldAt depth z y

/-- Nothing lies deeper inside of the item. -/
def NestedWithin (h : Heap) (depth : Nat) (x : Item) : Prop := ∀ d y, h.HeldAt d x y → d ≤ depth

/-- What a container holds is nested less deeply. -/
theorem NestedWithin.of_holds (hx : h.NestedWithin depth x) (hy : h.Holds x y) :
    ∃ less, depth = less + 1 ∧ h.NestedWithin less y := by
  obtain ⟨less, rfl⟩ : ∃ less, depth = less + 1 :=
    Nat.exists_eq_add_of_le' (hx 1 y ⟨y, hy, rfl⟩)
  exact ⟨less, rfl, fun d z hz => Nat.le_of_succ_le_succ (hx (d + 1) z ⟨y, hy, hz⟩)⟩

/-- All integers inside of the item are in their chosen representation. -/
def AllCanonical (h : Heap) (x : Item) : Prop := ∀ y, h.Comprises x y → y.Canonical

/-- The integers inside of a container are those inside of what it holds. -/
theorem AllCanonical.of_holds (hx : h.AllCanonical x) (hy : h.Holds x y) : h.AllCanonical y :=
  fun z hz => hx z (hz.head hy)

/-- The item itself is in its chosen representation. -/
theorem AllCanonical.self (hx : h.AllCanonical x) : x.Canonical := hx x .refl

/-- A container is nested one level deeper than what it holds. -/
theorem nested_of_holds (hx : x.Canonical)
    (hinside : ∀ y, h.Holds x y → h.NestedWithin depth y ∧ h.AllCanonical y) :
    h.NestedWithin (depth + 1) x ∧ h.AllCanonical x := by
  constructor
  · rintro (_ | d) z hz
    · exact Nat.zero_le _
    · obtain ⟨y, hy, hz⟩ := hz
      exact Nat.succ_le_succ ((hinside y hy).1 d z hz)
  · intro z hz
    obtain rfl | ⟨y, hy, hz⟩ := Relation.ReflTransGen.cases_head hz
    · exact hx
    · exact (hinside y hy).2 z hz

/-- What is no container holds nothing. -/
theorem nested_of_primitive (hx : x.Canonical) (hcell : x.cell? = none) :
    h.NestedWithin depth x ∧ h.AllCanonical x := by
  have hnone : ∀ y, ¬ h.Holds x y := by
    rintro y ⟨id, hid, -⟩
    rw [hcell] at hid
    cases hid
  have hinside : ∀ y, h.Holds x y → h.NestedWithin 0 y ∧ h.AllCanonical y := fun y hy => absurd hy (hnone y)
  refine ⟨?_, (nested_of_holds hx hinside).2⟩
  rintro (_ | d) z hz
  · exact Nat.zero_le _
  · obtain ⟨y, hy, -⟩ := hz
    exact absurd hy (hnone y)

/-- The elements of a list are held by it. -/
theorem holds_of_mem_items {id : Nat} (hx : x.listCell? = some id) (hy : y ∈ h.items id) : h.Holds x y := by
  unfold items at hy
  split at hy
  · exact (holds_list hx (by assumption)).2 hy
  · exact absurd hy List.not_mem_nil

/-- The keys and values of a map are held by it. -/
theorem holds_of_mem_entries {id : Nat} {entry : Item × Item} (hentry : entry ∈ h.entries id) :
    h.Holds (.map id) entry.1 ∧ h.Holds (.map id) entry.2 := by
  unfold entries at hentry
  split at hentry
  · exact ⟨(holds_map (by assumption)).2 ⟨entry, hentry, .inl rfl⟩,
      (holds_map (by assumption)).2 ⟨entry, hentry, .inr rfl⟩⟩
  · exact absurd hentry List.not_mem_nil

end Heap

/-! ## Texts of bytes and kinds -/

/-- Hexadecimal digits are told apart. -/
theorem Bytes.hexDigit_inj {m n : Nat} (hm : m < 16) (hn : n < 16) : hexDigit m = hexDigit n ↔ m = n := by
  have hall : ∀ a b : Fin 16, hexDigit a = hexDigit b → a = b := by decide
  exact ⟨fun heq => congrArg Fin.val (hall ⟨m, hm⟩ ⟨n, hn⟩ heq), congrArg hexDigit⟩

/-- **Byte strings are told apart by their hexadecimal texts.** -/
theorem Bytes.toHex_inj {a b : Bytes} : a.toHex = b.toHex ↔ a = b := by
  refine ⟨fun heq => ?_, congrArg toHex⟩
  rw [toHex, toHex, String.ofList_inj] at heq
  rw [← Array.toList_inj]
  generalize a.toList = xs at heq
  generalize b.toList = ys at heq
  -- Every byte takes two digits.
  induction xs generalizing ys with
  | nil =>
    cases ys with
    | nil => rfl
    | cons => cases heq
  | cons x xs ih =>
    cases ys with
    | nil => cases heq
    | cons y ys =>
      have hx := x.toNat_lt
      have hy := y.toNat_lt
      simp only [List.flatMap_cons, List.cons_append, List.nil_append, List.cons.injEq] at heq
      obtain ⟨hhigh, hlow, hrest⟩ := heq
      rw [hexDigit_inj (by omega) (by omega)] at hhigh hlow
      rw [ih _ hrest, UInt8.toNat_inj.1 (by omega : x.toNat = y.toNat)]

/-- Kinds are told apart by their names. -/
theorem ItemKind.name_inj {k l : ItemKind} : k.name = l.name ↔ k = l := by
  refine ⟨fun heq => ?_, congrArg name⟩
  revert heq
  cases k <;> cases l <;> decide

namespace Report

variable {g h : Heap} {x y : Item} {levels depth : Nat}

/-! ## Showing an item comes to an end -/

/-- A key and a value of a map. -/
def field (key value : Json) : Json := .object [("key", key), ("value", value)]

/-- **Showing an item at a depth comes to its end with this value.** Items at the greatest depth are shown by their
kind alone; before that, elements, keys and values are shown one level deeper. -/
inductive Rendered (h : Heap) : (depth : Nat) → Item → Json → Prop where
  /-- At the greatest depth. -/
  | elided {depth : Nat} {x : Item} (hdepth : maxNesting ≤ depth) : Rendered h depth x (tagged x .null)
  /-- A truth value. -/
  | boolean {depth : Nat} (hdepth : depth < maxNesting) (b : Bool) :
    Rendered h depth (.boolean b) (tagged (.boolean b) (.boolean b))
  /-- An integer, by its numeral. -/
  | integer {depth : Nat} (hdepth : depth < maxNesting) (v : Integer) :
    Rendered h depth (.integer v) (tagged (.integer v) (.text v.toDecimal))
  /-- A byte string, by its digits. -/
  | bytes {depth : Nat} (hdepth : depth < maxNesting) (i : Nat) (data : Bytes) :
    Rendered h depth (.bytes i data) (tagged (.bytes i data) (.text data.toHex))
  /-- A handle, by the digits of its bytes. -/
  | interop {depth : Nat} (hdepth : depth < maxNesting) (i : Nat) (data : Bytes) :
    Rendered h depth (.interop i data) (tagged (.interop i data) (.text data.toHex))
  /-- An array or a struct, element for element. -/
  | list {depth id : Nat} {x : Item} {shown : List Json} (hdepth : depth < maxNesting) (hx : x.listCell? = some id)
    (hlength : shown.length = (h.items id).length)
    (hitems : ∀ i (hi : i < (h.items id).length) (hi' : i < shown.length),
      Rendered h (depth + 1) (h.items id)[i] shown[i]) :
    Rendered h depth x (tagged x (.list shown))
  /-- A map, by its keys and values. -/
  | map {depth id : Nat} {keys values : List Json} (hdepth : depth < maxNesting)
    (hlength : keys.length = (h.entries id).length) (hlength' : values.length = (h.entries id).length)
    (hkeys : ∀ i (hi : i < (h.entries id).length) (hi' : i < keys.length),
      Rendered h (depth + 1) (h.entries id)[i].1 keys[i])
    (hvalues : ∀ i (hi : i < (h.entries id).length) (hi' : i < values.length),
      Rendered h (depth + 1) (h.entries id)[i].2 values[i]) :
    Rendered h depth (.map id) (tagged (.map id) (.list (List.zipWith field keys values)))

/-- A list is shown element for element. -/
theorem itemWithin_list {id : Nat} (hx : x.listCell? = some id) :
    itemWithin h (levels + 1) x = tagged x (.list ((h.items id).map (itemWithin h levels))) := by
  cases x with
  | array | struct =>
    cases hx
    rfl
  | _ => cases hx

/-- A map is shown entry for entry. -/
theorem itemWithin_map {id : Nat} :
    itemWithin h (levels + 1) (.map id) =
      tagged (.map id) (.list ((h.entries id).map fun entry =>
        field (itemWithin h levels entry.1) (itemWithin h levels entry.2))) := rfl

/-- **There is no other end** than the value that is shown with the levels that are left. -/
theorem Rendered.eq {shown : Json} (hshown : Rendered h depth x shown) :
    shown = itemWithin h (maxNesting - depth) x := by
  have hnext : ∀ {depth}, depth < maxNesting → maxNesting - depth = maxNesting - (depth + 1) + 1 := by
    intro depth hdepth
    omega
  induction hshown with
  | elided hdepth => rw [Nat.sub_eq_zero_of_le hdepth, itemWithin]
  | boolean hdepth _ | integer hdepth _ | bytes hdepth _ _ | interop hdepth _ _ =>
    rw [hnext hdepth]
    rfl
  | @list depth id x shown hdepth hx hlength _ ih =>
    rw [hnext hdepth, itemWithin_list hx]
    congr 2
    refine List.ext_getElem (by rw [hlength, List.length_map]) fun i hi hi' => ?_
    rw [List.getElem_map]
    exact ih i (hlength ▸ hi) hi
  | @map depth id keys values hdepth hlength hlength' _ _ hkeys hvalues =>
    rw [hnext hdepth, itemWithin_map]
    congr 2
    refine List.ext_getElem (by simp [hlength, hlength']) fun i hi hi' => ?_
    have hi₀ : i < (h.entries id).length := by simpa using hi'
    rw [List.getElem_zipWith, List.getElem_map, hkeys i hi₀ (hlength ▸ hi₀), hvalues i hi₀ (hlength' ▸ hi₀)]

/-- **Showing an item comes to an end** at every depth, on all heaps. -/
theorem rendered_itemWithin (levels : Nat) : ∀ depth x, maxNesting - depth = levels →
    Rendered h depth x (itemWithin h levels x) := by
  induction levels with
  | zero => exact fun depth x hdepth => .elided (Nat.le_of_sub_eq_zero hdepth)
  | succ levels ih =>
    intro depth x hlevels
    have hdepth : depth < maxNesting := by omega
    have hnext : maxNesting - (depth + 1) = levels := by omega
    have hlist : ∀ {id}, x.listCell? = some id → Rendered h depth x (itemWithin h (levels + 1) x) := by
      intro id hx
      rw [itemWithin_list hx]
      refine .list hdepth hx (List.length_map _) fun i hi hi' => ?_
      rw [List.getElem_map]
      exact ih _ _ hnext
    cases x with
    | boolean b => exact .boolean hdepth b
    | integer v => exact .integer hdepth v
    | bytes i data => exact .bytes hdepth i data
    | interop i data => exact .interop hdepth i data
    | array | struct => exact hlist rfl
    | map id =>
      -- Keys and values are shown one by one, and put together.
      have hzip : (h.entries id).map (fun entry => field (itemWithin h levels entry.1) (itemWithin h levels entry.2)) =
          List.zipWith field ((h.entries id).map fun entry => itemWithin h levels entry.1)
            ((h.entries id).map fun entry => itemWithin h levels entry.2) := by
        rw [List.zipWith_map, List.zipWith_self]
      rw [itemWithin_map, hzip]
      refine .map hdepth (List.length_map _) (List.length_map _) (fun i hi hi' => ?_) fun i hi hi' => ?_
      all_goals
        rw [List.getElem_map]
        exact ih _ _ hnext

/-! ## Items that are shown alike -/

/-- Kind and value are told apart. -/
theorem tagged_inj {v w : Json} : tagged x v = tagged y w ↔ x.kind = y.kind ∧ v = w := by
  rw [← ItemKind.name_inj]
  simp [tagged]

/-- Two lists that are shown alike have elements that are shown alike, in their order. -/
theorem forall₂_of_map_eq {α β : Type} {xs ys : List α} {f f' : α → β}
    (heq : xs.map f = ys.map f') : List.Forall₂ (fun x y => (x ∈ xs ∧ y ∈ ys) ∧ f x = f' y) xs ys := by
  rw [List.forall₂_iff_get]
  refine ⟨by simpa using congrArg List.length heq, fun i hi hi' => ⟨⟨List.get_mem _ _, List.get_mem _ _⟩, ?_⟩⟩
  have hget := List.getElem_of_eq heq (by simpa using hi : i < (xs.map f).length)
  simpa using hget

/-- Two items that are nested within the levels that are shown, and shown alike. -/
structure Alike (g h : Heap) (levels : Nat) (x y : Item) : Prop where
  /-- Nothing of the first item is elided. -/
  left : g.NestedWithin levels x ∧ g.AllCanonical x
  /-- Nothing of the second item is elided. -/
  right : h.NestedWithin levels y ∧ h.AllCanonical y
  /-- They are shown alike. -/
  shown : itemWithin g (levels + 1) x = itemWithin h (levels + 1) y

/-- Items inside of two such items, which are shown alike one level deeper. -/
theorem Alike.of_holds (hxy : Alike g h levels x y) {x' y' : Item} (hx : g.Holds x x') (hy : h.Holds y y')
    (hshown : itemWithin g levels x' = itemWithin h levels y') : ∃ levels, Alike g h levels x' y' := by
  obtain ⟨less, rfl, hx'⟩ := hxy.left.1.of_holds hx
  obtain ⟨less', hless, hy'⟩ := hxy.right.1.of_holds hy
  obtain rfl := Nat.succ.inj hless
  exact ⟨less, ⟨hx', hxy.left.2.of_holds hx⟩, ⟨hy', hxy.right.2.of_holds hy⟩, hshown⟩

/-- **Items that are shown alike agree on one level**, with what is inside shown alike again. -/
theorem Alike.sameLevel (hxy : Alike g h levels x y) :
    g.SameLevel h (fun x y => ∃ levels, Alike g h levels x y) x y := by
  have hkind : x.kind = y.kind := by
    have heq := hxy.shown
    unfold itemWithin at heq
    exact (tagged_inj.1 heq).1
  have hitems : ∀ {a b}, x.listCell? = some a → y.listCell? = some b →
      List.Forall₂ (fun x y => ∃ levels, Alike g h levels x y) (g.items a) (h.items b) := by
    intro a b ha hb
    have heq := hxy.shown
    rw [itemWithin_list ha, itemWithin_list hb, tagged_inj, Json.list.injEq] at heq
    refine (forall₂_of_map_eq heq.2).imp fun x' y' hinside => ?_
    exact hxy.of_holds (Heap.holds_of_mem_items ha hinside.1.1) (Heap.holds_of_mem_items hb hinside.1.2) hinside.2
  have hshown := hxy.shown
  cases x with
  | boolean a =>
    cases y <;> cases hkind
    cases (tagged_inj.1 hshown).2
    exact .boolean a
  | integer v =>
    cases y <;> cases hkind
    obtain rfl := (Integer.toDecimal_inj hxy.left.2.self hxy.right.2.self).1 (Json.text.inj (tagged_inj.1 hshown).2)
    exact .integer rfl
  | bytes i data =>
    cases y <;> cases hkind
    obtain rfl := Bytes.toHex_inj.1 (Json.text.inj (tagged_inj.1 hshown).2)
    exact .bytes i _ data
  | interop i data =>
    cases y <;> cases hkind
    obtain rfl := Bytes.toHex_inj.1 (Json.text.inj (tagged_inj.1 hshown).2)
    exact .interop i _ data
  | array a =>
    cases y <;> cases hkind
    exact .array (hitems rfl rfl)
  | struct a =>
    cases y <;> cases hkind
    exact .struct (hitems rfl rfl)
  | map a =>
    cases y <;> cases hkind
    rename_i b
    rw [itemWithin_map, itemWithin_map, tagged_inj, Json.list.injEq] at hshown
    refine .map ((forall₂_of_map_eq hshown.2).imp fun e f hinside => ?_)
    obtain ⟨⟨he, hf⟩, heq⟩ := hinside
    simp only [field, Json.object.injEq, List.cons.injEq, Prod.mk.injEq, and_true, true_and] at heq
    obtain ⟨hekey, hevalue⟩ := Heap.holds_of_mem_entries he
    obtain ⟨hfkey, hfvalue⟩ := Heap.holds_of_mem_entries hf
    exact ⟨hxy.of_holds hekey hfkey heq.1, hxy.of_holds hevalue hfvalue heq.2⟩

/-- Two lists whose elements are related are shown alike, if related elements are. -/
theorem map_eq_of_forall₂ {α β γ : Type} {R : α → β → Prop} {xs : List α} {ys : List β} {f : α → γ} {f' : β → γ}
    (hxs : List.Forall₂ R xs ys) (hf : ∀ x ∈ xs, ∀ y ∈ ys, R x y → f x = f' y) : xs.map f = ys.map f' := by
  induction hxs with
  | nil => rfl
  | @cons x y xs ys hxy _ ih =>
    rw [List.map_cons, List.map_cons, hf x List.mem_cons_self y List.mem_cons_self hxy,
      ih fun x hx y hy => hf x (List.mem_cons_of_mem _ hx) y (List.mem_cons_of_mem _ hy)]

/-- **Items that unfold alike are shown alike**, to any depth. -/
theorem itemWithin_eq_of_related {R : Item → Item → Prop} (hR : ∀ x y, R x y → g.SameLevel h R x y)
    (levels : Nat) : ∀ x y, R x y → g.AllCanonical x → h.AllCanonical y →
      itemWithin g levels x = itemWithin h levels y := by
  induction levels with
  | zero =>
    intro x y hxy _ _
    cases hR x y hxy <;> rfl
  | succ levels ih =>
    intro x y hxy hx hy
    -- What is inside is related, and is shown alike with one level less.
    have hitems : ∀ {a b}, x.listCell? = some a → y.listCell? = some b → List.Forall₂ R (g.items a) (h.items b) →
        (g.items a).map (itemWithin g levels) = (h.items b).map (itemWithin h levels) :=
      fun ha hb hitems => map_eq_of_forall₂ hitems fun x' hx' y' hy' hxy' =>
        ih x' y' hxy' (hx.of_holds (Heap.holds_of_mem_items ha hx')) (hy.of_holds (Heap.holds_of_mem_items hb hy'))
    cases hR x y hxy with
    | boolean | bytes | interop => rfl
    | @integer v w hvalue =>
      obtain rfl := (Integer.eq_iff_toInt_eq hx.self hy.self).2 hvalue
      rfl
    | array helements | struct helements =>
      rw [itemWithin_list rfl, itemWithin_list rfl, hitems rfl rfl helements]
      rfl
    | map hentries =>
      rw [itemWithin_map, itemWithin_map]
      refine congrArg (fun shown => tagged (.map _) (.list shown)) ?_
      refine map_eq_of_forall₂ hentries fun e he f hf hef => ?_
      obtain ⟨hekey, hevalue⟩ := Heap.holds_of_mem_entries he
      obtain ⟨hfkey, hfvalue⟩ := Heap.holds_of_mem_entries hf
      rw [ih _ _ hef.1 (hx.of_holds hekey) (hy.of_holds hfkey),
        ih _ _ hef.2 (hx.of_holds hevalue) (hy.of_holds hfvalue)]

/-- **A report is total and faithful.** Showing an item comes to an end on every heap, also if it contains itself, and
with one value only. Two items, each on a heap of its own, of which nothing lies deeper than fifteen levels, with their
integers in the chosen representation, are shown alike exactly if they have the same unfolding. -/
theorem item_faithful :
    (∀ (h : Heap) (x : Item), Rendered h 0 x (item h x) ∧ ∀ shown, Rendered h 0 x shown → shown = item h x) ∧
    ∀ (g h : Heap) (x y : Item), g.NestedWithin 15 x → h.NestedWithin 15 y → g.AllCanonical x → h.AllCanonical y →
      (item g x = item h y ↔ g.SameUnfolding h x y) := by
  refine ⟨fun h x => ⟨rendered_itemWithin maxNesting 0 x rfl, fun shown hshown => hshown.eq⟩, ?_⟩
  intro g h x y hx hy hcanonical hcanonical'
  constructor
  · intro hshown
    exact ⟨fun x y => ∃ levels, Alike g h levels x y, fun x y ⟨_, hxy⟩ => hxy.sameLevel,
      15, ⟨hx, hcanonical⟩, ⟨hy, hcanonical'⟩, hshown⟩
  · rintro ⟨R, hR, hxy⟩
    exact itemWithin_eq_of_related hR maxNesting x y hxy hcanonical hcanonical'

/-- An array of a number and a map is shown like one of other objects, and not like the struct in the same cell; an
array that contains itself is shown as well. -/
theorem item_faithful_nested :
    let g : Heap := { cells := #[.list [.integer (.small 5), .map 1], .map [(.bytes 0 #[0xDE], .array 2)], .list []] }
    let h : Heap := { cells := #[.list [], .map [(.bytes 7 #[0xDE], .array 0)], .list [.integer (.small 5), .map 1]] }
    let loop : Heap := { cells := #[.list [.array 0]] }
    (g.NestedWithin 15 (.array 0) ∧ g.AllCanonical (.array 0)) ∧
    (h.NestedWithin 15 (.array 2) ∧ h.AllCanonical (.array 2)) ∧
    (h.NestedWithin 15 (.struct 2) ∧ h.AllCanonical (.struct 2)) ∧
    (g.SameUnfolding h (.array 0) (.array 2) ∧ ¬ g.SameUnfolding h (.array 0) (.struct 2)) ∧
    Rendered loop 0 (.array 0) (item loop (.array 0)) := by
  intro g h loop
  -- Both heaps hold a list of a number and a map, the map from a byte string to an empty list.
  have hnested : ∀ (k : Heap) {a b c i : Nat} {x : Item}, x.Canonical → x.listCell? = some a →
      k.cells[a]? = some (.list [.integer (.small 5), .map b]) →
      k.cells[b]? = some (.map [(.bytes i #[0xDE], .array c)]) → k.cells[c]? = some (.list []) →
      k.NestedWithin 15 x ∧ k.AllCanonical x := by
    intro k a b c i x hx hlist ha hb hc
    refine Heap.nested_of_holds hx fun y hy => ?_
    rw [Heap.holds_list hlist ha, List.mem_pair] at hy
    obtain rfl | rfl := hy
    · exact Heap.nested_of_primitive (fun hleast => by cases hleast) rfl
    · refine Heap.nested_of_holds trivial fun z hz => ?_
      obtain ⟨entry, hentry, hz⟩ := (Heap.holds_map hb).1 hz
      obtain rfl := List.mem_singleton.1 hentry
      obtain rfl | rfl := hz
      · exact Heap.nested_of_primitive trivial rfl
      · refine Heap.nested_of_holds trivial fun w hw => ?_
        rw [Heap.holds_list rfl hc] at hw
        exact absurd hw List.not_mem_nil
  have hx : g.NestedWithin 15 (.array 0) ∧ g.AllCanonical (.array 0) := hnested g trivial rfl rfl rfl rfl
  have hy : h.NestedWithin 15 (.array 2) ∧ h.AllCanonical (.array 2) := hnested h trivial rfl rfl rfl rfl
  have hz : h.NestedWithin 15 (.struct 2) ∧ h.AllCanonical (.struct 2) := hnested h trivial rfl rfl rfl rfl
  have hsame : item g (.array 0) = item h (.array 2) := by
    simp [item, maxNesting, itemWithin, Heap.items, Heap.entries, tagged, Item.kind, g, h]
  have hother : item g (.array 0) ≠ item h (.struct 2) := fun heq => by cases (tagged_inj.1 heq).1
  obtain ⟨hends, hfaithful⟩ := item_faithful
  exact ⟨hx, hy, hz, ⟨(hfaithful g h _ _ hx.1 hy.1 hx.2 hy.2).1 hsame,
    mt (hfaithful g h _ _ hx.1 hz.1 hx.2 hz.2).2 hother⟩, (hends loop (.array 0)).1⟩

end Report

end ScriptMachine
