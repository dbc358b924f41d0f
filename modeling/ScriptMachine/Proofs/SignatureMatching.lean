import Mathlib.Data.List.NodupEquivFin
import ScriptMachine.Proofs.CodeRuns
import ScriptMachine.Proofs.Numbers

/-! # Checking many signatures is matching in order

A check of many signatures takes keys and signatures off the evaluation stack, each of them in one container or below
their number, and tells whether every signature is valid for a key of its own, where the keys stand in the order of the
signatures. The search tries every key once and never goes back, and it gives up as soon as fewer keys than signatures
are left. It misses no matching: a signature that is valid for the key at hand may always take that key, because in
any matching its key is that one or a later one.

* `Matched`: matchings in order. `Matched.iff_sublist` tells them by recursion on the lists, `Matched.take` and
  `Matched.skip` are the two moves of the search, and `Matched.round` is one round of it.
* `Instructions.run_matchSignatures`: what the search returns, and what it leaves in the journal.
* `Listed`: the two layouts of a list of byte strings on a stack; `Instructions.run_popKeys` and
  `Instructions.run_popSignatures` read either of them.
* `Heap.announced?`, `Heap.promised?`: the number at the head of a list, and the one that is read there.
* `Refused`: stacks that announce too few keys, too few signatures or too many of them.
* `Engine.multiSig_decides`: steps.
-/

namespace ScriptMachine

/-! ## Matchings in order -/

/-- Every signature is valid for a key of its own, and the keys stand in the order of the signatures. -/
def Matched (valid : Bytes → Bytes → Bool) (signatures keys : List Bytes) : Prop :=
  ∃ place : Fin signatures.length → Fin keys.length,
    StrictMono place ∧ ∀ i, valid signatures[i] keys[place i] = true

namespace Matched

variable {valid : Bytes → Bytes → Bool} {signature key : Bytes} {signatures keys : List Bytes}

/-- A matching, as the list of the keys that it takes. -/
theorem iff_sublist : Matched valid signatures keys ↔
    List.SublistForall₂ (fun signature key => valid signature key = true) signatures keys := by
  rw [List.sublistForall₂_iff]
  constructor
  · rintro ⟨place, hmono, hvalid⟩
    refine ⟨List.ofFn fun i => keys[place i], ?_, ?_⟩
    · rw [List.forall₂_iff_get]
      refine ⟨by rw [List.length_ofFn], fun i hi _ => ?_⟩
      simpa using hvalid ⟨i, hi⟩
    · rw [List.sublist_iff_exists_fin_orderEmbedding_get_eq]
      have hlength : (List.ofFn fun i => keys[place i]).length = signatures.length := List.length_ofFn
      refine ⟨OrderEmbedding.ofStrictMono (fun i => place (i.cast hlength)) fun i j hij => hmono hij, fun i => ?_⟩
      rw [List.get_ofFn]
      rfl
  · rintro ⟨taken, hvalid, hsub⟩
    obtain ⟨hlength, hvalid⟩ := List.forall₂_iff_get.1 hvalid
    obtain ⟨embed, hembed⟩ := List.sublist_iff_exists_fin_orderEmbedding_get_eq.1 hsub
    refine ⟨fun i => embed (i.cast hlength), fun i j hij => embed.strictMono hij, fun i => ?_⟩
    have htaken := hvalid i i.isLt (hlength ▸ i.isLt)
    rwa [hembed] at htaken

/-- No signature needs no key. -/
theorem nil : Matched valid [] keys := iff_sublist.2 .nil

/-- A matching has no more signatures than keys. -/
theorem length_le (h : Matched valid signatures keys) : signatures.length ≤ keys.length := by
  obtain ⟨place, hmono, -⟩ := h
  simpa using Fintype.card_le_of_injective place hmono.injective

/-- Fewer signatures are matched as well. -/
theorem tail (h : Matched valid (signature :: signatures) keys) : Matched valid signatures keys := by
  rw [iff_sublist, List.sublistForall₂_iff] at h ⊢
  obtain ⟨_, _ | ⟨-, hvalid⟩, hsub⟩ := h
  exact ⟨_, hvalid, (List.sublist_cons_self _ _).trans hsub⟩

/-- **A signature takes the first key that it is valid for.** In a matching where the first signature has a later key,
that key is free for it to leave. -/
theorem take (hvalid : valid signature key = true) :
    Matched valid (signature :: signatures) (key :: keys) ↔ Matched valid signatures keys := by
  constructor
  · intro h
    rw [iff_sublist] at h
    cases h with
    | cons _ hrest => exact iff_sublist.2 hrest
    | cons_right hrest => exact (iff_sublist.2 hrest).tail
  · intro h
    exact iff_sublist.2 (.cons hvalid (iff_sublist.1 h))

/-- **A key is skipped** if the first signature is not valid for it. -/
theorem skip (hvalid : valid signature key = false) :
    Matched valid (signature :: signatures) (key :: keys) ↔ Matched valid (signature :: signatures) keys := by
  rw [iff_sublist, iff_sublist]
  constructor
  · intro h
    cases h with
    | cons hfirst _ => rw [hvalid] at hfirst; cases hfirst
    | cons_right hrest => exact hrest
  · exact .cons_right

/-- **One round of the search**: the key is taken or skipped. -/
theorem round : Matched valid (signature :: signatures) (key :: keys) ↔
    Matched valid (if valid signature key then signatures else signature :: signatures) keys := by
  cases hvalid : valid signature key with
  | true => rw [take hvalid, if_pos rfl]
  | false => rw [skip hvalid, if_neg Bool.false_ne_true]

/-- Matchings can be searched for. -/
instance decidable (valid : Bytes → Bytes → Bool) (signatures keys : List Bytes) :
    Decidable (Matched valid signatures keys) :=
  inferInstanceAs (Decidable (∃ place : Fin signatures.length → Fin keys.length,
    (∀ ⦃i j⦄, i < j → place i < place j) ∧ ∀ i, valid signatures[i] keys[place i] = true))

end Matched

/-! ## The search -/

/-- The machine after checks of a message, each with a signature and a key. -/
def State.checked (s : State) (message : Bytes) (tried : List (Bytes × Bytes)) : State :=
  { s with journal := (tried.map fun pair => .signatureChecked message pair.1 pair.2).reverse ++ s.journal }

/-- Checks after a check. -/
theorem State.checked_cons (s : State) (message signature key : Bytes) (tried : List (Bytes × Bytes)) :
    s.checked message ((signature, key) :: tried) =
      (s.record (.signatureChecked message signature key)).checked message tried := by
  simp [checked, record]

/-- Checking a signature, and what follows. -/
theorem Exec.run_checkSignature_seq {α : Type} (k : Bool → Exec α) (message signature key : Bytes) (s : State) :
    (checkSignature message signature key >>= k).run s =
      (k (s.crypto.verify message signature key)).run (s.record (.signatureChecked message signature key)) := rfl

/-- **The search finds a matching in order whenever there is one**, and it tries the keys from the first one on, each at
most once. -/
theorem Instructions.run_matchSignatures (message : Bytes) {signatures : List Bytes} (keys : List Bytes)
    (hsome : signatures ≠ []) (s : State) :
    ∃ tried : List (Bytes × Bytes), tried.map Prod.snd <+: keys ∧
      (matchSignatures message signatures keys).run s =
        (.ok (decide (Matched (s.crypto.verify message) signatures keys)), s.checked message tried) := by
  -- Every round looks at one key; the signatures that wait after it are matched with the keys that are left.
  induction keys generalizing signatures s with
  | nil =>
    have hnone : ¬ Matched (s.crypto.verify message) signatures [] := fun h =>
      hsome (List.length_eq_zero_iff.1 (Nat.le_zero.1 h.length_le))
    refine ⟨[], List.nil_prefix, ?_⟩
    rw [matchSignatures, decide_eq_false hnone]
    rfl
  | cons key keys ih =>
    cases signatures with
    | nil => exact absurd rfl hsome
    | cons signature signatures =>
      let waiting := if s.crypto.verify message signature key then signatures else signature :: signatures
      have hwaiting : Matched (s.crypto.verify message) (signature :: signatures) (key :: keys) ↔
          Matched (s.crypto.verify message) waiting keys := Matched.round
      have hround : (matchSignatures message (signature :: signatures) (key :: keys)).run s =
          (if waiting.isEmpty then return true
            else if waiting.length > keys.length then return false
            else matchSignatures message waiting keys : Exec Bool).run
            (s.record (.signatureChecked message signature key)) := by
        rw [matchSignatures, Exec.run_checkSignature_seq]
      rw [hround, decide_eq_decide.2 hwaiting]
      by_cases hempty : waiting = []
      · refine ⟨[(signature, key)], by simp, ?_⟩
        rw [if_pos (List.isEmpty_iff.2 hempty), decide_eq_true (hempty ▸ Matched.nil)]
        rfl
      rw [if_neg (mt List.isEmpty_iff.1 hempty)]
      by_cases hshort : waiting.length > keys.length
      · have hnone : ¬ Matched (s.crypto.verify message) waiting keys := fun h => Nat.not_le.2 hshort h.length_le
        refine ⟨[(signature, key)], by simp, ?_⟩
        rw [if_pos hshort, decide_eq_false hnone]
        rfl
      · obtain ⟨tried, htried, hrun⟩ := ih hempty (s.record (.signatureChecked message signature key))
        refine ⟨(signature, key) :: tried, List.cons_prefix_cons.2 ⟨rfl, htried⟩, ?_⟩
        rw [if_neg hshort, hrun, State.checked_cons]
        rfl

/-! ## Operands -/

/-- The byte strings are the views of the items. -/
def Viewed (items : List Item) (data : List Bytes) : Prop := List.Forall₂ (fun x b => x.byteView = .ok b) items data

/-- **The two layouts of a list of byte strings**, from the top of a stack down. -/
inductive Listed (h : Heap) (data : List Bytes) : List Item → Prop where
  /-- An array or a struct. -/
  | container {x : Item} {items : List Item} (hitems : h.elements? x = some items) (hviews : Viewed items data) :
    Listed h data [x]
  /-- The number of the items, and the items. -/
  | counted {count : Item} {items : List Item} (hcanonical : count.Canonical)
    (hcount : count.number? = some (data.length : Int)) (hviews : Viewed items data) : Listed h data (count :: items)

/-- The number that the head of a list announces: the length of a container, or a number. -/
def Heap.announced? (h : Heap) (x : Item) : Option Int :=
  match h.elements? x with
  | some items => some (items.length : Int)
  | none => x.number?

/-- The number of byte strings that the head of a list promises, as it is read: the length of a container, or a number
of at most 64 bits. -/
def Heap.promised? (h : Heap) (x : Item) : Option Int :=
  match h.elements? x with
  | some items => some (items.length : Int)
  | none =>
    match x.integerValue with
    | .ok value => value.toInt64?.map Int64.toInt
    | .error _ => none

/-- A container promises its elements. -/
theorem Heap.promised?_of_elements {h : Heap} {x : Item} {items : List Item} (hitems : h.elements? x = some items) :
    h.promised? x = some (items.length : Int) := by
  rw [promised?, hitems]

/-- A number promises what it is read as. -/
theorem Heap.promised?_of_integerValue {h : Heap} {x : Item} {value : Integer} {w : Int64}
    (hnone : h.elements? x = none) (hvalue : x.integerValue = .ok value) (hw : value.toInt64? = some w) :
    h.promised? x = some w.toInt := by
  rw [promised?, hnone, hvalue]
  dsimp only
  rw [hw]
  rfl

/-- **What is promised is announced**: a number of at most 64 bits is read as what it is. -/
theorem Heap.announced?_of_promised {h : Heap} {x : Item} {n : Int} (hx : x.Canonical)
    (hpromised : h.promised? x = some n) : h.announced? x = some n := by
  unfold promised? at hpromised
  unfold announced?
  cases hitems : h.elements? x with
  | some items => rwa [hitems] at hpromised
  | none =>
    rw [hitems] at hpromised
    have hvalue := Item.integerValue_yields hx
    cases hread : x.integerValue with
    | error cause =>
      rw [hread] at hpromised
      cases hpromised
    | ok value =>
      rw [hread] at hpromised hvalue
      obtain ⟨w, hw, rfl⟩ := Option.map_eq_some_iff.1 hpromised
      obtain ⟨_, hnumber, hcanonical, rfl⟩ := hvalue.of_ok
      exact hnumber.trans (congrArg some (Integer.toInt_of_toInt64? hcanonical hw).symm)

/-- The item of a number is no container. -/
theorem Heap.elements?_of_number {h : Heap} {x : Item} {n : Int} (hx : x.number? = some n) : h.elements? x = none := by
  cases x with
  | array id | struct id => cases hx
  | _ => rfl

/-- Stacks that announce fewer than one key, fewer than one signature, or more signatures than keys. -/
inductive Refused (h : Heap) : Stack → Prop where
  /-- No key. -/
  | keys {x : Item} {n : Int} {below : Stack} (hcanonical : x.Canonical) (hannounced : h.announced? x = some n)
    (hlow : n < 1) : Refused h (x :: below)
  /-- No signature, or too many of them. -/
  | signatures {keys : List Bytes} {operand : List Item} {x : Item} {m : Int} {below : Stack}
    (hkeys : Listed h keys operand) (hcanonical : x.Canonical) (hannounced : h.announced? x = some m)
    (hrange : m < 1 ∨ (keys.length : Int) < m) : Refused h (operand ++ x :: below)

/-- **A list announces its length.** -/
theorem Listed.announced {h : Heap} {data : List Bytes} {operand : List Item} (hlist : Listed h data operand) :
    ∃ x items, operand = x :: items ∧ x.Canonical ∧ h.announced? x = some (data.length : Int) := by
  cases hlist with
  | @container x items hitems hviews =>
    refine ⟨x, [], rfl, ?_, ?_⟩
    · cases x with
      | integer value => cases hitems
      | _ => trivial
    · rw [Heap.announced?, hitems, ← List.Forall₂.length_eq hviews]
  | @counted count items hcanonical hcount hviews =>
    refine ⟨count, items, rfl, hcanonical, ?_⟩
    rw [Heap.announced?, Heap.elements?_of_number hcount, hcount]

/-- Lists of unfit lengths are refused. -/
theorem Refused.of_lengths {h : Heap} {keys signatures : List Bytes} {keyItems signatureItems rest : List Item}
    (hkeys : Listed h keys keyItems) (hsignatures : Listed h signatures signatureItems)
    (hrange : keys.length < 1 ∨ signatures.length < 1 ∨ keys.length < signatures.length) :
    Refused h (keyItems ++ (signatureItems ++ rest)) := by
  rcases hrange with hkey | hrange
  · obtain ⟨x, items, rfl, hcanonical, hannounced⟩ := hkeys.announced
    exact .keys hcanonical hannounced (by omega)
  · obtain ⟨x, items, rfl, hcanonical, hannounced⟩ := hsignatures.announced
    exact .signatures hkeys hcanonical hannounced (by omega)

/-- A number of at most 64 bits is read from its item. -/
theorem Item.int64_of_number {x : Item} {n : Int} (hx : x.Canonical) (hnumber : x.number? = some n)
    (hlow : -2 ^ 63 ≤ n) (hhigh : n < 2 ^ 63) :
    ∃ v w, x.integerValue = .ok v ∧ v.toInt64? = some w ∧ w.toInt = n := by
  have hvalue := integerValue_yields hx
  rw [hnumber] at hvalue
  obtain ⟨v, hv, hcanonical, rfl⟩ := hvalue
  have hword := Integer.toInt64?_eq hcanonical
  rw [if_pos ⟨hlow, hhigh⟩, Option.map_eq_some_iff] at hword
  obtain ⟨w, hw, hint⟩ := hword
  exact ⟨v, w, hv, hw, hint⟩

namespace Instructions

variable {s : State} {h : Heap} {f : Frame} {x : Item} {data : List Bytes} {items operand rest : List Item}

/-- A result that was computed beforehand. -/
theorem run_ofExcept {σ α : Type} {r : Except Fault α} {a : α} (hr : r = .ok a) (t : σ) :
    (MonadExcept.ofExcept r : ExceptT Fault (StateM σ) α).run t = (.ok a, t) := by
  rw [hr]
  rfl

/-- Results that were computed beforehand, one after the other. -/
theorem run_each_ofExcept {σ α β : Type} {g : α → Except Fault β} {xs : List α} {ys : List β}
    (hxs : List.Forall₂ (fun x y => g x = .ok y) xs ys) (t : σ) :
    (xs.mapM fun x => (MonadExcept.ofExcept (g x) : ExceptT Fault (StateM σ) β)).run t = (.ok ys, t) := by
  induction hxs with
  | nil => rfl
  | @cons x y xs ys hx _ ih =>
    rw [List.mapM_cons, run_seq_of_ok (run_ofExcept hx t), run_seq_of_ok ih]
    rfl

/-- **The head of a list** is the whole list, or the number of the items that come next. -/
theorem run_popByteList (hlist : Listed h data operand) (heval : f.eval = operand ++ rest)
    (hroom : f.eval.length < 2 ^ 63) :
    popByteList.run (s.resume h f) = (.ok (.inl data), s.resume h { f with eval := rest }) ∨
    ∃ items, Viewed items data ∧
      popByteList.run (s.resume h f) = (.ok (.inr data.length), s.resume h { f with eval := items ++ rest }) := by
  cases hlist with
  | container hitems hviews =>
    left
    rw [popByteList, run_seq_of_ok (Exec.run_pop_resume heval), Exec.run_heap_seq, State.resume_heap, hitems]
    dsimp only
    rw [run_seq_of_ok (run_each_ofExcept hviews _)]
    rfl
  | @counted count items hcanonical hcount hviews =>
    right
    have heval : f.eval = count :: (items ++ rest) := heval
    have hlength : items.length = data.length := List.Forall₂.length_eq hviews
    have hsmall : data.length < 2 ^ 63 := by
      rw [heval, List.length_cons, List.length_append] at hroom
      omega
    obtain ⟨v, w, hv, hw, hint⟩ := Item.int64_of_number hcanonical hcount (by omega) (by omega)
    refine ⟨items, hviews, ?_⟩
    rw [popByteList, run_seq_of_ok (Exec.run_pop_resume heval), Exec.run_heap_seq, State.resume_heap,
      Heap.elements?_of_number hcount]
    dsimp only
    rw [run_seq_of_ok (run_ofExcept hv _), hw]
    dsimp only
    rw [hint]
    rfl

/-- Popping a byte string. -/
theorem run_popBytes_cons {b : Bytes} (heval : f.eval = x :: rest) (hx : x.byteView = .ok b) :
    Frame.popBytes.run f = (.ok b, { f with eval := rest }) := by
  rw [Frame.popBytes, run_seq_of_ok (Frame.run_pop_cons heval), run_ofExcept hx]

/-- Asking for the number of items, and what follows. -/
theorem run_evalDepth_seq {α : Type} (k : Nat → Exec α) :
    (Exec.onFrame Frame.evalDepth >>= k).run (s.resume h f) = (k f.eval.length).run (s.resume h f) := rfl

/-- **Popping as many byte strings as announced**: the first one is on top. -/
theorem run_popCounted (hviews : Viewed items data) (heval : f.eval = items ++ rest) :
    (popCounted data.length).run (s.resume h f) = (.ok data, s.resume h { f with eval := rest }) := by
  -- The indices of the loop do not matter.
  have hloop : ∀ indices : List Nat, indices.length = data.length →
      (indices.mapM fun _ => Exec.onFrame Frame.popBytes).run (s.resume h f) =
        (.ok data, s.resume h { f with eval := rest }) := by
    induction hviews generalizing f with
    | nil =>
      rintro indices hindices
      obtain rfl := List.length_eq_zero_iff.1 hindices
      rw [List.mapM_nil, ← show f.eval = rest from heval]
      rfl
    | @cons x b items data hx _ ih =>
      rintro (_ | ⟨index, indices⟩) hindices
      · cases hindices
      · have heval : f.eval = x :: (items ++ rest) := heval
        rw [List.mapM_cons, Exec.run_onFrame_seq (run_popBytes_cons heval hx),
          run_seq_of_ok (ih rfl indices (Nat.succ.inj hindices))]
        rfl
  exact hloop _ List.length_range

/-- **Popping the keys.** -/
theorem run_popKeys {keys : List Bytes} (hkeys : Listed h keys operand) (hsome : 1 ≤ keys.length)
    (heval : f.eval = operand ++ rest) (hroom : f.eval.length < 2 ^ 63) :
    popKeys.run (s.resume h f) = (.ok keys, s.resume h { f with eval := rest }) := by
  obtain hhead | ⟨items, hviews, hhead⟩ := run_popByteList hkeys heval hroom
  · rw [popKeys, run_seq_of_ok hhead]
    cases keys with
    | nil => exact absurd hsome (by decide)
    | cons key keys => rfl
  · have hlength : items.length = keys.length := List.Forall₂.length_eq hviews
    rw [popKeys, run_seq_of_ok hhead]
    dsimp only
    rw [run_evalDepth_seq, if_neg (by simp only [Bool.or_eq_true, decide_eq_true_eq, List.length_append]; omega)]
    exact run_popCounted hviews rfl

/-- **Popping the signatures.** -/
theorem run_popSignatures {signatures : List Bytes} {keyCount : Nat} (hsignatures : Listed h signatures operand)
    (hsome : 1 ≤ signatures.length) (hcount : signatures.length ≤ keyCount) (heval : f.eval = operand ++ rest)
    (hroom : f.eval.length < 2 ^ 63) :
    (popSignatures keyCount).run (s.resume h f) = (.ok signatures, s.resume h { f with eval := rest }) := by
  obtain hhead | ⟨items, hviews, hhead⟩ := run_popByteList hsignatures heval hroom
  · have hnonempty : signatures ≠ [] := List.ne_nil_of_length_pos hsome
    rw [popSignatures, run_seq_of_ok hhead]
    dsimp only
    rw [if_neg (by simp [hnonempty]; omega)]
    rfl
  · have hlength : items.length = signatures.length := List.Forall₂.length_eq hviews
    rw [popSignatures, run_seq_of_ok hhead]
    dsimp only
    rw [run_evalDepth_seq, if_neg (by simp only [Bool.or_eq_true, decide_eq_true_eq, List.length_append]; omega)]
    exact run_popCounted hviews rfl

/-! ## Faults -/

/-- The machine with any innermost frame. -/
def Resumed (s : State) (h : Heap) (t : State) : Prop := ∃ f, t = s.resume h f

/-- The number that stands at the head of a list. -/
def headCount : List Bytes ⊕ Int → Int
  | .inl data => data.length
  | .inr n => n

/-- Results that were computed beforehand, one after the other, change nothing. -/
theorem each_ofExcept_leads {α β : Type} (g : α → Except Fault β) (xs : List α) (t₀ : State) :
    Leads (· = t₀) (xs.mapM fun x => (MonadExcept.ofExcept (g x) : Exec β))
      (fun ys t => t = t₀ ∧ List.Forall₂ (fun x y => g x = .ok y) xs ys) (· = t₀) := by
  induction xs with
  | nil =>
    rw [List.mapM_nil]
    exact Leads.returns fun t ht => ⟨ht, .nil⟩
  | cons x xs ih =>
    rw [List.mapM_cons]
    refine Leads.computed (fun _ ht => ht) fun y hy => ih.seq fun ys => Leads.returns ?_
    rintro t ⟨ht, hys⟩
    exact ⟨ht, .cons hy hys⟩

/-- What the head of a list was read as. -/
def HeadRead (h : Heap) (x : Item) : List Bytes ⊕ Int → Prop
  | .inl data => ∃ items, h.elements? x = some items ∧ Viewed items data
  | .inr n => h.elements? x = none ∧ h.promised? x = some n

/-- **The head of a list** is the top item. -/
theorem popByteList_reads :
    Leads (· = s.resume h f) popByteList
      (fun r t => ∃ x rest, f.eval = x :: rest ∧ HeadRead h x r ∧ t = s.resume h { f with eval := rest })
      (Resumed s h) := by
  refine Leads.pop (fun g => ⟨g, rfl⟩) fun x rest heval => Leads.heap ?_
  have hresumed : ∀ t, t = s.resume h { f with eval := rest } → Resumed s h t := fun _ ht => ⟨_, ht⟩
  cases hitems : h.elements? x with
  | some items =>
    refine ((each_ofExcept_leads Item.byteView items _).ends (fun _ _ ht => ht) hresumed).seq fun data => ?_
    refine Leads.returns ?_
    rintro t ⟨ht, hviews⟩
    exact ⟨x, rest, heval, ⟨items, hitems, hviews⟩, ht⟩
  | none =>
    refine Leads.computed hresumed fun value hvalue => ?_
    split
    · rename_i w hw
      exact Leads.returns fun t ht =>
        ⟨x, rest, heval, ⟨hitems, Heap.promised?_of_integerValue hitems hvalue hw⟩, ht⟩
    · exact Leads.throws hresumed

/-- **The head of a list** carries the announced number, if it can be read. -/
theorem popByteList_announced {n : Int} (heval : f.eval = x :: rest) (hx : x.Canonical)
    (hannounced : h.announced? x = some n) :
    Leads (· = s.resume h f) popByteList (fun r t => headCount r = n ∧ Resumed s h t) (Resumed s h) := by
  refine popByteList_reads.ends ?_ fun _ ht => ht
  rintro r t ⟨y, rest', hy, hread, ht⟩
  rw [heval] at hy
  cases hy
  refine ⟨?_, _, ht⟩
  match r with
  | .inl data =>
    obtain ⟨items, hitems, hviews⟩ := hread
    rw [Heap.announced?, hitems] at hannounced
    rw [← Option.some.inj hannounced]
    exact congrArg Nat.cast (List.Forall₂.length_eq hviews).symm
  | .inr m => exact Option.some.inj ((Heap.announced?_of_promised hx hread.2).symm.trans hannounced)

/-- **Fewer than one key are refused.** -/
theorem popKeys_refuses {n : Int} (heval : f.eval = x :: rest) (hx : x.Canonical)
    (hannounced : h.announced? x = some n) (hlow : n < 1) :
    Leads (· = s.resume h f) popKeys (fun _ _ => False) (Resumed s h) := by
  refine (popByteList_announced heval hx hannounced).seq fun r => ?_
  rintro _ ⟨rfl, g, rfl⟩
  match r with
  | .inl [] => exact ⟨g, rfl⟩
  | .inl (key :: keys) => exact absurd hlow (by simp [headCount])
  | .inr n =>
    dsimp only
    rw [run_evalDepth_seq, if_pos (by simp only [Bool.or_eq_true, decide_eq_true_eq]; exact Or.inl hlow)]
    exact ⟨g, rfl⟩

/-- **Fewer than one signature, and more signatures than keys, are refused.** -/
theorem popSignatures_refuses {keyCount : Nat} {m : Int} (heval : f.eval = x :: rest) (hx : x.Canonical)
    (hannounced : h.announced? x = some m) (hrange : m < 1 ∨ keyCount < m) :
    Leads (· = s.resume h f) (popSignatures keyCount) (fun _ _ => False) (Resumed s h) := by
  refine (popByteList_announced heval hx hannounced).seq fun r => ?_
  rintro _ ⟨rfl, g, rfl⟩
  match r with
  | .inl signatures =>
    have hlength : signatures.length < 1 ∨ keyCount < signatures.length := by simpa [headCount] using hrange
    dsimp only
    rw [if_pos (by simpa [List.length_eq_zero_iff] using hlength)]
    exact ⟨g, rfl⟩
  | .inr m =>
    dsimp only
    rw [run_evalDepth_seq, if_pos (by simp only [Bool.or_eq_true, decide_eq_true_eq]; exact Or.inl hrange)]
    exact ⟨g, rfl⟩

/-! ## The instruction -/

/-- **Refused operands fault** before the message is asked for. -/
theorem checkMultiSig_refuses (hrefused : Refused h f.eval) (hroom : f.eval.length < 2 ^ 63) :
    Leads (· = s.resume h f) checkMultiSig (fun _ _ => False) (Resumed s h) := by
  generalize heval : f.eval = st at hrefused
  cases hrefused with
  | keys hcanonical hannounced hlow =>
    exact (popKeys_refuses heval hcanonical hannounced hlow).seq fun _ _ h => h.elim
  | @signatures keys operand x m below hkeys hcanonical hannounced hrange =>
    obtain ⟨y, items, rfl, hy, hcount⟩ := hkeys.announced
    by_cases hsome : 1 ≤ keys.length
    · refine (Leads.run (A := fun ks t => ks = keys ∧ t = s.resume h { f with eval := x :: below })
        (run_popKeys hkeys hsome heval hroom) ?_ fun _ herror => by cases herror).seq fun ks => ?_
      · rintro _ ⟨⟩
        exact ⟨rfl, rfl⟩
      · rintro _ ⟨rfl, rfl⟩
        exact ((popSignatures_refuses rfl hcanonical hannounced hrange).seq fun _ _ h => h.elim) _ rfl
    · exact (popKeys_refuses heval hy hcount (by omega)).seq fun _ _ h => h.elim

/-- **Lists of fit lengths are matched.** -/
theorem run_checkMultiSig {keys signatures : List Bytes} {keyItems signatureItems : List Item}
    {provider : UInt32 → Bytes} (hkeys : Listed h keys keyItems)
    (hsignatures : Listed h signatures signatureItems)
    (heval : f.eval = keyItems ++ (signatureItems ++ rest)) (hroom : f.eval.length < 2 ^ 63)
    (hsome : 1 ≤ signatures.length) (hfit : signatures.length ≤ keys.length) (hmessage : s.message = some provider) :
    ∃ tried : List (Bytes × Bytes), tried.map Prod.snd <+: keys ∧
      checkMultiSig.run (s.resume h f) =
        (.ok (), ((s.record (.messageAsked s.session.iteration)).checked (provider s.session.iteration) tried).resume h
          { f with
            eval := .boolean (decide (Matched (s.crypto.verify (provider s.session.iteration)) signatures keys)) ::
              rest }) := by
  let message := provider s.session.iteration
  let asked : State := (s.record (.messageAsked s.session.iteration)).resume h { f with eval := rest }
  have hask : Exec.askMessage.run (s.resume h { f with eval := rest }) = (.ok message, asked) := by
    rw [Exec.askMessage, run_get_seq, show (s.resume h { f with eval := rest }).message = some provider from hmessage]
    rfl
  have hrest : (signatureItems ++ rest).length < 2 ^ 63 := by
    rw [heval, List.length_append] at hroom
    omega
  obtain ⟨tried, htried, hmatch⟩ :=
    run_matchSignatures message keys (List.ne_nil_of_length_pos hsome) asked
  refine ⟨tried, htried, ?_⟩
  rw [checkMultiSig, run_seq_of_ok (run_popKeys hkeys (by omega) heval hroom),
    run_seq_of_ok (run_popSignatures hsignatures hsome hfit rfl hrest), run_seq_of_ok hask, run_seq_of_ok hmatch]
  rfl

end Instructions

/-! ## Steps -/

namespace Engine

variable {e : Engine} {f : Frame} {outer : List Frame} {paid : State}

/-- The step at the cursor of the frame faults, and all that the journal tells of it is that fault: the host was not
asked for the message. -/
def FaultsUnasked (e : Engine) (f : Frame) : Prop :=
  e.step.status = .faulted ∧
    ∃ cause, e.step.state.journal = .fault cause :: .failed .checkMultiSig f.cursor :: e.state.journal

/-- **A check of many signatures decides matching in order.** A step at `CHECKMULTISIG` that is paid for takes keys and
signatures off the stack, in either layout, and puts in their place whether there is a matching in order of the
signatures of the message with the keys. The answer depends on the lists only, and not on their layouts. The step
faults before it asks for the message if there are too few keys, too few signatures or too many of them, and also if
mere counts say so. A stack is taken to hold fewer than `2 ^ 63` items. -/
theorem multiSig_decides (htable : e.table .checkMultiSig = .standard .checkMultiSig) (hrun : e.status = .running)
    (hframes : e.state.frames = f :: outer) (hfetch : fetch f = .ok .checkMultiSig)
    (hpaid : e.state.consumeGas (e.state.price .checkMultiSig) = (true, paid)) (hroom : f.eval.length < 2 ^ 63) :
    (∀ {keys signatures : List Bytes} {keyItems signatureItems rest : List Item},
      Listed e.state.heap keys keyItems → Listed e.state.heap signatures signatureItems →
      f.eval = keyItems ++ (signatureItems ++ rest) →
      (∀ provider, e.state.message = some provider → 1 ≤ signatures.length → signatures.length ≤ keys.length →
        let message := provider e.state.session.iteration
        let verdict := decide (Matched (e.state.crypto.verify message) signatures keys)
        ∃ tried : List (Bytes × Bytes), tried.map Prod.snd <+: keys ∧
          let asked := (paid.record (.messageAsked e.state.session.iteration)).checked message tried
          e.step = { e with
            state := settle (asked.setFrames ({ f.advance with eval := .boolean verdict :: rest } :: outer)) }) ∧
      (keys.length < 1 ∨ signatures.length < 1 ∨ keys.length < signatures.length → e.FaultsUnasked f)) ∧
    (Refused e.state.heap f.eval → e.FaultsUnasked f) := by
  obtain ⟨total, rfl⟩ := State.eq_of_paid hpaid
  -- The instruction starts with the opcode read and paid for.
  let charged : State := { e.state with session := { e.state.session with gasConsumed := total } }
  have hstart : charged.setFrames (f.advance :: outer) = charged.resume e.state.heap f.advance := by
    show _ = charged.setFrames (f.advance :: e.state.frames.tail)
    rw [hframes, List.tail_cons]
  have hstep := step_onState (m := fun _ => Instructions.checkMultiSig) (fun _ _ => rfl) htable hrun hframes hfetch
    hpaid
  rw [hstart] at hstep
  have hrefuses : Refused e.state.heap f.eval → e.FaultsUnasked f := by
    intro hrefused
    have hleads := Instructions.checkMultiSig_refuses (f := f.advance) hrefused hroom
      (charged.resume e.state.heap f.advance) rfl
    revert hleads hstep
    -- A check of refused operands cannot return.
    rcases Instructions.checkMultiSig.run (charged.resume e.state.heap f.advance) with ⟨cause | _, t⟩
    · rintro hstep ⟨g, rfl⟩
      unfold FaultsUnasked
      rw [hstep]
      exact ⟨(fail_status _ cause).trans (if_pos hrun), cause, fail_journal _ cause⟩
    · exact fun _ h => h.elim
  refine ⟨?_, hrefuses⟩
  intro keys signatures keyItems signatureItems rest hkeys hsignatures heval
  refine ⟨?_, fun hrange => hrefuses (heval ▸ .of_lengths hkeys hsignatures hrange)⟩
  intro provider hmessage hsome hfit message verdict
  obtain ⟨tried, htried, hcheck⟩ := Instructions.run_checkMultiSig (s := charged) (f := f.advance) hkeys hsignatures
    heval hroom hsome hfit hmessage
  refine ⟨tried, htried, ?_⟩
  rw [hstep, hcheck]
  have houter : outer = e.state.frames.tail := by rw [hframes, List.tail_cons]
  rw [houter]
  rfl

/-- A machine with two keys in an array and one signature below its number, which the second key matches; and one with
two signatures in that array for a single key, which it refuses. -/
theorem multiSig_decides_second :
    let digests : CryptoSuite :=
      { sha1 := fun _ => #[], sha256 := fun _ => #[], hash160 := fun _ => #[], hash256 := fun _ => #[]
        verify := fun _ signature key => signature == key }
    let pair := Heap.empty.newArray [.bytes 5 #[1], .bytes 6 #[2]]
    let frame (eval : Stack) : Frame := { script := ⟨#[0xAE], #[]⟩, eval }
    let machine (f : Frame) : Engine :=
      { state := { State.new .default digests with heap := pair.2, message := some fun _ => #[7] }.setFrames [f] }
    let f := frame [pair.1, .integer (.small 1), .bytes 7 #[2]]
    let g := frame [.integer (.small 1), .bytes 7 #[2], pair.1]
    let paid := ((machine f).state.consumeGas ((machine f).state.price .checkMultiSig)).2
    (fetch f = .ok .checkMultiSig ∧ (machine f).status = .running) ∧
    (∃ tried, (machine f).step = { machine f with
      state := settle (((paid.record (.messageAsked 0)).checked #[7] tried).setFrames
        [{ f.advance with eval := [.boolean true] }]) }) ∧
    (machine g).FaultsUnasked g := by
  intro digests pair frame machine f g paid
  have hviews : Viewed [.bytes 5 #[1], .bytes 6 #[2]] [#[1], #[2]] := .cons rfl (.cons rfl .nil)
  have hpair : Listed pair.2 [#[1], #[2]] [pair.1] := .container rfl hviews
  have hone : Listed pair.2 [#[2]] [.integer (.small 1), .bytes 7 #[2]] :=
    .counted (fun h => by cases h) rfl (.cons rfl .nil)
  have hmatched : decide (Matched ((machine f).state.crypto.verify #[7]) [#[2]] [#[1], #[2]]) = true := by
    decide +kernel
  have hframes : ∀ h : Frame, (machine h).state.frames = h :: [] := fun _ => rfl
  have hfetch : fetch f = .ok .checkMultiSig ∧ fetch g = .ok .checkMultiSig := ⟨rfl, rfl⟩
  have hpaid := (machine f).state.paid_of_granted ((machine f).state.price .checkMultiSig) (by decide +kernel)
  have hpaid' := (machine g).state.paid_of_granted ((machine g).state.price .checkMultiSig) (by decide +kernel)
  have hdecides := multiSig_decides rfl rfl (hframes f) hfetch.1 hpaid (by decide)
  have hrefuses := multiSig_decides rfl rfl (hframes g) hfetch.2 hpaid' (by decide)
  refine ⟨⟨hfetch.1, rfl⟩, ?_, ?_⟩
  · obtain ⟨tried, -, hstep⟩ := (hdecides.1 hpair hone rfl).1 _ rfl (by decide) (by decide)
    dsimp only at hstep
    rw [hmatched] at hstep
    exact ⟨tried, hstep⟩
  · exact (hrefuses.1 hone hpair rfl).2 (by decide)

end Engine

end ScriptMachine
