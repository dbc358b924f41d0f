import ScriptMachine.Proofs.Integer.Order

/-! # Order and narrowing as a whole

An integer of any size is narrowed to a machine word exactly if its number is one of those that the word can hold, and
the word then denotes that number. So narrowing takes back what widening a machine word has made, and on the canonical
integers widening takes back what narrowing has made.

* `Integer.narrowed_iff`: what a narrowing returns, by the range of the words; `Integer.toInt32?_eq_some_iff` and
  `Integer.toInt64?_eq_some_iff` are its two cases.
* `Integer.toInt64?_ofInt64`, `Integer.toInt32?_ofInt64`, `Integer.toInt64?_ofUInt64`: widened words are narrowed back.
* `Integer.ofInt64_of_toInt64?`, `Integer.ofUInt64_of_toInt64?`: narrowed integers are widened back.
* `Integer.order_eq_iff`, `Integer.order_swap`, `Integer.atMost_trans`: a total order that agrees with equality.
* `Integer.ordered_and_narrowed`: order, sign and narrowing together.
-/

namespace ScriptMachine

namespace Integer

variable {a b c : Integer}

/-! ## Order -/

/-- **Only equal integers are neither below nor above each other.** -/
theorem order_eq_iff (ha : a.Canonical) (hb : b.Canonical) : a.order b = .eq ↔ a = b := by
  rw [order_eq ha hb, Int.compare_eq_eq, eq_iff_toInt_eq ha hb]

/-- The order of two integers is turned round with them. -/
theorem order_swap (ha : a.Canonical) (hb : b.Canonical) : b.order a = (a.order b).swap := by
  rw [order_eq ha hb, order_eq hb ha, Int.compare_swap]

/-- Of two integers one is at most the other. -/
theorem atMost_total (ha : a.Canonical) (hb : b.Canonical) : a.atMost b = true ∨ b.atMost a = true := by
  rw [atMost_eq ha hb, atMost_eq hb ha, decide_eq_true_eq, decide_eq_true_eq]
  exact Int.le_total _ _

/-- The order is transitive. -/
theorem atMost_trans (ha : a.Canonical) (hb : b.Canonical) (hc : c.Canonical) (hab : a.atMost b = true)
    (hbc : b.atMost c = true) : a.atMost c = true := by
  rw [atMost_eq ha hb, decide_eq_true_eq] at hab
  rw [atMost_eq hb hc, decide_eq_true_eq] at hbc
  rw [atMost_eq ha hc, decide_eq_true_eq]
  exact Int.le_trans hab hbc

/-- Integers are compared for equality as numbers. -/
theorem beq_eq_decide (ha : a.Canonical) (hb : b.Canonical) : (a == b) = decide (a.toInt = b.toInt) := by
  rw [Bool.eq_iff_iff, beq_iff_eq, decide_eq_true_eq, eq_iff_toInt_eq ha hb]

/-! ## Narrowing -/

section

variable {Word : Type} {number : Word → Int} {low high n : Int} {narrowed : Option Word}

/-- **What a narrowing returns.** Words are told apart by their numbers, which are all in the range; a narrowing gives
the number of an integer back exactly if it is in the range. So it returns the word of that number, if there is one. -/
theorem narrowed_iff (hinj : ∀ {v w : Word}, number v = number w → v = w)
    (hrange : ∀ w, low ≤ number w ∧ number w < high)
    (hnarrowed : narrowed.map number = if low ≤ n ∧ n < high then some n else none) (w : Word) :
    narrowed = some w ↔ number w = n := by
  by_cases hn : low ≤ n ∧ n < high
  · rw [if_pos hn, Option.map_eq_some_iff] at hnarrowed
    obtain ⟨v, rfl, rfl⟩ := hnarrowed
    rw [Option.some_inj]
    exact ⟨fun h => h ▸ rfl, fun h => (hinj h).symm⟩
  · rw [if_neg hn, Option.map_eq_none_iff] at hnarrowed
    rw [hnarrowed]
    refine ⟨fun h => (by cases h), ?_⟩
    rintro rfl
    exact absurd (hrange w) hn

/-- A narrowing returns a word exactly if the number is in the range of the words. -/
theorem isSome_narrowed_iff (hnarrowed : narrowed.map number = if low ≤ n ∧ n < high then some n else none) :
    narrowed.isSome = true ↔ low ≤ n ∧ n < high := by
  rw [← Option.isSome_map (f := number), hnarrowed]
  split
  · rename_i hn
    exact ⟨fun _ => hn, fun _ => rfl⟩
  · rename_i hn
    exact ⟨fun h => (by cases h), fun h => absurd h hn⟩

end

/-- **Narrowing to 32 bits** returns the word of the number. -/
theorem toInt32?_eq_some_iff (ha : a.Canonical) (v : Int32) : a.toInt32? = some v ↔ v.toInt = a.toInt :=
  narrowed_iff Int32.toInt_inj.1 toInt_range32 (toInt32?_eq ha) v

/-- **Narrowing to 64 bits** returns the word of the number. -/
theorem toInt64?_eq_some_iff (ha : a.Canonical) (v : Int64) : a.toInt64? = some v ↔ v.toInt = a.toInt :=
  narrowed_iff Int64.toInt_inj.1 (fun w => ⟨w.le_toInt, w.toInt_lt⟩) (toInt64?_eq ha) v

/-- A signed word of 64 bits is narrowed back. -/
theorem toInt64?_ofInt64 (v : Int64) : (ofInt64 v).toInt64? = some v :=
  (toInt64?_eq_some_iff (canonical_ofInt64 v) v).2 (toInt_ofInt64 v).symm

/-- A signed word of 32 bits is narrowed back, the least one as well. -/
theorem toInt32?_ofInt64 (v : Int32) : (ofInt64 v.toInt64).toInt32? = some v := by
  rw [toInt32?_eq_some_iff (canonical_ofInt64 _), toInt_ofInt64, Int32.toInt_toInt64]

/-- An unsigned word of 64 bits is narrowed back if it has no more than 63. -/
theorem toInt64?_ofUInt64 {u : UInt64} (hu : u.toNat < 2 ^ 63) : (ofUInt64 u).toInt64? = some u.toInt64 := by
  rw [toInt64?_eq_some_iff (canonical_ofUInt64 u).1, (canonical_ofUInt64 u).2, toInt_word64, UInt64.toUInt64_toInt64,
    if_pos hu]

/-- What is narrowed to 64 bits is widened back. -/
theorem ofInt64_of_toInt64? (ha : a.Canonical) {v : Int64} (hv : a.toInt64? = some v) : ofInt64 v = a := by
  rw [eq_iff_toInt_eq (canonical_ofInt64 v) ha, toInt_ofInt64]
  exact (toInt64?_eq_some_iff ha v).1 hv

/-- What is narrowed to 64 bits and not below zero is widened back without a sign. -/
theorem ofUInt64_of_toInt64? (ha : a.Canonical) (hsign : 0 ≤ a.toInt) {v : Int64} (hv : a.toInt64? = some v) :
    ofUInt64 v.toUInt64 = a := by
  have hnumber := (toInt64?_eq_some_iff ha v).1 hv
  rw [eq_iff_toInt_eq (canonical_ofUInt64 _).1 ha, (canonical_ofUInt64 _).2, ← hnumber, toInt_word64]
  rw [← hnumber, toInt_word64] at hsign
  have hlt := v.toUInt64.toNat_lt
  split at hsign
  · rename_i hlow
    rw [if_pos hlow]
  · omega

/-! ## Order and narrowing together -/

/-- **Order, sign and narrowing of canonical integers are those of their numbers.** The three-way comparison is the
comparison of the numbers, and so are the relations and the choice of the smaller and the larger integer that are
derived from it: a total order in which only equal integers are neither below nor above each other. The sign is the
sign of the number. An integer is narrowed to 32 or 64 bits exactly if its number has so many bits, and to the word of
that number; widening undoes narrowing, and narrowing undoes the widening of every word whose number is in its range. -/
theorem ordered_and_narrowed :
    (∀ a b : Integer, a.Canonical → b.Canonical →
      (a.order b = compare a.toInt b.toInt ∧ (a.order b = .eq ↔ a = b) ∧ b.order a = (a.order b).swap ∧
        (a.atMost b = true ∨ b.atMost a = true) ∧
        ∀ c : Integer, c.Canonical → a.atMost b = true → b.atMost c = true → a.atMost c = true) ∧
      ((a == b) = decide (a.toInt = b.toInt) ∧ a.less b = decide (a.toInt < b.toInt) ∧
        a.atMost b = decide (a.toInt ≤ b.toInt)) ∧
      ((a.min b).Canonical ∧ (a.min b).toInt = Min.min a.toInt b.toInt ∧
        (a.max b).Canonical ∧ (a.max b).toInt = Max.max a.toInt b.toInt)) ∧
    (∀ a : Integer, a.Canonical →
      a.signum.toInt = a.toInt.sign ∧
      ((a.toInt32?.isSome = true ↔ -2 ^ 31 ≤ a.toInt ∧ a.toInt < 2 ^ 31) ∧
        ∀ v : Int32, a.toInt32? = some v ↔ v.toInt = a.toInt) ∧
      ((a.toInt64?.isSome = true ↔ -2 ^ 63 ≤ a.toInt ∧ a.toInt < 2 ^ 63) ∧
        ∀ v : Int64, a.toInt64? = some v ↔ v.toInt = a.toInt) ∧
      ∀ v : Int64, a.toInt64? = some v → ofInt64 v = a ∧ (0 ≤ a.toInt → ofUInt64 v.toUInt64 = a)) ∧
    (∀ v : Int64, (ofInt64 v).toInt64? = some v ∧ ∀ w : Int32, (ofInt64 v).toInt32? = some w ↔ w.toInt = v.toInt) ∧
    (∀ v : Int32, (ofInt64 v.toInt64).toInt32? = some v) ∧
    ∀ u : UInt64, (u.toNat < 2 ^ 63 → (ofUInt64 u).toInt64? = some u.toInt64) ∧
      ∀ w : Int32, (ofUInt64 u).toInt32? = some w ↔ w.toInt = u.toNat := by
  refine ⟨fun a b ha hb => ?_, fun a ha => ?_, fun v => ⟨toInt64?_ofInt64 v, fun w => ?_⟩, toInt32?_ofInt64,
    fun u => ⟨toInt64?_ofUInt64, fun w => ?_⟩⟩
  · obtain ⟨hmin, hmax⟩ := canonical_choice ha hb
    exact ⟨⟨order_eq ha hb, order_eq_iff ha hb, order_swap ha hb, atMost_total ha hb, fun c hc => atMost_trans ha hb hc⟩,
      ⟨beq_eq_decide ha hb, less_eq ha hb, atMost_eq ha hb⟩, hmin, toInt_min ha hb, hmax, toInt_max ha hb⟩
  · exact ⟨toInt_signum ha, ⟨isSome_narrowed_iff (toInt32?_eq ha), toInt32?_eq_some_iff ha⟩,
      ⟨isSome_narrowed_iff (toInt64?_eq ha), toInt64?_eq_some_iff ha⟩,
      fun v hv => ⟨ofInt64_of_toInt64? ha hv, fun hsign => ofUInt64_of_toInt64? ha hsign hv⟩⟩
  · rw [toInt32?_eq_some_iff (canonical_ofInt64 v), toInt_ofInt64]
  · rw [toInt32?_eq_some_iff (canonical_ofUInt64 u).1, (canonical_ofUInt64 u).2]

/-- The least words of 32 and of 64 bits are stored as sign and magnitude, and narrowed to themselves. -/
theorem ordered_and_narrowed_least :
    let a := large true [0x80000000]
    let b := large true [0, 0x80000000]
    (a.Canonical ∧ b.Canonical) ∧ (b.order a = compare (-2 ^ 63 : Int) (-2 ^ 31) ∧ (a.min b).toInt = -2 ^ 63) ∧
      (a.toInt32? = some Int32.minValue ∧ ofInt64 (-2147483648) = a) ∧
      b.toInt32?.isSome = false ∧ b.toInt64? = some Int64.minValue := by
  intro a b
  have ha : a.Canonical := ⟨by simp [Words.Trimmed], by decide⟩
  have hb : b.Canonical := ⟨by simp [Words.Trimmed], by decide⟩
  obtain ⟨hpair, hone, -⟩ := ordered_and_narrowed
  obtain ⟨⟨horder, -⟩, -⟩ := hpair b a hb ha
  obtain ⟨-, -, -, hmin, -⟩ := hpair a b ha hb
  obtain ⟨-, ⟨-, hnarrow⟩, -, hwiden⟩ := hone a ha
  obtain ⟨-, ⟨hrange, -⟩, ⟨-, hnarrow'⟩, -⟩ := hone b hb
  refine ⟨⟨ha, hb⟩, ⟨horder, hmin⟩, ⟨(hnarrow _).2 (by decide), (hwiden _ (by decide)).1⟩, ?_, (hnarrow' _).2 (by decide)⟩
  exact Bool.eq_false_iff.2 fun h => absurd (hrange.1 h) (by decide)

end Integer

end ScriptMachine
