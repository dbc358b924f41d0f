import ScriptMachine.Proofs.SignatureMatching

/-! # A check of many signatures costs what it scans

The price of an instruction is asked for before the instruction runs. For a check of many signatures it is told by a
look at the top item, which the instruction pops and reads again. The two readings are one: a check that comes to an
end has taken as many keys as the price was told for, and no key is tried more than once. A check that fails has tried
none, since all faults come before the message is asked for, and it has cost at least one unit.

* `State.multiSigPrice_eq`, `State.price_of_promised`: the price by the number that the head of a list promises.
* `Supplied`: the lists of byte strings that can be read off a stack. `Supplied.listed` compares them with `Listed`.
* `Instructions.popKeys_supplied`, `Instructions.popSignatures_supplied`: what is popped was supplied.
* `Instructions.checkMultiSig_scans`: what a check has done when it has come to an end, and when it has failed.
* `Engine.multiSig_charges`: steps.
-/

namespace ScriptMachine

/-! ## Prices -/

/-- **The price of a check of many signatures**: 100 for each key that is promised, and one unit if none is. -/
theorem State.multiSigPrice_eq {s : State} {f : Frame} {outer : List Frame} {x : Item} {rest : Stack}
    (hframes : s.frames = f :: outer) (heval : f.eval = x :: rest) :
    s.multiSigPrice =
      if (s.heap.promised? x).getD 0 < 1 then 1
      else Nat.min (((s.heap.promised? x).getD 0).toNat * 100) maxUInt64 := by
  have hframe : s.currentFrame? = some f := by
    show s.frames[0]? = some f
    rw [hframes]
    rfl
  unfold multiSigPrice Heap.promised?
  rw [hframe]
  dsimp only
  rw [heval]
  dsimp only [List.head?_cons]
  cases s.heap.elements? x with
  | some items => rfl
  | none => cases x.integerValue <;> rfl

/-- The price when some keys are promised. -/
theorem State.price_of_promised {s : State} {f : Frame} {outer : List Frame} {x : Item} {rest : Stack} {n : Nat}
    (hframes : s.frames = f :: outer) (heval : f.eval = x :: rest) (hpromised : s.heap.promised? x = some (n : Int))
    (hsome : 1 ≤ n) : s.price .checkMultiSig = Nat.min (100 * n) maxUInt64 := by
  show s.multiSigPrice = _
  rw [multiSigPrice_eq hframes heval, hpromised, Option.getD_some, if_neg (by omega), Int.toNat_natCast, Nat.mul_comm]

/-! ## Supplied lists -/

/-- **The byte strings are supplied by items of a stack**, from the top down: by a container, or below their number. -/
inductive Supplied (h : Heap) (data : List Bytes) : List Item → Prop where
  /-- An array or a struct. -/
  | container {x : Item} {items : List Item} (hitems : h.elements? x = some items) (hviews : Viewed items data) :
    Supplied h data [x]
  /-- The number of the items, in whatever encoding, and the items. -/
  | counted {count : Item} {items : List Item} (hnone : h.elements? count = none)
    (hcount : h.promised? count = some (data.length : Int)) (hviews : Viewed items data) :
    Supplied h data (count :: items)

namespace Supplied

variable {h : Heap} {data : List Bytes} {operand : List Item}

/-- **What is supplied was promised.** -/
theorem promised (hdata : Supplied h data operand) :
    ∃ x items, operand = x :: items ∧ h.promised? x = some (data.length : Int) := by
  cases hdata with
  | @container x items hitems hviews =>
    exact ⟨x, [], rfl, by rw [Heap.promised?_of_elements hitems, List.Forall₂.length_eq hviews]⟩
  | @counted count items hnone hcount hviews => exact ⟨count, items, rfl, hcount⟩

/-- If integers are in their chosen representation, supplied lists are listed. -/
theorem listed (hdata : Supplied h data operand) (hcanonical : ∀ x ∈ operand, x.Canonical) :
    Listed h data operand := by
  cases hdata with
  | container hitems hviews => exact .container hitems hviews
  | @counted count items hnone hcount hviews =>
    have hcountCanonical : count.Canonical := hcanonical count List.mem_cons_self
    have hannounced := Heap.announced?_of_promised hcountCanonical hcount
    rw [Heap.announced?, hnone] at hannounced
    exact .counted hcountCanonical hannounced hviews

end Supplied

namespace Instructions

variable {s : State} {h : Heap} {f : Frame}

/-! ## Popping -/

/-- A byte string that is popped is the view of the top item. -/
theorem popBytes_reads :
    Leads (· = s.resume h f) (Exec.onFrame Frame.popBytes)
      (fun b t => ∃ x rest, f.eval = x :: rest ∧ x.byteView = .ok b ∧ t = s.resume h { f with eval := rest })
      (Resumed s h) := by
  refine Leads.run (Exec.run_onFrame_resume Frame.popBytes) (fun b hb => ?_) fun _ _ => ⟨_, rfl⟩
  rw [Frame.popBytes, run_seq] at hb ⊢
  cases heval : f.eval with
  | nil =>
    rw [Frame.run_pop_nil heval] at hb
    cases hb
  | cons x rest =>
    rw [Frame.run_pop_cons heval] at hb ⊢
    dsimp only at hb ⊢
    refine ⟨x, rest, rfl, ?_⟩
    cases hview : x.byteView with
    | error cause =>
      rw [hview] at hb
      cases hb
    | ok b' =>
      rw [hview] at hb
      cases hb
      exact ⟨rfl, rfl⟩

/-- **Byte strings that are popped** are the views of the items on top, as many as were asked for. -/
theorem popCounted_reads (count : Nat) :
    Leads (· = s.resume h f) (popCounted count)
      (fun data t => ∃ items rest, f.eval = items ++ rest ∧ Viewed items data ∧ data.length = count ∧
        t = s.resume h { f with eval := rest })
      (Resumed s h) := by
  -- The indices of the loop do not matter.
  have hloop : ∀ indices : List Nat,
      Leads (· = s.resume h f) (indices.mapM fun _ => Exec.onFrame Frame.popBytes)
        (fun data t => ∃ items rest, f.eval = items ++ rest ∧ Viewed items data ∧ data.length = indices.length ∧
          t = s.resume h { f with eval := rest })
        (Resumed s h) := by
    intro indices
    induction indices generalizing f with
    | nil =>
      rw [List.mapM_nil]
      exact Leads.returns fun t ht => ⟨[], f.eval, rfl, .nil, rfl, ht⟩
    | cons index indices ih =>
      rw [List.mapM_cons]
      refine popBytes_reads.seq fun b => ?_
      rintro _ ⟨x, rest, heval, hview, rfl⟩
      refine (ih.seq fun data => Leads.returns ?_) _ rfl
      rintro t ⟨items, below, hrest, hviews, hlength, rfl⟩
      exact ⟨x :: items, below, heval.trans (congrArg _ hrest), .cons hview hviews, congrArg Nat.succ hlength, rfl⟩
  refine (hloop (List.range count)).ends ?_ fun _ ht => ht
  rintro data t ⟨items, rest, heval, hviews, hlength, ht⟩
  exact ⟨items, rest, heval, hviews, hlength.trans List.length_range, ht⟩

/-- The byte strings were popped from the stack of the frame, where they were supplied. -/
def Taken (s : State) (h : Heap) (f : Frame) (data : List Bytes) (t : State) : Prop :=
  ∃ operand rest, Supplied h data operand ∧ f.eval = operand ++ rest ∧ t = s.resume h { f with eval := rest }

/-- **A promised number of byte strings** was supplied, if they could be popped. -/
theorem popCounted_supplied {x : Item} {rest : Stack} {n : Int} (heval : f.eval = x :: rest)
    (hnone : h.elements? x = none) (hpromised : h.promised? x = some n) (hsome : 1 ≤ n) :
    Leads (· = s.resume h { f with eval := rest }) (popCounted n.toNat)
      (fun data t => (data.length : Int) = n ∧ Taken s h f data t) (Resumed s h) := by
  refine (popCounted_reads n.toNat).ends ?_ fun _ ht => ht
  rintro data t ⟨items, below, hrest, hviews, hlength, rfl⟩
  have hn : (data.length : Int) = n := by omega
  refine ⟨hn, x :: items, below, .counted hnone (hn ▸ hpromised) hviews, ?_, rfl⟩
  exact heval.trans (congrArg _ hrest)

/-- **The keys that are popped** were supplied, and there is one. -/
theorem popKeys_supplied :
    Leads (· = s.resume h f) popKeys (fun keys t => 1 ≤ keys.length ∧ Taken s h f keys t) (Resumed s h) := by
  refine popByteList_reads.seq fun r => ?_
  rintro _ ⟨x, rest, heval, hread, rfl⟩
  match r with
  | .inl [] => exact ⟨_, rfl⟩
  | .inl (key :: keys) =>
    obtain ⟨items, hitems, hviews⟩ := hread
    exact ⟨Nat.succ_pos _, [x], rest, .container hitems hviews, heval, rfl⟩
  | .inr n =>
    dsimp only
    rw [run_evalDepth_seq]
    by_cases hrange : (decide (n < 1) || decide ((rest.length : Int) < n)) = true
    · rw [if_pos hrange]
      exact ⟨_, rfl⟩
    · -- What was promised is on the stack, so that it can be counted off.
      rw [if_neg hrange]
      simp only [Bool.or_eq_true, decide_eq_true_eq, not_or] at hrange
      have hsome : 1 ≤ n := by omega
      refine ((popCounted_supplied heval hread.1 hread.2 hsome).ends ?_ fun _ ht => ht) _ rfl
      rintro keys t ⟨hlength, htaken⟩
      exact ⟨by omega, htaken⟩

/-- **The signatures that are popped** were supplied, there is one, and they are no more than the keys. -/
theorem popSignatures_supplied (keyCount : Nat) :
    Leads (· = s.resume h f) (popSignatures keyCount)
      (fun signatures t => (1 ≤ signatures.length ∧ signatures.length ≤ keyCount) ∧ Taken s h f signatures t)
      (Resumed s h) := by
  refine popByteList_reads.seq fun r => ?_
  rintro _ ⟨x, rest, heval, hread, rfl⟩
  match r with
  | .inl signatures =>
    obtain ⟨items, hitems, hviews⟩ := hread
    dsimp only
    by_cases hrange : (signatures.isEmpty || decide (signatures.length > keyCount)) = true
    · rw [if_pos hrange]
      exact ⟨_, rfl⟩
    · rw [if_neg hrange]
      simp only [Bool.or_eq_true, List.isEmpty_iff, decide_eq_true_eq, not_or] at hrange
      have hsome : 1 ≤ signatures.length := List.length_pos_iff.2 hrange.1
      exact ⟨⟨hsome, Nat.le_of_not_gt hrange.2⟩, [x], rest, .container hitems hviews, heval, rfl⟩
  | .inr m =>
    dsimp only
    rw [run_evalDepth_seq]
    by_cases hrange : (decide (m < 1) || decide ((keyCount : Int) < m) || decide ((rest.length : Int) < m)) = true
    · rw [if_pos hrange]
      exact ⟨_, rfl⟩
    · rw [if_neg hrange]
      simp only [Bool.or_eq_true, decide_eq_true_eq, not_or] at hrange
      have hsome : 1 ≤ m := by omega
      refine ((popCounted_supplied heval hread.1 hread.2 hsome).ends ?_ fun _ ht => ht) _ rfl
      rintro signatures t ⟨hlength, htaken⟩
      exact ⟨⟨by omega, by omega⟩, htaken⟩

/-- Asking for the message tells the host once; without a provider nothing is asked. -/
theorem askMessage_leads :
    Leads (· = s.resume h f) Exec.askMessage
      (fun _ t => t = (s.record (.messageAsked s.session.iteration)).resume h f) (Resumed s h) := by
  refine Leads.reads ?_
  rintro _ rfl
  split
  · exact Leads.throws fun t ht => ⟨f, ht⟩
  · rintro _ rfl
    rfl

/-! ## The instruction -/

/-- A check of many signatures has scanned the keys: they were supplied by the stack of the frame, the host was asked
for the message once, and the keys were tried in their order, each at most once. -/
structure Scanned (s : State) (h : Heap) (f : Frame) (keys : List Bytes) (t : State) : Prop where
  /-- There is a key. -/
  nonempty : 1 ≤ keys.length
  /-- Where the keys come from. -/
  supplied : ∃ operand rest, Supplied h keys operand ∧ f.eval = operand ++ rest
  /-- What was asked and tried. -/
  tried : ∃ message tried g, tried.map Prod.snd <+: keys ∧
    t = ((s.record (.messageAsked s.session.iteration)).checked message tried).resume h g

/-- **A check of many signatures** either scans its keys or fails before it asks for the message. -/
theorem checkMultiSig_scans :
    Leads (· = s.resume h f) checkMultiSig (fun _ t => ∃ keys, Scanned s h f keys t) (Resumed s h) := by
  -- Both lists are popped before the message is asked for, and nothing fails after that.
  refine popKeys_supplied.seq fun keys => ?_
  rintro _ ⟨hsome, operand, rest, hkeys, heval, rfl⟩
  refine ((popSignatures_supplied keys.length).seq fun signatures => ?_) _ rfl
  rintro _ ⟨⟨hsignatures, -⟩, -, below, -, -, rfl⟩
  refine (askMessage_leads.seq fun message => ?_) _ rfl
  rintro _ rfl
  obtain ⟨tried, htried, hmatch⟩ := run_matchSignatures message keys (List.ne_nil_of_length_pos hsignatures)
    ((s.record (.messageAsked s.session.iteration)).resume h { f with eval := below })
  rw [run_seq_of_ok hmatch]
  exact ⟨keys, hsome, ⟨operand, rest, hkeys, heval⟩, message, tried, _, htried, rfl⟩

end Instructions

/-! ## Steps -/

namespace Engine

variable {e : Engine} {f : Frame} {outer : List Frame}

/-- **A check of many signatures is charged for exactly the keys that it scans.** At `CHECKMULTISIG` the price is asked
for first; if it is refused, nothing else happens, and otherwise the counter of consumed gas grows by it, up to the
greatest value that it has. If the instruction then returns, it has taken keys off the stack in either layout, at least
one, the price was 100 for each of them, up to the greatest amount of gas, and all that the journal tells is that the
message was asked for once, and signatures were checked with the keys in their order, with each key at most once. If it
faults, no signature was checked, and the price was at least one unit. This is so for all items on the stack. -/
theorem multiSig_charges (htable : e.table .checkMultiSig = .standard .checkMultiSig) (hrun : e.status = .running)
    (hframes : e.state.frames = f :: outer) (hfetch : fetch f = .ok .checkMultiSig) :
    let price := e.state.price .checkMultiSig
    match e.state.consumeGas price with
    | (false, refused) => e.step = { e with state := refused }
    | (true, paid) =>
      e.step.state.session.gasConsumed = Nat.min (e.state.session.gasConsumed + price) maxUInt64 ∧
      match Instructions.checkMultiSig.run (paid.setFrames (f.advance :: outer)) with
      | (.ok (), t) =>
        e.step = { e with state := settle t } ∧
        ∃ (keys : List Bytes) (message : Bytes) (tried : List (Bytes × Bytes)),
          (∃ operand rest, Supplied e.state.heap keys operand ∧ f.eval = operand ++ rest) ∧
          1 ≤ keys.length ∧ price = Nat.min (100 * keys.length) maxUInt64 ∧
          (tried.map Prod.snd <+: keys ∧ tried.length ≤ keys.length) ∧
          t.journal = (tried.map fun pair => .signatureChecked message pair.1 pair.2).reverse ++
            .messageAsked e.state.session.iteration :: e.state.journal
      | (.error _, _) => e.FaultsUnasked f ∧ 1 ≤ price := by
  intro price
  obtain ⟨event, hpaid⟩ | ⟨total, htotal, -, hpaid⟩ := e.state.consumeGas_cases price
  · rw [hpaid]
    exact step_unpaid hrun hframes hfetch hpaid
  rw [hpaid]
  dsimp only
  -- The instruction starts with the opcode read and paid for.
  let charged : State := { e.state with session := { e.state.session with gasConsumed := total } }
  have hstart : charged.setFrames (f.advance :: outer) = charged.resume e.state.heap f.advance := by
    show _ = charged.setFrames (f.advance :: e.state.frames.tail)
    rw [hframes, List.tail_cons]
  have hstep := step_onState (m := fun _ => Instructions.checkMultiSig) (fun _ _ => rfl) htable hrun hframes hfetch
    hpaid
  have hscans := Instructions.checkMultiSig_scans (f := f.advance) (charged.resume e.state.heap f.advance) rfl
  rw [hstart] at hstep ⊢
  revert hstep hscans
  rcases Instructions.checkMultiSig.run (charged.resume e.state.heap f.advance) with ⟨cause | _, t⟩
  · -- The state of a failed check differs in its frames only, so that nothing was written into the journal.
    rintro hstep ⟨g, rfl⟩
    dsimp only at hstep ⊢
    unfold FaultsUnasked
    rw [hstep]
    refine ⟨?_, ⟨(fail_status _ cause).trans (if_pos hrun), cause, fail_journal _ cause⟩, one_le_price _ _⟩
    rw [fail_sameData]
    exact htotal
  · rintro hstep ⟨keys, hsome, ⟨operand, rest, hkeys, heval⟩, message, tried, g, htried, rfl⟩
    dsimp only at hstep ⊢
    refine ⟨?_, hstep, keys, message, tried, ⟨operand, rest, hkeys, heval⟩, hsome, ?_, ⟨htried, ?_⟩, rfl⟩
    · rw [hstep, settle_sameData]
      exact htotal
    · -- The item that the price was told by is the one at the head of the keys.
      obtain ⟨x, items, rfl, hpromised⟩ := hkeys.promised
      exact State.price_of_promised hframes heval hpromised hsome
    · simpa using htried.length_le

/-- A machine with two keys below their number, which is written with a byte that it does not need, and one signature:
the check costs 200 units. One that counts minus one key pays a single unit for its fault. -/
theorem multiSig_charges_two :
    let digests : CryptoSuite :=
      { sha1 := fun _ => #[], sha256 := fun _ => #[], hash160 := fun _ => #[], hash256 := fun _ => #[]
        verify := fun _ signature key => signature == key }
    let frame (eval : Stack) : Frame := { script := ⟨#[0xAE], #[]⟩, eval }
    let machine (f : Frame) : Engine :=
      { state := { State.new .default digests with message := some fun _ => #[7] }.setFrames [f] }
    let f := frame [.bytes 1 #[2, 0], .bytes 2 #[1], .bytes 3 #[2], .integer (.small 1), .bytes 4 #[2]]
    let g := frame [.bytes 1 #[0xFF], .bytes 2 #[1]]
    (fetch f = .ok .checkMultiSig ∧ (machine f).status = .running) ∧
    ((machine f).step.state.session.gasConsumed = 200 ∧
      ∃ (t : State) (message : Bytes) (tried : List (Bytes × Bytes)), tried.length ≤ 2 ∧
        (machine f).step = { machine f with state := settle t } ∧
        t.journal = (tried.map fun pair => .signatureChecked message pair.1 pair.2).reverse ++ [.messageAsked 0]) ∧
    (machine g).step.state.session.gasConsumed = 1 ∧ (machine g).FaultsUnasked g := by
  intro digests frame machine f g
  have hframes : ∀ h : Frame, (machine h).state.frames = h :: [] := fun _ => rfl
  have hfetch : fetch f = .ok .checkMultiSig ∧ fetch g = .ok .checkMultiSig := ⟨rfl, rfl⟩
  have hprice : (machine f).state.price .checkMultiSig = 200 := by decide +kernel
  have hprice' : (machine g).state.price .checkMultiSig = 1 := by decide +kernel
  have hpaid := (machine f).state.paid_of_granted ((machine f).state.price .checkMultiSig) (by decide +kernel)
  have hpaid' := (machine g).state.paid_of_granted ((machine g).state.price .checkMultiSig) (by decide +kernel)
  have hcharges := multiSig_charges rfl rfl (hframes f) hfetch.1
  have hcharges' := multiSig_charges rfl rfl (hframes g) hfetch.2
  dsimp only at hcharges hcharges'
  rw [hpaid] at hcharges
  rw [hpaid'] at hcharges'
  obtain ⟨hgas, hend⟩ := hcharges
  obtain ⟨hgas', hend'⟩ := hcharges'
  rw [hprice] at hgas
  rw [hprice'] at hgas'
  refine ⟨⟨hfetch.1, rfl⟩, ⟨hgas, ?_⟩, hgas', ?_⟩
  · have hreturns : (Instructions.checkMultiSig.run
        (((machine f).state.consumeGas ((machine f).state.price .checkMultiSig)).2.setFrames [f.advance])).1.toBool =
        true := by decide +kernel
    revert hend hreturns
    rcases Instructions.checkMultiSig.run
      (((machine f).state.consumeGas ((machine f).state.price .checkMultiSig)).2.setFrames [f.advance]) with
      ⟨cause | _, t⟩
    · exact fun _ h => by cases h
    · rintro ⟨hstep, keys, message, tried, -, hsome, hkeys, ⟨-, htried⟩, hjournal⟩ -
      -- The price tells the number of keys.
      have hlength : keys.length = 2 := by
        have hkeys : 200 = min (100 * keys.length) maxUInt64 := hprice.symm.trans hkeys
        rw [maxUInt64] at hkeys
        omega
      exact ⟨t, message, tried, hlength ▸ htried, hstep, hjournal⟩
  · have hfaults : (Instructions.checkMultiSig.run
        (((machine g).state.consumeGas ((machine g).state.price .checkMultiSig)).2.setFrames [g.advance])).1.toBool =
        false := by decide +kernel
    revert hend' hfaults
    rcases Instructions.checkMultiSig.run
      (((machine g).state.consumeGas ((machine g).state.price .checkMultiSig)).2.setFrames [g.advance]) with
      ⟨cause | _, t⟩
    · exact fun hend' _ => hend'.1
    · exact fun _ h => by cases h

end Engine

end ScriptMachine
