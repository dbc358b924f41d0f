import ScriptMachine.Engine.Dispatch

/-! # Computations that keep an invariant

Computations on a frame, a state and an engine have one shape: they read and change a state, and what
they did before a fault stays done. `Keeps I m Q` says of such a computation that it ends in a state with
`I` whenever it starts in one, also when it faults, and that what it returns satisfies `Q`. The rules
follow the ways in which instructions are put together:

* `Keeps.returns`, `Keeps.throws`, `Keeps.result`, `Keeps.reads`, `Keeps.writes`, `Keeps.updates`: leaves.
* `Keeps.seq`, `Keeps.branch`, `Keeps.guarded`, `Keeps.each`: sequences, branches, guards, traversals.

`Leads P m Q E` is for computations that change more than an invariant tells: it goes from `P` to `Q`, or to
`E` by a fault, and `Leads.seq` chains such statements.
-/

namespace ScriptMachine

variable {σ α β : Type} {I : σ → Prop} {Q : α → Prop} {R : β → Prop}

/-! ## Runs of composed computations -/

/-- The run of a sequence: the second computation starts where the first one returned. -/
theorem run_seq (m : ExceptT Fault (StateM σ) α) (k : α → ExceptT Fault (StateM σ) β) (s : σ) :
    (m >>= k).run s =
      match m.run s with
      | (.ok a, t) => (k a).run t
      | (.error f, t) => (.error f, t) := by
  -- A fault skips the second computation and keeps the state that the first one has left.
  show (match m.run s with | (a, t) => ExceptT.bindCont k a t) = _
  rcases m.run s with ⟨_ | _, t⟩ <;> rfl

/-- The run of a computation that looks at the state first. -/
theorem run_get_seq (k : σ → ExceptT Fault (StateM σ) α) (s : σ) :
    ((get : ExceptT Fault (StateM σ) σ) >>= k).run s = (k s).run s := rfl

/-- Without a frame, a computation of the innermost frame faults and changes nothing. -/
theorem Exec.run_onFrame_nil (m : FrameM α) {s : State} (h : s.frames = []) :
    (Exec.onFrame m).run s = (.error .noCurrentFrame, s) := by
  unfold Exec.onFrame
  rw [run_get_seq, h]
  rfl

/-- A computation of the innermost frame replaces that frame, also when it faults. -/
theorem Exec.run_onFrame_cons (m : FrameM α) {s : State} {f : Frame} {rest : List Frame}
    (h : s.frames = f :: rest) :
    (Exec.onFrame m).run s = ((m.run f).1, s.setFrames ((m.run f).2 :: rest)) := by
  unfold Exec.onFrame
  rw [run_get_seq, h]
  dsimp only
  rcases m.run f with ⟨_ | _, f'⟩ <;> rfl

/-- A computation of the state, run on an engine, leaves the host and the table alone. -/
theorem Engine.run_onState (m : Exec α) (e : Engine) :
    (Engine.onState m).run e = ((m.run e.state).1, { e with state := (m.run e.state).2 }) := by
  unfold Engine.onState
  rw [run_get_seq]
  rcases m.run e.state with ⟨_ | _, s⟩ <;> rfl

/-! ## Invariants -/

/-- From a state with `I` the computation ends in a state with `I`, also when it faults, and what it
returns satisfies `Q`. -/
def Keeps (I : σ → Prop) (m : ExceptT Fault (StateM σ) α) (Q : α → Prop) : Prop :=
  ∀ s, I s → I (m.run s).2 ∧ ∀ a, (m.run s).1 = .ok a → Q a

namespace Keeps

/-- Returning a value changes nothing. -/
theorem returns {a : α} (ha : Q a) : Keeps I (pure a) Q := by
  intro s hs
  refine ⟨hs, fun b hb => ?_⟩
  cases hb
  exact ha

/-- A fault changes nothing and returns nothing. -/
theorem throws (f : Fault) : Keeps I (throw f : ExceptT Fault (StateM σ) α) Q := by
  intro s hs
  refine ⟨hs, fun b hb => ?_⟩
  cases hb

/-- A result that was computed beforehand. -/
theorem result {x : Except Fault α} (hx : ∀ a, x = .ok a → Q a) :
    Keeps I (MonadExcept.ofExcept x) Q := by
  cases x with
  | error f => exact throws f
  | ok a => exact returns (hx a rfl)

/-- Reading the state returns a state with the invariant. -/
theorem reads : Keeps I (get : ExceptT Fault (StateM σ) σ) I := by
  intro s hs
  refine ⟨hs, fun t ht => ?_⟩
  cases ht
  exact hs

/-- Writing a state that has the invariant. -/
theorem writes {s : σ} (hs : I s) :
    Keeps I (set s : ExceptT Fault (StateM σ) PUnit) (fun _ => True) :=
  fun _ _ => ⟨hs, fun _ _ => trivial⟩

/-- Changing the state by a function that keeps the invariant. -/
theorem updates {f : σ → σ} (hf : ∀ s, I s → I (f s)) :
    Keeps I (modify f : ExceptT Fault (StateM σ) PUnit) (fun _ => True) :=
  fun s hs => ⟨hf s hs, fun _ _ => trivial⟩

/-- A weaker statement on what is returned. -/
theorem weaken {m : ExceptT Fault (StateM σ) α} {Q' : α → Prop} (hm : Keeps I m Q)
    (hQ : ∀ a, Q a → Q' a) : Keeps I m Q' :=
  fun s hs => ⟨(hm s hs).1, fun a ha => hQ a ((hm s hs).2 a ha)⟩

/-- A sequence keeps what both of its parts keep. -/
theorem seq {m : ExceptT Fault (StateM σ) α} {k : α → ExceptT Fault (StateM σ) β}
    (hm : Keeps I m Q) (hk : ∀ a, Q a → Keeps I (k a) R) : Keeps I (m >>= k) R := by
  intro s hs
  obtain ⟨hI, hQ⟩ := hm s hs
  rw [run_seq]
  cases hrun : m.run s with
  | mk result t =>
    rw [hrun] at hI hQ
    cases result with
    | error f => exact ⟨hI, fun b hb => by cases hb⟩
    | ok a => exact hk a (hQ a rfl) t hI

/-- A branch keeps what both of its sides keep. -/
theorem branch {c : Prop} [Decidable c] {m n : ExceptT Fault (StateM σ) α}
    (hm : c → Keeps I m Q) (hn : ¬ c → Keeps I n Q) : Keeps I (if c then m else n) Q := by
  by_cases h : c
  · rw [if_pos h]
    exact hm h
  · rw [if_neg h]
    exact hn h

/-- What follows a guard may use that the guard did not fault. -/
theorem guarded {c : Prop} [Decidable c] {f : Fault} {k : Unit → ExceptT Fault (StateM σ) β}
    (hk : ¬ c → Keeps I (k ()) R) : Keeps I (if c then throw f >>= k else k ()) R := by
  -- After a fault nothing is returned, so that the rest has no start to be checked from.
  refine branch (fun _ => ?_) hk
  exact (throws (Q := fun _ => False) f).seq fun _ h => h.elim

/-- A traversal keeps what each of its steps keeps, and returns as many results as it had items. -/
theorem each {k : α → ExceptT Fault (StateM σ) β} {xs : List α}
    (hk : ∀ x ∈ xs, Keeps I (k x) R) :
    Keeps I (xs.mapM k) (fun ys => ys.length = xs.length ∧ ∀ y ∈ ys, R y) := by
  induction xs with
  | nil =>
    rw [List.mapM_nil]
    exact returns ⟨rfl, fun y hy => by cases hy⟩
  | cons x xs ih =>
    rw [List.mapM_cons]
    refine (hk x List.mem_cons_self).seq fun y hy => ?_
    refine (ih fun z hz => hk z (List.mem_cons_of_mem _ hz)).seq fun ys hys => ?_
    refine returns ⟨by rw [List.length_cons, List.length_cons, hys.1], ?_⟩
    exact List.forall_mem_cons.2 ⟨hy, hys.2⟩

end Keeps

/-! ## Before and after -/

/-- From a state with `P` the computation either returns a value in a state with `Q`, or faults in a
state with `E`. -/
def Leads (P : σ → Prop) (m : ExceptT Fault (StateM σ) α) (Q : α → σ → Prop) (E : σ → Prop) : Prop :=
  ∀ s, P s →
    match m.run s with
    | (.ok a, t) => Q a t
    | (.error _, t) => E t

/-- A computation that keeps an invariant leads to it from each state that has it. -/
theorem Keeps.leads {m : ExceptT Fault (StateM σ) α} (hm : Keeps I m Q) {s₀ : σ} (hs₀ : I s₀) :
    Leads (· = s₀) m (fun a t => I t ∧ Q a) I := by
  rintro s rfl
  obtain ⟨hI, hQ⟩ := hm s hs₀
  rcases hrun : m.run s with ⟨_ | a, t⟩
  · rw [hrun] at hI
    exact hI
  · rw [hrun] at hI hQ
    exact ⟨hI, hQ a rfl⟩

/-- A computation that keeps an invariant leads from it to it. -/
theorem Keeps.leads_self {m : ExceptT Fault (StateM σ) α} (hm : Keeps I m Q) : Leads I m (fun _ => I) I := by
  intro s hs
  have hI := (hm s hs).1
  rcases hrun : m.run s with ⟨_ | a, t⟩
  · rw [hrun] at hI
    exact hI
  · rw [hrun] at hI
    exact hI

namespace Leads

variable {P P' : σ → Prop} {E E' : σ → Prop} {A A' : α → σ → Prop} {B : β → σ → Prop}

/-- Where a computation has ended, however it did. -/
theorem ended {m : ExceptT Fault (StateM σ) α} (hm : Leads P m (fun _ => E) E) {s : σ} (hs : P s) :
    E (m.run s).2 := by
  have hrun := hm s hs
  revert hrun
  rcases m.run s with ⟨_ | a, t⟩ <;> exact id

/-- Returning a value. -/
theorem returns {a : α} (h : ∀ s, P s → A a s) : Leads P (pure a) A E := h

/-- A fault. -/
theorem throws {f : Fault} (h : ∀ s, P s → E s) :
    Leads P (throw f : ExceptT Fault (StateM σ) α) A E := h

/-- A result that was computed beforehand. -/
theorem result {x : Except Fault α} (hok : ∀ a, x = .ok a → ∀ s, P s → A a s)
    (herror : ∀ s, P s → E s) : Leads P (MonadExcept.ofExcept x) A E := by
  cases x with
  | error f => exact throws herror
  | ok a => exact returns (hok a rfl)

/-- Writing a state. -/
theorem writes {s : σ} {A : PUnit → σ → Prop} (h : ∀ t, P t → A ⟨⟩ s) :
    Leads P (set s : ExceptT Fault (StateM σ) PUnit) A E := h

/-- Changing the state. -/
theorem updates {f : σ → σ} {A : PUnit → σ → Prop} (h : ∀ t, P t → A ⟨⟩ (f t)) :
    Leads P (modify f : ExceptT Fault (StateM σ) PUnit) A E := h

/-- A sequence: what the first part leads to is what the second part starts from. -/
theorem seq {m : ExceptT Fault (StateM σ) α} {k : α → ExceptT Fault (StateM σ) β}
    (hm : Leads P m A E) (hk : ∀ a, Leads (A a) (k a) B E) : Leads P (m >>= k) B E := by
  intro s hs
  have hfirst := hm s hs
  rw [run_seq]
  rcases hrun : m.run s with ⟨_ | a, t⟩
  · rw [hrun] at hfirst
    exact hfirst
  · rw [hrun] at hfirst
    exact hk a t hfirst

/-- Reading the state: what follows starts from the state that was read. -/
theorem reads {k : σ → ExceptT Fault (StateM σ) β} (hk : ∀ s, P s → Leads (· = s) (k s) B E) :
    Leads P (get >>= k) B E := by
  intro s hs
  rw [run_get_seq]
  exact hk s hs s rfl

/-- A stronger start and weaker ends. -/
theorem weaken {m : ExceptT Fault (StateM σ) α} (hm : Leads P m A E) (hP : ∀ s, P' s → P s)
    (hA : ∀ a s, A a s → A' a s) (hE : ∀ s, E s → E' s) : Leads P' m A' E' := by
  intro s hs
  have hrun := hm s (hP s hs)
  revert hrun
  rcases m.run s with ⟨_ | a, t⟩
  · exact hE t
  · exact hA a t

/-- Weaker ends. -/
theorem ends {m : ExceptT Fault (StateM σ) α} (hm : Leads P m A E) (hA : ∀ a s, A a s → A' a s)
    (hE : ∀ s, E s → E' s) : Leads P m A' E' := hm.weaken (fun _ hs => hs) hA hE

/-- A stronger start. -/
theorem starts {m : ExceptT Fault (StateM σ) α} (hm : Leads P m A E) (hP : ∀ s, P' s → P s) :
    Leads P' m A E := fun s hs => hm s (hP s hs)

/-- A start with a fact that does not depend on the state. -/
theorem knowing {c : Prop} {m : ExceptT Fault (StateM σ) α} (hm : c → Leads P m A E) :
    Leads (fun s => P s ∧ c) m A E := fun s hs => hm hs.2 s hs.1

/-- A run that has returned a value. -/
theorem returned {m : ExceptT Fault (StateM σ) α} (hm : Leads P m A E) {s t : σ} {a : α} (hs : P s)
    (hrun : m.run s = (.ok a, t)) : A a t := by
  have h := hm s hs
  rw [hrun] at h
  exact h

/-- A start in each state apart. -/
theorem each {m : ExceptT Fault (StateM σ) α} (hm : ∀ s, P s → Leads (· = s) m A E) :
    Leads P m A E := fun s hs => hm s hs s rfl

/-- A branch. -/
theorem branch {c : Prop} [Decidable c] {m n : ExceptT Fault (StateM σ) α}
    (hm : c → Leads P m A E) (hn : ¬ c → Leads P n A E) : Leads P (if c then m else n) A E := by
  by_cases h : c
  · rw [if_pos h]
    exact hm h
  · rw [if_neg h]
    exact hn h

/-- A fault, after which nothing follows. -/
theorem fails {f : Fault} {k : α → ExceptT Fault (StateM σ) β} (herror : ∀ s, P s → E s) :
    Leads P (throw f >>= k) B E :=
  (throws (A := fun _ _ => False) herror).seq fun _ _ hs => hs.elim

/-- A guard: a fault at the start, or what follows. -/
theorem guarded {c : Prop} [Decidable c] {f : Fault} {k : Unit → ExceptT Fault (StateM σ) β}
    (herror : ∀ s, P s → E s) (hk : ¬ c → Leads P (k ()) B E) :
    Leads P (if c then throw f >>= k else k ()) B E := branch (fun _ => fails herror) hk

end Leads

/-- The state of the engine satisfies `P`, and the host and the table are those of `e₀`. -/
def Engine.StateIn (e₀ : Engine) (P : State → Prop) (e : Engine) : Prop :=
  ∃ s, e = { e₀ with state := s } ∧ P s

/-- A computation of the state, run on an engine, which is otherwise the same. -/
theorem Leads.onState {P E : State → Prop} {A : α → State → Prop} {m : Exec α} (hm : Leads P m A E)
    (e₀ : Engine) :
    Leads (e₀.StateIn P) (Engine.onState m) (fun a => e₀.StateIn (A a)) (e₀.StateIn E) := by
  rintro e ⟨s, rfl, hs⟩
  have hrun := hm s hs
  rw [Engine.run_onState]
  dsimp only
  revert hrun
  rcases m.run s with ⟨_ | a, t⟩
  · exact fun hE => ⟨t, rfl, hE⟩
  · exact fun hA => ⟨t, rfl, hA⟩

end ScriptMachine
