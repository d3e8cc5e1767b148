import Mathlib.Logic.Basic

/-!
# Programs that fail halfway

A program that acts on the outside world and may fail leaves behind what it had done by then.  An
`Action ε σ α` takes a state to a result *and* a state, whether it succeeds or not, and
`Triple P x Q E` is the judgement about it: from a state with `P`, a success with `a` leaves `Q a`,
and a failure leaves `E`.

There is one rule for each way to build a program (`Triple.pure`, `Triple.throw`, `Triple.bind`, and
those for programs that only decide something) and the rule of consequence (`Triple.mono`).  `E` is
threaded through unchanged, so an invariant that every prefix of the program keeps is an `E`.

Which error it is that a program fails with is a judgement of its own, `Raises P x S`; its rule of
composition takes what is known between the two programs from a `Triple`.
-/

set_option autoImplicit false

namespace Fallible

/-- A program on the state `σ`, which may fail with an `ε`. -/
abbrev Action (ε σ α : Type) := ExceptT ε (StateM σ) α

variable {ε σ α β : Type}

namespace Action

/-- What a program does in a state. -/
def run (x : Action ε σ α) (s : σ) : Except ε α × σ := x s

/-- Fail with `e` if `bad` holds. -/
def reject (bad : Prop) [Decidable bad] (e : ε) : Action ε σ Unit :=
    if bad then throw e else pure ()

/-- The value of `x`, or its error. -/
def ofExcept (x : Except ε α) : Action ε σ α := fun s ↦ (x, s)

/-- The value of `x`, or `e` when there is none. -/
def ofOption (x : Option α) (e : ε) : Action ε σ α := fun s ↦
  match x with
  | none => (.error e, s)
  | some a => (.ok a, s)

theorem run_bind (x : Action ε σ α) (f : α → Action ε σ β) (s : σ) :
    (x >>= f).run s = match x.run s with
      | (.ok a, s') => (f a).run s'
      | (.error e, s') => (.error e, s') := by
  simp only [run, bind, ExceptT.bind, ExceptT.mk, StateT.bind]
  rcases x s with ⟨_ | a, s'⟩ <;> rfl

end Action

/-- From a state with `P`, a success of `x` leaves `Q` and a failure leaves `E`. -/
def Triple (P : σ → Prop) (x : Action ε σ α) (Q : α → σ → Prop) (E : σ → Prop) : Prop :=
  ∀ s, P s → match x.run s with
    | (.ok a, s') => Q a s'
    | (.error _, s') => E s'

namespace Triple

variable {P P' : σ → Prop} {Q Q' : α → σ → Prop} {R : β → σ → Prop} {E E' : σ → Prop}
  {x : Action ε σ α}

theorem ok (h : Triple P x Q E) {s s' : σ} {a : α} (hs : P s) (hx : x.run s = (.ok a, s')) :
    Q a s' := by
  have hrun := h s hs
  rwa [hx] at hrun

theorem error (h : Triple P x Q E) {s s' : σ} {e : ε} (hs : P s) (hx : x.run s = (.error e, s')) :
    E s' := by
  have hrun := h s hs
  rwa [hx] at hrun

/-- **The rule of consequence.** -/
theorem mono (h : Triple P x Q E) (hP : ∀ s, P' s → P s) (hQ : ∀ a s, Q a s → Q' a s)
    (hE : ∀ s, E s → E' s) : Triple P' x Q' E' := by
  intro s hs
  have hrun := h s (hP s hs)
  split at hrun
  · exact hQ _ _ hrun
  · exact hE _ hrun

/-- What the precondition says about the program's arguments may be assumed. -/
theorem assume {p : Prop} (hp : ∀ s, P s → p) (h : p → Triple P x Q E) : Triple P x Q E :=
  fun s hs ↦ h (hp s hs) s hs

theorem pure {a : α} (h : ∀ s, P s → Q a s) : Triple P (Pure.pure a : Action ε σ α) Q E := h

theorem throw {e : ε} (h : ∀ s, P s → E s) : Triple P (MonadExcept.throw e : Action ε σ α) Q E := h

/-- **The rule of composition.** -/
theorem bind {f : α → Action ε σ β} (h : Triple P x Q E) (hf : ∀ a, Triple (Q a) (f a) R E) :
    Triple P (x >>= f) R E := by
  intro s hs
  have hrun := h s hs
  rw [Action.run_bind]
  split at hrun
  · exact hf _ _ hrun
  · exact hrun

/-! A program that only decides something leaves the state alone, and what follows may use what was
decided. -/

theorem reject_bind {bad : Prop} [Decidable bad] {e : ε} {f : Unit → Action ε σ β}
    (herror : ∀ s, P s → E s) (h : ¬bad → Triple P (f ()) R E) :
    Triple P (Action.reject bad e >>= f) R E := by
  rw [Action.reject]
  split
  · exact herror
  · rename_i hgood
    exact h hgood

theorem ofExcept_bind {y : Except ε α} {f : α → Action ε σ β} (herror : ∀ s, P s → E s)
    (h : ∀ a, y = .ok a → Triple P (f a) R E) : Triple P (Action.ofExcept y >>= f) R E := by
  cases y with
  | error e => exact herror
  | ok a => exact h a rfl

theorem ofOption_bind {y : Option α} {e : ε} {f : α → Action ε σ β} (herror : ∀ s, P s → E s)
    (h : ∀ a, y = some a → Triple P (f a) R E) : Triple P (Action.ofOption y e >>= f) R E := by
  cases y with
  | none => exact herror
  | some a => exact h a rfl

theorem ofExcept {y : Except ε α} (herror : ∀ s, P s → E s) (h : ∀ a s, y = .ok a → P s → Q a s) :
    Triple P (Action.ofExcept y) Q E := by
  cases y with
  | error e => exact herror
  | ok a => exact fun s hs ↦ h a s rfl hs

theorem ofOption {y : Option α} {e : ε} (herror : ∀ s, P s → E s)
    (h : ∀ a s, y = some a → P s → Q a s) : Triple P (Action.ofOption y e) Q E := by
  cases y with
  | none => exact herror
  | some a => exact fun s hs ↦ h a s rfl hs

end Triple

/-- From a state with `P`, an error of `x` is one of `S`. -/
def Raises (P : σ → Prop) (x : Action ε σ α) (S : ε → Prop) : Prop :=
  ∀ s, P s → ∀ e s', x.run s = (.error e, s') → S e

namespace Raises

variable {P P' : σ → Prop} {Q : α → σ → Prop} {E : σ → Prop} {S : ε → Prop} {x : Action ε σ α}

theorem mono (h : Raises P x S) (hP : ∀ s, P' s → P s) : Raises P' x S :=
  fun s hs ↦ h s (hP s hs)

theorem pure {a : α} : Raises P (Pure.pure a : Action ε σ α) S :=
  fun s _ _ _ h ↦ absurd (congrArg Prod.fst h) (show Except.ok a ≠ .error _ by simp)

/-- **The rule of composition.** -/
theorem bind {f : α → Action ε σ β} (h : Raises P x S) (hmid : Triple P x Q E)
    (hf : ∀ a, Raises (Q a) (f a) S) : Raises P (x >>= f) S := by
  intro s hs e s' hrun
  have hx := hmid s hs
  rw [Action.run_bind] at hrun
  split at hrun
  · rename_i a mid heq
    rw [heq] at hx
    exact hf a mid hx e s' hrun
  · rename_i e' mid heq
    rw [← Except.error.inj (Prod.mk.inj hrun).1]
    exact h s hs e' mid heq

/-- Nothing need be known between the two programs. -/
theorem bind_any {f : α → Action ε σ β} (h : Raises P x S)
    (hf : ∀ a, Raises (fun _ ↦ True) (f a) S) : Raises P (x >>= f) S := by
  refine h.bind (Q := fun _ _ ↦ True) (E := fun _ ↦ True) (fun s _ ↦ ?_) hf
  split <;> trivial

theorem assume {p : Prop} (hp : ∀ s, P s → p) (h : p → Raises P x S) : Raises P x S :=
  fun s hs ↦ h (hp s hs) s hs

theorem reject_bind {bad : Prop} [Decidable bad] {e : ε} {f : Unit → Action ε σ β}
    (herror : bad → S e) (h : ¬bad → Raises P (f ()) S) :
    Raises P (Action.reject bad e >>= f) S := by
  rw [Action.reject]
  split
  · rename_i hbad
    intro s _ e' s' hrun
    obtain ⟨hresult, -⟩ := Prod.mk.inj hrun
    rw [← Except.error.inj hresult]
    exact herror hbad
  · rename_i hgood
    exact h hgood

theorem ofExcept {y : Except ε α} (herror : ∀ e, y = .error e → S e) :
    Raises P (Action.ofExcept y) S := by
  intro s _ e s' hrun
  exact herror e (congrArg Prod.fst hrun)

theorem ofOption {y : Option α} {e : ε} (herror : y = none → S e) :
    Raises P (Action.ofOption y e) S := by
  intro s _ e' s' hrun
  cases y with
  | none =>
    obtain ⟨hresult, -⟩ := Prod.mk.inj hrun
    rw [← Except.error.inj hresult]
    exact herror rfl
  | some a => exact absurd (congrArg Prod.fst hrun) (by simp [Action.run, Action.ofOption])

theorem ofExcept_bind {y : Except ε α} {f : α → Action ε σ β} (herror : ∀ e, y = .error e → S e)
    (h : ∀ a, y = .ok a → Raises P (f a) S) : Raises P (Action.ofExcept y >>= f) S :=
  (ofExcept herror).bind (Q := fun a s ↦ y = .ok a ∧ P s) (E := fun _ ↦ True)
    (Triple.ofExcept (fun _ _ ↦ trivial) fun _ _ hy hs ↦ ⟨hy, hs⟩)
    fun a ↦ assume (fun _ hs ↦ hs.1) fun hy ↦ (h a hy).mono fun _ hs ↦ hs.2

theorem ofOption_bind {y : Option α} {e : ε} {f : α → Action ε σ β} (herror : y = none → S e)
    (h : ∀ a, y = some a → Raises P (f a) S) : Raises P (Action.ofOption y e >>= f) S :=
  (ofOption herror).bind (Q := fun a s ↦ y = some a ∧ P s) (E := fun _ ↦ True)
    (Triple.ofOption (fun _ _ ↦ trivial) fun _ _ hy hs ↦ ⟨hy, hs⟩)
    fun a ↦ assume (fun _ hs ↦ hs.1) fun hy ↦ (h a hy).mono fun _ hs ↦ hs.2

end Raises

end Fallible
