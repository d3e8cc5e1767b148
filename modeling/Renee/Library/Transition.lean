import Mathlib.Data.List.Basic

/-!
# Systems that take steps

A system is a partial function that says which state an action leads to from which.  Nothing is said
about who takes the actions: those of several parties are taken in any order, so what holds after
every run holds for every interleaving.

* `Transition.run` takes one action after another; `invariant` is the rule for what every step
  keeps.
* `history` collects what the steps of a run stand for, in order.  `history_refines` is the rule for
  simulations: if each step changes some part of the state as the operations it stands for do, then
  so does the run.
* `Leads` says that actions of a kind can lead to a state; `exists_leads` is the rule for systems
  that come to rest.
-/

set_option autoImplicit false

namespace Transition

universe u v w

variable {σ : Type u} {α : Type v} {β : Type w} (step : σ → α → Option σ)

/-- Take one action after another, as long as they are possible. -/
def run (s : σ) (as : List α) : Option σ := as.foldlM step s

/-- What the steps of a run stand for. -/
def history (points : σ → α → List β) : σ → List α → List β
  | _, [] => []
  | s, a :: as => points s a ++ (step s a).elim [] fun s' ↦ history points s' as

variable {step} {s s' s'' : σ} {a : α} {as bs : List α} {points : σ → α → List β}

@[simp] theorem run_nil : run step s [] = some s := rfl

theorem run_cons_eq_some_iff :
    run step s (a :: as) = some s'' ↔ ∃ s', step s a = some s' ∧ run step s' as = some s'' := by
  rw [run, List.foldlM_cons, Option.bind_eq_bind, Option.bind_eq_some_iff]
  rfl

theorem run_append : run step s (as ++ bs) = (run step s as).bind fun s' ↦ run step s' bs :=
  List.foldlM_append

/-- One run after another. -/
theorem run_trans (h : run step s as = some s') (h' : run step s' bs = some s'') :
    run step s (as ++ bs) = some s'' := by
  rw [run_append, h, Option.bind_some, h']

theorem run_concat : run step s (as ++ [a]) = (run step s as).bind fun s' ↦ step s' a := by
  rw [run_append]
  refine congrArg _ (funext fun s' ↦ ?_)
  rw [run, List.foldlM_cons, Option.bind_eq_bind]
  exact Option.bind_fun_some _

theorem run_concat_eq_some_iff :
    run step s (as ++ [a]) = some s'' ↔ ∃ s', run step s as = some s' ∧ step s' a = some s'' := by
  rw [run_concat, Option.bind_eq_some_iff]

/-- **The rule for runs**: what every step keeps, every run keeps. -/
theorem invariant {I : σ → Prop} (hstep : ∀ s a s', I s → step s a = some s' → I s') (h : I s)
    (hrun : run step s as = some s') : I s' := by
  induction as generalizing s with
  | nil => exact Option.some_inj.mp hrun ▸ h
  | cons a as ih =>
    obtain ⟨s₁, hs₁, hrun⟩ := run_cons_eq_some_iff.mp hrun
    exact ih (hstep s a s₁ h hs₁) hrun

theorem history_append (h : run step s as = some s') :
    history step points s (as ++ bs) = history step points s as ++ history step points s' bs := by
  induction as generalizing s with
  | nil => rw [Option.some_inj.mp h]; rfl
  | cons a as ih =>
    obtain ⟨s₁, hs₁, h⟩ := run_cons_eq_some_iff.mp h
    rw [List.cons_append, history, history, hs₁, Option.elim_some, Option.elim_some, ih h,
      List.append_assoc]

theorem history_concat (h : run step s as = some s') (ha : step s' a = some s'') :
    history step points s (as ++ [a]) = history step points s as ++ points s' a := by
  rw [history_append h, history, ha, Option.elim_some, history, List.append_nil]

/-- **The rule for simulations**: if a step does to a part of the state what its operations do,
under an invariant, then a run does what its history does. -/
theorem history_refines {S : Type*} {state : σ → S} {apply : S → β → S} {I : σ → Prop}
    (hinv : ∀ s a s', I s → step s a = some s' → I s')
    (hstep : ∀ s a s', I s → step s a = some s' → state s' = (points s a).foldl apply (state s))
    (h : I s) (hrun : run step s as = some s') :
    state s' = (history step points s as).foldl apply (state s) := by
  induction as generalizing s with
  | nil => rw [Option.some_inj.mp hrun]; rfl
  | cons a as ih =>
    obtain ⟨s₁, hs₁, hrun⟩ := run_cons_eq_some_iff.mp hrun
    rw [ih (hinv s a s₁ h hs₁) hrun, hstep s a s₁ h hs₁, history, hs₁, Option.elim_some,
      List.foldl_append]

/-- What a run has changed, one step of it has changed. -/
theorem exists_step_of_run {P : σ → Prop} (hrun : run step s as = some s') (hs : ¬P s)
    (hs' : P s') :
    ∃ bs a cs s₁ s₂, as = bs ++ a :: cs ∧ run step s bs = some s₁ ∧ step s₁ a = some s₂ ∧
      run step s₂ cs = some s' ∧ ¬P s₁ ∧ P s₂ := by
  induction as generalizing s with
  | nil => exact absurd (Option.some_inj.mp hrun ▸ hs') hs
  | cons a as ih =>
    obtain ⟨s₁, hs₁, hrun⟩ := run_cons_eq_some_iff.mp hrun
    by_cases h : P s₁
    · exact ⟨[], a, as, s, s₁, rfl, rfl, hs₁, hrun, hs, h⟩
    · obtain ⟨bs, b, cs, t₁, t₂, rfl, hbs, hb, hcs, ht₁, ht₂⟩ := ih hrun h
      refine ⟨a :: bs, b, cs, t₁, t₂, rfl, ?_, hb, hcs, ht₁, ht₂⟩
      exact run_cons_eq_some_iff.mpr ⟨s₁, hs₁, hbs⟩

/-! ## Actions of a kind -/

variable (step) in
/-- Actions of a kind lead from one state to another. -/
def Leads (p : α → Prop) (s s' : σ) : Prop := ∃ as, (∀ a ∈ as, p a) ∧ run step s as = some s'

variable {p : α → Prop}

theorem Leads.refl (s : σ) : Leads step p s s := ⟨[], by simp, rfl⟩

theorem Leads.trans (h : Leads step p s s') (h' : Leads step p s' s'') : Leads step p s s'' := by
  obtain ⟨as, has, hrun⟩ := h
  obtain ⟨bs, hbs, hrun'⟩ := h'
  exact ⟨as ++ bs, fun a ha ↦ (List.mem_append.mp ha).elim (has a) (hbs a), run_trans hrun hrun'⟩

theorem leads_of_step (ha : p a) (h : step s a = some s') : Leads step p s s' :=
  ⟨[a], by simpa using ha, run_cons_eq_some_iff.mpr ⟨s', h, rfl⟩⟩

/-- **The rule for progress**: if every state that is not at rest leads to one that is, or to a
smaller one, then every state leads to one that is at rest. -/
theorem exists_leads {I rests : σ → Prop} (μ : σ → ℕ)
    (hμ : ∀ s, I s → ¬rests s → ∃ s', Leads step p s s' ∧ I s' ∧ (rests s' ∨ μ s' < μ s))
    (h : I s) :
    ∃ s', Leads step p s s' ∧ I s' ∧ rests s' := by
  induction hn : μ s using Nat.strongRecOn generalizing s with
  | ind n ih =>
    by_cases hrests : rests s
    · exact ⟨s, .refl s, h, hrests⟩
    obtain ⟨s₁, hleads, h₁, hrests₁ | hlt⟩ := hμ s h hrests
    · exact ⟨s₁, hleads, h₁, hrests₁⟩
    · obtain ⟨s', hleads', h', hrests'⟩ := ih (μ s₁) (hn ▸ hlt) h₁ rfl
      exact ⟨s', hleads.trans hleads', h', hrests'⟩

end Transition
