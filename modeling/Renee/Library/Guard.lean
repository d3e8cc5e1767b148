import Mathlib.Data.List.Basic

/-!
# Programs that may fail, and their loops

A validator is a sequence of guards and of loops over tables, any of which may end it with an error.
This file is the reasoning such programs need.

* `reject bad e` is the guard `if bad { return Err(e) }`; `bind_eq_ok`, `reject_eq_ok` and
  `forM_eq_ok` read a success off a sequence, a guard and a loop without state.
* `foldlM_ok` is the rule for a loop with state: an invariant of what has been done so far,
  preserved by each step that can come next, holds at the end — and no step failed.
* `foldlM_inv` is its partial-correctness half, for a loop that is known to have succeeded.
* `map_bind` and `map_foldlM` are the rules for a projection of the state: a program commutes with
  it, failures included, when its parts do.
-/

set_option autoImplicit false

namespace Guard

universe u

variable {ε : Type} {α : Type u} {σ β γ : Type}

/-- Stop with `e` if `bad` holds. -/
def reject (bad : Prop) [Decidable bad] (e : ε) : Except ε Unit :=
  if bad then .error e else .ok ()

theorem reject_eq_ok {bad : Prop} [Decidable bad] {e : ε} {u : Unit} :
    reject bad e = .ok u ↔ ¬bad := by
  rw [reject]
  split <;> simp_all

theorem bind_eq_ok {x : Except ε β} {f : β → Except ε γ} {c : γ} :
    (x >>= f) = .ok c ↔ ∃ b, x = .ok b ∧ f b = .ok c := by
  cases x with
  | error e => exact ⟨fun h ↦ absurd h (by simp [bind, Except.bind]), fun ⟨_, h, _⟩ ↦ (nomatch h)⟩
  | ok b => exact ⟨fun h ↦ ⟨b, rfl, h⟩, fun ⟨_, h, hf⟩ ↦ by cases h; exact hf⟩

theorem forM_eq_ok {f : α → Except ε PUnit} {l : List α} :
    forM l f = .ok () ↔ ∀ x ∈ l, f x = .ok () := by
  induction l with
  | nil => exact ⟨fun _ _ hx ↦ absurd hx (by simp), fun _ ↦ rfl⟩
  | cons x l ih =>
    rw [List.forM_cons, bind_eq_ok, List.forall_mem_cons, ← ih]
    exact ⟨fun ⟨_, hx, hl⟩ ↦ ⟨hx, hl⟩, fun ⟨hx, hl⟩ ↦ ⟨(), hx, hl⟩⟩

/-- **The rule for a loop that must not fail.**  `Inv done s` speaks of the elements done so far
and the state reached; every step that can come next succeeds and preserves it. -/
theorem foldlM_ok {step : σ → α → Except ε σ} {l : List α} {s : σ} (Inv : List α → σ → Prop)
    (h0 : Inv [] s)
    (hstep : ∀ done x rest s, l = done ++ x :: rest → Inv done s →
      ∃ s', step s x = .ok s' ∧ Inv (done ++ [x]) s') :
    ∃ s', l.foldlM step s = .ok s' ∧ Inv l s' := by
  -- the loop is entered with `done` behind it, so the induction is on what is left
  suffices h : ∀ (rest done : List α) (s : σ), l = done ++ rest → Inv done s →
      ∃ s', rest.foldlM step s = .ok s' ∧ Inv l s' from h l [] s rfl h0
  intro rest
  induction rest with
  | nil => exact fun done s hl hs ↦ ⟨s, rfl, by rwa [hl, List.append_nil]⟩
  | cons x rest ih =>
    intro done s hl hs
    obtain ⟨s', hx, hs'⟩ := hstep done x rest s hl hs
    obtain ⟨s'', hr, hs''⟩ := ih (done ++ [x]) s' (by rw [hl, List.append_assoc]; rfl) hs'
    exact ⟨s'', by rw [List.foldlM_cons, hx]; exact hr, hs''⟩

/-- The rule for a loop that did not fail. -/
theorem foldlM_inv {step : σ → α → Except ε σ} {l : List α} {s s' : σ} (Inv : List α → σ → Prop)
    (h : l.foldlM step s = .ok s') (h0 : Inv [] s)
    (hstep : ∀ done x rest s s', l = done ++ x :: rest → Inv done s → step s x = .ok s' →
      Inv (done ++ [x]) s') : Inv l s' := by
  suffices hrest : ∀ (rest done : List α) (s : σ), l = done ++ rest → Inv done s →
      rest.foldlM step s = .ok s' → Inv l s' from hrest l [] s rfl h0 h
  intro rest
  induction rest with
  | nil =>
    intro done s hl hs hr
    obtain rfl : s = s' := Except.ok.inj hr
    rwa [hl, List.append_nil]
  | cons x rest ih =>
    intro done s hl hs hr
    rw [List.foldlM_cons, bind_eq_ok] at hr
    obtain ⟨s₁, hx, hr⟩ := hr
    exact ih (done ++ [x]) s₁ (by rw [hl, List.append_assoc]; rfl)
      (hstep done x rest s s₁ hl hs hx) hr

/-! ## Projections -/

variable {β' γ' σ' : Type}

/-- **A program commutes with a projection when its halves do.** -/
theorem map_bind {x : Except ε β} {x' : Except ε β'} {f : β → Except ε γ} {f' : β' → Except ε γ'}
    {g : β → β'} {h : γ → γ'} (hx : x.map g = x') (hf : ∀ b, (f b).map h = f' (g b)) :
    (x >>= f).map h = x' >>= f' := by
  subst hx
  cases x with
  | error e => rfl
  | ok b => exact hf b

theorem map_foldlM {step : σ → α → Except ε σ} {step' : σ' → α → Except ε σ'} {g : σ → σ'}
    (hstep : ∀ s a, (step s a).map g = step' (g s) a) (l : List α) (s : σ) :
    (l.foldlM step s).map g = l.foldlM step' (g s) := by
  induction l generalizing s with
  | nil => rfl
  | cons a l ih =>
    rw [List.foldlM_cons, List.foldlM_cons]
    exact map_bind (hstep s a) ih

end Guard
