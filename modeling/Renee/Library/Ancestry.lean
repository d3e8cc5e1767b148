import Mathlib.Data.Fintype.Basic
import Mathlib.Data.List.NodupEquivFin
import Mathlib.Data.List.OfFn
import Mathlib.Data.List.Perm.Subperm

/-!
# Ancestry along parent links

A forest is often stored as nothing but a parent link per node: `parent a` is the node above `a`,
or `none` at a root (and at anything that is not a node at all).  Programs then walk upwards with a
bound on the number of steps, so that a corrupted, cyclic table cannot hang them.  This file is the
theory such walks are checked against.

* `ancestor parent n a` is the node `n` links above `a`.
* `Descends parent a b` says that `b` is `a` itself or some ancestor of it.  It is a preorder, and
  properties travel along it (`Descends.closed`).
* `Within parent n a` says that the chain from `a` to its root has at most `n` nodes.  Under it the
  order is antisymmetric, and a walk of `n` steps sees the whole chain.
* `reaches` is the bounded walk itself and `reaches_iff` its meaning; `below` is the same question
  asked from the other end, by closing a set under "child of", with `mem_below_iff`.
* `ancestor_extend` and `Within.extend` say what attaching one new leaf changes: nothing, for
  everything that was there before.
-/

set_option autoImplicit false

namespace Ancestry

universe u

variable {α : Type u} {parent parent' : α → Option α} {a b c : α} {n m : ℕ}

/-! ## The nodes above a node -/

/-- The node `n` links above `a`. -/
def ancestor (parent : α → Option α) : ℕ → α → Option α
  | 0, a => some a
  | n + 1, a => (parent a).bind (ancestor parent n)

@[simp] theorem ancestor_zero : ancestor parent 0 a = some a := rfl

theorem ancestor_succ : ancestor parent (n + 1) a = (parent a).bind (ancestor parent n) := rfl

theorem ancestor_succ_of_some (h : parent a = some b) :
    ancestor parent (n + 1) a = ancestor parent n b := by
  rw [ancestor_succ, h, Option.bind_some]

theorem ancestor_succ_of_none (h : parent a = none) : ancestor parent (n + 1) a = none := by
  rw [ancestor_succ, h, Option.bind_none]

theorem ancestor_add (n m : ℕ) (a : α) :
    ancestor parent (n + m) a = (ancestor parent n a).bind (ancestor parent m) := by
  induction n generalizing a with
  | zero => simp
  | succ n ih =>
    rw [Nat.add_right_comm]
    cases h : parent a with
    | none => rw [ancestor_succ_of_none h, ancestor_succ_of_none h, Option.bind_none]
    | some b => rw [ancestor_succ_of_some h, ancestor_succ_of_some h, ih]

/-- The last link of a walk, rather than the first. -/
theorem ancestor_succ' : ancestor parent (n + 1) a = (ancestor parent n a).bind parent := by
  rw [ancestor_add n 1 a]
  congr 1
  funext x
  cases h : parent x <;> simp [ancestor, h]

/-! ## Descent -/

/-- `b` is `a`, or lies above it. -/
def Descends (parent : α → Option α) (a b : α) : Prop := ∃ n, ancestor parent n a = some b

theorem Descends.refl (a : α) : Descends parent a a := ⟨0, rfl⟩

theorem Descends.trans (h : Descends parent a b) (h' : Descends parent b c) :
    Descends parent a c := by
  obtain ⟨n, hn⟩ := h
  obtain ⟨m, hm⟩ := h'
  exact ⟨n + m, by rw [ancestor_add, hn, Option.bind_some, hm]⟩

theorem Descends.of_parent (h : parent a = some b) : Descends parent a b :=
  ⟨1, by rw [ancestor_succ_of_some h, ancestor_zero]⟩

/-- Descent by its first link. -/
theorem descends_iff_eq_or_parent :
    Descends parent a c ↔ a = c ∨ ∃ b, parent a = some b ∧ Descends parent b c := by
  constructor
  · rintro ⟨n, hn⟩
    cases n with
    | zero => exact Or.inl (Option.some_inj.mp hn)
    | succ n =>
      cases h : parent a with
      | none => rw [ancestor_succ_of_none h] at hn; exact absurd hn (by simp)
      | some b => exact Or.inr ⟨b, rfl, n, by rw [← hn, ancestor_succ_of_some h]⟩
  · rintro (rfl | ⟨b, hb, hd⟩)
    · exact Descends.refl a
    · exact (Descends.of_parent hb).trans hd

/-- A property that every link passes upwards holds of every ancestor. -/
theorem Descends.closed {P : α → Prop} (hP : ∀ x y, parent x = some y → P x → P y)
    (h : Descends parent a b) (ha : P a) : P b := by
  obtain ⟨n, hn⟩ := h
  induction n generalizing a with
  | zero => rw [ancestor_zero, Option.some_inj] at hn; exact hn ▸ ha
  | succ n ih =>
    cases hp : parent a with
    | none => rw [ancestor_succ_of_none hp] at hn; exact absurd hn (by simp)
    | some x => exact ih (hP a x hp ha) (by rw [← hn, ancestor_succ_of_some hp])

/-- Only the links of the descendant's own chain matter. -/
theorem ancestor_congr (h : ∀ x, Descends parent a x → parent' x = parent x) (n : ℕ) :
    ancestor parent' n a = ancestor parent n a := by
  induction n generalizing a with
  | zero => rfl
  | succ n ih =>
    rw [ancestor_succ, ancestor_succ, h a (Descends.refl a)]
    cases hp : parent a with
    | none => rfl
    | some b => exact ih fun x hx ↦ h x ((Descends.of_parent hp).trans hx)

/-! ## Chains of bounded length -/

/-- The chain from `a` to its root has at most `n` nodes. -/
def Within (parent : α → Option α) (n : ℕ) (a : α) : Prop := ancestor parent n a = none

theorem within_succ_iff : Within parent (n + 1) a ↔ ∀ b, parent a = some b → Within parent n b := by
  rw [Within, ancestor_succ]
  cases h : parent a with
  | none => simp
  | some b => simp [Within]

theorem not_within_zero : ¬Within parent 0 a := by simp [Within]

theorem Within.mono (h : Within parent n a) (hnm : n ≤ m) : Within parent m a := by
  rw [Within, ← Nat.add_sub_cancel' hnm, ancestor_add, h, Option.bind_none]

theorem Within.of_parent (h : Within parent n a) (hp : parent a = some b) :
    Within parent n b := by
  cases n with
  | zero => exact absurd h not_within_zero
  | succ n => exact (within_succ_iff.mp h b hp).mono (Nat.le_succ n)

theorem Within.of_descends (h : Within parent n a) (hd : Descends parent a b) :
    Within parent n b :=
  hd.closed (fun _ _ hp hw ↦ hw.of_parent hp) h

/-- Within a bound, ancestors are found in fewer steps than the bound. -/
theorem Within.descends_iff (h : Within parent n a) :
    Descends parent a b ↔ ∃ k < n, ancestor parent k a = some b := by
  refine ⟨fun ⟨k, hk⟩ ↦ ⟨k, ?_, hk⟩, fun ⟨k, _, hk⟩ ↦ ⟨k, hk⟩⟩
  by_contra hnk
  have hnone : ancestor parent k a = none := h.mono (Nat.le_of_not_lt hnk)
  rw [hnone] at hk
  exact absurd hk (by simp)

/-- A node on a chain that ends is above itself only in zero steps. -/
theorem Within.eq_zero_of_self (h : Within parent n a) (hm : ancestor parent m a = some a) :
    m = 0 := by
  by_contra hm0
  have hpump : ∀ k, ancestor parent (m * k) a = some a := by
    intro k
    induction k with
    | zero => rfl
    | succ k ih => rw [Nat.mul_succ, ancestor_add, ih, Option.bind_some, hm]
  have hnone : ancestor parent (m * n) a = none :=
    h.mono (Nat.le_mul_of_pos_left n (Nat.pos_of_ne_zero hm0))
  rw [hpump n] at hnone
  exact absurd hnone (by simp)

/-- **Descent is antisymmetric on chains that end.** -/
theorem Within.antisymm (h : Within parent n a) (hab : Descends parent a b)
    (hba : Descends parent b a) : a = b := by
  obtain ⟨i, hi⟩ := hab
  obtain ⟨j, hj⟩ := hba
  have hij : i + j = 0 := h.eq_zero_of_self (m := i + j) (by
    rw [ancestor_add, hi, Option.bind_some, hj])
  obtain rfl : i = 0 := by omega
  simpa using hi

/-- The nodes of a chain that ends are distinct, so a chain inside a list is no longer than it. -/
theorem Within.of_mem_list (h : Within parent n a) (l : List α)
    (hl : ∀ x, Descends parent a x → x ∈ l) : Within parent l.length a := by
  by_contra hlong
  obtain ⟨b, hb⟩ := Option.ne_none_iff_exists'.mp hlong
  have hchain : ∀ i : Fin (l.length + 1), ∃ x, ancestor parent i a = some x := by
    intro i
    refine Option.ne_none_iff_exists'.mp fun hnone ↦ hlong ?_
    exact Within.mono (n := i) hnone (by omega)
  choose f hf using hchain
  have hinj : ∀ i j : Fin (l.length + 1), i ≤ j → f i = f j → i = j := by
    intro i j hij hfij
    have hstep : ancestor parent (j - i : ℕ) (f i) = some (f i) := by
      have hj := hf j
      rwa [← Nat.add_sub_cancel' (Fin.le_def.mp hij), ancestor_add, hf i, Option.bind_some,
        ← hfij] at hj
    have hzero := (h.of_descends ⟨i, hf i⟩).eq_zero_of_self hstep
    exact Fin.ext (by omega)
  have hinj' : Function.Injective f := fun i j hfij ↦ by
    rcases le_total i j with hij | hji
    · exact hinj i j hij hfij
    · exact (hinj j i hji hfij.symm).symm
  have hnodup : (List.ofFn f).Nodup := List.nodup_ofFn.mpr hinj'
  have hsub : List.ofFn f ⊆ l := by
    intro x hx
    obtain ⟨i, rfl⟩ := List.mem_ofFn.mp hx
    exact hl _ ⟨i, hf i⟩
  have hlen := (hnodup.subperm hsub).length_le
  rw [List.length_ofFn] at hlen
  omega

/-! ## The bounded walk -/

variable [DecidableEq α]

/-- Walk up from `a` for at most `n` nodes, looking for `b`. -/
def reaches (parent : α → Option α) (b : α) : ℕ → α → Bool
  | 0, _ => false
  | n + 1, a =>
    if a = b then true
    else match parent a with
      | none => false
      | some x => reaches parent b n x

theorem reaches_iff : reaches parent b n a = true ↔ ∃ k < n, ancestor parent k a = some b := by
  induction n generalizing a with
  | zero => simp [reaches]
  | succ n ih =>
    rw [reaches]
    by_cases hab : a = b
    · rw [if_pos hab]
      exact ⟨fun _ ↦ ⟨0, Nat.succ_pos n, by rw [ancestor_zero, hab]⟩, fun _ ↦ rfl⟩
    · rw [if_neg hab]
      have hsplit : (∃ k < n + 1, ancestor parent k a = some b) ↔
          ∃ k < n, ancestor parent (k + 1) a = some b := by
        constructor
        · rintro ⟨k, hk, hka⟩
          cases k with
          | zero => exact absurd (Option.some_inj.mp hka) hab
          | succ k => exact ⟨k, by omega, hka⟩
        · rintro ⟨k, hk, hka⟩
          exact ⟨k + 1, by omega, hka⟩
      rw [hsplit]
      cases hp : parent a with
      | none => simp [ancestor_succ_of_none hp]
      | some x => simpa [ancestor_succ_of_some hp] using ih

/-- **A walk as long as the chain decides descent.** -/
theorem Within.reaches_iff (h : Within parent n a) :
    reaches parent b n a = true ↔ Descends parent a b := by
  rw [Ancestry.reaches_iff, h.descends_iff]

/-! ## Closing a set downwards -/

omit [DecidableEq α] in
/-- The nodes at most `n` levels below the frontier, found by following child links. -/
def below (children : α → List α) : ℕ → List α → List α
  | 0, frontier => frontier
  | n + 1, frontier => frontier ++ below children n (frontier.flatMap children)

omit [DecidableEq α] in
theorem mem_below_iff {children : α → List α}
    (hc : ∀ x y, y ∈ children x ↔ parent y = some x) {frontier : List α} :
    a ∈ below children n frontier ↔ ∃ k ≤ n, ∃ b ∈ frontier, ancestor parent k a = some b := by
  induction n generalizing frontier with
  | zero => simp [below]
  | succ n ih =>
    rw [below, List.mem_append, ih]
    constructor
    · rintro (ha | ⟨k, hk, b, hb, hkb⟩)
      · exact ⟨0, Nat.zero_le _, a, ha, rfl⟩
      · obtain ⟨x, hx, hbx⟩ := List.mem_flatMap.mp hb
        refine ⟨k + 1, by omega, x, hx, ?_⟩
        rw [ancestor_succ', hkb, Option.bind_some, (hc x b).mp hbx]
    · rintro ⟨k, hk, b, hb, hkb⟩
      cases k with
      | zero => rw [ancestor_zero, Option.some_inj] at hkb; exact Or.inl (hkb ▸ hb)
      | succ k =>
        rw [ancestor_succ', Option.bind_eq_some_iff] at hkb
        obtain ⟨x, hx, hxb⟩ := hkb
        exact Or.inr ⟨k, by omega, x, List.mem_flatMap.mpr ⟨b, hb, (hc b x).mpr hxb⟩, hx⟩

omit [DecidableEq α] in
/-- **Enough levels find exactly the descendants.** -/
theorem Within.mem_below_singleton_iff {children : α → List α}
    (hc : ∀ x y, y ∈ children x ↔ parent y = some x) (h : Within parent n a) :
    a ∈ below children n [b] ↔ Descends parent a b := by
  rw [mem_below_iff hc]
  constructor
  · rintro ⟨k, _, x, hx, hkx⟩
    rw [List.mem_singleton] at hx
    exact ⟨k, hx ▸ hkx⟩
  · intro hd
    obtain ⟨k, hk, hka⟩ := h.descends_iff.mp hd
    exact ⟨k, Nat.le_of_lt hk, b, List.mem_singleton_self b, hka⟩

/-! ## Attaching a leaf -/

omit [DecidableEq α] in
/-- Nothing that was there before can reach a new leaf, so its chain stays as it was. -/
theorem ancestor_extend (hpar : ∀ x, x ≠ c → parent' x = parent x) (hleaf : ∀ x, parent x ≠ some c)
    (hac : a ≠ c) (n : ℕ) : ancestor parent' n a = ancestor parent n a := by
  refine ancestor_congr (fun x hx ↦ hpar x ?_) n
  refine hx.closed (P := fun x ↦ x ≠ c) (fun x y hxy _ hyc ↦ hleaf x (hyc ▸ hxy)) hac

omit [DecidableEq α] in
theorem Within.extend (hpar : ∀ x, x ≠ c → parent' x = parent x)
    (hleaf : ∀ x, parent x ≠ some c) (hac : a ≠ c) (h : Within parent n a) :
    Within parent' n a := by
  rw [Within, ancestor_extend hpar hleaf hac]; exact h

end Ancestry
