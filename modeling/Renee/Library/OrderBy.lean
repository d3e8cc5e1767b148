import Mathlib.Data.List.Sort
import Mathlib.Data.Prod.Lex

/-!
# Rows in order

`orderBy key rows` is a selection in ascending order of a key; a composite order is a key in a
lexicographic product.  Rows come in whatever order a table holds them, so what matters is that the
result depends on the rows only as a set:

* `orderBy_eq_of_perm`: two arrangements of rows with distinct keys are ordered alike;
* `orderBy_append_singleton`: a row beyond all others goes to the end;
* `filter_orderBy_lex`: among rows ordered by two columns, those with a given first column are
  ordered by the second.
-/

set_option autoImplicit false

namespace Relational

universe u v w

variable {α : Type u} {κ : Type v} {μ : Type w} [LinearOrder κ] [LinearOrder μ]

/-- The rows in ascending order of a key. -/
def orderBy (key : α → κ) (rows : List α) : List α :=
  rows.insertionSort fun x y ↦ key x ≤ key y

variable {key : α → κ} {rows rows' : List α} {x : α}

theorem orderBy_perm (key : α → κ) (rows : List α) : (orderBy key rows).Perm rows :=
  List.perm_insertionSort _ _

@[simp] theorem mem_orderBy : x ∈ orderBy key rows ↔ x ∈ rows := List.mem_insertionSort _

@[simp] theorem length_orderBy : (orderBy key rows).length = rows.length :=
  List.length_insertionSort _ _

theorem pairwise_orderBy (key : α → κ) (rows : List α) :
    (orderBy key rows).Pairwise fun x y ↦ key x ≤ key y := by
  have : Std.Total fun x y : α ↦ key x ≤ key y := ⟨fun x y ↦ le_total (key x) (key y)⟩
  have : IsTrans α fun x y ↦ key x ≤ key y := ⟨fun _ _ _ h h' ↦ le_trans h h'⟩
  exact List.pairwise_insertionSort _ _

/-- Rows that are told apart by the key have one ascending arrangement. -/
theorem eq_of_perm_of_pairwise (key : α → κ)
    (hinj : ∀ x ∈ rows, ∀ y ∈ rows, key x = key y → x = y)
    (h : rows.Perm rows') (hs : rows.Pairwise fun x y ↦ key x ≤ key y)
    (hs' : rows'.Pairwise fun x y ↦ key x ≤ key y) : rows = rows' :=
  h.eq_of_pairwise
    (fun x y hx hy hxy hyx ↦ hinj x hx y (h.mem_iff.mpr hy) (le_antisymm hxy hyx)) hs hs'

/-- **The order of a table does not matter.** -/
theorem orderBy_eq_of_perm (hinj : ∀ x ∈ rows, ∀ y ∈ rows, key x = key y → x = y)
    (h : rows.Perm rows') : orderBy key rows = orderBy key rows' := by
  refine eq_of_perm_of_pairwise key ?_
    ((orderBy_perm key rows).trans (h.trans (orderBy_perm key rows').symm))
    (pairwise_orderBy key rows) (pairwise_orderBy key rows')
  exact fun x hx y hy hxy ↦ hinj x (mem_orderBy.mp hx) y (mem_orderBy.mp hy) hxy

/-- An arrangement that ascends already is the ordered one. -/
theorem orderBy_eq_of_pairwise (hs : rows.Pairwise fun x y ↦ key x ≤ key y) :
    orderBy key rows = rows :=
  List.Pairwise.insertionSort_eq hs

/-- A row beyond all others goes to the end. -/
theorem orderBy_append_singleton (hinj : ∀ y ∈ rows, ∀ z ∈ rows, key y = key z → y = z)
    (hlt : ∀ y ∈ rows, key y < key x) :
    orderBy key (rows ++ [x]) = orderBy key rows ++ [x] := by
  have hs : (orderBy key rows ++ [x]).Pairwise fun x y ↦ key x ≤ key y := by
    refine List.pairwise_append.mpr ⟨pairwise_orderBy key rows, List.pairwise_singleton _ _, ?_⟩
    intro y hy z hz
    rw [List.mem_singleton] at hz
    exact hz ▸ le_of_lt (hlt y (mem_orderBy.mp hy))
  have hinj' : ∀ y ∈ rows ++ [x], ∀ z ∈ rows ++ [x], key y = key z → y = z := by
    intro y hy z hz hyz
    rcases List.mem_append.mp hy with hy | hy <;> rcases List.mem_append.mp hz with hz | hz
    · exact hinj y hy z hz hyz
    · rw [List.mem_singleton] at hz
      exact absurd hyz (ne_of_lt (hz ▸ hlt y hy))
    · rw [List.mem_singleton] at hy
      exact absurd hyz.symm (ne_of_lt (hy ▸ hlt z hz))
    · rw [List.mem_singleton] at hy hz
      rw [hy, hz]
  rw [orderBy_eq_of_perm hinj' (((orderBy_perm key rows).symm).append_right [x])]
  exact orderBy_eq_of_pairwise hs

/-- **Ordering by two columns orders each group of the first by the second.** -/
theorem filter_orderBy_lex {f : α → κ} {g : α → μ} {k : κ}
    (hinj : ∀ x ∈ rows, ∀ y ∈ rows, f x = k → f y = k → g x = g y → x = y) :
    (orderBy (fun x ↦ toLex (f x, g x)) rows).filter (fun x ↦ f x = k) =
      orderBy g (rows.filter fun x ↦ f x = k) := by
  refine eq_of_perm_of_pairwise g ?_
    (((orderBy_perm _ rows).filter _).trans (orderBy_perm g _).symm) ?_ (pairwise_orderBy g _)
  · intro x hx y hy hxy
    simp only [List.mem_filter, mem_orderBy, decide_eq_true_eq] at hx hy
    exact hinj x hx.1 y hy.1 hx.2 hy.2 hxy
  · refine List.Pairwise.imp_of_mem ?_ ((pairwise_orderBy _ rows).filter _)
    intro x y hx hy hxy
    simp only [List.mem_filter, decide_eq_true_eq] at hx hy
    have hle := (Prod.Lex.le_iff' (x := toLex (f x, g x)) (y := toLex (f y, g y))).mp hxy
    exact hle.2 (hx.2.trans hy.2.symm)

end Relational
