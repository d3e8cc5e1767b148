import Mathlib.Order.Lattice
import Mathlib.Data.List.Pairwise

/-!
# Binary search by key

Binary search in the form that halves the *size* of the remaining window rather than moving both of
its ends: `base` is where the window starts, and a probe at its middle either moves the base there
or leaves it.  One last comparison at the base decides.

On a list whose keys strictly increase, `search?_eq_some_iff` says that it finds the position of the
key, and finds nothing when the key is absent.
-/

set_option autoImplicit false

namespace BinarySearch

universe u v

variable {α : Type u} {κ : Type v} [LinearOrder κ]

/-- Narrow the window of `size` entries starting at `base` to one entry.  Every probe removes at
least one entry, so the fuel runs out no sooner than the window. -/
def narrow (keyOf : α → κ) (l : List α) (k : κ) : ℕ → ℕ → ℕ → ℕ
  | 0, base, _ => base
  | fuel + 1, base, size =>
    if size ≤ 1 then base
    else
      let half := size / 2
      let mid := base + half
      match l[mid]? with
      | none => base
      | some x => narrow keyOf l k fuel (if k < keyOf x then base else mid) (size - half)

/-- The position of the entry with key `k`. -/
def search? (keyOf : α → κ) (l : List α) (k : κ) : Option ℕ :=
  let base := narrow keyOf l k l.length 0 l.length
  match l[base]? with
  | none => none
  | some x => if keyOf x = k then some base else none

variable {keyOf : α → κ} {l : List α} {k : κ}

/-- The window never loses an entry that carries the key. -/
theorem narrow_eq (hs : l.Pairwise fun x y ↦ keyOf x < keyOf y) {i : ℕ} {x : α}
    (hi : l[i]? = some x) (hx : keyOf x = k) :
    ∀ (fuel base size : ℕ), size ≤ fuel + 1 → base ≤ i → i < base + size → base + size ≤ l.length →
      narrow keyOf l k fuel base size = i
  | 0, base, size, hf, hb, hlt, _ => by rw [narrow]; omega
  | fuel + 1, base, size, hf, hb, hlt, hlen => by
    rw [narrow]
    by_cases h1 : size ≤ 1
    · rw [if_pos h1]; omega
    · rw [if_neg h1]
      have hmid : base + size / 2 < l.length := by omega
      have hget : l[base + size / 2]? = some l[base + size / 2] := List.getElem?_eq_getElem hmid
      obtain ⟨hil, hix⟩ := List.getElem?_eq_some_iff.mp hi
      simp only [hget]
      split
      · rename_i hk
        refine narrow_eq hs hi hx fuel base (size - size / 2) (by omega) hb ?_ (by omega)
        -- the probe lies strictly beyond the entry, so the entry is in the lower half
        by_contra hge
        rcases Nat.eq_or_lt_of_le (show base + size / 2 ≤ i by omega) with he | hlt'
        · subst he; rw [hix, hx] at hk; exact lt_irrefl _ hk
        · have hord := List.pairwise_iff_getElem.mp hs _ _ hmid hil hlt'
          rw [hix, hx] at hord
          exact lt_asymm hk hord
      · rename_i hk
        refine narrow_eq hs hi hx fuel (base + size / 2) (size - size / 2) (by omega) ?_ (by omega)
          (by omega)
        by_contra hgt
        have hord := List.pairwise_iff_getElem.mp hs _ _ hil hmid (by omega)
        rw [hix, hx] at hord
        exact hk hord

/-- **Binary search finds exactly the entry with the key.** -/
theorem search?_eq_some_iff (hs : l.Pairwise fun x y ↦ keyOf x < keyOf y) {i : ℕ} :
    search? keyOf l k = some i ↔ ∃ x, l[i]? = some x ∧ keyOf x = k := by
  rw [search?]
  constructor
  · intro h
    split at h
    · exact absurd h (by simp)
    · rename_i x hx
      split at h
      · rename_i hk
        rw [Option.some_inj] at h
        exact ⟨x, h ▸ hx, hk⟩
      · exact absurd h (by simp)
  · rintro ⟨x, hx, hk⟩
    obtain ⟨hil, -⟩ := List.getElem?_eq_some_iff.mp hx
    have hbase := narrow_eq hs hx hk l.length 0 l.length (by omega) (by omega) (by omega) (by omega)
    simp only [hbase, hx, if_pos hk]

end BinarySearch
