import Mathlib.Data.List.Pairwise
import Mathlib.Order.Defs.LinearOrder
import Mathlib.Order.Lattice

/-!
# Ordered maps

A finite map whose entries are kept in ascending order of their keys.  That they ascend is a field,
so a map with a repeated key cannot be built.

* `get?` looks a key up, `insert` adds or replaces an entry, `modify` rewrites the value of a key;
  `get?_insert` and `get?_modify` say what lookups see afterwards.
* `range lo hi` is the entries with keys beyond `lo` and up to `hi`, in order.  `mem_range` and
  `pairwise_range` determine it, and `eq_of_mem_iff` is how it is compared with any other list that
  ascends.
-/

set_option autoImplicit false

universe u v

/-- A finite map from `κ` to `ν`. -/
structure OrderedMap (κ : Type u) (ν : Type v) [LinearOrder κ] where
  /-- The entries. -/
  entries : List (κ × ν)
  /-- Their keys ascend. -/
  sorted : entries.Pairwise fun x y ↦ x.1 < y.1

namespace OrderedMap

variable {κ : Type u} {ν : Type v} [LinearOrder κ]

/-- The map without entries. -/
def empty : OrderedMap κ ν := ⟨[], .nil⟩

/-- The value of a key. -/
def get? (m : OrderedMap κ ν) (k : κ) : Option ν := (m.entries.find? fun e ↦ e.1 = k).map Prod.snd

/-- The keys, in ascending order. -/
def keys (m : OrderedMap κ ν) : List κ := m.entries.map Prod.fst

/-- The entries with keys in `(lo, hi]`. -/
def range (m : OrderedMap κ ν) (lo hi : κ) : List (κ × ν) :=
  m.entries.filter fun e ↦ lo < e.1 ∧ e.1 ≤ hi

/-- Put an entry at its place, instead of one with the same key. -/
def insertEntry (k : κ) (v : ν) : List (κ × ν) → List (κ × ν)
  | [] => [(k, v)]
  | e :: rest =>
    if e.1 < k then e :: insertEntry k v rest
    else if e.1 = k then (k, v) :: rest
    else (k, v) :: e :: rest

theorem fst_of_mem_insertEntry {k : κ} {v : ν} {l : List (κ × ν)} {e : κ × ν}
    (h : e ∈ insertEntry k v l) : e.1 = k ∨ e ∈ l := by
  induction l with
  | nil => exact Or.inl (congrArg Prod.fst (List.mem_singleton.mp h))
  | cons e' rest ih =>
    rw [insertEntry] at h
    split at h
    · rcases List.mem_cons.mp h with rfl | h
      · exact Or.inr (List.mem_cons_self ..)
      · exact (ih h).imp_right (List.mem_cons_of_mem _)
    split at h
    · rcases List.mem_cons.mp h with rfl | h
      · exact Or.inl rfl
      · exact Or.inr (List.mem_cons_of_mem _ h)
    · rcases List.mem_cons.mp h with rfl | h
      · exact Or.inl rfl
      · exact Or.inr h

theorem pairwise_insertEntry (k : κ) (v : ν) {l : List (κ × ν)}
    (h : l.Pairwise fun x y ↦ x.1 < y.1) :
    (insertEntry k v l).Pairwise fun x y ↦ x.1 < y.1 := by
  induction h with
  | nil => exact List.pairwise_singleton _ _
  | @cons e rest hlt hs ih =>
    rw [insertEntry]
    split
    · rename_i hek
      refine List.Pairwise.cons (fun x hx ↦ ?_) ih
      rcases fst_of_mem_insertEntry hx with rfl | hx
      · exact hek
      · exact hlt x hx
    split
    · rename_i hek
      exact List.Pairwise.cons (fun x hx ↦ hek ▸ hlt x hx) hs
    · rename_i hnlt hne
      have hke : k < e.1 := lt_of_le_of_ne (not_lt.mp hnlt) (Ne.symm hne)
      refine List.Pairwise.cons (fun x hx ↦ ?_) (List.Pairwise.cons hlt hs)
      rcases List.mem_cons.mp hx with rfl | hx
      · exact hke
      · exact hke.trans (hlt x hx)

/-- The map with `v` at `k`. -/
def insert (m : OrderedMap κ ν) (k : κ) (v : ν) : OrderedMap κ ν :=
  ⟨insertEntry k v m.entries, pairwise_insertEntry k v m.sorted⟩

/-- The map with the value at `k`, if there is one, rewritten. -/
def modify (m : OrderedMap κ ν) (k : κ) (f : ν → ν) : OrderedMap κ ν where
  entries := m.entries.map fun e ↦ if e.1 = k then (e.1, f e.2) else e
  sorted := by
    refine List.pairwise_map.mpr (m.sorted.imp fun {x y} h ↦ ?_)
    split <;> split <;> exact h

/-! ## Lookups -/

variable {m m' : OrderedMap κ ν} {k k' : κ} {v : ν}

@[simp] theorem get?_empty : (empty : OrderedMap κ ν).get? k = none := rfl

theorem find?_insertEntry (k : κ) (v : ν) (l : List (κ × ν)) (k' : κ) :
    (insertEntry k v l).find? (fun e ↦ e.1 = k') =
      if k = k' then some (k, v) else l.find? fun e ↦ e.1 = k' := by
  induction l with
  | nil => simp [insertEntry, List.find?_cons]; split <;> simp_all
  | cons e rest ih =>
    rw [insertEntry]
    split
    · rename_i hlt
      rw [List.find?_cons, ih, List.find?_cons]
      by_cases hk : k = k'
      · subst hk
        simp [hlt.ne]
      · simp [hk]
    split
    · rename_i hek
      rw [List.find?_cons, List.find?_cons, hek]
      by_cases hk : k = k' <;> simp [hk]
    · rw [List.find?_cons]
      by_cases hk : k = k' <;> simp [hk]

theorem get?_insert : (m.insert k v).get? k' = if k = k' then some v else m.get? k' := by
  rw [get?, insert, find?_insertEntry]
  split <;> rfl

@[simp] theorem get?_insert_self : (m.insert k v).get? k = some v := by rw [get?_insert, if_pos rfl]

theorem get?_modify {f : ν → ν} :
    (m.modify k f).get? k' = if k = k' then (m.get? k').map f else m.get? k' := by
  have hfind : ∀ l : List (κ × ν),
      ((l.map fun e ↦ if e.1 = k then (e.1, f e.2) else e).find? fun e ↦ e.1 = k').map Prod.snd =
        if k = k' then ((l.find? fun e ↦ e.1 = k').map Prod.snd).map f
        else (l.find? fun e ↦ e.1 = k').map Prod.snd := by
    intro l
    induction l with
    | nil => simp
    | cons e rest ih =>
      simp only [List.map_cons, List.find?_cons]
      by_cases he : e.1 = k'
      · by_cases hk : k = k'
        · simp [he, hk]
        · simp [he, hk, Ne.symm hk]
      · have : ¬(if e.1 = k then (e.1, f e.2) else e).1 = k' := by split <;> exact he
        simpa [this, he] using ih
  exact hfind m.entries

/-- **Lookups and entries are the same information.** -/
theorem get?_eq_some_iff : m.get? k = some v ↔ (k, v) ∈ m.entries := by
  have hfind : ∀ {l : List (κ × ν)}, l.Pairwise (fun x y ↦ x.1 < y.1) →
      ((l.find? fun e ↦ e.1 = k).map Prod.snd = some v ↔ (k, v) ∈ l) := by
    intro l h
    induction h with
    | nil => simp
    | @cons e rest hlt hs ih =>
      rw [List.find?_cons, List.mem_cons]
      by_cases he : e.1 = k
      · subst he
        have hnot : (e.1, v) ∉ rest := fun hmem ↦ lt_irrefl e.1 (hlt (e.1, v) hmem)
        simp only [decide_true, Option.map_some, Option.some_inj, hnot, or_false]
        exact ⟨fun h ↦ by rw [← h], fun h ↦ (congrArg Prod.snd h).symm⟩
      · simp only [he, decide_false, ih]
        exact ⟨Or.inr, fun h ↦ h.resolve_left fun h ↦ he (congrArg Prod.fst h).symm⟩
  exact hfind m.sorted

theorem mem_keys : k ∈ m.keys ↔ ∃ v, m.get? k = some v := by
  simp only [keys, List.mem_map, get?_eq_some_iff]
  exact ⟨fun ⟨e, he, hk⟩ ↦ ⟨e.2, hk ▸ he⟩, fun ⟨v, hv⟩ ↦ ⟨(k, v), hv, rfl⟩⟩

/-! ## Ranges -/

theorem mem_range {lo hi : κ} {e : κ × ν} :
    e ∈ m.range lo hi ↔ m.get? e.1 = some e.2 ∧ lo < e.1 ∧ e.1 ≤ hi := by
  rw [range, List.mem_filter, get?_eq_some_iff, decide_eq_true_eq]

theorem pairwise_range (m : OrderedMap κ ν) (lo hi : κ) :
    (m.range lo hi).Pairwise fun x y ↦ x.1 < y.1 := m.sorted.filter _

/-- Ascending lists with the same members are the same list. -/
theorem eq_of_mem_iff {α : Type u} (key : α → κ) {l l' : List α}
    (hs : l.Pairwise fun x y ↦ key x < key y) (hs' : l'.Pairwise fun x y ↦ key x < key y)
    (h : ∀ x, x ∈ l ↔ x ∈ l') : l = l' := by
  have hnodup : ∀ {l : List α}, l.Pairwise (fun x y ↦ key x < key y) → l.Nodup := fun hs ↦
    hs.imp fun hlt heq ↦ absurd hlt (by rw [heq]; exact lt_irrefl _)
  have hperm : l.Perm l' := (List.perm_ext_iff_of_nodup (hnodup hs) (hnodup hs')).mpr h
  exact hperm.eq_of_pairwise (fun _ _ _ _ hxy hyx ↦ absurd hxy hyx.asymm) hs hs'

end OrderedMap
