import Mathlib.Data.List.Nodup
import Mathlib.Data.List.Perm.Basic
import Mathlib.Data.List.Perm.Subperm

/-!
# Keyed tables

A relational store keeps its rows in tables with a primary key.  `Relational.Table ρ` is such a
table: the rows, in the order they were inserted, together with the fact that no two of them share
a key.  Since that fact is a field, a table with a duplicated key cannot be built, and a lookup by
key never has to say which of several rows it means.

The operations are the ones a transaction performs.

* `find?` looks a row up by its key; `find?_eq_some_iff` and `mem_rows_iff` say that lookups and
  membership are the same information.
* `insert` adds a row whose key is fresh, and `insert?` is the insertion that a primary key
  refuses otherwise.
* `update` rewrites every row by a function that leaves keys alone.
* `filter` keeps some of the rows.  Where the choice depends on the key alone, it commutes with the
  other operations (`find?_filter`, `insert?_filter`, `filter_update`).

Aggregates (`COUNT`, `SUM`) are taken on `rows` directly; the lemmas here say what an insertion
does to `rows`, which is all that such an aggregate needs.
-/

set_option autoImplicit false

namespace Relational

universe u v

/-- Rows of type `ρ` are told apart by a key of type `κ`. -/
class Keyed (ρ : Type u) (κ : outParam (Type v)) where
  /-- The primary key of a row. -/
  key : ρ → κ

open Keyed (key)

/-- A table with a primary key. -/
structure Table (ρ : Type u) {κ : Type v} [Keyed ρ κ] where
  /-- The rows, oldest first. -/
  rows : List ρ
  /-- No key occurs twice. -/
  nodup_keys : (rows.map key).Nodup

namespace Table

variable {ρ : Type u} {κ : Type v} [Keyed ρ κ]

@[ext] theorem ext {t t' : Table ρ} (h : t.rows = t'.rows) : t = t' := by
  cases t; cases t'; cases h; rfl

/-- The table without rows. -/
def empty : Table ρ := ⟨[], List.nodup_nil⟩

@[simp] theorem rows_empty : (empty : Table ρ).rows = [] := rfl

theorem nodup_rows (t : Table ρ) : t.rows.Nodup := t.nodup_keys.of_map _

/-- Two rows of a table with the same key are the same row. -/
theorem eq_of_key_eq (t : Table ρ) {r r' : ρ} (h : r ∈ t.rows) (h' : r' ∈ t.rows)
    (hk : key r = key r') : r = r' :=
  List.inj_on_of_nodup_map t.nodup_keys h h' hk

/-! ## Looking a row up -/

variable [DecidableEq κ]

/-- The row with key `k`, if there is one. -/
def find? (t : Table ρ) (k : κ) : Option ρ := t.rows.find? fun r ↦ key r = k

@[simp] theorem find?_empty (k : κ) : (empty : Table ρ).find? k = none := rfl

/-- **A lookup finds exactly the row of the table that carries the key.** -/
theorem find?_eq_some_iff {t : Table ρ} {k : κ} {r : ρ} :
    t.find? k = some r ↔ r ∈ t.rows ∧ key r = k := by
  constructor
  · intro h
    exact ⟨List.mem_of_find?_eq_some h, by simpa using List.find?_some h⟩
  · rintro ⟨hr, rfl⟩
    cases hf : t.find? (key r) with
    | none =>
      have hno := List.find?_eq_none.mp hf r hr
      simp at hno
    | some r' =>
      have hk : key r' = key r := by simpa using List.find?_some hf
      rw [t.eq_of_key_eq (List.mem_of_find?_eq_some hf) hr hk]

theorem mem_of_find?_eq_some {t : Table ρ} {k : κ} {r : ρ} (h : t.find? k = some r) :
    r ∈ t.rows := (find?_eq_some_iff.mp h).1

theorem key_of_find?_eq_some {t : Table ρ} {k : κ} {r : ρ} (h : t.find? k = some r) :
    key r = k := (find?_eq_some_iff.mp h).2

theorem find?_key {t : Table ρ} {r : ρ} (h : r ∈ t.rows) : t.find? (key r) = some r :=
  find?_eq_some_iff.mpr ⟨h, rfl⟩

theorem find?_eq_none_iff {t : Table ρ} {k : κ} :
    t.find? k = none ↔ ∀ r ∈ t.rows, key r ≠ k := by
  simp [find?, List.find?_eq_none]

theorem isSome_find?_iff {t : Table ρ} {k : κ} :
    (t.find? k).isSome ↔ ∃ r ∈ t.rows, key r = k := by
  simp [find?, List.find?_isSome]

/-- The rows with a key are the one that a lookup finds. -/
theorem filter_key_eq (t : Table ρ) (k : κ) :
    (t.rows.filter fun r ↦ key r = k) = (t.find? k).toList := by
  cases h : t.find? k with
  | none => exact List.filter_eq_nil_iff.mpr fun r hr ↦ by simpa using find?_eq_none_iff.mp h r hr
  | some r =>
    refine List.perm_singleton.mp
      ((List.perm_ext_iff_of_nodup (t.nodup_rows.filter _) (List.nodup_singleton r)).mpr
        fun r' ↦ ?_)
    rw [List.mem_filter, decide_eq_true_eq, ← find?_eq_some_iff, h, List.mem_singleton,
      Option.some_inj, eq_comm]

/-! ## Inserting a row -/

/-- The table with one more row, whose key must be fresh. -/
def insert (t : Table ρ) (r : ρ) (h : t.find? (key r) = none) : Table ρ where
  rows := t.rows ++ [r]
  nodup_keys := by
    rw [List.map_append, List.nodup_append]
    refine ⟨t.nodup_keys, by simp, ?_⟩
    intro k hk k' hk'
    obtain ⟨x, hx, rfl⟩ := List.mem_map.mp hk
    obtain rfl : k' = key r := by simpa using hk'
    exact find?_eq_none_iff.mp h x hx

/-- Insert a row, unless its key is taken. -/
def insert? (t : Table ρ) (r : ρ) : Option (Table ρ) :=
  if h : t.find? (key r) = none then some (t.insert r h) else none

@[simp] theorem rows_insert (t : Table ρ) (r : ρ) (h : t.find? (key r) = none) :
    (t.insert r h).rows = t.rows ++ [r] := rfl

theorem insert?_eq_some_iff {t t' : Table ρ} {r : ρ} :
    t.insert? r = some t' ↔ ∃ h : t.find? (key r) = none, t' = t.insert r h := by
  rw [insert?]
  constructor
  · intro h
    split at h
    · rename_i hf
      rw [Option.some_inj] at h
      exact ⟨hf, h.symm⟩
    · exact absurd h (by simp)
  · rintro ⟨hf, rfl⟩
    rw [dif_pos hf]

/-- What lookups see after `r` has been appended to the rows. -/
theorem find?_of_rows_append {t t' : Table ρ} {r : ρ} (h : t'.rows = t.rows ++ [r])
    (k : κ) : t'.find? k = (t.find? k).or (if key r = k then some r else none) := by
  simp only [find?, h, List.find?_append, List.find?_singleton, decide_eq_true_eq]

theorem find?_of_rows_append_ne {t t' : Table ρ} {r : ρ} (h : t'.rows = t.rows ++ [r])
    {k : κ} (hk : key r ≠ k) : t'.find? k = t.find? k := by
  rw [find?_of_rows_append h, if_neg hk, Option.or_none]

theorem find?_of_rows_append_self {t t' : Table ρ} {r : ρ} (h : t'.rows = t.rows ++ [r]) :
    t'.find? (key r) = some r :=
  find?_key (by rw [h]; simp)

/-- Appending rows never hides an old one. -/
theorem find?_of_rows_append_list {t t' : Table ρ} {l : List ρ} (h : t'.rows = t.rows ++ l)
    {k : κ} {r : ρ} (hk : t.find? k = some r) : t'.find? k = some r := by
  obtain ⟨hr, rfl⟩ := find?_eq_some_iff.mp hk
  exact find?_key (by rw [h]; exact List.mem_append_left _ hr)

/-! ## Rewriting rows -/

omit [DecidableEq κ] in
/-- Rewrite every row by a function that leaves the key alone. -/
def update (t : Table ρ) (f : ρ → ρ) (hf : ∀ r, key (f r) = key r) : Table ρ where
  rows := t.rows.map f
  nodup_keys := by
    rw [List.map_map]
    convert t.nodup_keys using 2
    exact funext hf

omit [DecidableEq κ] in
@[simp] theorem rows_update (t : Table ρ) (f : ρ → ρ) (hf : ∀ r, key (f r) = key r) :
    (t.update f hf).rows = t.rows.map f := rfl

@[simp] theorem find?_update (t : Table ρ) (f : ρ → ρ) (hf : ∀ r, key (f r) = key r) (k : κ) :
    (t.update f hf).find? k = (t.find? k).map f := by
  simp only [find?, rows_update, List.find?_map, Function.comp_def, hf]

/-- A row that a rewriting leaves alone may be inserted before or after it. -/
theorem insert?_update (t : Table ρ) {f : ρ → ρ} (hf : ∀ r, key (f r) = key r) {r : ρ}
    (h : f r = r) : (t.update f hf).insert? r = (t.insert? r).map fun t' ↦ t'.update f hf := by
  rw [insert?, insert?]
  by_cases hfree : t.find? (key r) = none
  · rw [dif_pos hfree, dif_pos (by rw [find?_update, hfree]; rfl), Option.map_some,
      Option.some_inj]
    refine Table.ext ?_
    rw [rows_insert, rows_update, rows_update, rows_insert, List.map_append, List.map_singleton, h]
  · rw [dif_neg hfree, dif_neg (by rwa [find?_update, Option.map_eq_none_iff]), Option.map_none]

omit [DecidableEq κ] in
theorem update_comm (t : Table ρ) {f g : ρ → ρ} (hf : ∀ r, key (f r) = key r)
    (hg : ∀ r, key (g r) = key r) (h : ∀ r, f (g r) = g (f r)) :
    (t.update g hg).update f hf = (t.update f hf).update g hg := by
  refine Table.ext ?_
  rw [rows_update, rows_update, rows_update, rows_update, List.map_map, List.map_map]
  exact List.map_congr_left fun r _ ↦ h r

/-! ## Keeping some rows -/

omit [DecidableEq κ] in
/-- The rows that satisfy a condition. -/
def filter (t : Table ρ) (p : ρ → Bool) : Table ρ where
  rows := t.rows.filter p
  nodup_keys := t.nodup_keys.sublist (List.filter_sublist.map _)

omit [DecidableEq κ] in
@[simp] theorem rows_filter (t : Table ρ) (p : ρ → Bool) :
    (t.filter p).rows = t.rows.filter p := rfl

variable {p : ρ → Bool}

/-- A row that is kept under its key is found. -/
theorem find?_filter {t : Table ρ} {k : κ} (h : ∀ r, key r = k → p r = true) :
    (t.filter p).find? k = t.find? k := by
  refine Option.ext fun r ↦ ?_
  rw [find?_eq_some_iff, find?_eq_some_iff, rows_filter, List.mem_filter]
  exact ⟨fun ⟨hr, hk⟩ ↦ ⟨hr.1, hk⟩, fun ⟨hr, hk⟩ ↦ ⟨⟨hr, h r hk⟩, hk⟩⟩

theorem insert?_filter (t : Table ρ) {r : ρ} (h : ∀ r', key r' = key r → p r' = true) :
    (t.filter p).insert? r = (t.insert? r).map fun t' ↦ t'.filter p := by
  have hfind := find?_filter (t := t) h
  rw [insert?, insert?]
  by_cases hfree : t.find? (key r) = none
  · rw [dif_pos hfree, dif_pos (hfind.trans hfree), Option.map_some, Option.some_inj]
    refine Table.ext ?_
    rw [rows_insert, rows_filter, rows_filter, rows_insert, List.filter_append,
      List.filter_singleton, h r rfl]
    rfl
  · rw [dif_neg hfree, dif_neg (hfind.symm ▸ hfree), Option.map_none]

omit [DecidableEq κ] in
theorem filter_update {t : Table ρ} {f g : ρ → ρ} (hf : ∀ r, key (f r) = key r)
    (hg : ∀ r, key (g r) = key r) (hp : ∀ r, p (f r) = p r)
    (h : ∀ r ∈ t.rows, p r = true → f r = g r) :
    (t.update f hf).filter p = (t.filter p).update g hg := by
  refine Table.ext ?_
  have hcomp : p ∘ f = p := funext hp
  rw [rows_filter, rows_update, rows_update, rows_filter, List.filter_map, hcomp]
  exact List.map_congr_left fun r hr ↦ h r (List.mem_filter.mp hr).1 (List.mem_filter.mp hr).2

end Table

end Relational
