import Mathlib.Data.List.Basic
import Mathlib.Data.List.Nodup
import Mathlib.Tactic.Common

/-!
# Tables with a key column

A table is a list of rows, in the order in which a query returns them. `lookup` is the first row
with a key and `select` are all of them. `write` is an `update` statement whose `where` clause
names a key: it changes every row with that key and no other; `delete` takes these rows out. A
key may have several rows, as in a table without a unique index.
-/

namespace Table

variable {ρ γ κ : Type*} [DecidableEq κ] {key : ρ → κ} {rows : List ρ} {k : κ} {f : ρ → ρ} {r : ρ}

/-- The first row with the key. -/
def lookup (key : ρ → κ) (rows : List ρ) (k : κ) : Option ρ := rows.find? fun r => key r = k

/-- The table with `f` applied to every row with the key. -/
def write (key : ρ → κ) (k : κ) (f : ρ → ρ) (rows : List ρ) : List ρ :=
  rows.map fun r => if key r = k then f r else r

theorem lookup_key (h : lookup key rows k = some r) : key r = k := by
  simpa using List.find?_some h

theorem lookup_mem (h : lookup key rows k = some r) : r ∈ rows := List.mem_of_find?_eq_some h

/-- Columns that a write does not change are those of the table before. -/
theorem map_write (g : ρ → γ) (hg : ∀ r, g (f r) = g r) :
    (write key k f rows).map g = rows.map g := by
  unfold write
  rw [List.map_map]
  refine List.map_congr_left fun r _ => ?_
  show g (if key r = k then f r else r) = g r
  split
  · exact hg r
  · rfl

/-- A lookup commutes with a projection of the rows that keeps the key. -/
theorem map_lookup (g : ρ → γ) (key' : γ → κ) (hg : ∀ r, key' (g r) = key r) (rows : List ρ)
    (k : κ) :
    (lookup key rows k).map g = lookup key' (rows.map g) k := by
  unfold lookup
  rw [List.find?_map]
  simp only [Function.comp_def, hg]

/-- A written row is found with its new columns, and the rows of other keys as before. -/
theorem lookup_write (hf : ∀ r, key (f r) = key r) (rows : List ρ) (k k' : κ) :
    lookup key (write key k f rows) k' =
      if k' = k then (lookup key rows k').map f else lookup key rows k' := by
  unfold lookup write
  induction rows with
  | nil => simp
  | cons r rows ih =>
    simp only [List.map_cons, List.find?_cons]
    by_cases hr : key r = k'
    · subst hr
      -- the first row with the key stays the first, written or not
      by_cases hk : key r = k <;> simp [hk, hf]
    · have hne : key (if key r = k then f r else r) ≠ k' := by
        split
        · rwa [hf]
        · exact hr
      simpa [hr, hne] using ih

/-- A column that the write changes by `h` is changed so in the row of that key only. -/
theorem column_write {g : ρ → γ} {h : γ → γ} (hf : ∀ r, key (f r) = key r)
    (hg : ∀ r, g (f r) = h (g r)) (rows : List ρ) (k k' : κ) :
    (lookup key (write key k f rows) k').map g =
      if k' = k then ((lookup key rows k').map g).map h else (lookup key rows k').map g := by
  rw [lookup_write hf]
  split
  · rw [Option.map_map, Option.map_map]
    congr 1
    ext r
    exact hg r
  · rfl

/-- A column that the write does not touch is as before in every row. -/
theorem column_write_of_same {g : ρ → γ} (hf : ∀ r, key (f r) = key r) (hg : ∀ r, g (f r) = g r)
    (rows : List ρ) (k k' : κ) :
    (lookup key (write key k f rows) k').map g = (lookup key rows k').map g := by
  rw [lookup_write hf]
  split
  · rw [Option.map_map]
    congr 1
    ext r
    exact hg r
  · rfl

/-- Adding rows at the end finds the same row for a key that had one. -/
theorem lookup_append (rows rows' : List ρ) (k : κ) :
    lookup key (rows ++ rows') k = (lookup key rows k).or (lookup key rows' k) :=
  List.find?_append

/-- The rows with the key. -/
def select (key : ρ → κ) (rows : List ρ) (k : κ) : List ρ := rows.filter fun r => key r = k

/-- The table without the rows with the key. -/
def delete (key : ρ → κ) (k : κ) (rows : List ρ) : List ρ := rows.filter fun r => key r ≠ k

theorem select_eq_nil_iff : select key rows k = [] ↔ ∀ r ∈ rows, key r ≠ k := by
  simp [select, List.filter_eq_nil_iff]

@[simp]
theorem select_append (rows rows' : List ρ) (k : κ) :
    select key (rows ++ rows') k = select key rows k ++ select key rows' k := by
  simp [select]

theorem select_singleton (r : ρ) (k : κ) :
    select key [r] k = if key r = k then [r] else [] := by
  by_cases hk : key r = k
  · simp [select, hk]
  · simp [select, hk]

/-- The rows of a key after an `update` of its rows or of others. -/
theorem select_write (hf : ∀ r, key (f r) = key r) (rows : List ρ) (k k' : κ) :
    select key (write key k f rows) k' =
      if k' = k then (select key rows k').map f else select key rows k' := by
  induction rows with
  | nil => simp [select, write]
  | cons r rows ih =>
    have hkey : key (if key r = k then f r else r) = key r := by
      split
      · exact hf r
      · rfl
    simp only [select, write, List.map_cons, List.filter_cons, hkey] at ih ⊢
    by_cases hr : key r = k'
    · subst hr
      by_cases hk : key r = k
      · simpa [hk] using ih
      · simpa [hk] using ih
    · simpa [hr] using ih

/-- Nothing is written to a table that has no row with the key. -/
theorem write_eq_self (h : select key rows k = []) : write key k f rows = rows := by
  refine (List.map_congr_left (g := id) fun r hr => ?_).trans (List.map_id rows)
  exact if_neg (select_eq_nil_iff.mp h r hr)

/-- No row is deleted from a table that has none with the key. -/
theorem delete_eq_self (h : select key rows k = []) : delete key k rows = rows := by
  rw [delete, List.filter_eq_self]
  intro r hr
  simpa using select_eq_nil_iff.mp h r hr

/-- A row that was added is deleted again. -/
theorem delete_append_singleton (h : select key rows k = []) (hr : key r = k) :
    delete key k (rows ++ [r]) = rows := by
  have hself := delete_eq_self h
  rw [delete] at hself ⊢
  rw [List.filter_append, hself]
  simp [hr]

theorem mem_delete : r ∈ delete key k rows ↔ r ∈ rows ∧ key r ≠ k := by simp [delete]

/-- No row with the key is left. -/
theorem select_delete_self (k : κ) (rows : List ρ) : select key (delete key k rows) k = [] := by
  rw [select_eq_nil_iff]
  intro r hr
  exact (mem_delete.mp hr).2

/-- The rows of the other keys stay. -/
theorem select_delete_of_ne {k' : κ} (h : k' ≠ k) (rows : List ρ) :
    select key (delete key k rows) k' = select key rows k' := by
  rw [select, select, delete, List.filter_filter]
  refine List.filter_congr fun r _ => ?_
  by_cases hr : key r = k'
  · simp [hr, h]
  · simp [hr]

/-! ## Unique keys -/

section Unique

variable (h : (rows.map key).Nodup) {i : ℕ} (hi : i < rows.length)
include h

omit [DecidableEq κ] in
/-- Where no two rows have the same key, a key has its position. -/
theorem key_getElem_inj {j : ℕ} (hj : j < rows.length) : key rows[j] = key rows[i] ↔ j = i := by
  constructor
  · intro hkey
    have hi' : i < (rows.map key).length := by simpa using hi
    have hj' : j < (rows.map key).length := by simpa using hj
    have hmap : (rows.map key)[j] = (rows.map key)[i] := by
      rwa [List.getElem_map, List.getElem_map]
    exact h.getElem_inj_iff.1 hmap
  · rintro rfl
    rfl

/-- Every row is found under its key. -/
theorem lookup_getElem : lookup key rows (key rows[i]) = some rows[i] := by
  rw [lookup, List.find?_eq_some_iff_getElem]
  refine ⟨decide_eq_true rfl, i, hi, rfl, fun j hj => ?_⟩
  have hne : key rows[j] ≠ key rows[i] :=
    fun hkey => Nat.ne_of_lt hj ((key_getElem_inj h hi (Nat.lt_trans hj hi)).1 hkey)
  simpa using hne

/-- A write changes the row with the key, and no other. -/
theorem write_getElem : write key (key rows[i]) f rows = rows.set i (f rows[i]) := by
  refine List.ext_getElem (by simp [write]) fun j hj _ => ?_
  have hj : j < rows.length := by simpa [write] using hj
  have hkey := key_getElem_inj h hi hj
  rw [List.getElem_set]
  by_cases hji : j = i
  · subst hji
    simp [write]
  · simp [write, hkey, hji, Ne.symm hji]

/-- One row has the key. -/
theorem countP_getElem : rows.countP (fun r => key r = key rows[i]) = 1 := by
  have hmem : key rows[i] ∈ rows.map key := List.mem_map_of_mem (List.getElem_mem hi)
  have hcount := List.count_eq_one_of_mem h hmem
  rw [List.count, List.countP_map] at hcount
  rw [← hcount]
  exact List.countP_congr fun r _ => by simp

end Unique

end Table
