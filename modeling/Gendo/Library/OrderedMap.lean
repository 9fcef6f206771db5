import Mathlib.Data.List.Nodup
import Mathlib.Logic.Function.Basic
import Mathlib.Tactic.Common

/-!
# Partial maps that keep the order of their keys

A partial map together with its keys in the order in which they came. Each key occurs once, and
the keys listed are those that have a value: both are part of the structure.
-/

/-- A partial map and its keys, oldest first. -/
@[ext]
structure OrderedMap (κ δ : Type*) where
  order : List κ
  get : κ → Option δ
  nodup : order.Nodup
  mem_order : ∀ k, k ∈ order ↔ get k ≠ none

namespace OrderedMap

variable {κ δ : Type*} {m : OrderedMap κ δ} {k k' : κ} {v : δ}

/-- The map without keys. -/
def empty : OrderedMap κ δ where
  order := []
  get _ := none
  nodup := List.nodup_nil
  mem_order := by simp

@[simp]
theorem order_empty : (empty : OrderedMap κ δ).order = [] := rfl

@[simp]
theorem get_empty (k : κ) : (empty : OrderedMap κ δ).get k = none := rfl

theorem notMem_order : k ∉ m.order ↔ m.get k = none := by
  rw [m.mem_order, not_not]

variable [DecidableEq κ]

/-- A new key, which comes last. A key that the map has keeps its value. -/
def insert (m : OrderedMap κ δ) (k : κ) (v : δ) : OrderedMap κ δ :=
  if h : m.get k = none then
    { order := m.order ++ [k]
      get := Function.update m.get k (some v)
      nodup := by
        rw [List.nodup_append_comm]
        exact List.nodup_cons.2 ⟨notMem_order.2 h, m.nodup⟩
      mem_order := fun k' => by
        rw [List.mem_append, List.mem_singleton, m.mem_order, Function.update_apply]
        by_cases hk : k' = k <;> simp [hk] }
  else m

/-- Another value for a key that the map has. -/
def replace (m : OrderedMap κ δ) (k : κ) (v : δ) : OrderedMap κ δ :=
  if h : m.get k = none then m
  else
    { order := m.order
      get := Function.update m.get k (some v)
      nodup := m.nodup
      mem_order := fun k' => by
        rw [m.mem_order, Function.update_apply]
        by_cases hk : k' = k <;> simp [hk, h] }

/-- A key taken out. -/
def erase (m : OrderedMap κ δ) (k : κ) : OrderedMap κ δ where
  order := m.order.erase k
  get := Function.update m.get k none
  nodup := m.nodup.erase k
  mem_order k' := by
    rw [m.nodup.mem_erase_iff, m.mem_order, Function.update_apply]
    by_cases hk : k' = k <;> simp [hk]

theorem order_insert (h : m.get k = none) : (m.insert k v).order = m.order ++ [k] := by
  rw [insert, dif_pos h]

theorem get_insert (h : m.get k = none) :
    (m.insert k v).get = Function.update m.get k (some v) := by
  rw [insert, dif_pos h]

theorem insert_of_get (h : m.get k ≠ none) : m.insert k v = m := dif_neg h

@[simp]
theorem order_replace : (m.replace k v).order = m.order := by
  rw [replace]
  split <;> rfl

theorem get_replace (h : m.get k ≠ none) :
    (m.replace k v).get = Function.update m.get k (some v) := by
  rw [replace, dif_neg h]

theorem get_insert_of_ne (hne : k' ≠ k) : (m.insert k v).get k' = m.get k' := by
  by_cases h : m.get k = none
  · rw [get_insert h, Function.update_of_ne hne]
  · rw [insert_of_get h]

theorem replace_of_get (h : m.get k = none) : m.replace k v = m := dif_pos h

theorem get_replace_of_ne (hne : k' ≠ k) : (m.replace k v).get k' = m.get k' := by
  by_cases h : m.get k = none
  · rw [replace_of_get h]
  · rw [get_replace h, Function.update_of_ne hne]

@[simp]
theorem order_erase : (m.erase k).order = m.order.erase k := rfl

@[simp]
theorem get_erase : (m.erase k).get = Function.update m.get k none := rfl

theorem erase_of_get (h : m.get k = none) : m.erase k = m := by
  ext1
  · exact List.erase_of_not_mem (notMem_order.2 h)
  · exact Function.update_eq_self_iff.2 h.symm

theorem get_foldl_erase (l : List κ) (m : OrderedMap κ δ) (k : κ) :
    (l.foldl erase m).get k = if k ∈ l then none else m.get k := by
  induction l generalizing m with
  | nil => simp
  | cons j l ih =>
    rw [List.foldl_cons, ih, get_erase, Function.update_apply]
    by_cases hk : k = j <;> simp [hk]

/-- With all its keys taken out, a map is empty. -/
theorem foldl_erase_eq_empty {l : List κ} (h : ∀ k ∈ m.order, k ∈ l) :
    l.foldl erase m = empty := by
  have hget : (l.foldl erase m).get = (empty : OrderedMap κ δ).get := by
    funext k
    rw [get_foldl_erase, get_empty, ite_eq_left_iff]
    exact fun hk => notMem_order.1 (mt (h k) hk)
  ext1
  · rw [order_empty, List.eq_nil_iff_forall_not_mem]
    intro k
    rw [notMem_order, hget, get_empty]
  · exact hget

end OrderedMap
