import Mathlib.Data.List.Basic
import Mathlib.Logic.Function.Basic

/-!
# Ring buffers

A ring is an array of `cap` cells and a first index `base`; `slot cap base k` is the index of its
`k`-th cell, and `cells data cap base k n` are the `n` cells from the `k`-th on, in order. A queue
is `cells data cap base 0 size`. The lemmas say what a write to a cell and a step of `base` make of
these lists, as long as they are no longer than the ring.
-/

namespace RingBuffer

variable {α : Type*} {data : ℕ → α} {cap base k n d : ℕ} {x : α}

/-- The index of the `k`-th cell. -/
def slot (cap base k : ℕ) : ℕ := if base + k ≥ cap then base + k - cap else base + k

/-- The contents of `n` cells, from the `k`-th on. -/
def cells (data : ℕ → α) (cap base k n : ℕ) : List α :=
  (List.range n).map fun j => data (slot cap base (k + j))

@[simp]
theorem slot_zero (h : base < cap) : slot cap base 0 = base := by
  rw [slot, if_neg (by omega), Nat.add_zero]

theorem slot_lt (hbase : base < cap) (hk : k < cap) : slot cap base k < cap := by
  rw [slot]
  split_ifs <;> omega

theorem slot_ne {j : ℕ} (hlt : d < j) (hj : j < d + cap) : slot cap base j ≠ slot cap base d := by
  rw [slot, slot]
  split_ifs <;> omega

/-- One cell on from the `k`-th cell is the next one. -/
theorem slot_slot (hbase : base < cap) (hk : k < cap) :
    slot cap (slot cap base k) 1 = slot cap base (k + 1) := by
  rw [slot, slot, slot]
  split_ifs <;> omega

/-- Seen from the next cell, all cells are one nearer. -/
theorem slot_advance (hbase : base < cap) (hk : k < cap) :
    slot cap (slot cap base 1) k = slot cap base (k + 1) := by
  rw [slot, slot, slot]
  split_ifs <;> omega

@[simp]
theorem cells_zero : cells data cap base k 0 = [] := rfl

@[simp]
theorem length_cells : (cells data cap base k n).length = n := by simp [cells]

theorem cells_succ :
    cells data cap base k (n + 1) = cells data cap base k n ++ [data (slot cap base (k + n))] := by
  rw [cells, List.range_succ, List.map_append]
  rfl

theorem cells_cons :
    cells data cap base k (n + 1) = data (slot cap base k) :: cells data cap base (k + 1) n := by
  rw [cells, List.range_succ_eq_map, List.map_cons, List.map_map]
  refine congrArg₂ List.cons rfl (List.map_congr_left fun j _ => ?_)
  show data (slot cap base (k + (j + 1))) = data (slot cap base (k + 1 + j))
  rw [Nat.add_assoc, Nat.add_comm 1]

/-- A write behind the cells is not seen in them. -/
theorem cells_update_of_le (h : k + n ≤ d) (hd : d < k + cap) :
    cells (Function.update data (slot cap base d) x) cap base k n = cells data cap base k n := by
  refine List.map_congr_left fun j hj => ?_
  have hj := List.mem_range.mp hj
  exact Function.update_of_ne (Ne.symm (slot_ne (by omega) (by omega))) _ _

/-- Nor is one before them. -/
theorem cells_update_of_lt (h : d < k) (hk : k + n ≤ d + cap) :
    cells (Function.update data (slot cap base d) x) cap base k n = cells data cap base k n := by
  refine List.map_congr_left fun j hj => ?_
  have hj := List.mem_range.mp hj
  exact Function.update_of_ne (slot_ne (by omega) (by omega)) _ _

/-- A write right behind the cells makes them one more. -/
theorem cells_push (hn : n < cap) :
    cells (Function.update data (slot cap base n) x) cap base 0 (n + 1) =
      cells data cap base 0 n ++ [x] := by
  rw [cells_succ, cells_update_of_le (by omega) (by omega), Nat.zero_add, Function.update_self]

/-- Without the first cell, they are those from the next one on. -/
theorem cells_advance (hbase : base < cap) (hn : n < cap) :
    cells data cap (slot cap base 1) 0 n = cells data cap base 1 n := by
  refine List.map_congr_left fun j hj => ?_
  have hj := List.mem_range.mp hj
  rw [Nat.zero_add, slot_advance hbase (by omega), Nat.add_comm]

end RingBuffer
