import Gendo.Library.Tally
import Mathlib.Algebra.Group.Int.Defs
import Mathlib.Data.List.Nodup
import Mathlib.Order.Lattice
import Mathlib.Data.Int.Order.Basic

/-!
# Measuring the latency of the servers

`ThdPingSvr2` hands the servers of the list to threads, three to each, and `ThdPingSvr3` measures
them. A range of one server is measured in front of the loop, and once more by the loop:
`measuresOnce_iff` says for which numbers of servers this does not happen.
-/

namespace Gendo.Client

open Tally

/-- `PING_EACH_THREAD` -/
def PING_EACH_THREAD : ℤ := 3

/-- `svr_ping_t`, but for the window. -/
structure SvrPing where
  start : ℤ
  stop : ℤ
  deriving DecidableEq, Repr

/-- What `ThdPingSvr2` hands to the thread with this number. -/
def svrPing (size i : ℤ) : SvrPing where
  start := i * PING_EACH_THREAD
  stop :=
    if size ≤ (i + 1) * PING_EACH_THREAD - 1 then size - 1 else (i + 1) * PING_EACH_THREAD - 1

/-- The loop of `ThdPingSvr2`: what the threads are given. -/
def thdPingSvr2 (size : ℕ) : List SvrPing :=
  let cnt1 := size / PING_EACH_THREAD.toNat
  let cnt2 := size % PING_EACH_THREAD.toNat
  (List.range (cnt1 + cnt2)).map fun i : ℕ => svrPing size i

/-- The loop of `ThdPingSvr3` from `i` on: the indices that it measures. -/
def pingLoop (size stop i : ℤ) : List ℤ :=
  if i ≤ stop ∧ i < size then i :: pingLoop size stop (i + 1) else []
termination_by (size - i).toNat
decreasing_by omega

/-- The indices that `ThdPingSvr3` measures. -/
def thdPingSvr3 (size : ℤ) (ping : SvrPing) : List ℤ :=
  -- the last one
  (if ping.start = ping.stop then [ping.start] else []) ++ pingLoop size ping.stop ping.start

/-- What the threads measure together. -/
def measured (size : ℕ) : List ℤ := (thdPingSvr2 size).flatMap (thdPingSvr3 size)

/-- Every server is measured once, and nothing else is accessed. -/
structure MeasuresOnce (size : ℕ) : Prop where
  once : ∀ j : ℤ, 0 ≤ j → j < size → (measured size).count j = 1
  inList : ∀ j ∈ measured size, 0 ≤ j ∧ j < size

section

variable {size stop i j : ℤ} {n : ℕ}

/-- The loop measures every index of its range once. -/
theorem count_pingLoop (size stop i j : ℤ) :
    (pingLoop size stop i).count j = if i ≤ j ∧ j ≤ stop ∧ j < size then 1 else 0 := by
  fun_induction pingLoop size stop i with
  | case1 i hin ih =>
    rw [List.count_cons, ih]
    by_cases hij : i = j
    · subst hij
      rw [if_neg (by omega), if_pos (by simp), if_pos ⟨Int.le_refl i, hin⟩]
    · have hiff : (i + 1 ≤ j ∧ j ≤ stop ∧ j < size) ↔ (i ≤ j ∧ j ≤ stop ∧ j < size) := by omega
      simp only [hiff, beq_iff_eq, hij, if_false, Nat.add_zero]
  | case2 i hin =>
    rw [List.count_nil, if_neg (by omega)]

/-- A thread measures the indices of its range once, and that of a range of one index twice. -/
theorem count_thdPingSvr3 (size : ℤ) (ping : SvrPing) (j : ℤ) :
    (thdPingSvr3 size ping).count j =
      (if ping.start = ping.stop ∧ j = ping.start then 1 else 0) +
        if ping.start ≤ j ∧ j ≤ ping.stop ∧ j < size then 1 else 0 := by
  rw [thdPingSvr3, List.count_append, count_pingLoop]
  by_cases hone : ping.start = ping.stop
  · rw [if_pos hone, List.count_singleton]
    simp only [hone, true_and, beq_iff_eq, @eq_comm ℤ j]
  · simp [hone]

theorem svrPing_start (size i : ℤ) : (svrPing size i).start = 3 * i := Int.mul_comm _ _

theorem svrPing_stop (size i : ℤ) : (svrPing size i).stop = min (size - 1) (3 * i + 2) := by
  rw [svrPing, PING_EACH_THREAD]
  dsimp only
  split_ifs <;> omega

/-- A thread measures the servers of a third of their index. -/
theorem count_svrPing (hj : j < n) (i : ℕ) :
    (thdPingSvr3 n (svrPing n i)).count j =
      if (i : ℤ) = j / 3 then (if n % 3 = 1 ∧ j + 1 = n then 2 else 1) else 0 := by
  rw [count_thdPingSvr3, svrPing_start, svrPing_stop]
  split_ifs <;> omega

/-- One summand that is not zero. -/
theorem total_range {m k : ℕ} (hk : k < m) (c : ℕ) :
    total (fun i => if i = k then c else 0) (List.range m) = c := by
  have hzero : ∀ i, i ≠ k → i ∈ List.range m → (if i = k then c else 0) = 0 :=
    fun i hne _ => if_neg hne
  rw [total, List.sum_map_eq_nsmul_single k _ hzero, if_pos rfl,
    List.count_eq_one_of_mem List.nodup_range (List.mem_range.2 hk), one_nsmul]

/-- Every index is measured once, but for the last one if it is a range of its own. -/
theorem count_measured (h0 : 0 ≤ j) (hj : j < n) :
    (measured n).count j = if n % 3 = 1 ∧ j + 1 = n then 2 else 1 := by
  have hthread : j.toNat / 3 < n / 3 + n % 3 := by omega
  have hcount : ∀ i ∈ List.range (n / 3 + n % 3), (thdPingSvr3 n (svrPing n i)).count j =
      if i = j.toNat / 3 then (if n % 3 = 1 ∧ j + 1 = n then 2 else 1) else 0 := by
    intro i _
    have hiff : (i : ℤ) = j / 3 ↔ i = j.toNat / 3 := by omega
    simp only [count_svrPing hj i, hiff]
  rw [measured, thdPingSvr2, List.count_flatMap, List.map_map]
  exact (total_congr hcount).trans (total_range hthread _)

/-- No thread leaves the list. -/
theorem mem_measured (h : j ∈ measured n) : 0 ≤ j ∧ j < n := by
  obtain ⟨ping, hping, hj⟩ := List.mem_flatMap.1 h
  obtain ⟨i, hi, rfl⟩ := List.mem_map.1 hping
  rw [← List.count_pos_iff, count_thdPingSvr3, svrPing_start, svrPing_stop] at hj
  split_ifs at hj <;> omega

/-- The servers are measured once unless one of them is left for the last thread. -/
theorem measuresOnce_iff (n : ℕ) : MeasuresOnce n ↔ n % 3 ≠ 1 := by
  constructor
  · intro h hlast
    have hcount := @count_measured (n - 1) n (by omega) (by omega)
    rw [if_pos ⟨hlast, by omega⟩, h.once (n - 1) (by omega) (by omega)] at hcount
    cases hcount
  · intro hlast
    constructor
    · intro j h0 hj
      rw [count_measured h0 hj, if_neg fun h => hlast h.1]
    · intro j hj
      exact mem_measured hj

end

/-- A single server is measured twice. -/
theorem not_measuresOnce_one : ¬MeasuresOnce 1 := by
  intro h
  have hcount := h.once 0 (by decide) (by decide)
  rw [count_measured (by decide) (by decide)] at hcount
  cases hcount

end Gendo.Client
