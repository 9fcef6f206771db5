import Mathlib.Algebra.Group.Indicator
import Mathlib.Algebra.Order.BigOperators.Group.Multiset
import Mathlib.Data.Int.ConditionallyCompleteOrder
import Mathlib.Data.Int.Interval
import Mathlib.Data.Set.Card

/-!
# Positions split among pieces of work

The positions from 0 on are worked off in pieces. A piece is taken at the point up to which
pieces were taken before, positions are done from the start of a piece, and a piece with nothing
left is dropped. In between, every position is either done, or in one piece that is still open,
or not yet taken: `Sound` says so by counting who holds a position, and `Step.sound` that it
stays so.
-/

namespace WorkSplit

/-- The positions from `lo` up to `hi`, without `hi`. -/
structure Span where
  lo : ℤ
  hi : ℤ
  deriving DecidableEq, Repr

namespace Span

/-- The position is one of the span. -/
def Covers (r : Span) (p : ℤ) : Prop := r.lo ≤ p ∧ p < r.hi

instance (r : Span) (p : ℤ) : Decidable (r.Covers p) := inferInstanceAs (Decidable (_ ∧ _))

/-- No position is in both. -/
def Apart (r r' : Span) : Prop := ∀ p, r.Covers p → ¬r'.Covers p

theorem Apart.symm {r r' : Span} (h : r.Apart r') : r'.Apart r := fun p hp' hp => h p hp hp'

/-- How many positions there are. -/
def length (r : Span) : ℤ := r.hi - r.lo

end Span

/-- What is done, the pieces that are open, and where the next piece starts. -/
structure State where
  done : Set ℤ
  todo : Multiset Span
  next : ℤ

namespace State

/-- How many hold the position: what is done, the open pieces, and what is not yet taken. -/
noncomputable def holders (s : State) (p : ℤ) : ℕ :=
  s.done.indicator 1 p + s.todo.countP (·.Covers p) + if s.next ≤ p then 1 else 0

/-- Every position from 0 on is held once. -/
structure Sound (s : State) : Prop where
  one : ∀ p, s.holders p = if 0 ≤ p then 1 else 0
  ordered : ∀ r ∈ s.todo, r.lo ≤ r.hi
  finite : s.done.Finite
  balance : s.done.ncard + (s.todo.map Span.length).sum = s.next

end State

/-- One step, with the number of positions that it does. -/
inductive Step : State → ℕ → State → Prop
  | keep (s : State) : Step s 0 s
  | take {done : Set ℤ} {todo : Multiset Span} {next : ℤ} (k : ℤ) (hk : 0 ≤ k) :
      Step ⟨done, todo, next⟩ 0 ⟨done, ⟨next, next + k⟩ ::ₘ todo, next + k⟩
  | work {done : Set ℤ} {todo : Multiset Span} {next lo hi : ℤ} (n : ℕ) (hn : lo + n ≤ hi) :
      Step ⟨done, ⟨lo, hi⟩ ::ₘ todo, next⟩ n
        ⟨done ∪ Set.Ico lo (lo + n), ⟨lo + n, hi⟩ ::ₘ todo, next⟩
  | drop {done : Set ℤ} {todo : Multiset Span} {next lo hi : ℤ} (h : hi = lo) :
      Step ⟨done, ⟨lo, hi⟩ ::ₘ todo, next⟩ 0 ⟨done, todo, next⟩

namespace State

variable {s : State} {r : Span} {rest : Multiset Span} {p : ℤ}

/-- Before anything is taken. -/
theorem sound_empty : Sound ⟨∅, 0, 0⟩ where
  one p := by simp [holders]
  ordered := by simp
  finite := Set.finite_empty
  balance := by simp

/-- No position is held twice. -/
theorem Sound.holders_le (h : s.Sound) (p : ℤ) :
    s.done.indicator 1 p + s.todo.countP (·.Covers p) + (if s.next ≤ p then 1 else 0) ≤ 1 := by
  have hone := h.one p
  rw [holders] at hone
  rw [hone]
  split
  · exact le_rfl
  · exact Nat.zero_le 1

/-- Positions before 0 are not held. -/
theorem Sound.nonneg (h : s.Sound) (hp : 0 < s.holders p) : 0 ≤ p := by
  by_contra hneg
  rw [h.one p, if_neg hneg] at hp
  exact absurd hp (Nat.lt_irrefl 0)

private theorem indicator_of_done (hp : p ∈ s.done) : s.done.indicator (1 : ℤ → ℕ) p = 1 :=
  Set.indicator_of_mem hp 1

private theorem countP_pos_of_covers (hr : r ∈ s.todo) (hp : r.Covers p) :
    0 < s.todo.countP (·.Covers p) :=
  Multiset.countP_pos.2 ⟨r, hr, hp⟩

/-- What an open piece covers is not done. -/
theorem Sound.notMem_done (h : s.Sound) (hr : r ∈ s.todo) (hp : r.Covers p) : p ∉ s.done := by
  intro hdone
  have hle := h.holders_le p
  have hcount := countP_pos_of_covers hr hp
  rw [indicator_of_done hdone] at hle
  omega

/-- What an open piece covers is from 0 on, and was taken. -/
theorem Sound.bounds (h : s.Sound) (hr : r ∈ s.todo) (hp : r.Covers p) : 0 ≤ p ∧ p < s.next := by
  have hcount := countP_pos_of_covers hr hp
  constructor
  · apply h.nonneg
    rw [holders]
    omega
  · by_contra hnext
    have hle := h.holders_le p
    rw [if_pos (not_lt.1 hnext)] at hle
    omega

/-- What is done is from 0 on, and was taken. -/
theorem Sound.bounds_done (h : s.Sound) (hp : p ∈ s.done) : 0 ≤ p ∧ p < s.next := by
  have hind := indicator_of_done hp
  constructor
  · apply h.nonneg
    rw [holders]
    omega
  · by_contra hnext
    have hle := h.holders_le p
    rw [if_pos (not_lt.1 hnext)] at hle
    omega

/-- What was taken and is in no open piece is done. -/
theorem Sound.mem_done (h : s.Sound) (hr : ∀ r ∈ s.todo, ¬r.Covers p) (hp : 0 ≤ p)
    (hnext : p < s.next) : p ∈ s.done := by
  by_contra hdone
  have hone := h.one p
  have hcount : s.todo.countP (·.Covers p) = 0 := Multiset.countP_eq_zero.2 hr
  have hind : s.done.indicator (1 : ℤ → ℕ) p = 0 := Set.indicator_of_notMem hdone 1
  simp [holders, hcount, hind, hp, hnext] at hone

private theorem Sound.lengths_nonneg (h : s.Sound) : ∀ x ∈ s.todo.map Span.length, 0 ≤ x := by
  intro x hx
  obtain ⟨r, hr, rfl⟩ := Multiset.mem_map.1 hx
  have := h.ordered r hr
  simp only [Span.length]
  omega

/-- No more positions are done than were taken. -/
theorem Sound.ncard_le (h : s.Sound) : s.done.ncard ≤ s.next := by
  have hsum := Multiset.sum_nonneg h.lengths_nonneg
  have hbalance := h.balance
  omega

/-- Where as many positions are done as were taken, no piece has anything left. -/
theorem Sound.spent (h : s.Sound) (hcard : s.done.ncard = s.next) (hr : r ∈ s.todo) :
    r.hi = r.lo := by
  have hbalance := h.balance
  have hsum : (s.todo.map Span.length).sum = 0 := by omega
  have hlen : r.length = 0 :=
    Multiset.all_zero_of_le_zero_le_of_sum_eq_zero h.lengths_nonneg hsum _
      (Multiset.mem_map_of_mem _ hr)
  simp only [Span.length] at hlen
  omega

/-- Where no piece has anything left, as many positions are done as were taken. -/
theorem Sound.ncard_eq (h : s.Sound) (hr : ∀ r ∈ s.todo, r.hi = r.lo) :
    s.done.ncard = s.next := by
  have hsum : (s.todo.map Span.length).sum = 0 := by
    apply Multiset.sum_eq_zero
    intro x hx
    obtain ⟨r, hmem, rfl⟩ := Multiset.mem_map.1 hx
    simp [Span.length, hr r hmem]
  have hbalance := h.balance
  omega

/-- Where as many positions are done as lie below `N`, and none is taken from `N` on, they are
those. -/
theorem Sound.mem_done_of_ncard (h : s.Sound) {N : ℤ} (hnext : s.next ≤ N)
    (hcard : s.done.ncard = N) (hp : 0 ≤ p) (hpN : p < N) : p ∈ s.done := by
  have hle := h.ncard_le
  have hN : s.next = N := by omega
  apply h.mem_done _ hp (hN ▸ hpN)
  intro r hr hcov
  have := h.spent (by omega) hr
  have := hcov.1
  have := hcov.2
  omega

end State

open State

section Step

variable {s t : State} {n : ℕ}

/-- The positions of a piece that are done next were not done, and are as many as the step
says. -/
private theorem ncard_work {done : Set ℤ} {lo : ℤ} (hfin : done.Finite)
    (hfresh : ∀ p ∈ Set.Ico lo (lo + n), p ∉ done) :
    (done ∪ Set.Ico lo (lo + n)).ncard = done.ncard + n := by
  have hdisj : Disjoint done (Set.Ico lo (lo + n)) :=
    Set.disjoint_left.2 fun p hp hp' => hfresh p hp' hp
  rw [Set.ncard_union_eq hdisj hfin (Set.finite_Ico _ _), ← Finset.coe_Ico,
    Set.ncard_coe_finset, Int.card_Ico]
  simp

private theorem countP_cons_covers (r : Span) (rest : Multiset Span) (p : ℤ) :
    (r ::ₘ rest).countP (·.Covers p) =
      rest.countP (·.Covers p) + if r.lo ≤ p ∧ p < r.hi then 1 else 0 :=
  Multiset.countP_cons (·.Covers p) r rest

/-- A step keeps every position held once. -/
theorem Step.holders (h : Step s n t) (hs : s.Sound) (p : ℤ) : t.holders p = s.holders p := by
  cases h with
  | keep => rfl
  | take k hk =>
    simp only [State.holders, countP_cons_covers]
    split_ifs <;> omega
  | @work done todo next lo hi n hn =>
    simp only [State.holders, countP_cons_covers]
    by_cases hp : p ∈ Set.Ico lo (lo + n)
    · have hfresh : p ∉ done :=
        hs.notMem_done (Multiset.mem_cons_self _ _) ⟨hp.1, lt_of_lt_of_le hp.2 hn⟩
      have hin : p ∈ done ∪ Set.Ico lo (lo + n) := Or.inr hp
      obtain ⟨hlo, hlt⟩ := hp
      rw [Set.indicator_of_mem hin, Set.indicator_of_notMem hfresh,
        if_neg (by omega : ¬(lo + n ≤ p ∧ p < hi)), if_pos (by omega : lo ≤ p ∧ p < hi)]
      simp only [Pi.one_apply]
      omega
    · have hin : (done ∪ Set.Ico lo (lo + n)).indicator (1 : ℤ → ℕ) p = done.indicator 1 p := by
        by_cases hdone : p ∈ done
        · rw [Set.indicator_of_mem (Set.mem_union_left _ hdone), Set.indicator_of_mem hdone]
        · rw [Set.indicator_of_notMem (by simp [hdone, hp]), Set.indicator_of_notMem hdone]
      have hiff : (lo + n ≤ p ∧ p < hi) ↔ (lo ≤ p ∧ p < hi) := by
        rw [Set.mem_Ico] at hp
        omega
      rw [hin, if_congr hiff rfl rfl]
  | @drop done todo next lo hi h =>
    have hempty : ¬(lo ≤ p ∧ p < hi) := by omega
    simp only [State.holders, countP_cons_covers, if_neg hempty, add_zero]

/-- A step keeps the state sound, and does as many positions as it says. -/
theorem Step.sound (h : Step s n t) (hs : s.Sound) :
    t.Sound ∧ t.done.ncard = s.done.ncard + n := by
  -- no step changes how many hold a position; what is left is the order and the sum of the pieces
  have hone : ∀ p, t.holders p = if 0 ≤ p then 1 else 0 := fun p =>
    (h.holders hs p).trans (hs.one p)
  cases h with
  | keep => exact ⟨hs, rfl⟩
  | take k hk =>
    refine ⟨⟨hone, ?_, hs.finite, ?_⟩, rfl⟩
    · intro r hr
      obtain rfl | hr := Multiset.mem_cons.1 hr
      · simp only
        omega
      · exact hs.ordered r hr
    · have hbalance := hs.balance
      simp only [Multiset.map_cons, Multiset.sum_cons, Span.length] at hbalance ⊢
      omega
  | @work done todo next lo hi n hn =>
    have hcard : (done ∪ Set.Ico lo (lo + n)).ncard = done.ncard + n :=
      ncard_work hs.finite fun p hp =>
        hs.notMem_done (Multiset.mem_cons_self _ _) ⟨hp.1, lt_of_lt_of_le hp.2 hn⟩
    refine ⟨⟨hone, ?_, hs.finite.union (Set.finite_Ico _ _), ?_⟩, hcard⟩
    · intro r hr
      obtain rfl | hr := Multiset.mem_cons.1 hr
      · exact hn
      · exact hs.ordered r (Multiset.mem_cons_of_mem hr)
    · have hbalance := hs.balance
      rw [hcard]
      simp only [Multiset.map_cons, Multiset.sum_cons, Span.length] at hbalance ⊢
      push_cast
      omega
  | drop h =>
    refine ⟨⟨hone, fun r hr => hs.ordered r (Multiset.mem_cons_of_mem hr), hs.finite, ?_⟩, rfl⟩
    have hbalance := hs.balance
    simp only [Multiset.map_cons, Multiset.sum_cons, Span.length] at hbalance
    simp only
    omega

end Step

end WorkSplit
