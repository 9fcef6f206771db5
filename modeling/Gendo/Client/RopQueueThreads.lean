import Gendo.Client.RopQueue

/-!
# The queue of the client with several threads

`Push` and `Pop` look at the size before they enter the critical section, and `Pop` reads the item
after it has left it. A call is three steps here, and the steps of any number of threads come in
any order. An item is numbered when it is put into the queue, so that two pushes of the same
pointer are two items.

`queueSafe_iff` says which runs are safe: those where the size that a thread has looked at still
allows its critical section when it gets there, and no item is put where a thread is about to read.

As in `RopQueue`, the constructor is assumed to have got its block, and all cells are assumed to lie
in it; for a capacity that `refinesFifo_iff` excludes they do not.
-/

namespace Gendo.Client

open RingBuffer StepSystem

/-- Where a thread is. -/
inductive QueuePhase (α : Type*)
  | idle
  /-- In `Push`, about to enter the critical section. -/
  | pushEnter (item : α)
  /-- In `Push`, about to return. -/
  | pushReturn (item : α)
  /-- In `Pop`, about to enter the critical section. -/
  | popEnter
  /-- In `Pop`, about to read the item and return it. -/
  | popReturn (oldbase : ℕ)

/-- The queue with numbered items, where the threads are, and the items that were pushed and those
that were returned. -/
structure QueueThreads (α : Type*) where
  q : RopQueue (ℕ × α)
  phase : ℕ → QueuePhase α
  pushed : List (ℕ × α)
  returned : List (ℕ × α)

/-- A step of a thread. -/
inductive QueueStep (α : Type*)
  | pushTest (tid : ℕ) (item : α)
  | pushCritical (tid : ℕ) (item : α)
  | pushEnd (tid : ℕ)
  | popTest (tid : ℕ)
  | popCritical (tid : ℕ)
  | popEnd (tid oldbase : ℕ)

namespace QueueThreads

variable {α : Type*}

def init (w : PvoidSize) (capacity : UInt32) : QueueThreads α :=
  ⟨.new w capacity, fun _ => .idle, [], []⟩

def setPhase (s : QueueThreads α) (tid : ℕ) (p : QueuePhase α) : QueueThreads α :=
  { s with phase := Function.update s.phase tid p }

/-- The next item that is pushed. -/
def numbered (s : QueueThreads α) (item : α) : ℕ × α := (s.pushed.length, item)

/-- The index at which the next item is put. -/
def dest (s : QueueThreads α) : ℕ := s.q.addIndex s.q.base s.q.size

def next (s : QueueThreads α) : QueueStep α → QueueThreads α
  | .pushTest tid item =>
    if s.q.size = s.q.capacity then s else s.setPhase tid (.pushEnter item)
  | .pushCritical tid item =>
    { s.setPhase tid (.pushReturn item) with
      q := s.q.pushCritical (s.numbered item)
      pushed := s.pushed ++ [s.numbered item] }
  | .pushEnd tid => s.setPhase tid .idle
  | .popTest tid => if s.q.size = 0 then s else s.setPhase tid .popEnter
  | .popCritical tid => { s.setPhase tid (.popReturn s.q.base) with q := s.q.popCritical }
  | .popEnd tid oldbase =>
    { s.setPhase tid .idle with
      q := (s.q.popReturn oldbase).2
      returned := s.returned ++ (s.q.popReturn oldbase).1.toList }

/-- The thread is where the step begins. -/
def Valid (s : QueueThreads α) : QueueStep α → Prop
  | .pushTest tid _ => s.phase tid = .idle
  | .pushCritical tid item => s.phase tid = .pushEnter item
  | .pushEnd tid => ∃ item, s.phase tid = .pushReturn item
  | .popTest tid => s.phase tid = .idle
  | .popCritical tid => s.phase tid = .popEnter
  | .popEnd tid oldbase => s.phase tid = .popReturn oldbase

/-- The size that a step leads to, before it is cut off to an `unsigned long`. -/
def newSize (s : QueueThreads α) : QueueStep α → ℤ
  | .pushCritical .. => s.q.size + 1
  | .popCritical .. => s.q.size - 1
  | _ => s.q.size

end QueueThreads

variable {α : Type*}

/-- A thread takes a step. -/
def QueueThreadsStep (s : QueueThreads α) (label : QueueStep α) (t : QueueThreads α) : Prop :=
  s.Valid label ∧ t = s.next label

/-- The size stays between 0 and the capacity, an item that is overwritten has been returned, and
what was returned was pushed, and no item twice. -/
structure QueueSafe (s : QueueThreads α) (label : QueueStep α) (t : QueueThreads α) : Prop where
  size : 0 ≤ s.newSize label ∧ s.newSize label ≤ s.q.capacity
  kept : ∀ tid item, label = .pushCritical tid item → ∀ x ∈ s.q.data s.dest, x ∈ s.returned
  returned : t.returned ⊆ t.pushed
  once : t.returned.Nodup

/-- `Push` enters its critical section where there is still room, and does not put its item where
`Pop` is about to read; `Pop` enters it where there is still an item. -/
def roomy (s : QueueThreads α) : QueueStep α → Prop
  | .pushCritical .. => s.q.size < s.q.capacity ∧ s.q.base + s.q.size < 2 ^ 32 ∧
      ∀ tid oldbase, s.phase tid = .popReturn oldbase → oldbase ≠ s.dest
  | .popCritical _ => 0 < s.q.size
  | _ => True

/-! ## The invariant -/

namespace QueueThreads

/-- The index is that of an item in the queue. -/
def Live (s : QueueThreads α) (i : ℕ) : Prop :=
  ∃ k < s.q.size, slot s.q.capacity s.q.base k = i

/-- A thread is about to read at the index. -/
def Pending (s : QueueThreads α) (i : ℕ) : Prop := ∃ tid, s.phase tid = .popReturn i

/-- Items that are in the queue or about to be read are where they belong, every other one was
returned, and no item is at two indices. -/
structure Inv (s : QueueThreads α) : Prop where
  capacity : s.q.capacity < 2 ^ 32
  base : 0 < s.q.capacity → s.q.base < s.q.capacity
  size : s.q.size ≤ s.q.capacity
  item : ∀ i, s.Live i ∨ s.Pending i → ∃ x, s.q.data i = some x ∧ x ∉ s.returned
  stale : ∀ i, ∀ x ∈ s.q.data i, x ∈ s.returned ∨ s.Live i ∨ s.Pending i
  apart : ∀ i, s.Live i → ¬s.Pending i
  reader : ∀ tid tid' i, s.phase tid = .popReturn i → s.phase tid' = .popReturn i → tid = tid'
  place : ∀ i j, ∀ x ∈ s.q.data i, x ∈ s.q.data j → i = j
  data : ∀ i, ∀ x ∈ s.q.data i, x ∈ s.pushed
  number : ∀ x ∈ s.pushed, x.1 < s.pushed.length
  returned : s.returned ⊆ s.pushed
  once : s.returned.Nodup

theorem inv_init (w : PvoidSize) (capacity : UInt32) :
    (init w capacity : QueueThreads α).Inv where
  capacity := capacity.toNat_lt
  base h := h
  size := Nat.zero_le _
  item i h := by
    rcases h with ⟨k, hk, -⟩ | ⟨tid, htid⟩
    · exact absurd hk (Nat.not_lt_zero k)
    · cases htid
  stale _ _ h := by cases h
  apart i h := by
    obtain ⟨k, hk, -⟩ := h
    exact absurd hk (Nat.not_lt_zero k)
  reader _ _ _ h := by cases h
  place _ _ _ h := by cases h
  data _ _ h := by cases h
  number _ h := by cases h
  returned := List.Subset.refl _
  once := List.nodup_nil

variable {s : QueueThreads α} {tid : ℕ} {p : QueuePhase α}

/-- A thread that is not about to read goes on to where it is not about to read. -/
theorem pending_setPhase (hfrom : ∀ i, s.phase tid ≠ .popReturn i) (hto : ∀ i, p ≠ .popReturn i)
    (t i : ℕ) : (s.setPhase tid p).phase t = .popReturn i ↔ s.phase t = .popReturn i := by
  show Function.update s.phase tid p t = _ ↔ _
  rw [Function.update_apply]
  split_ifs with heq
  · subst heq
    exact iff_of_false (hto i) (hfrom i)
  · exact Iff.rfl

theorem Inv.setPhase (h : s.Inv) (hfrom : ∀ i, s.phase tid ≠ .popReturn i)
    (hto : ∀ i, p ≠ .popReturn i) : (s.setPhase tid p).Inv := by
  have hphase := pending_setPhase hfrom hto
  have hpending : ∀ i, (s.setPhase tid p).Pending i ↔ s.Pending i := fun i =>
    exists_congr fun t => hphase t i
  refine ⟨h.capacity, h.base, h.size, fun i hi => ?_, fun i x hx => ?_, fun i hi => ?_,
    fun t t' i ht ht' => ?_, h.place, h.data, h.number, h.returned, h.once⟩
  · rw [hpending] at hi
    exact h.item i hi
  · rw [hpending]
    exact h.stale i x hx
  · rw [hpending]
    exact h.apart i hi
  · exact h.reader t t' i ((hphase t i).mp ht) ((hphase t' i).mp ht')

/-- The number of a new item is new. -/
theorem Inv.numbered_not_mem (h : s.Inv) (item : α) : s.numbered item ∉ s.pushed := fun hmem =>
  Nat.lt_irrefl _ (h.number _ hmem)

/-- The cell behind the last item holds none that is still to be returned. -/
theorem Inv.kept (h : s.Inv) {item : α} (hroom : roomy s (.pushCritical tid item)) :
    ∀ x ∈ s.q.data s.dest, x ∈ s.returned := by
  obtain ⟨hlt, hsum, hread⟩ := hroom
  intro x hx
  rcases h.stale _ x hx with hreturned | ⟨k, hk, hslot⟩ | ⟨t, ht⟩
  · exact hreturned
  · rw [dest, RopQueue.addIndex_eq hsum] at hslot
    exact absurd hslot.symm (slot_ne hk (by omega))
  · exact absurd rfl (hread t _ ht)

/-- The item that is put is in the queue, behind the last one. -/
theorem live_pushCritical (hcap : s.q.size + 1 < 2 ^ 32) (hsum : s.q.base + s.q.size < 2 ^ 32)
    (tid : ℕ) (item : α) (i : ℕ) :
    (s.next (.pushCritical tid item)).Live i ↔ s.Live i ∨ i = s.dest := by
  have hdest : s.dest = slot s.q.capacity s.q.base s.q.size := RopQueue.addIndex_eq hsum
  show (∃ k < RopQueue.inc s.q.size, _) ↔ _
  rw [RopQueue.inc_of_lt hcap, hdest]
  constructor
  · rintro ⟨k, hk, rfl⟩
    rcases Nat.lt_succ_iff_lt_or_eq.mp hk with hold | rfl
    · exact .inl ⟨k, hold, rfl⟩
    · exact .inr rfl
  · rintro (⟨k, hk, rfl⟩ | rfl)
    · exact ⟨k, by omega, rfl⟩
    · exact ⟨s.q.size, by omega, rfl⟩

theorem pending_pushCritical {item : α} (hvalid : s.phase tid = .pushEnter item) (i : ℕ) :
    (s.next (.pushCritical tid item)).Pending i ↔ s.Pending i :=
  exists_congr fun t => pending_setPhase (by simp [hvalid]) (by simp) t i

theorem data_pushCritical (s : QueueThreads α) (tid : ℕ) (item : α) (i : ℕ) :
    (s.next (.pushCritical tid item)).q.data i =
      if i = s.dest then some (s.numbered item) else s.q.data i :=
  Function.update_apply ..

/-- The cell of no item in the queue, and of none that is about to be read, is overwritten. -/
theorem Inv.ne_dest (h : s.Inv) {item : α} (hroom : roomy s (.pushCritical tid item)) {i : ℕ}
    (hi : s.Live i ∨ s.Pending i) : i ≠ s.dest := by
  obtain ⟨hlt, hsum, hread⟩ := hroom
  have hbase := h.base (by omega)
  rcases hi with ⟨k, hk, rfl⟩ | ⟨t, ht⟩
  · rw [show s.dest = slot s.q.capacity s.q.base s.q.size from RopQueue.addIndex_eq hsum]
    exact Ne.symm (slot_ne hk (by omega))
  · exact hread t i ht

theorem Inv.pushCritical (h : s.Inv) {item : α} (hvalid : s.phase tid = .pushEnter item)
    (hroom : roomy s (.pushCritical tid item)) : (s.next (.pushCritical tid item)).Inv := by
  have hother := fun i => h.ne_dest hroom (i := i)
  obtain ⟨hlt, hsum, -⟩ := hroom
  have hcap := h.capacity
  have hsize : RopQueue.inc s.q.size = s.q.size + 1 := RopQueue.inc_of_lt (by omega)
  have hlive := live_pushCritical (by omega) hsum tid item
  have hpending := pending_pushCritical hvalid
  have hdata := s.data_pushCritical tid item
  have hpushed : (s.next (.pushCritical tid item)).pushed = s.pushed ++ [s.numbered item] := rfl
  have hnew := h.numbered_not_mem item
  have hnumber : (s.numbered item).1 = s.pushed.length := rfl
  -- of the new item, only this matters
  generalize s.numbered item = x at hdata hpushed hnew hnumber
  have hfresh : x ∉ s.returned := fun hmem => hnew (h.returned hmem)
  refine ⟨h.capacity, h.base, ?_, fun i hi => ?_, fun i y hy => ?_, fun i hi => ?_,
    fun t t' i ht ht' => ?_, fun i j y hi hj => ?_, fun i y hy => ?_, fun y hy => ?_, ?_, h.once⟩
  · show RopQueue.inc s.q.size ≤ s.q.capacity
    omega
  · rw [hdata]
    rw [hlive, hpending, or_right_comm] at hi
    rcases hi with hold | rfl
    · rw [if_neg (hother i hold)]
      exact h.item i hold
    · rw [if_pos rfl]
      exact ⟨x, rfl, hfresh⟩
  · rw [hdata] at hy
    rw [hlive, hpending]
    split_ifs at hy with heq
    · exact .inr (.inl (.inr heq))
    · rcases h.stale i y hy with hreturned | hlive | hpending
      · exact .inl hreturned
      · exact .inr (.inl (.inl hlive))
      · exact .inr (.inr hpending)
  · rw [hlive] at hi
    rw [hpending]
    rcases hi with hold | rfl
    · exact h.apart i hold
    · exact fun hread => hother _ (.inr hread) rfl
  · have hphase := fun t => @pending_setPhase _ s tid (.pushReturn item) (by simp [hvalid])
      (by simp) t i
    exact h.reader t t' i ((hphase t).mp ht) ((hphase t').mp ht')
  · rw [hdata] at hi hj
    split_ifs at hi hj with hi' hj' hj'
    · rw [hi', hj']
    · obtain rfl := Option.some.inj hi
      exact absurd (h.data j x hj) hnew
    · obtain rfl := Option.some.inj hj
      exact absurd (h.data i x hi) hnew
    · exact h.place i j y hi hj
  · rw [hdata] at hy
    rw [hpushed, List.mem_append]
    split_ifs at hy
    · exact .inr (List.mem_singleton.mpr (Option.some.inj hy).symm)
    · exact .inl (h.data i y hy)
  · rw [hpushed] at hy ⊢
    rw [List.length_append, List.length_singleton]
    rcases List.mem_append.mp hy with hold | hmem
    · exact Nat.lt_succ_of_lt (h.number y hold)
    · rw [List.mem_singleton.mp hmem, hnumber]
      exact Nat.lt_succ_self _
  · rw [hpushed]
    exact List.Subset.trans h.returned (List.subset_append_left _ _)

/-- The thread is about to read at the old base. -/
theorem phase_popCritical (hvalid : s.phase tid = .popEnter) (t i : ℕ) :
    (s.next (.popCritical tid)).phase t = .popReturn i ↔
      t = tid ∧ i = s.q.base ∨ s.phase t = .popReturn i := by
  show Function.update s.phase tid (.popReturn s.q.base) t = _ ↔ _
  rw [Function.update_apply]
  split_ifs with heq
  · subst heq
    rw [hvalid]
    simp [eq_comm]
  · simp [heq]

theorem pending_popCritical (hvalid : s.phase tid = .popEnter) (i : ℕ) :
    (s.next (.popCritical tid)).Pending i ↔ i = s.q.base ∨ s.Pending i := by
  rw [Pending, Pending]
  simp only [phase_popCritical hvalid]
  constructor
  · rintro ⟨t, ⟨-, hi⟩ | ht⟩
    · exact .inl hi
    · exact .inr ⟨t, ht⟩
  · rintro (hi | ⟨t, ht⟩)
    · exact ⟨tid, .inl ⟨rfl, hi⟩⟩
    · exact ⟨t, .inr ht⟩

/-- Where an item is left in the queue: at the slots from the second on. -/
theorem Inv.live_popCritical_iff (h : s.Inv) (hroom : 0 < s.q.size) (tid i : ℕ) :
    (s.next (.popCritical tid)).Live i ↔
      ∃ k, 0 < k ∧ k < s.q.size ∧ slot s.q.capacity s.q.base k = i := by
  have hcap := h.capacity
  have hle := h.size
  have hbase := h.base (by omega)
  obtain ⟨n, hn⟩ := Nat.exists_eq_add_one.2 hroom
  show (∃ k < RopQueue.dec s.q.size, slot s.q.capacity (s.q.addIndex s.q.base 1) k = i) ↔ _
  rw [hn, RopQueue.dec_succ,
    show s.q.addIndex s.q.base 1 = slot s.q.capacity s.q.base 1 from
      RopQueue.addIndex_eq (by omega)]
  constructor
  · rintro ⟨k, hk, rfl⟩
    exact ⟨k + 1, k.succ_pos, by omega, (slot_advance hbase (by omega)).symm⟩
  · rintro ⟨k, hpos, hk, rfl⟩
    obtain ⟨k, rfl⟩ := Nat.exists_eq_add_one.2 hpos
    exact ⟨k, by omega, slot_advance hbase (by omega)⟩

theorem Inv.popCritical (h : s.Inv) (hvalid : s.phase tid = .popEnter) (hroom : 0 < s.q.size) :
    (s.next (.popCritical tid)).Inv := by
  have hcap := h.capacity
  have hle := h.size
  have hbase := h.base (by omega)
  have hphase := phase_popCritical hvalid
  have hpending := pending_popCritical hvalid
  have hiff := h.live_popCritical_iff hroom tid
  have hfirst : s.Live s.q.base := ⟨0, hroom, slot_zero hbase⟩
  have hlive : ∀ i, s.Live i ↔ i = s.q.base ∨ (s.next (.popCritical tid)).Live i := by
    intro i
    rw [hiff, Live]
    constructor
    · rintro ⟨k, hk, rfl⟩
      cases k with
      | zero => exact .inl (slot_zero hbase)
      | succ k => exact .inr ⟨k + 1, k.succ_pos, hk, rfl⟩
    · rintro (rfl | ⟨k, -, hk, rfl⟩)
      · exact hfirst
      · exact ⟨k, hk, rfl⟩
  have hrest : ¬(s.next (.popCritical tid)).Live s.q.base := by
    rw [hiff]
    rintro ⟨k, hpos, hk, hslot⟩
    exact slot_ne hpos (by omega) (hslot.trans (slot_zero hbase).symm)
  -- the first item is about to be read instead
  have hsame : ∀ i, (s.next (.popCritical tid)).Live i ∨ (s.next (.popCritical tid)).Pending i ↔
      s.Live i ∨ s.Pending i := by
    intro i
    rw [hpending, hlive, or_assoc, or_left_comm]
  refine ⟨h.capacity, fun _ => ?_, ?_, fun i hi => h.item i ((hsame i).mp hi), fun i x hx => ?_,
    fun i hi => ?_, fun t t' i ht ht' => ?_, h.place, h.data, h.number, h.returned, h.once⟩
  · show s.q.addIndex s.q.base 1 < s.q.capacity
    rw [RopQueue.addIndex_eq (by omega), slot]
    split_ifs <;> omega
  · show RopQueue.dec s.q.size ≤ s.q.capacity
    obtain ⟨n, hn⟩ := Nat.exists_eq_add_one.2 hroom
    rw [hn, RopQueue.dec_succ]
    omega
  · rw [hsame]
    exact h.stale i x hx
  · rw [hpending]
    rintro (rfl | hread)
    · exact hrest hi
    · exact h.apart i ((hlive i).mpr (.inr hi)) hread
  · rw [hphase] at ht ht'
    rcases ht with ⟨rfl, rfl⟩ | ht <;> rcases ht' with ⟨rfl, hi⟩ | ht'
    · rfl
    · exact absurd ⟨t', ht'⟩ (h.apart _ hfirst)
    · subst hi
      exact absurd ⟨t, ht⟩ (h.apart _ hfirst)
    · exact h.reader t t' i ht ht'

/-- The thread has read. -/
theorem Inv.phase_popEnd (h : s.Inv) {oldbase : ℕ} (hvalid : s.phase tid = .popReturn oldbase)
    (t i : ℕ) : (s.next (.popEnd tid oldbase)).phase t = .popReturn i ↔
      s.phase t = .popReturn i ∧ i ≠ oldbase := by
  show Function.update s.phase tid .idle t = _ ↔ _
  rw [Function.update_apply]
  split_ifs with heq
  · subst heq
    rw [hvalid]
    simp [eq_comm]
  · refine (and_iff_left_of_imp fun ht => ?_).symm
    rintro rfl
    exact heq (h.reader t tid i ht hvalid)

theorem Inv.pending_popEnd (h : s.Inv) {oldbase : ℕ} (hvalid : s.phase tid = .popReturn oldbase)
    (i : ℕ) : (s.next (.popEnd tid oldbase)).Pending i ↔ s.Pending i ∧ i ≠ oldbase := by
  rw [Pending, Pending, exists_and_right.symm]
  exact exists_congr fun t => h.phase_popEnd hvalid t i

theorem Inv.popEnd (h : s.Inv) {oldbase : ℕ} (hvalid : s.phase tid = .popReturn oldbase) :
    (s.next (.popEnd tid oldbase)).Inv := by
  obtain ⟨x, hx, hfresh⟩ := h.item oldbase (.inr ⟨tid, hvalid⟩)
  have hreturned : (s.next (.popEnd tid oldbase)).returned = s.returned ++ [x] := by
    show s.returned ++ (s.q.data oldbase).toList = _
    rw [hx]
    rfl
  have hphase := h.phase_popEnd hvalid
  have hpending := h.pending_popEnd hvalid
  refine ⟨h.capacity, h.base, h.size, fun i hi => ?_, fun i y hy => ?_, fun i hi => ?_,
    fun t t' i ht ht' => ?_, h.place, h.data, h.number, ?_, ?_⟩
  · -- the cell that was read is given up
    have hne : i ≠ oldbase := by
      rintro rfl
      rcases hi with hlive | hread
      · exact h.apart i hlive ⟨tid, hvalid⟩
      · exact ((hpending i).mp hread).2 rfl
    obtain ⟨y, hy, hkept⟩ := h.item i (hi.imp_right fun hread => ((hpending i).mp hread).1)
    refine ⟨y, hy, ?_⟩
    rw [hreturned, List.mem_append, List.mem_singleton]
    rintro (hold | rfl)
    · exact hkept hold
    · exact hne (h.place i oldbase y hy hx)
  · rw [hreturned, List.mem_append, List.mem_singleton, hpending]
    rcases h.stale i y hy with hold | hlive | hread
    · exact .inl (.inl hold)
    · exact .inr (.inl hlive)
    · by_cases heq : i = oldbase
      · subst heq
        exact .inl (.inr (Option.some.inj ((show s.q.data i = some y from hy).symm.trans hx)))
      · exact .inr (.inr ⟨hread, heq⟩)
  · rw [hpending]
    exact fun hread => h.apart i hi hread.1
  · exact h.reader t t' i ((hphase t i).mp ht).1 ((hphase t' i).mp ht').1
  · rw [hreturned]
    intro y hy
    rcases List.mem_append.mp hy with hold | hmem
    · exact h.returned hold
    · rw [List.mem_singleton.mp hmem]
      exact h.data oldbase x hx
  · rw [hreturned]
    refine List.nodup_append.mpr ⟨h.once, by simp, fun y hy z hz heq => ?_⟩
    rw [List.mem_singleton.mp hz] at heq
    exact hfresh (heq ▸ hy)

/-- Where there is room, a step keeps the invariant. -/
theorem Inv.step (h : s.Inv) {label : QueueStep α} (hvalid : s.Valid label)
    (hroom : roomy s label) : (s.next label).Inv := by
  cases label with
  | pushTest tid item =>
    rw [next]
    split_ifs
    · exact h
    · exact h.setPhase (by simp [show s.phase tid = .idle from hvalid]) (by simp)
  | pushCritical tid item => exact h.pushCritical hvalid hroom
  | pushEnd tid =>
    obtain ⟨item, hitem⟩ := hvalid
    exact h.setPhase (by simp [hitem]) (by simp)
  | popTest tid =>
    rw [next]
    split_ifs
    · exact h
    · exact h.setPhase (by simp [show s.phase tid = .idle from hvalid]) (by simp)
  | popCritical tid => exact h.popCritical hvalid hroom
  | popEnd tid oldbase => exact h.popEnd hvalid

/-- And it is safe. -/
theorem Inv.safe (h : s.Inv) {label : QueueStep α} (hvalid : s.Valid label)
    (hroom : roomy s label) : QueueSafe s label (s.next label) := by
  have hle := h.size
  have hnext := h.step hvalid hroom
  refine ⟨?_, fun tid item heq => ?_, hnext.returned, hnext.once⟩
  · cases label with
    | pushCritical tid item =>
      have hlt := hroom.1
      rw [newSize]
      omega
    | popCritical tid =>
      have hpos : 0 < s.q.size := hroom
      rw [newSize]
      omega
    | pushTest | pushEnd | popTest | popEnd =>
      -- outside of the critical sections the size stays
      rw [newSize]
      · omega
      all_goals simp
  · subst heq
    exact h.kept hroom

/-- A safe step was taken where there was room. -/
theorem Inv.roomy_of_safe (h : s.Inv) {label : QueueStep α}
    (hsafe : QueueSafe s label (s.next label)) : roomy s label := by
  have hsize := hsafe.size
  cases label with
  | pushCritical tid item =>
    have hkept := hsafe.kept tid item rfl
    rw [newSize] at hsize
    have hcap := h.capacity
    have hbase := h.base (by omega)
    have hsum : s.q.base + s.q.size < 2 ^ 32 := by
      -- the index would wrap around to that of an item in the queue
      by_contra hover
      have hlive : s.Live s.dest := by
        refine ⟨s.q.size - (2 ^ 32 - s.q.capacity), by omega, ?_⟩
        rw [dest, RopQueue.addIndex, slot]
        split_ifs <;> omega
      obtain ⟨x, hx, hfresh⟩ := h.item s.dest (.inl hlive)
      exact hfresh (hkept x hx)
    refine ⟨by omega, hsum, ?_⟩
    rintro t i ht rfl
    obtain ⟨x, hx, hfresh⟩ := h.item s.dest (.inr ⟨t, ht⟩)
    exact hfresh (hkept x hx)
  | popCritical tid =>
    rw [newSize] at hsize
    show 0 < s.q.size
    omega
  | pushTest | pushEnd | popTest | popEnd => trivial

end QueueThreads

/-- In every run of any number of threads, the size stays between 0 and the capacity, no item is
overwritten before it is returned, and every item that is returned was pushed and is returned once,
exactly if every critical section is entered where there is room for it, or an item. -/
theorem queueSafe_iff (w : PvoidSize) (capacity : UInt32) {r : List (QueueStep α × QueueThreads α)}
    (hr : IsRun QueueThreadsStep (.init w capacity) r) :
    Along QueueSafe (.init w capacity) r ↔ Guarded roomy (.init w capacity) r := by
  have hguard : ∀ (s : QueueThreads α) label t, s.Inv → QueueThreadsStep s label t →
      roomy s label → QueueSafe s label t ∧ t.Inv := by
    rintro s label t h ⟨hvalid, rfl⟩ hroom
    exact ⟨h.safe hvalid hroom, h.step hvalid hroom⟩
  have hback : ∀ (s : QueueThreads α) label t, s.Inv → QueueThreadsStep s label t →
      QueueSafe s label t → roomy s label := by
    rintro s label t h ⟨-, rfl⟩ hsafe
    exact h.roomy_of_safe hsafe
  exact along_iff_guarded hguard hback (QueueThreads.inv_init w capacity) hr

/-- Two threads push, and a third one pops while they do. -/
def handoverRun : List (QueueStep ℕ × QueueThreads ℕ) :=
  runOf QueueThreads.next (.init .win32 2)
    [.pushTest 0 7, .pushTest 1 7, .pushCritical 1 7, .popTest 2, .pushCritical 0 7, .popCritical 2,
      .pushEnd 0, .popEnd 2 0]

theorem isRun_handoverRun : IsRun QueueThreadsStep (.init .win32 2) handoverRun :=
  ⟨⟨rfl, rfl⟩, ⟨rfl, rfl⟩, ⟨rfl, rfl⟩, ⟨rfl, rfl⟩, ⟨rfl, rfl⟩, ⟨rfl, rfl⟩, ⟨⟨7, rfl⟩, rfl⟩,
    ⟨rfl, rfl⟩, trivial⟩

theorem queueSafe_handoverRun :
    Along QueueSafe (.init .win32 2) handoverRun ↔ Guarded roomy (.init .win32 2) handoverRun :=
  queueSafe_iff .win32 2 isRun_handoverRun

/-- Two threads push into a queue of one item. -/
theorem not_queueSafe_twoPushes :
    ¬∀ (w : PvoidSize) (capacity : UInt32) (r : List (QueueStep ℕ × QueueThreads ℕ)),
      IsRun QueueThreadsStep (.init w capacity) r → Along QueueSafe (.init w capacity) r := by
  intro h
  obtain ⟨-, -, -, hsecond, -⟩ := h .win32 1 (runOf QueueThreads.next (.init .win32 1)
    [.pushTest 0 7, .pushTest 1 8, .pushCritical 0 7, .pushCritical 1 8])
    ⟨⟨rfl, rfl⟩, ⟨rfl, rfl⟩, ⟨rfl, rfl⟩, ⟨rfl, rfl⟩, trivial⟩
  exact absurd hsecond.size.2 (by decide)

end Gendo.Client
