import Gendo.Library.RingBuffer
import Gendo.Library.StepSystem

/-!
# The queue of the client

`RopQueue` keeps its items in a ring. Its fields are of type `unsigned long`, which has 32 bits in
Windows, and so has the size of the block that the constructor asks `MemAlloc` for: 16 bytes for the
fields and a pointer for each item. For a large capacity this sum overflows, and the block is too
small. `refinesFifo_iff` says that the queue is a bounded list, and keeps to its block, exactly if
the sum does not overflow.

`MemAlloc` is assumed to have given the block, filled with null pointers. A 32-bit process has no
block for capacities near 2 ^ 30, and for a size of zero there is none.
-/

namespace Gendo.Client

open RingBuffer StepSystem

/-- `RopQueue`, where `none` is the null pointer. -/
structure RopQueue (α : Type*) where
  /-- The size of the block. -/
  bytes : ℕ
  base : ℕ
  size : ℕ
  capacity : ℕ
  maxSize : ℕ
  data : ℕ → Option α
  /-- The indices of `data` that were used. -/
  used : List ℕ

/-- `sizeof(PVOID)`, in a process of 32 bits and in one of 64. -/
inductive PvoidSize
  | win32
  | win64
  deriving DecidableEq, Repr

def PvoidSize.toNat : PvoidSize → ℕ
  | .win32 => 4
  | .win64 => 8

/-- `sizeof(Queue)`: four fields, and none of the items. -/
def sizeofQueue : ℕ := 16

/-- `QUEUE_BYTE_ALLOCATION`, as the `ULONG` that `MemAlloc` gets. -/
def queueByteAllocation (w : PvoidSize) (size : UInt32) : ℕ :=
  (sizeofQueue + size.toNat * w.toNat) % 2 ^ 32

namespace RopQueue

variable {α : Type*}

/-- `RopQueue::RopQueue` -/
def new (w : PvoidSize) (capacity : UInt32) : RopQueue α :=
  ⟨queueByteAllocation w capacity, 0, 0, capacity.toNat, 0, fun _ => none, []⟩

/-- The item at the index lies in the block. -/
def InBlock (q : RopQueue α) (w : PvoidSize) (i : ℕ) : Prop :=
  sizeofQueue + (i + 1) * w.toNat ≤ q.bytes

instance (q : RopQueue α) (w : PvoidSize) (i : ℕ) : Decidable (q.InBlock w i) :=
  inferInstanceAs (Decidable (_ ≤ _))

/-- `QUEUE_ADD_INDEX`: the new value of `var`. -/
def addIndex (q : RopQueue α) (var inc : ℕ) : ℕ :=
  let var := (var + inc) % 2 ^ 32
  if var ≥ q.capacity then var - q.capacity else var

/-- `UPDATE_MAX_SIZE` -/
def updateMaxSize (q : RopQueue α) : RopQueue α :=
  { q with maxSize := if q.size > q.maxSize then q.size else q.maxSize }

/-- `++size` -/
def inc (size : ℕ) : ℕ := (size + 1) % 2 ^ 32

/-- `--size` -/
def dec (size : ℕ) : ℕ := if size = 0 then 2 ^ 32 - 1 else size - 1

/-- The critical section of `Push`. -/
def pushCritical (q : RopQueue α) (item : α) : RopQueue α :=
  let dest := q.addIndex q.base q.size
  updateMaxSize { q with
    data := Function.update q.data dest (some item)
    size := inc q.size
    used := q.used ++ [dest] }

/-- `RopQueue::Push` -/
def push (q : RopQueue α) (item : α) : Option α × RopQueue α :=
  if q.size = q.capacity then (none, q) else (some item, q.pushCritical item)

/-- The critical section of `Pop`. -/
def popCritical (q : RopQueue α) : RopQueue α :=
  updateMaxSize { q with base := q.addIndex q.base 1, size := dec q.size }

/-- The end of `Pop`, behind the critical section. -/
def popReturn (q : RopQueue α) (oldbase : ℕ) : Option α × RopQueue α :=
  (q.data oldbase, { q with used := q.used ++ [oldbase] })

/-- `RopQueue::Pop` -/
def pop (q : RopQueue α) : Option α × RopQueue α :=
  if q.size = 0 then (none, q) else q.popCritical.popReturn q.base

variable [DecidableEq α]

/-- The variables of the loop in `Extract`. -/
structure ExtractLoop (α : Type*) where
  q : RopQueue α
  src : ℕ
  dest : ℕ
  n : ℕ

/-- A round of the loop in `Extract`. -/
def extractRound (item : α) (l : ExtractLoop α) : ExtractLoop α :=
  let q := { l.q with used := l.q.used ++ [l.src] }
  if q.data l.src = some item then
    ⟨{ q with size := dec q.size }, q.addIndex l.src 1, l.dest, l.n + 1⟩
  else
    ⟨{ q with data := Function.update q.data l.dest (q.data l.src), used := q.used ++ [l.dest] },
      q.addIndex l.src 1, q.addIndex l.dest 1, l.n⟩

/-- The loop in `Extract`. -/
def extractLoop (item : α) : ℕ → ExtractLoop α → ExtractLoop α
  | 0, l => l
  | count + 1, l => extractLoop item count (extractRound item l)

/-- `RopQueue::Extract` -/
def extract (q : RopQueue α) (item : α) : Option α × RopQueue α :=
  let l := extractLoop item q.size ⟨q, q.base, q.base, 0⟩
  (if l.n ≠ 0 then some item else none, l.q)

/-- `RopQueue::Count` -/
def count (q : RopQueue α) : ℕ := q.size

end RopQueue

/-! ## The list -/

/-- A call, with an item that is not the null pointer. -/
inductive QueueCall (α : Type*)
  | push (item : α)
  | pop
  | extract (item : α)
  | count
  deriving DecidableEq, Repr

/-- What a call returns. -/
inductive QueueRet (α : Type*)
  | pointer (p : Option α)
  | number (n : ℕ)
  deriving DecidableEq, Repr

variable {α : Type*} [DecidableEq α]

namespace RopQueue

/-- The queue answers a call. -/
def call (q : RopQueue α) : QueueCall α → QueueRet α × RopQueue α
  | .push item => (.pointer (q.push item).1, (q.push item).2)
  | .pop => (.pointer q.pop.1, q.pop.2)
  | .extract item => (.pointer (q.extract item).1, (q.extract item).2)
  | .count => (.number q.count, q)

end RopQueue

/-- A list of at most `capacity` items answers a call. -/
def fifoCall (capacity : ℕ) (l : List α) : QueueCall α → QueueRet α × List α
  | .push item =>
    if l.length = capacity then (.pointer none, l) else (.pointer (some item), l ++ [item])
  | .pop => (.pointer l.head?, l.tail)
  | .extract item =>
    (.pointer (if item ∈ l then some item else none), l.filter fun x => x ≠ item)
  | .count => (.number l.length, l)

/-- The queue answers as a list would, and uses only indices that it has, and that lie in its
block. -/
def RefinesFifo (α : Type*) [DecidableEq α] (w : PvoidSize) (capacity : UInt32) : Prop :=
  ∀ calls : List (QueueCall α),
    (answers RopQueue.call (.new w capacity) calls).1 =
        (answers (fifoCall capacity.toNat) [] calls).1 ∧
      ∀ i ∈ (answers RopQueue.call (.new w capacity : RopQueue α) calls).2.used,
        i < capacity.toNat ∧
          (answers RopQueue.call (.new w capacity : RopQueue α) calls).2.InBlock w i

/-! ## Below the overflow -/

namespace RopQueue

theorem inc_of_lt {n : ℕ} (h : n + 1 < 2 ^ 32) : inc n = n + 1 := Nat.mod_eq_of_lt h

@[simp]
theorem dec_succ (n : ℕ) : dec (n + 1) = n := by simp [dec]

omit [DecidableEq α] in
theorem addIndex_eq {q : RopQueue α} {var k : ℕ} (h : var + k < 2 ^ 32) :
    q.addIndex var k = slot q.capacity var k := by
  rw [addIndex, Nat.mod_eq_of_lt h]
  rfl

omit [DecidableEq α] in
/-- The index depends on the capacity alone. -/
theorem addIndex_congr {q q' : RopQueue α} (h : q.capacity = q'.capacity) (var k : ℕ) :
    q.addIndex var k = q'.addIndex var k := by
  rw [addIndex, addIndex, h]

/-- The queue holds the items of a list. -/
structure Holds (q : RopQueue α) (capacity : ℕ) (l : List α) : Prop where
  cap : q.capacity = capacity
  base : 0 < capacity → q.base < capacity
  size : q.size = l.length
  le : l.length ≤ capacity
  cells : cells q.data capacity q.base 0 l.length = l.map some
  used : ∀ i ∈ q.used, i < capacity

section Holds

variable {q : RopQueue α} {capacity : ℕ} {l : List α} {item : α}

omit [DecidableEq α]

theorem holds_new (w : PvoidSize) (capacity : UInt32) :
    (new w capacity : RopQueue α).Holds capacity.toNat [] where
  cap := rfl
  base h := h
  size := rfl
  le := Nat.zero_le _
  cells := rfl
  used _ h := absurd h List.not_mem_nil

/-- An item goes behind the others, and no other index changes. -/
theorem Holds.push (h : q.Holds capacity l) (hcap : capacity < 2 ^ 32) (hlt : l.length < capacity)
    (hsum : q.base + l.length < 2 ^ 32) (item : α) :
    (q.pushCritical item).Holds capacity (l ++ [item]) ∧ (q.pushCritical item).base = q.base := by
  have hbase := h.base (by omega)
  have hdest : q.addIndex q.base q.size = slot capacity q.base l.length := by
    rw [h.size, addIndex_eq hsum, h.cap]
  refine ⟨⟨h.cap, fun _ => hbase, ?_, ?_, ?_, fun i hi => ?_⟩, rfl⟩
  · show inc q.size = _
    rw [h.size, inc_of_lt (by omega), List.length_append, List.length_singleton]
  · rw [List.length_append, List.length_singleton]
    exact hlt
  · show RingBuffer.cells (Function.update q.data (q.addIndex q.base q.size) (some item)) capacity
      q.base 0 _ = _
    rw [hdest, List.length_append, List.length_singleton, cells_push hlt, h.cells, List.map_append]
    rfl
  · rcases List.mem_append.mp hi with hold | hnew
    · exact h.used i hold
    · rw [List.mem_singleton.mp hnew, hdest]
      exact slot_lt hbase hlt

/-- The first item is left behind in its cell. -/
theorem Holds.popCritical (h : q.Holds capacity (item :: l)) (hcap : capacity < 2 ^ 32) :
    q.data q.base = some item ∧ q.base < capacity ∧ q.popCritical.Holds capacity l ∧
      q.popCritical.base = slot capacity q.base 1 := by
  have hle := h.le
  rw [List.length_cons] at hle
  have hbase := h.base (by omega)
  have hnext : q.addIndex q.base 1 = slot capacity q.base 1 := by
    rw [addIndex_eq (by omega), h.cap]
  have hcells := h.cells
  rw [List.length_cons, cells_cons, slot_zero hbase, List.map_cons, Nat.zero_add] at hcells
  obtain ⟨hfirst, hrest⟩ := List.cons.inj hcells
  refine ⟨hfirst, hbase, ⟨h.cap, fun _ => ?_, ?_, by omega, ?_, h.used⟩, hnext⟩
  · show q.addIndex q.base 1 < capacity
    rw [hnext]
    -- with one cell only, the next one is the same
    by_cases hone : 1 < capacity
    · exact slot_lt hbase hone
    · rw [slot]
      split_ifs <;> omega
  · show dec q.size = _
    rw [h.size, List.length_cons, dec_succ]
  · show RingBuffer.cells q.data capacity (q.addIndex q.base 1) 0 _ = _
    rw [hnext, cells_advance hbase (by omega), hrest]

/-- To read a cell changes nothing. -/
theorem Holds.popReturn (h : q.Holds capacity l) {oldbase : ℕ} (hlt : oldbase < capacity) :
    (q.popReturn oldbase).2.Holds capacity l := by
  refine ⟨h.cap, h.base, h.size, h.le, h.cells, fun i hi => ?_⟩
  rcases List.mem_append.mp hi with hold | hnew
  · exact h.used i hold
  · rw [List.mem_singleton.mp hnew]
    exact hlt

/-- The first item is returned. -/
theorem Holds.pop (h : q.Holds capacity (item :: l)) (hcap : capacity < 2 ^ 32) :
    (q.popCritical.popReturn q.base).1 = some item ∧
      (q.popCritical.popReturn q.base).2.Holds capacity l ∧
      (q.popCritical.popReturn q.base).2.base = slot capacity q.base 1 := by
  obtain ⟨hfirst, hbase, hrest, hnext⟩ := h.popCritical hcap
  exact ⟨hfirst, hrest.popReturn hbase, hnext⟩

end Holds

/-- The loop of `Extract`: `dest` is behind the `d` items that are kept so far, and `src` is the
`k`-th cell, from which `items` are still to be looked at. -/
structure Extracting (l : ExtractLoop α) (capacity base d k : ℕ) (kept items : List α) : Prop where
  cap : l.q.capacity = capacity
  first : l.q.base = base
  src : l.src = slot capacity base k
  dest : l.dest = slot capacity base d
  size : l.q.size = d + items.length
  front : cells l.q.data capacity base 0 d = kept.map some
  rest : cells l.q.data capacity base k items.length = items.map some
  used : ∀ i ∈ l.q.used, i < capacity

section Extract

variable {l : ExtractLoop α} {capacity base d k : ℕ} {kept items : List α} {x : α}

/-- A round drops an item that is to be extracted, and moves any other to `dest`. -/
theorem Extracting.round (h : Extracting l capacity base d k kept (x :: items))
    (hcap : capacity < 2 ^ 32) (hbase : base < capacity) (hd : d ≤ k)
    (hk : k + (x :: items).length ≤ capacity) (item : α) :
    if x = item then
      Extracting (extractRound item l) capacity base d (k + 1) kept items ∧
        (extractRound item l).n = l.n + 1
    else Extracting (extractRound item l) capacity base (d + 1) (k + 1) (kept ++ [x]) items ∧
      (extractRound item l).n = l.n := by
  rw [List.length_cons] at hk
  have hsrc := slot_lt hbase (show k < capacity by omega)
  have hdest := slot_lt hbase (show d < capacity by omega)
  have hnext : l.q.addIndex l.src 1 = slot capacity base (k + 1) := by
    rw [h.src, addIndex_eq (by omega), h.cap, slot_slot hbase (by omega)]
  have hrest := h.rest
  rw [List.length_cons, cells_cons, List.map_cons, ← h.src] at hrest
  obtain ⟨hx, hrest⟩ := List.cons.inj hrest
  have hsize := h.size
  rw [List.length_cons] at hsize
  have hused : ∀ i ∈ l.q.used ++ [l.src], i < capacity := by
    intro i hi
    rcases List.mem_append.mp hi with hold | hnew
    · exact h.used i hold
    · rw [List.mem_singleton.mp hnew, h.src]
      exact hsrc
  split_ifs with heq
  · -- `src` goes on, and `dest` stays behind
    rw [extractRound, if_pos (hx.trans (congrArg some heq))]
    refine ⟨⟨h.cap, h.first, (addIndex_congr rfl l.src 1).trans hnext, h.dest, ?_, h.front, hrest,
      hused⟩, rfl⟩
    show dec l.q.size = _
    rw [hsize, ← Nat.add_assoc, dec_succ]
  · -- the item is copied to `dest`, and nothing behind `src` is overwritten
    rw [extractRound, if_neg fun hsame => heq (Option.some.inj (hx.symm.trans hsame))]
    refine ⟨⟨h.cap, h.first, (addIndex_congr rfl l.src 1).trans hnext, ?_, ?_, ?_, ?_,
      fun i hi => ?_⟩, rfl⟩
    · refine (addIndex_congr (show _ = l.q.capacity from rfl) l.dest 1).trans ?_
      rw [h.dest, addIndex_eq (by omega), h.cap, slot_slot hbase (by omega)]
    · show l.q.size = _
      omega
    · show cells (Function.update l.q.data l.dest (l.q.data l.src)) capacity base 0 (d + 1) = _
      rw [h.dest, cells_push (by omega), h.front, hx, List.map_append]
      rfl
    · show cells (Function.update l.q.data l.dest (l.q.data l.src)) capacity base (k + 1) _ = _
      rw [h.dest, cells_update_of_lt (by omega) (by omega), hrest]
    · rcases List.mem_append.mp hi with hold | hnew
      · exact hused i hold
      · rw [List.mem_singleton.mp hnew, h.dest]
        exact hdest

/-- The loop keeps the other items, and counts those that it extracts. -/
theorem Extracting.loop (h : Extracting l capacity base d k kept items)
    (hcap : capacity < 2 ^ 32) (hbase : base < capacity) (hd : d ≤ k)
    (hk : k + items.length ≤ capacity) (item : α) :
    ∃ d' k', Extracting (extractLoop item items.length l) capacity base d' k'
        (kept ++ items.filter fun x => x ≠ item) [] ∧
      ((extractLoop item items.length l).n ≠ 0 ↔ l.n ≠ 0 ∨ item ∈ items) := by
  induction items generalizing l d k kept with
  | nil =>
    refine ⟨d, k, ?_, by simp [extractLoop]⟩
    rw [List.filter_nil, List.append_nil]
    exact h
  | cons x items ih =>
    have hround := h.round hcap hbase hd hk item
    rw [List.length_cons] at hk
    by_cases heq : x = item
    · rw [if_pos heq] at hround
      obtain ⟨d', k', hend, hn⟩ := ih hround.1 (by omega) (by omega)
      refine ⟨d', k', ?_, ?_⟩
      · rwa [List.filter_cons_of_neg (by simpa using heq)]
      · rw [List.length_cons, extractLoop, hn, hround.2]
        simp [heq]
    · rw [if_neg heq] at hround
      obtain ⟨d', k', hend, hn⟩ := ih hround.1 (by omega) (by omega)
      refine ⟨d', k', ?_, ?_⟩
      · rw [List.filter_cons_of_pos (by simpa using heq)]
        rwa [List.append_assoc] at hend
      · rw [List.length_cons, extractLoop, hn, hround.2]
        simp [Ne.symm heq]

end Extract

/-- The other items stay. -/
theorem Holds.extract {q : RopQueue α} {capacity : ℕ} {l : List α}
    (h : q.Holds capacity l) (hcap : capacity < 2 ^ 32) (item : α) :
    (q.extract item).1 = (if item ∈ l then some item else none) ∧
      (q.extract item).2.Holds capacity (l.filter fun x => x ≠ item) := by
  rw [RopQueue.extract, h.size]
  by_cases hzero : 0 < capacity
  · have hbase := h.base hzero
    -- nothing is kept yet, and all items are still to be looked at
    have hstart : Extracting ⟨q, q.base, q.base, 0⟩ capacity q.base 0 0 [] l :=
      ⟨h.cap, rfl, (slot_zero hbase).symm, (slot_zero hbase).symm, by rw [Nat.zero_add, h.size],
        rfl, h.cells, h.used⟩
    obtain ⟨d, k, hend, hn⟩ := hstart.loop hcap hbase (Nat.le_refl 0)
      (by rw [Nat.zero_add]; exact h.le) item
    have hfront := hend.front
    have hlen := congrArg List.length hfront
    rw [length_cells, List.length_map, List.nil_append] at hlen
    refine ⟨?_, ⟨hend.cap, fun _ => ?_, ?_, ?_, ?_, hend.used⟩⟩
    · simp only [hn, ne_eq, not_true_eq_false, false_or]
    · rw [hend.first]
      exact hbase
    · rw [hend.size, List.length_nil, Nat.add_zero, hlen]
    · exact Nat.le_trans (List.length_filter_le _ _) h.le
    · rw [hend.first, ← hlen, hfront, List.nil_append]
  · obtain rfl : l = [] := List.length_eq_zero_iff.mp (by have hle := h.le; omega)
    exact ⟨rfl, h⟩

section Call

variable {q : RopQueue α} {capacity : ℕ} {l : List α} {x : α}

theorem Holds.call_push (h : q.Holds capacity l) (hlt : l.length < capacity) (item : α) :
    q.call (.push item) = (.pointer (some item), q.pushCritical item) := by
  have hroom : ¬q.size = q.capacity := by
    rw [h.size, h.cap]
    exact Nat.ne_of_lt hlt
  rw [RopQueue.call, RopQueue.push, if_neg hroom]

theorem Holds.call_pop (h : q.Holds capacity (x :: l)) :
    q.call .pop = (.pointer (q.popCritical.popReturn q.base).1,
      (q.popCritical.popReturn q.base).2) := by
  have hsome : ¬q.size = 0 := by
    rw [h.size]
    exact Nat.succ_ne_zero _
  rw [RopQueue.call, RopQueue.pop, if_neg hsome]

/-- The queue answers as the list does. -/
theorem Holds.call (h : q.Holds capacity l) (hcap : capacity ≤ 2 ^ 31) (c : QueueCall α) :
    (q.call c).1 = (fifoCall capacity l c).1 ∧
      (q.call c).2.Holds capacity (fifoCall capacity l c).2 := by
  have hmax : capacity < 2 ^ 32 := by omega
  have hle := h.le
  cases c with
  | push item =>
    by_cases hfull : l.length = capacity
    · rw [RopQueue.call, RopQueue.push, fifoCall, h.size, h.cap, if_pos hfull, if_pos hfull]
      exact ⟨rfl, h⟩
    · have hbase := h.base (by omega)
      rw [h.call_push (by omega), fifoCall, if_neg hfull]
      exact ⟨rfl, (h.push hmax (by omega) (by omega) item).1⟩
  | pop =>
    cases l with
    | nil =>
      rw [RopQueue.call, RopQueue.pop, if_pos (show q.size = 0 from h.size)]
      exact ⟨rfl, h⟩
    | cons x l =>
      obtain ⟨hret, hrest, -⟩ := h.pop hmax
      rw [h.call_pop]
      exact ⟨congrArg QueueRet.pointer hret, hrest⟩
  | extract item =>
    obtain ⟨hret, hrest⟩ := h.extract hmax item
    exact ⟨congrArg QueueRet.pointer hret, hrest⟩
  | count => exact ⟨congrArg QueueRet.number h.size, h⟩

end Call

/-! ## The block -/

theorem bytes_extractLoop (item : α) (count : ℕ) (l : ExtractLoop α) :
    (extractLoop item count l).q.bytes = l.q.bytes := by
  induction count generalizing l with
  | zero => rfl
  | succ count ih =>
    rw [extractLoop, ih, extractRound]
    split_ifs
    · rfl
    · rfl

/-- No call gets a new block. -/
theorem bytes_call (q : RopQueue α) (c : QueueCall α) : (q.call c).2.bytes = q.bytes := by
  cases c with
  | push item =>
    rw [RopQueue.call, RopQueue.push]
    split_ifs
    · rfl
    · rfl
  | pop =>
    rw [RopQueue.call, RopQueue.pop]
    split_ifs
    · rfl
    · rfl
  | extract item => exact bytes_extractLoop item _ _
  | count => rfl

theorem bytes_answers (q : RopQueue α) (calls : List (QueueCall α)) :
    (answers call q calls).2.bytes = q.bytes := by
  induction calls generalizing q with
  | nil => rfl
  | cons c calls ih =>
    rw [answers]
    exact (ih _).trans (bytes_call q c)

section Block

variable {w : PvoidSize} {capacity : UInt32}

omit [DecidableEq α] in
/-- Every item lies in a block whose size did not overflow. -/
theorem inBlock_of_lt {q : RopQueue α} (hq : q.bytes = queueByteAllocation w capacity)
    (hfits : sizeofQueue + capacity.toNat * w.toNat < 2 ^ 32) {i : ℕ} (hi : i < capacity.toNat) :
    q.InBlock w i := by
  rw [InBlock, hq, queueByteAllocation, Nat.mod_eq_of_lt hfits]
  exact Nat.add_le_add_left (Nat.mul_le_mul_right _ hi) _

omit [DecidableEq α] in
/-- The last one does not, if it did. -/
theorem not_inBlock_last {q : RopQueue α} (hq : q.bytes = queueByteAllocation w capacity)
    (hover : 2 ^ 32 ≤ sizeofQueue + capacity.toNat * w.toNat) :
    ¬q.InBlock w (capacity.toNat - 1) := by
  have hcap : 0 < capacity.toNat := by
    by_contra hzero
    rw [Nat.eq_zero_of_not_pos hzero, Nat.zero_mul] at hover
    exact absurd hover (by decide)
  -- the size that was meant is 2^32 or more, the one that was asked for is below
  rw [InBlock, hq, queueByteAllocation, Nat.sub_add_cancel hcap, Nat.not_le]
  exact Nat.lt_of_lt_of_le (Nat.mod_lt _ (Nat.two_pow_pos 32)) hover

/-- A history after which the queue holds nothing, and the next item is put at the index. -/
theorem exists_base (w : PvoidSize) (a : α) {n : ℕ} (hn : n < capacity.toNat)
    (hcap : capacity.toNat < 2 ^ 32) :
    ∃ calls, (answers call (new w capacity) calls).2.Holds capacity.toNat ([] : List α) ∧
      (answers call (new w capacity : RopQueue α) calls).2.base = n := by
  induction n with
  | zero => exact ⟨[], holds_new w capacity, rfl⟩
  | succ n ih =>
    obtain ⟨calls, hholds, hbase⟩ := ih (by omega)
    have hroom : ([] : List α).length < capacity.toNat := by
      rw [List.length_nil]
      omega
    -- an item that is pushed and popped moves `base` on
    obtain ⟨hpush, hsame⟩ := hholds.push hcap hroom (by rw [List.length_nil]; omega) a
    obtain ⟨-, hpop, hnext⟩ := hpush.pop hcap
    refine ⟨calls ++ [.push a, .pop], ?_⟩
    rw [answers_append]
    simp only [answers, hholds.call_push hroom, hpush.call_pop]
    refine ⟨hpop, hnext.trans ?_⟩
    rw [hsame, hbase, slot, if_neg (by omega)]

end Block

end RopQueue

/-- The queue is a bounded list that keeps to its block exactly if the size of the block does not
overflow. -/
theorem refinesFifo_iff (w : PvoidSize) (capacity : UInt32) :
    RefinesFifo ℕ w capacity ↔ sizeofQueue + capacity.toNat * w.toNat < 2 ^ 32 := by
  constructor
  · intro h
    by_contra hover
    rw [Nat.not_lt] at hover
    have hlast := RopQueue.not_inBlock_last
      (RopQueue.bytes_answers (.new w capacity : RopQueue ℕ) []) hover
    have hcap : 0 < capacity.toNat := by
      by_contra hzero
      rw [Nat.eq_zero_of_not_pos hzero, Nat.zero_mul] at hover
      exact absurd hover (by decide)
    -- the next item is put at the last index, which is outside
    obtain ⟨calls, hholds, hbase⟩ := RopQueue.exists_base w 0 (Nat.sub_lt hcap Nat.one_pos)
      capacity.toNat_lt
    obtain ⟨-, hused⟩ := h (calls ++ [.push 0])
    rw [answers_append] at hused
    simp only [answers, hholds.call_push hcap] at hused
    have hdest : capacity.toNat - 1 ∈
        ((answers RopQueue.call (.new w capacity) calls).2.pushCritical 0).used := by
      refine List.mem_append_right _ (List.mem_singleton.mpr ?_)
      have hmax := capacity.toNat_lt
      rw [hbase, hholds.size, List.length_nil, RopQueue.addIndex_eq (by omega), hholds.cap,
        RingBuffer.slot_zero (by omega)]
    refine hlast ?_
    have hin := (hused _ hdest).2
    rwa [RopQueue.InBlock, show (RopQueue.pushCritical _ 0).bytes = _ from
      RopQueue.bytes_answers (.new w capacity : RopQueue ℕ) calls] at hin
  · intro hfits calls
    have hcap : capacity.toNat ≤ 2 ^ 31 := by
      have hpos := Nat.mul_le_mul_left capacity.toNat (show 2 ≤ w.toNat by cases w <;> decide)
      omega
    obtain ⟨hanswers, hholds⟩ := answers_eq_of_simulation
      (fun q l c (h : RopQueue.Holds q capacity.toNat l) => h.call hcap c)
      (RopQueue.holds_new (α := ℕ) w capacity) calls
    exact ⟨hanswers, fun i hi => ⟨hholds.used i hi, RopQueue.inBlock_of_lt
      (RopQueue.bytes_answers (.new w capacity : RopQueue ℕ) calls) hfits (hholds.used i hi)⟩⟩

/-- In a process of 32 bits the block for 2 ^ 30 items has no room for any. -/
theorem not_refinesFifo_large : ¬∀ w capacity, RefinesFifo ℕ w capacity := by
  intro h
  obtain ⟨-, hused⟩ := h .win32 (2 ^ 30) [.push 7]
  exact absurd (hused 0 (by decide)).2 (by decide)

end Gendo.Client
