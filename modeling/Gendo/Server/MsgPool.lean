import Mathlib.Data.List.Basic

/-!
# Message pools

The pool of `lib-msgpool.c`: a counted, circular list of message items behind one lock. The same
structure is used in two ways, told apart by its type: as the queue between the event loop and
the message consumer, and as a cache of items to be filled. Every function below is one critical
section of the lock (`msg_pool_consumer` has two, before and after its wait) and works on the
state of the pool alone; `α` is what a message item is to the caller.

The list is modelled together with the two ways in which its head can fail to name an item: an
empty list's head points to itself, and a head that was never initialised, or that was itself
deleted from the list, holds NULL.
-/

namespace Gendo

/-- `MSG_POOL_DEFAULT_COUNT`. -/
def MSG_POOL_DEFAULT_COUNT : UInt32 := 10000

/-- `MSG_POOL_MAX_COUNT`. -/
def MSG_POOL_MAX_COUNT : UInt32 := 100000

/-- `MSG_POOL_DEFAULT_PAYLOAD_LEN`. -/
def MSG_POOL_DEFAULT_PAYLOAD_LEN : UInt32 := 1024

/-- `MSG_POOL_TYPE_E`. A pool in cleared memory that was never initialised has neither type. -/
inductive MsgPoolType
  | unset
  | consumerProducer
  | cache
  deriving DecidableEq, Repr

/-- `msg_list` with its head. -/
inductive MsgList (α : Type*)
  /-- A circular list through the head, which holds these items, first one first. -/
  | linked (items : List α)
  /-- A head whose `next` and `prev` are NULL. -/
  | cleared
  deriving DecidableEq, Repr

/-- The items of a list, if it has any. -/
def MsgList.items {α : Type*} : MsgList α → List α
  | .linked items => items
  | .cleared => []

/-- What a list node pointer points to. -/
inductive ListNode (α : Type*)
  /-- The node of a message item. -/
  | item (x : α)
  /-- The list head inside the pool, which is no message item. -/
  | head
  /-- NULL. -/
  | null
  deriving DecidableEq, Repr

/-- `msg_pool_t`, without the lock and the condition variable. -/
structure MsgPool (α : Type*) where
  type : MsgPoolType
  limit : UInt32
  count : UInt32
  msgPayloadLen : UInt32
  msgList : MsgList α
  deriving DecidableEq, Repr

namespace MsgPool

variable {α : Type*}

/-- A pool in memory cleared by `mem_malloc`. -/
def zeroed : MsgPool α := ⟨.unset, 0, 0, 0, .cleared⟩

/-- The blocks that the loop of `msg_pool_init` allocates and adds at the head of the list, or
`none` when `mem_malloc` fails: `alloc i` is the answer to its `i`-th call. -/
def allocItems (alloc : ℕ → Option α) : ℕ → Option (List α)
  | 0 => some []
  | n + 1 =>
    match allocItems alloc n with
    | none => none
    | some items => (alloc n).map (· :: items)

/-- `err_out` of `msg_pool_init`: every item of the list is freed. A cleared head makes the loop
read through NULL, which is `none` here. -/
def initFail (mp : MsgPool α) : MsgList α → Option (Bool × MsgPool α)
  | .linked _ => some (false, { mp with msgList := .linked [], count := 0 })
  | .cleared => none

/-- `msg_pool_init`: the flag says whether it returned `OK`. `alloc len i` answers the `i`-th
`mem_malloc` of an item with `len` bytes of payload; `lockOk` and `condOk` are the outcomes of
initialising the lock and the condition variable. -/
def msgPoolInit (mp : MsgPool α) (type : MsgPoolType) (count len : UInt32)
    (alloc : UInt32 → ℕ → Option α) (lockOk condOk : Bool) : Option (Bool × MsgPool α) :=
  let count := if type = .cache ∧ count = 0 then MSG_POOL_DEFAULT_COUNT else count
  let len := if type = .cache ∧ len = 0 then MSG_POOL_DEFAULT_PAYLOAD_LEN else len
  if count > MSG_POOL_MAX_COUNT then initFail mp mp.msgList
  else
    match allocItems (alloc len) count.toNat with
    | none => initFail mp (.linked [])
    | some items =>
      if lockOk && condOk then some (true, ⟨type, count, count, len, .linked items⟩)
      else initFail mp (.linked [])

/-- The node behind the head, taken out of the list, as `msg_pool_consumer` and `msg_pool_get`
do it: the node is read from `next`, tested for NULL, deleted from the list and counted off.
Deleting the head of an empty list from itself clears the head. -/
def takeFirst (mp : MsgPool α) : ListNode α × MsgPool α :=
  match mp.msgList with
  | .linked (x :: items) =>
    (.item x, { mp with msgList := .linked items, count := mp.count - 1 })
  | .linked [] => (.head, { mp with msgList := .cleared, count := mp.count - 1 })
  | .cleared => (.null, mp)

/-- `msg_pool_consumer` up to its wait: `none` when the caller goes to sleep on the condition
variable, otherwise the returned node. -/
def msgPoolConsumer (mp : MsgPool α) : Option (ListNode α × MsgPool α) :=
  if mp.type ≠ .consumerProducer then some (.null, mp)
  else if mp.count = 0 then none
  else some mp.takeFirst

/-- `msg_pool_producer`: the flag says whether the condition variable is signalled. A cleared
head makes `lib_list_add_tail` write through NULL, which is `none` here. -/
def msgPoolProducer (mp : MsgPool α) (pmsg : α) : Option (Bool × MsgPool α) :=
  if mp.type ≠ .consumerProducer then some (false, mp)
  else
    match mp.msgList with
    | .cleared => none
    | .linked items =>
      let count := mp.count + 1
      some (count == 1, { mp with msgList := .linked (items ++ [pmsg]), count := count })

/-- `msg_pool_get`; `fresh len` is the item with `len` bytes of payload that `mem_malloc` would
return, `none` when it fails. -/
def msgPoolGet (mp : MsgPool α) (msgPayloadLen : UInt32) (fresh : UInt32 → Option α) :
    ListNode α × MsgPool α :=
  if mp.type ≠ .cache then (.null, mp)
  else if mp.msgPayloadLen ≥ msgPayloadLen ∧ mp.count > 0 then mp.takeFirst
  else if mp.limit ≥ MSG_POOL_MAX_COUNT then (.null, mp)
  else
    match fresh msgPayloadLen with
    | none => (.null, mp)
    | some pmsg => (.item pmsg, { mp with limit := mp.limit + 1 })

/-- `msg_pool_put`: `none` where `lib_list_add` writes through a cleared head. -/
def msgPoolPut (mp : MsgPool α) (pmsg : α) : Option (MsgPool α) :=
  if mp.type ≠ .cache then some mp
  else
    match mp.msgList with
    | .cleared => none
    | .linked items =>
      some { mp with msgList := .linked (pmsg :: items), count := mp.count + 1 }

/-- The pool as `msg_pool_init` leaves it for the queue between producers and consumers. -/
def emptyQueue : MsgPool α := ⟨.consumerProducer, 0, 0, 0, .linked []⟩

theorem msgPoolInit_consumerProducer (mp : MsgPool α) (alloc : UInt32 → ℕ → Option α) :
    mp.msgPoolInit .consumerProducer 0 0 alloc true true = some (true, emptyQueue) := by
  simp [msgPoolInit, allocItems, emptyQueue, MSG_POOL_MAX_COUNT]

/-- Every item of a fresh pool is an answer of the allocator, and there are as many as asked
for. -/
theorem allocItems_spec {alloc : ℕ → Option α} {n : ℕ} {items : List α}
    (h : allocItems alloc n = some items) :
    items.length = n ∧ ∀ x ∈ items, ∃ i, alloc i = some x := by
  induction n generalizing items with
  | zero =>
    obtain rfl := Option.some.inj h
    simp
  | succ n ih =>
    rw [allocItems] at h
    split at h
    · cases h
    · next items' hrec =>
      obtain ⟨x, hx, rfl⟩ := Option.map_eq_some_iff.mp h
      obtain ⟨hlen, hmem⟩ := ih hrec
      exact ⟨by rw [List.length_cons, hlen], List.forall_mem_cons.mpr ⟨⟨n, hx⟩, hmem⟩⟩

/-- What `msg_pool_init` leaves in cleared memory: a full cache, or a pool without a type. -/
theorem msgPoolInit_cache {mp mp' : MsgPool α} {count len : UInt32}
    {alloc : UInt32 → ℕ → Option α} {lockOk condOk ok : Bool} (hcount : count ≠ 0) (hlen : len ≠ 0)
    (h : mp.msgPoolInit .cache count len alloc lockOk condOk = some (ok, mp')) :
    (ok = true ∧ count ≤ MSG_POOL_MAX_COUNT ∧ ∃ items,
      allocItems (alloc len) count.toNat = some items ∧
        mp' = ⟨.cache, count, count, len, .linked items⟩) ∨
    (ok = false ∧ mp' = { mp with msgList := .linked [], count := 0 }) := by
  have hfail : ∀ {list : MsgList α}, initFail mp list = some (ok, mp') →
      ok = false ∧ mp' = { mp with msgList := .linked [], count := 0 } := by
    intro list hinit
    cases list with
    | linked _ =>
      rw [initFail, Option.some.injEq, Prod.mk.injEq] at hinit
      exact ⟨hinit.1.symm, hinit.2.symm⟩
    | cleared => cases hinit
  simp only [msgPoolInit, hcount, hlen, and_false, if_false] at h
  split at h
  · exact .inr (hfail h)
  · next hmax =>
    split at h
    · exact .inr (hfail h)
    · next items halloc =>
      split at h
      · rw [Option.some.injEq, Prod.mk.injEq] at h
        exact .inl ⟨h.1.symm, UInt32.not_lt.mp hmax, items, halloc, h.2.symm⟩
      · exact .inr (hfail h)

/-- A pool that was initialised has its type, and as many fresh items as it counts; a queue has as
many as was asked for. -/
theorem msgPoolInit_ok {mp mp' : MsgPool α} {type : MsgPoolType} {count len : UInt32}
    {alloc : UInt32 → ℕ → Option α} {lockOk condOk : Bool}
    (h : mp.msgPoolInit type count len alloc lockOk condOk = some (true, mp')) :
    mp'.type = type ∧ mp'.limit = mp'.count ∧ mp'.count ≤ MSG_POOL_MAX_COUNT ∧
      (type ≠ .cache → mp'.count = count) ∧
      ∃ items, allocItems (alloc mp'.msgPayloadLen) mp'.count.toNat = some items ∧
        mp'.msgList = .linked items := by
  have hfail : ∀ {list : MsgList α}, initFail mp list ≠ some (true, mp') := by
    intro list hinit
    cases list with
    | linked _ => simp [initFail] at hinit
    | cleared => cases hinit
  unfold msgPoolInit at h
  extract_lets asked len' at h
  have hasked : type ≠ .cache → asked = count := fun hne => if_neg fun hh => hne hh.1
  clear_value asked len'
  split at h
  · exact absurd h hfail
  · next hmax =>
    split at h
    · exact absurd h hfail
    · next items halloc =>
      split at h
      · rw [Option.some.injEq, Prod.mk.injEq] at h
        obtain ⟨-, rfl⟩ := h
        exact ⟨rfl, rfl, UInt32.not_lt.mp hmax, hasked, items, halloc, rfl⟩
      · exact absurd h hfail

/-- A node taken from a list that holds an item is the first item. -/
theorem takeFirst_linked {mp : MsgPool α} {x : α} {items : List α}
    (h : mp.msgList = .linked (x :: items)) :
    mp.takeFirst = (.item x, { mp with msgList := .linked items, count := mp.count - 1 }) := by
  rw [takeFirst, h]

/-- A counter that goes up does not wrap below its maximum. -/
theorem toNat_add_one {n : UInt32} (h : n.toNat + 1 < UInt32.size) :
    (n + 1).toNat = n.toNat + 1 := by
  rw [UInt32.toNat_add]
  exact Nat.mod_eq_of_lt (by simpa using h)

/-- The pool's list is linked, holds these items, and they are counted. -/
structure Holds (mp : MsgPool α) (items : List α) : Prop where
  linked : mp.msgList = .linked items
  count : mp.count.toNat = items.length

namespace Holds

variable {mp mp' : MsgPool α} {items : List α} {x : α}

/-- A pool that counts something hands out its first item. -/
theorem take (h : mp.Holds items) (hcount : mp.count ≠ 0) : ∃ x rest, items = x :: rest ∧
    mp.takeFirst = (.item x, { mp with msgList := .linked rest, count := mp.count - 1 }) ∧
    Holds { mp with msgList := .linked rest, count := mp.count - 1 } rest := by
  obtain ⟨hlinked, hlen⟩ := h
  cases items with
  | nil => exact absurd (UInt32.toNat_inj.mp (by simpa using hlen)) hcount
  | cons x rest =>
    refine ⟨x, rest, rfl, takeFirst_linked hlinked, rfl, ?_⟩
    have hle : (1 : UInt32) ≤ mp.count := by
      rw [UInt32.le_iff_toNat_le, hlen, List.length_cons]
      exact Nat.le_add_left 1 rest.length
    show (mp.count - 1).toNat = rest.length
    rw [UInt32.toNat_sub_of_le _ _ hle, hlen]
    rfl

/-- One more item is counted, as long as the count does not wrap. -/
theorem count_succ (h : mp.Holds items) (hlt : items.length + 1 < UInt32.size) :
    (mp.count + 1).toNat = items.length + 1 := by
  rw [← h.count] at hlt ⊢
  exact toNat_add_one hlt

/-- An item that is queued is the last one. -/
theorem produce (h : mp.Holds items) (hlt : items.length + 1 < UInt32.size) {signal : Bool}
    (hmp : mp.msgPoolProducer x = some (signal, mp')) (htype : mp.type = .consumerProducer) :
    mp'.type = .consumerProducer ∧ Holds mp' (items ++ [x]) := by
  rw [msgPoolProducer, h.linked, if_neg (by simp [htype])] at hmp
  obtain ⟨-, rfl⟩ := Prod.mk.inj (Option.some.inj hmp)
  refine ⟨htype, rfl, ?_⟩
  rw [List.length_append]
  exact h.count_succ hlt

/-- An item that is given back is the first one. -/
theorem put (h : mp.Holds items) (hlt : items.length + 1 < UInt32.size)
    (hmp : mp.msgPoolPut x = some mp') (htype : mp.type = .cache) :
    mp'.type = .cache ∧ mp'.limit = mp.limit ∧ Holds mp' (x :: items) := by
  rw [msgPoolPut, h.linked, if_neg (by simp [htype])] at hmp
  obtain rfl := Option.some.inj hmp
  refine ⟨htype, rfl, rfl, ?_⟩
  rw [List.length_cons]
  exact h.count_succ hlt

end Holds

/-- A node taken from an empty list is the list head, and taking it clears the head. -/
theorem takeFirst_nil {mp : MsgPool α} (h : mp.msgList = .linked []) :
    mp.takeFirst = (.head, { mp with msgList := .cleared, count := mp.count - 1 }) := by
  rw [takeFirst, h]

/-- Producing on a linked list adds the item at the tail. -/
theorem msgPoolProducer_linked {mp : MsgPool α} {items : List α} (x : α)
    (htype : mp.type = .consumerProducer) (h : mp.msgList = .linked items) :
    mp.msgPoolProducer x = some (mp.count + 1 == 1,
      { mp with msgList := .linked (items ++ [x]), count := mp.count + 1 }) := by
  rw [msgPoolProducer, h]
  simp [htype]

/-- A consumer goes to sleep only on a count of zero, and otherwise takes the first node. -/
theorem msgPoolConsumer_eq {mp : MsgPool α} (htype : mp.type = .consumerProducer) :
    mp.msgPoolConsumer = if mp.count = 0 then none else some mp.takeFirst := by
  simp [msgPoolConsumer, htype]

/-- A cache that is not empty hands out its first node, if its items are large enough. -/
theorem msgPoolGet_of_pos {mp : MsgPool α} {len : UInt32} (fresh : UInt32 → Option α)
    (htype : mp.type = .cache) (hlen : len ≤ mp.msgPayloadLen) (hcount : mp.count ≠ 0) :
    mp.msgPoolGet len fresh = mp.takeFirst := by
  have hpos : mp.count > 0 := UInt32.pos_iff_ne_zero.mpr hcount
  simp [msgPoolGet, htype, hlen, hpos]

/-- An empty cache hands out a fresh item within its limit, and otherwise nothing. -/
theorem msgPoolGet_of_eq_zero {mp : MsgPool α} (len : UInt32) (fresh : UInt32 → Option α)
    (htype : mp.type = .cache) (hcount : mp.count = 0) :
    mp.msgPoolGet len fresh =
      match fresh len with
      | some pmsg =>
        if mp.limit < MSG_POOL_MAX_COUNT then (.item pmsg, { mp with limit := mp.limit + 1 })
        else (.null, mp)
      | none => (.null, mp) := by
  by_cases hlimit : mp.limit < MSG_POOL_MAX_COUNT
  · cases hfresh : fresh len <;> simp [msgPoolGet, htype, hcount, hlimit, hfresh]
  · cases hfresh : fresh len <;> simp [msgPoolGet, htype, hcount, hlimit, hfresh]

/-- A pool of the other type hands out nothing. -/
theorem msgPoolGet_of_ne {mp : MsgPool α} (len : UInt32) (fresh : UInt32 → Option α)
    (htype : mp.type ≠ .cache) : mp.msgPoolGet len fresh = (.null, mp) := by
  simp [msgPoolGet, htype]

end MsgPool

end Gendo
