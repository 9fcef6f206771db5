import Gendo.Library.StepSystem
import Gendo.Server.MsgPool
import Mathlib.Data.List.Perm.Basic
import Mathlib.Data.UInt

/-!
# The capacity of cached message items

A cache pool chooses between an item of its list and a fresh one by its own payload length alone.
`msg_pool_get` is asked for any length, though: a short request that finds the list empty makes a
short item, which `msg_pool_put` adds to the same list. An item is named here by what it was
allocated for, so that a condition can speak of it; how large it then is depends on `mem_malloc`,
whose size is an `int`.

`servesLength_iff` says which runs hand out a large enough item for every request. The caller in
`lib-msg-consumer.c` asks for the pool's own length only, and `guarded_of_asksFor` says that
it is safe.
-/

namespace Gendo

open StepSystem

/-- `sizeof(msg_item_t)`. -/
def MSG_ITEM_LEN : ℤ := 32

/-- `sizeof(struct mem_struct)`. -/
def MEM_STRUCT_LEN : ℤ := 288

/-- What `lib_mem_malloc` asks `malloc` for, where `memOn` is the switch of the memory tool. -/
def mallocLen (memOn : Bool) (size : Int32) : Int32 :=
  if memOn then .ofInt (MEM_STRUCT_LEN + size.toInt + 4) else size

/-- Whether `lib_mem_malloc` returns a block: `gives` is what `malloc` answers to a size that is
not negative. A negative one is taken for more than half of the address space. -/
def libMemMalloc (memOn gives : Bool) (size : Int32) : Bool :=
  decide (0 ≤ (mallocLen memOn size).toInt) && gives

/-- A message item, by what it was allocated for. -/
inductive PoolBlock
  /-- An item of `msg_pool_init`. -/
  | initial (len : UInt32)
  /-- An item that `msg_pool_get` allocated. -/
  | requested (len : Int32)
  deriving DecidableEq, Repr

namespace PoolBlock

/-- The argument of `mem_malloc`. -/
def size : PoolBlock → Int32
  | initial len => .ofInt (MSG_ITEM_LEN + len.toNat)
  | requested len => .ofInt (MSG_ITEM_LEN + len.toInt)

/-- The payload capacity of the block: what it has behind the item. -/
def capacity (x : PoolBlock) : ℤ := x.size.toInt - MSG_ITEM_LEN

/-- The block, if `mem_malloc` returns one. -/
def alloc (memOn gives : Bool) (x : PoolBlock) : Option PoolBlock :=
  if libMemMalloc memOn gives x.size then some x else none

/-- The block was allocated for this length at least. The size of an item of `msg_pool_init` that
does not fit an `int` comes out as less than nothing. -/
def Serves (x : PoolBlock) (len : Int32) : Prop :=
  match x with
  | initial l => l.toNat + MSG_ITEM_LEN < 2 ^ 31 ∨ len.toInt ≤ l.toNat - 2 ^ 32
  | requested l => len.toInt ≤ l.toInt

instance (x : PoolBlock) (len : Int32) : Decidable (x.Serves len) :=
  match x with
  | initial _ => inferInstanceAs (Decidable (_ ∨ _))
  | requested _ => inferInstanceAs (Decidable (_ ≤ _))

end PoolBlock

/-- A cache pool, and the items that its callers hold. -/
structure BlockState where
  pool : MsgPool PoolBlock
  out : List PoolBlock

/-- A call of one of the cache functions. -/
inductive BlockCall
  /-- `msg_pool_get`, with the answer of `malloc`. -/
  | get (len : Int32) (gives : Bool)
  | put (x : PoolBlock)
  deriving Repr

/-- `msg_pool_get` for a length of type `int`. -/
def msgPoolGetInt (memOn : Bool) (pool : MsgPool PoolBlock) (len : Int32) (gives : Bool) :
    ListNode PoolBlock × MsgPool PoolBlock :=
  pool.msgPoolGet len.toUInt32 fun _ => (PoolBlock.requested len).alloc memOn gives

/-- The items that a caller holds after it was given a node. -/
def ListNode.handTo : ListNode PoolBlock → List PoolBlock → List PoolBlock
  | item x, out => x :: out
  | head, out | null, out => out

/-- The calls, in any order: an item is put back by a caller that holds it. -/
inductive BlockStep (memOn : Bool) : BlockState → BlockCall → BlockState → Prop
  | get {s : BlockState} {len : Int32} {gives : Bool} {node : ListNode PoolBlock}
      {pool : MsgPool PoolBlock} (hget : msgPoolGetInt memOn s.pool len gives = (node, pool)) :
      BlockStep memOn s (.get len gives) ⟨pool, node.handTo s.out⟩
  | put {s : BlockState} {x : PoolBlock} {pool : MsgPool PoolBlock} (hx : x ∈ s.out)
      (hput : s.pool.msgPoolPut x = some pool) :
      BlockStep memOn s (.put x) ⟨pool, s.out.erase x⟩

/-- The node is NULL, or an item with room for the payload. -/
def ListNode.HasRoom (len : Int32) : ListNode PoolBlock → Prop
  | item x => len.toInt ≤ x.capacity
  | head => False
  | null => True

instance (len : Int32) : (node : ListNode PoolBlock) → Decidable (node.HasRoom len)
  | .item _ => inferInstanceAs (Decidable (_ ≤ _))
  | .head => isFalse id
  | .null => isTrue trivial

/-- What `msg_pool_get` returns has room for the payload. -/
def ServesLength (memOn : Bool) (s : BlockState) : BlockCall → BlockState → Prop
  | .get len gives, _ => (msgPoolGetInt memOn s.pool len gives).1.HasRoom len
  | .put _, _ => True

instance (memOn : Bool) (s : BlockState) :
    (call : BlockCall) → (t : BlockState) → Decidable (ServesLength memOn s call t)
  | .get _ _, _ => inferInstanceAs (Decidable (ListNode.HasRoom _ _))
  | .put _, _ => isTrue trivial

/-- A request that the pool serves from its list finds an item there first that was allocated for
as much. -/
def BlockCall.guard (s : BlockState) : BlockCall → Prop
  | get len _ => len.toUInt32 ≤ s.pool.msgPayloadLen →
      ∀ x ∈ s.pool.msgList.items.head?, x.Serves len
  | put _ => True

instance (s : BlockState) : (call : BlockCall) → Decidable (call.guard s)
  | .get _ _ => inferInstanceAs (Decidable (_ → ∀ x ∈ _, _))
  | .put _ => isTrue trivial

/-- A pool that `msg_pool_init` sets up as a cache. -/
def BlockInit (memOn : Bool) (count len : UInt32) (s : BlockState) : Prop :=
  s.out = [] ∧ ∃ (mp : MsgPool PoolBlock) (gives : ℕ → Bool) (lockOk condOk : Bool),
    mp.msgPoolInit .cache count len (fun len i => (PoolBlock.initial len).alloc memOn (gives i))
      lockOk condOk = some (true, s.pool)

/-! ## Capacities -/

/-- An `int` is no more than the same bits without sign. -/
theorem toInt_le_toNat_toUInt32 (len : Int32) : len.toInt ≤ len.toUInt32.toNat := by
  show len.toBitVec.toInt ≤ (len.toBitVec.toNat : ℤ)
  rw [BitVec.toInt_eq_toNat_cond]
  split_ifs <;> omega

namespace PoolBlock

variable {memOn gives : Bool}

theorem alloc_eq_some {x y : PoolBlock} (h : x.alloc memOn gives = some y) :
    y = x ∧ libMemMalloc memOn gives x.size = true := by
  rw [alloc] at h
  split_ifs at h with hgives
  exact ⟨(Option.some.inj h).symm, hgives⟩

/-- A block is only given for a size that is not negative, or that the memory tool's own part
makes up for. -/
theorem size_of_libMemMalloc {size : Int32} (h : libMemMalloc memOn gives size = true) :
    -(MEM_STRUCT_LEN + 4) ≤ size.toInt := by
  have hlo := size.le_toInt
  have hhi := size.toInt_lt
  simp only [libMemMalloc, MEM_STRUCT_LEN, Bool.and_eq_true, decide_eq_true_eq] at h ⊢
  obtain ⟨hlen, -⟩ := h
  by_contra hlt
  cases memOn with
  | false =>
    rw [mallocLen, if_neg Bool.false_ne_true] at hlen
    omega
  | true =>
    rw [mallocLen, if_pos rfl, MEM_STRUCT_LEN,
      Int32.toInt_ofInt_of_le (by omega) (by omega)] at hlen
    omega

/-- An item that `msg_pool_get` allocates has the capacity that was asked for. -/
theorem capacity_requested {len : Int32}
    (h : libMemMalloc memOn gives (requested len).size = true) :
    (requested len).capacity = len.toInt := by
  have hlo := len.le_toInt
  have hhi := len.toInt_lt
  have hsize := size_of_libMemMalloc h
  rw [capacity]
  simp only [size, MSG_ITEM_LEN, MEM_STRUCT_LEN] at hsize ⊢
  rcases Int.lt_or_le (32 + len.toInt) (2 ^ 31) with hlt | hge
  · rw [Int32.toInt_ofInt_of_le (by omega) hlt]
    omega
  · -- the sum does not fit, and what it becomes is too far below zero
    have hsum : (Int32.ofInt (32 + len.toInt)).toInt = 32 + len.toInt - 2 ^ 32 := by
      rw [Int32.toInt_ofInt, Int.bmod_def, Int32.size]
      omega
    omega

/-- An item of `msg_pool_init` has the capacity that was asked for if its size fits an `int`. -/
theorem capacity_initial (len : UInt32) :
    (initial len).capacity =
      if len.toNat + MSG_ITEM_LEN < 2 ^ 31 then (len.toNat : ℤ) else len.toNat - 2 ^ 32 := by
  have hlen := len.toNat_lt
  rw [capacity]
  simp only [size, MSG_ITEM_LEN]
  rw [Int32.toInt_ofInt, Int.bmod_def, Int32.size]
  split_ifs <;> omega

end PoolBlock

/-! ## The run -/

/-- The cache is linked and counted, every item is in the list or held by a caller, and an item
is either one of `msg_pool_init`, allocated for the pool's own length, or one that was asked
for. -/
structure BlocksOk (memOn : Bool) (s : BlockState) (items : List PoolBlock) : Prop where
  type : s.pool.type = .cache
  holds : s.pool.Holds items
  limit : s.pool.limit.toNat = items.length + s.out.length
  limit_le : s.pool.limit ≤ MSG_POOL_MAX_COUNT
  initial : ∀ len, .initial len ∈ items ++ s.out → len = s.pool.msgPayloadLen
  requested : ∀ len, .requested len ∈ items ++ s.out →
    (PoolBlock.requested len).capacity = len.toInt

/-- An item that goes from its caller to the list stays one of the items. -/
theorem perm_put {items out : List PoolBlock} {x : PoolBlock} (hx : x ∈ out) :
    ((x :: items) ++ out.erase x).Perm (items ++ out) :=
  List.perm_middle.symm.trans ((List.perm_cons_erase hx).symm.append_left items)

namespace BlocksOk

variable {memOn gives : Bool} {s : BlockState} {items : List PoolBlock} {len : Int32}

/-- An item of the cache serves a request that it may be handed out for exactly if it was
allocated for as much. -/
theorem capacity_iff (h : BlocksOk memOn s items) (hlen : len.toUInt32 ≤ s.pool.msgPayloadLen)
    {x : PoolBlock} (hx : x ∈ items) : len.toInt ≤ x.capacity ↔ x.Serves len := by
  have hmem : x ∈ items ++ s.out := List.mem_append_left _ hx
  cases x with
  | requested l => rw [h.requested l hmem, PoolBlock.Serves]
  | initial l =>
    obtain rfl := h.initial l hmem
    have hle := UInt32.le_iff_toNat_le.mp hlen
    have hint := toInt_le_toNat_toUInt32 len
    rw [PoolBlock.capacity_initial, PoolBlock.Serves]
    split_ifs with hsmall
    · -- the request was compared with the very length of the item
      exact ⟨fun _ => .inl hsmall, fun _ => by omega⟩
    · rw [or_iff_right hsmall]

/-- What `msg_pool_get` does: it hands out the first item of the list, or an item that it has
allocated, or nothing. -/
theorem get_cases (h : BlocksOk memOn s items) (len : Int32) (gives : Bool) :
    (len.toUInt32 ≤ s.pool.msgPayloadLen ∧ ∃ x rest pool, items = x :: rest ∧
      msgPoolGetInt memOn s.pool len gives = (.item x, pool) ∧
      BlocksOk memOn ⟨pool, x :: s.out⟩ rest) ∨
    (¬ (len.toUInt32 ≤ s.pool.msgPayloadLen ∧ items ≠ []) ∧
      ((∃ pool, msgPoolGetInt memOn s.pool len gives = (.item (.requested len), pool) ∧
        (PoolBlock.requested len).capacity = len.toInt ∧
        BlocksOk memOn ⟨pool, .requested len :: s.out⟩ items) ∨
      msgPoolGetInt memOn s.pool len gives = (.null, s.pool))) := by
  have hcount : s.pool.count > 0 ↔ items ≠ [] := by
    rw [gt_iff_lt, UInt32.pos_iff_ne_zero, ne_eq, ← UInt32.toNat_inj, h.holds.count]
    exact List.length_eq_zero_iff.not
  by_cases hreuse : len.toUInt32 ≤ s.pool.msgPayloadLen ∧ items ≠ []
  · -- the first item is taken, whatever it was allocated for
    refine .inl ⟨hreuse.1, ?_⟩
    have hne : s.pool.count ≠ 0 := UInt32.pos_iff_ne_zero.mp (hcount.mpr hreuse.2)
    obtain ⟨x, rest, rfl, htake, hholds⟩ := h.holds.take hne
    refine ⟨x, rest, _, rfl, (MsgPool.msgPoolGet_of_pos _ h.type hreuse.1 hne).trans htake,
      ⟨h.type, hholds, ?_, h.limit_le, ?_, ?_⟩⟩
    · have hlimit := h.limit
      simp only [List.length_cons] at hlimit ⊢
      omega
    · intro l hl
      exact h.initial l (List.perm_middle.mem_iff.mp hl)
    · intro l hl
      exact h.requested l (List.perm_middle.mem_iff.mp hl)
  · -- a new one is allocated for this length, below the limit
    refine .inr ⟨hreuse, ?_⟩
    rw [← hcount] at hreuse
    rw [msgPoolGetInt, MsgPool.msgPoolGet, if_neg (by simp [h.type]), if_neg hreuse]
    split_ifs with hlimit
    · exact .inr rfl
    rcases hfresh : (PoolBlock.requested len).alloc memOn gives with _ | x
    · exact .inr rfl
    obtain ⟨rfl, hmalloc⟩ := PoolBlock.alloc_eq_some hfresh
    have hcap := PoolBlock.capacity_requested hmalloc
    refine .inl ⟨_, rfl, hcap, ⟨h.type, ⟨h.holds.linked, h.holds.count⟩, ?_, ?_, ?_, ?_⟩⟩
    all_goals have hlt : s.pool.limit.toNat < 100000 := 
      UInt32.lt_iff_toNat_lt.mp (UInt32.not_le.mp hlimit)
    · have hsum := MsgPool.toNat_add_one (n := s.pool.limit) (by rw [UInt32.size]; omega)
      have hlim := h.limit
      simp only [hsum, List.length_cons]
      omega
    · have hsum := MsgPool.toNat_add_one (n := s.pool.limit) (by rw [UInt32.size]; omega)
      show s.pool.limit + 1 ≤ MSG_POOL_MAX_COUNT
      rw [UInt32.le_iff_toNat_le, hsum]
      exact hlt
    · intro l hl
      rcases List.mem_cons.mp (List.perm_middle.mem_iff.mp hl) with heq | hl
      · cases heq
      · exact h.initial l hl
    · intro l hl
      rcases List.mem_cons.mp (List.perm_middle.mem_iff.mp hl) with heq | hl
      · cases heq
        exact hcap
      · exact h.requested l hl

/-- An item that is given back comes first in the list. -/
theorem put (h : BlocksOk memOn s items) {x : PoolBlock} (hx : x ∈ s.out)
    {pool : MsgPool PoolBlock} (hput : s.pool.msgPoolPut x = some pool) :
    BlocksOk memOn ⟨pool, s.out.erase x⟩ (x :: items) ∧
      pool.msgPayloadLen = s.pool.msgPayloadLen := by
  have hsize : UInt32.size = 4294967296 := rfl
  have hmax : s.pool.limit.toNat ≤ 100000 := UInt32.le_iff_toNat_le.mp h.limit_le
  have hlen : (s.out.erase x).length + 1 = s.out.length := List.length_erase_add_one hx
  have hlimit := h.limit
  obtain ⟨htype, hlim, hholds⟩ := h.holds.put (by omega) hput h.type
  have hpay : pool.msgPayloadLen = s.pool.msgPayloadLen := by
    rw [MsgPool.msgPoolPut, h.holds.linked, if_neg (by simp [h.type])] at hput
    obtain rfl := Option.some.inj hput
    rfl
  refine ⟨⟨htype, hholds, ?_, hlim ▸ h.limit_le, ?_, ?_⟩, hpay⟩
  · simp only [hlim, List.length_cons]
    omega
  · intro l hl
    rw [hpay]
    exact h.initial l ((perm_put hx).mem_iff.mp hl)
  · intro l hl
    exact h.requested l ((perm_put hx).mem_iff.mp hl)

/-- A call serves the length that it is asked for exactly where its guard holds; either way the
cache stays as it should be. -/
theorem step (h : BlocksOk memOn s items) {call : BlockCall} {t : BlockState}
    (hst : BlockStep memOn s call t) :
    (ServesLength memOn s call t ↔ call.guard s) ∧ ∃ items', BlocksOk memOn t items' := by
  cases hst with
  | put hx hput => exact ⟨Iff.rfl, _, (h.put hx hput).1⟩
  | @get len gives node pool hget =>
    rcases h.get_cases len gives with
      ⟨hle, x, rest, pool', rfl, hget', hok⟩ | ⟨hno, ⟨pool', hget', hcap, hok⟩ | hget'⟩
    · obtain ⟨rfl, rfl⟩ := Prod.mk.inj (hget.symm.trans hget')
      refine ⟨?_, rest, hok⟩
      have hcap := h.capacity_iff hle List.mem_cons_self
      rw [ServesLength, BlockCall.guard, hget', h.holds.linked]
      simpa [MsgList.items, hle, ListNode.HasRoom] using hcap
    all_goals
      obtain ⟨rfl, rfl⟩ := Prod.mk.inj (hget.symm.trans hget')
      -- the guard asks for nothing
      have hguard : (BlockCall.get len gives).guard s := by
        rw [BlockCall.guard, h.holds.linked]
        intro hle x hx
        exact absurd ⟨hle, List.ne_nil_of_mem (List.mem_of_mem_head? hx)⟩ hno
    · refine ⟨⟨fun _ => hguard, fun _ => ?_⟩, items, hok⟩
      rw [ServesLength, hget']
      exact Int.le_of_eq hcap.symm
    · refine ⟨⟨fun _ => hguard, fun _ => ?_⟩, items, h⟩
      rw [ServesLength, hget']
      trivial

end BlocksOk

/-- `msg_pool_init` leaves the cache as it should be. -/
theorem BlockInit.blocksOk {memOn : Bool} {count len : UInt32} {s : BlockState}
    (h : BlockInit memOn count len s) : ∃ items, BlocksOk memOn s items ∧
      ∀ x ∈ items, x = .initial s.pool.msgPayloadLen := by
  obtain ⟨hout, mp, gives, lockOk, condOk, hinit⟩ := h
  obtain ⟨htype, hlimit, hmax, -, items, halloc, hlinked⟩ := MsgPool.msgPoolInit_ok hinit
  obtain ⟨hlen, hmem⟩ := MsgPool.allocItems_spec halloc
  have hall : ∀ x ∈ items, x = .initial s.pool.msgPayloadLen := by
    intro x hx
    obtain ⟨i, hi⟩ := hmem x hx
    exact (PoolBlock.alloc_eq_some hi).1
  refine ⟨items, ⟨htype, ⟨hlinked, hlen.symm⟩, ?_, hlimit ▸ hmax, ?_, ?_⟩, hall⟩
  · rw [hlimit, hout, hlen]
    rfl
  · intro l hl
    rw [hout, List.append_nil] at hl
    exact PoolBlock.initial.inj (hall _ hl)
  · intro l hl
    rw [hout, List.append_nil] at hl
    cases hall _ hl

/-- Every item that a cache hands out has room for the payload it was asked for in exactly the
runs in which no request is served by an item that was allocated for a shorter one, or by
`msg_pool_init` for a length that makes its size overflow. -/
theorem servesLength_iff {memOn : Bool} {count len : UInt32} {s : BlockState}
    (hs : BlockInit memOn count len s) {r : List (BlockCall × BlockState)}
    (hr : IsRun (BlockStep memOn) s r) :
    Along (ServesLength memOn) s r ↔ Guarded BlockCall.guard s r := by
  have hgood : ∀ s call t, (∃ items, BlocksOk memOn s items) → BlockStep memOn s call t →
      call.guard s → ServesLength memOn s call t ∧ ∃ items, BlocksOk memOn t items := by
    rintro s call t ⟨items, h⟩ hst hg
    obtain ⟨hiff, hok⟩ := h.step hst
    exact ⟨hiff.2 hg, hok⟩
  have hbad : ∀ s call t, (∃ items, BlocksOk memOn s items) → BlockStep memOn s call t →
      ServesLength memOn s call t → call.guard s := by
    rintro s call t ⟨items, h⟩ hst hq
    exact (h.step hst).1.1 hq
  obtain ⟨items, hok, -⟩ := hs.blocksOk
  exact along_iff_guarded hgood hbad ⟨items, hok⟩ hr

/-- A cache of one item for 8 bytes. -/
def oneBlock : BlockState := ⟨⟨.cache, 1, 1, 8, .linked [.initial 8]⟩, []⟩

theorem blockInit_oneBlock : BlockInit true 1 8 oneBlock :=
  ⟨rfl, .zeroed, fun _ => true, true, true, rfl⟩

/-- The item is taken, a longer one is allocated beside it, and both come back. -/
theorem servesLength_longer : Along (ServesLength true) oneBlock
    [(.get 8 true, ⟨⟨.cache, 1, 0, 8, .linked []⟩, [.initial 8]⟩),
      (.get 100 true, ⟨⟨.cache, 2, 0, 8, .linked []⟩, [.requested 100, .initial 8]⟩),
      (.put (.requested 100), ⟨⟨.cache, 2, 1, 8, .linked [.requested 100]⟩, [.initial 8]⟩),
      (.get 4 true, ⟨⟨.cache, 2, 0, 8, .linked []⟩, [.requested 100, .initial 8]⟩)] :=
  (servesLength_iff blockInit_oneBlock
    (by exact ⟨.get rfl, .get rfl, .put (by decide) rfl, .get rfl, trivial⟩)).2 (by decide)

/-- While the list is empty an item of one byte is allocated; it comes back and serves a request
for eight. And an item whose size overflows holds nothing at all. -/
theorem not_servesLength :
    (∃ r, r.map Prod.fst = [.get 8 true, .get 1 true, .put (.requested 1), .get 8 true] ∧
      IsRun (BlockStep true) oneBlock r ∧ ¬ Along (ServesLength true) oneBlock r) ∧
    (∃ s r, BlockInit true 1 (2 ^ 32 - 1) s ∧ r.map Prod.fst = [.get 1 true] ∧
      IsRun (BlockStep true) s r ∧ ¬ Along (ServesLength true) s r) := by
  refine ⟨⟨[(_, _), (_, _), (_, _), (_, _)], rfl,
      ⟨.get rfl, .get rfl, .put (by decide) rfl, .get rfl, trivial⟩, ?_⟩,
    ⟨⟨.cache, 1, 1, 2 ^ 32 - 1, .linked [.initial (2 ^ 32 - 1)]⟩, []⟩, [(_, _)],
      ⟨rfl, .zeroed, fun _ => true, true, true, rfl⟩, rfl, ⟨.get rfl, trivial⟩, ?_⟩
  · exact fun h => absurd h.2.2.2.1 (by decide)
  · exact fun h => absurd h.1 (by decide)

/-! ## A caller that asks for the pool's own length -/

/-- The call asks for this length at least, if it asks for any. -/
def BlockCall.AsksFor (n : UInt32) : BlockCall → Prop
  | get len _ => (n.toNat : ℤ) ≤ len.toInt
  | put _ => True

/-- The payload length of a pool stays what it was. -/
theorem msgPayloadLen_step {memOn : Bool} {s t : BlockState} {call : BlockCall}
    (h : BlockStep memOn s call t) : t.pool.msgPayloadLen = s.pool.msgPayloadLen := by
  cases h with
  | @get len gives node pool hget =>
    obtain rfl : _ = pool := congrArg Prod.snd hget
    simp only [msgPoolGetInt, MsgPool.msgPoolGet, MsgPool.takeFirst]
    repeat' split
    all_goals rfl
  | put hx hput =>
    rw [MsgPool.msgPoolPut] at hput
    repeat' split at hput
    all_goals cases hput
    all_goals rfl

/-- The pool has this length, and no block of its list or in use was requested with less. -/
def AskedAtLeast (memOn : Bool) (n : UInt32) (s : BlockState) : Prop :=
  s.pool.msgPayloadLen = n ∧ ∃ items, BlocksOk memOn s items ∧
    ∀ l, .requested l ∈ items ++ s.out → (n.toNat : ℤ) ≤ l.toInt

section AsksFor

variable {memOn : Bool} {n : UInt32} {s t : BlockState} {call : BlockCall}

/-- Then the first block of the list is long enough for any call. -/
theorem AskedAtLeast.guard (h : AskedAtLeast memOn n s) (hsmall : n.toNat + MSG_ITEM_LEN < 2 ^ 31)
    (hstep : BlockStep memOn s call t) : call.guard s := by
  obtain ⟨hn, items, hok, hreq⟩ := h
  cases hstep with
  | put => trivial
  | @get len gives node pool hget =>
    rw [BlockCall.guard, hok.holds.linked, hn]
    intro hle x hx
    have hmem : x ∈ items ++ s.out := List.mem_append_left _ (List.mem_of_mem_head? hx)
    -- blocks of the start have the length of the pool, the others at least the length asked for
    cases x with
    | initial l =>
      obtain rfl := (hok.initial l hmem).trans hn
      exact .inl hsmall
    | requested l =>
      have hl := hreq l hmem
      have hint := toInt_le_toNat_toUInt32 len
      have hnat := UInt32.le_iff_toNat_le.mp hle
      rw [PoolBlock.Serves]
      omega

/-- A call that asks for this length at least keeps it so. -/
theorem AskedAtLeast.step (h : AskedAtLeast memOn n s) (hstep : BlockStep memOn s call t)
    (hask : call.AsksFor n) : AskedAtLeast memOn n t := by
  obtain ⟨hn, items, hok, hreq⟩ := h
  refine ⟨(msgPayloadLen_step hstep).trans hn, ?_⟩
  cases hstep with
  | put hx hput =>
    exact ⟨_, (hok.put hx hput).1, fun l hl => hreq l ((perm_put hx).mem_iff.mp hl)⟩
  | @get len gives node pool hget =>
    rcases hok.get_cases len gives with
      ⟨-, x, rest, pool', rfl, hget', hok⟩ | ⟨-, ⟨pool', hget', -, hok⟩ | hget'⟩
    all_goals obtain ⟨rfl, rfl⟩ := Prod.mk.inj (hget.symm.trans hget')
    · exact ⟨rest, hok, fun l hl => hreq l (List.perm_middle.mem_iff.mp hl)⟩
    · -- the new block was requested by this call
      refine ⟨items, hok, fun l hl => ?_⟩
      rcases List.mem_cons.mp (List.perm_middle.mem_iff.mp hl) with heq | hl
      · cases heq
        exact hask
      · exact hreq l hl
    · exact ⟨items, hok, hreq⟩

end AsksFor

/-- Where no request is for less than the pool's own length, and that is no absurd one, no item
is ever too short: every item of the list has the pool's length at least. -/
theorem guarded_of_asksFor {memOn : Bool} {count len : UInt32} {s : BlockState}
    (hs : BlockInit memOn count len s) {r : List (BlockCall × BlockState)}
    (hr : IsRun (BlockStep memOn) s r)
    (hsmall : s.pool.msgPayloadLen.toNat + MSG_ITEM_LEN < 2 ^ 31)
    (hasks : Guarded (fun _ call => call.AsksFor s.pool.msgPayloadLen) s r) :
    Guarded BlockCall.guard s r := by
  obtain ⟨items, hok, hall⟩ := hs.blocksOk
  have hstart : AskedAtLeast memOn s.pool.msgPayloadLen s := by
    refine ⟨rfl, items, hok, fun l hl => ?_⟩
    rw [hs.1, List.append_nil] at hl
    cases hall _ hl
  generalize s.pool.msgPayloadLen = n at hsmall hasks hstart
  exact along_of_invariant
    (fun _ _ _ h hstep => ⟨h.guard hsmall hstep.1, h.step hstep.1 hstep.2⟩) hstart (hr.and hasks)

end Gendo
