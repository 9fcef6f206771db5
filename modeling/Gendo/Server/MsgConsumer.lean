import Gendo.Library.StepSystem
import Gendo.Server.Frame
import Gendo.Server.MsgPool
import Mathlib.Data.List.Perm.Basic

/-!
# The message consumer and the received payload

A message consumer (`lib-msg-consumer.c`) has two pools: a cache of empty message items and the
queue of filled ones. The event loop takes an item from the cache, copies the received frame into
it and queues it (`rasUserMsgRecv`); a worker handles it and gives it back to the cache. The items
handed out and given back are those of `CacheStep`.

`ras_user_high_priority_thread` sets the cache up for payloads of `MID_MSG_LEN` bytes, and
`CacheOk` says that every item keeps this capacity. The receive buffer is larger: `copyFits_iff`
shows that the copy stays within the item exactly for frames of at most `MID_MSG_LEN` bytes.

That is so as long as the queue invents no item. A consumer loop that comes back from its wait to an
empty queue takes the list head for one, and it is given back to the cache like any other
(`not_copyFits_wakeEmpty`). `copyFits_iff` is about the runs without such a wake-up.
-/

namespace Gendo

open StepSystem

/-- `msg_item_t` as a block of memory: where it is, and the payload bytes it was allocated with. -/
structure MsgItem where
  addr : ℕ
  payloadCap : ℕ
  deriving DecidableEq, Repr

/-- `mem_malloc(sizeof(msg_item_t) + len)`, given the address that the allocator answers. -/
def memMalloc (answer : Option ℕ) (len : UInt32) : Option MsgItem :=
  answer.map fun addr => ⟨addr, len.toNat⟩

/-- The list head of the queue, where a consumer loop takes it for an item. No payload was allocated
with it. -/
def MsgItem.queueHead (addr : ℕ) : MsgItem := ⟨addr, 0⟩

/-- A filled message item in the queue: the node it was put in, its `peer` and its `msg`. -/
structure QueuedMsg where
  node : ListNode MsgItem
  peer : ℤ
  frame : MsgFrame
  deriving DecidableEq

/-- `msg_consumer_t`: its pools, and whether it was initialised. -/
structure MsgConsumer where
  poolCache : MsgPool MsgItem
  poolConsumer : MsgPool QueuedMsg
  init : Bool

namespace MsgConsumer

/-- `user_msg_pool` as `mem_malloc` returns it. -/
def zeroed : MsgConsumer := ⟨MsgPool.zeroed, MsgPool.zeroed, false⟩

/-- `mc_multi_thread_init`. `alloc`, `cacheOk` and `queueOk` answer the allocations of the cache
items and the initialisations of the two pools' locks. -/
def mcMultiThreadInit (mc : MsgConsumer) (alloc : ℕ → Option ℕ) (cacheOk queueOk : Bool) :
    Option (Bool × MsgConsumer) :=
  match mc.poolCache.msgPoolInit .cache mc.poolCache.count mc.poolCache.msgPayloadLen
      (fun len i => memMalloc (alloc i) len) cacheOk true with
  | none => none
  | some (false, cache) => some (false, { mc with poolCache := cache })
  | some (true, cache) =>
    match mc.poolConsumer.msgPoolInit .consumerProducer 0 0 (fun _ _ => none) queueOk true with
    | none => none
    | some (ok, queue) => some (ok, ⟨cache, queue, ok || mc.init⟩)

/-- The set-up of `ras_user_high_priority_thread`, which does not look at the result of
`mc_multi_thread_init`. -/
def rasUserHighPriorityThread (mc : MsgConsumer) (alloc : ℕ → Option ℕ)
    (cacheOk queueOk : Bool) : Option MsgConsumer :=
  let cache := { mc.poolCache with count := 100, msgPayloadLen := MID_MSG_LEN }
  let mc := { mc with poolCache := cache }
  (mc.mcMultiThreadInit alloc cacheOk queueOk).map Prod.snd

/-- `mc_producer_get_msg`: an item of the cache for a payload of the pool's own length. -/
def mcProducerGetMsg (cache : MsgPool MsgItem) (answer : Option ℕ) :
    ListNode MsgItem × MsgPool MsgItem :=
  cache.msgPoolGet cache.msgPayloadLen (memMalloc answer)

/-- `mc_put_msg_to_cache`. -/
def mcPutMsgToCache (cache : MsgPool MsgItem) (pmsg : MsgItem) : Option (MsgPool MsgItem) :=
  cache.msgPoolPut pmsg

/-- `mc_producer_run` of a consumer without producer function. -/
def mcProducerRun (mc : MsgConsumer) (pmsg : QueuedMsg) : Option MsgConsumer :=
  (mc.poolConsumer.msgPoolProducer pmsg).map fun r => { mc with poolConsumer := r.2 }

end MsgConsumer

/-- The event that libevent reports. -/
inductive EvType
  | timeout
  | read
  | other
  deriving DecidableEq, Repr

/-- What `ras_user_msg_recv` did. -/
inductive RecvOutcome
  /-- `libevt_clean`: the connection was closed. -/
  | cleaned
  /-- The frame was received and dropped, since there was no item for it. -/
  | discarded
  /-- `msg_copy` copied the frame to the item, which then was queued. -/
  | copied (pmsg : QueuedMsg)

/-- `ras_user_msg_recv`, with the socket's answers and the allocator's; the consumer is `none`
where queueing writes through a cleared list head. -/
def rasUserMsgRecv (fd : ℤ) (type : EvType) (answers : List RecvAnswer) (mc : MsgConsumer)
    (answer : Option ℕ) : RecvOutcome × Option MsgConsumer :=
  if type ≠ .read then (.cleaned, some mc)
  else
    match libRecvMsg fd MAX_MSG_LEN.toUInt64 answers with
    | none => (.cleaned, some mc)
    | some frame =>
      -- the length of the payload is not compared with that of the item
      let (node, cache) := MsgConsumer.mcProducerGetMsg mc.poolCache answer
      let mc := { mc with poolCache := cache }
      if node = .null then (.discarded, some mc)
      else
        let pmsg := ⟨node, fd, frame⟩
        (.copied pmsg, mc.mcProducerRun pmsg)

/-- Every payload that was copied fits the item it was copied to. -/
def CopyFits : RecvOutcome → Prop
  | .cleaned | .discarded => True
  | .copied pmsg => ∃ item, pmsg.node = .item item ∧ pmsg.frame.payload.length ≤ item.payloadCap

/-! ## The cache -/

/-- The cache, and the items in use, which were not given back yet. -/
structure CacheState where
  pool : MsgPool MsgItem
  out : List MsgItem

/-- What happens to the cache. -/
inductive CacheLabel
  /-- The event loop asks for an item; the allocator would answer with this address. -/
  | get (answer : Option ℕ)
  /-- A consumer loop wakes up, and the queue, whose list head is at this address, is empty. -/
  | wakeEmpty (addr : ℕ)
  /-- A worker gives an item back. -/
  | put (pmsg : MsgItem)

/-- The items outstanding after a node was handed out. -/
def CacheState.handOut (out : List MsgItem) : ListNode MsgItem → List MsgItem
  | .item x => x :: out
  | .head | .null => out

/-- One critical section of the cache, or a wake-up that takes the list head of the queue for an
item. -/
inductive CacheStep : CacheState → CacheLabel → CacheState → Prop
  | get {s answer node mp} : MsgConsumer.mcProducerGetMsg s.pool answer = (node, mp) →
      CacheStep s (.get answer) ⟨mp, CacheState.handOut s.out node⟩
  -- from here on the queue and the cache get nodes of each other's lists, which is not modelled
  | wakeEmpty {s addr} : CacheStep s (.wakeEmpty addr) ⟨s.pool, .queueHead addr :: s.out⟩
  | put {s pmsg mp} : pmsg ∈ s.out → MsgConsumer.mcPutMsgToCache s.pool pmsg = some mp →
      CacheStep s (.put pmsg) ⟨mp, s.out.erase pmsg⟩

/-- No consumer loop wakes up while the queue is empty. -/
def noEmptyWake (_ : CacheState) : CacheLabel → Prop
  | .wakeEmpty _ => False
  | _ => True

/-- The cache as the high priority thread leaves it, whether or not its set-up succeeded. -/
def CacheSetUp (s : CacheState) : Prop :=
  s.out = [] ∧ ∃ alloc cacheOk queueOk mc,
    MsgConsumer.zeroed.rasUserHighPriorityThread alloc cacheOk queueOk = some mc ∧
      s.pool = mc.poolCache

/-- Every item in the cache or outstanding was allocated for `MID_MSG_LEN` bytes, and the limit
counts them. -/
structure CacheOk (s : CacheState) : Prop where
  linked : s.pool.type = .cache → ∃ items, s.pool.msgList = .linked items ∧
    s.pool.count.toNat = items.length ∧ s.pool.limit.toNat = items.length + s.out.length ∧
    ∀ x ∈ items, x.payloadCap = MID_MSG_LEN.toNat
  limit : s.pool.limit ≤ MSG_POOL_MAX_COUNT
  payloadLen : s.pool.type = .cache → s.pool.msgPayloadLen = MID_MSG_LEN
  out : ∀ x ∈ s.out, x.payloadCap = MID_MSG_LEN.toNat

/-- The cache has an item to hand out: one of its own, or a fresh one within the limit. -/
def HandsOut (mp : MsgPool MsgItem) (answer : Option ℕ) : Prop :=
  mp.type = .cache ∧ (mp.count ≠ 0 ∨ mp.limit < MSG_POOL_MAX_COUNT ∧ answer.isSome)

instance (mp : MsgPool MsgItem) (answer : Option ℕ) : Decidable (HandsOut mp answer) :=
  inferInstanceAs (Decidable (_ ∧ _))

/-- Asked for an item, a well-formed cache hands out one of `MID_MSG_LEN` bytes and stays
well-formed, or it hands out nothing and does not change. -/
theorem CacheOk.get {s : CacheState} (hs : CacheOk s) (answer : Option ℕ) :
    (HandsOut s.pool answer ∧ ∃ x mp, MsgConsumer.mcProducerGetMsg s.pool answer = (.item x, mp) ∧
      x.payloadCap = MID_MSG_LEN.toNat ∧ CacheOk ⟨mp, x :: s.out⟩) ∨
    (¬HandsOut s.pool answer ∧ MsgConsumer.mcProducerGetMsg s.pool answer = (.null, s.pool)) := by
  rw [MsgConsumer.mcProducerGetMsg]
  -- a pool that is no cache hands out nothing
  by_cases htype : s.pool.type = .cache
  swap
  · exact .inr ⟨fun h => htype h.1, MsgPool.msgPoolGet_of_ne _ _ htype⟩
  obtain ⟨items, hlist, hcount, hlimit, hcap⟩ := hs.linked htype
  by_cases hzero : s.pool.count = 0
  · -- the cache is empty: a fresh item, if the limit and the allocator allow one
    rw [MsgPool.msgPoolGet_of_eq_zero _ _ htype hzero, hs.payloadLen htype]
    cases answer with
    | none => exact .inr ⟨fun h => by simpa [hzero] using h.2, rfl⟩
    | some addr =>
      by_cases hfull : s.pool.limit < MSG_POOL_MAX_COUNT
      · refine .inl ⟨⟨htype, .inr ⟨hfull, rfl⟩⟩, ⟨addr, MID_MSG_LEN.toNat⟩, _,
          if_pos hfull, rfl, ?_⟩
        have hlt : s.pool.limit.toNat < 100000 := UInt32.lt_iff_toNat_lt.mp hfull
        have hsize : UInt32.size = 4294967296 := rfl
        have hsucc := MsgPool.toNat_add_one (n := s.pool.limit) (by omega)
        refine ⟨fun _ => ⟨items, hlist, hcount, ?_, hcap⟩, ?_, fun _ => rfl, ?_⟩
        · simp only [hsucc, hlimit, List.length_cons]
          omega
        · rw [UInt32.le_iff_toNat_le, hsucc]
          exact hlt
        · exact List.forall_mem_cons.mpr ⟨rfl, hs.out⟩
      · exact .inr ⟨fun h => by simpa [hzero, hfull] using h.2, if_neg hfull⟩
  · -- the oldest item goes from the list to those outstanding
    rw [MsgPool.msgPoolGet_of_pos _ htype (UInt32.le_refl _) hzero]
    obtain ⟨x, rest, rfl, htake, hholds⟩ := MsgPool.Holds.take ⟨hlist, hcount⟩ hzero
    obtain ⟨hx, hrest⟩ := List.forall_mem_cons.mp hcap
    rw [htake]
    refine .inl ⟨⟨htype, .inl hzero⟩, x, _, rfl, hx, ?_⟩
    refine ⟨fun _ => ⟨rest, rfl, hholds.count, ?_, hrest⟩, hs.limit, hs.payloadLen, ?_⟩
    · simp only [List.length_cons] at hlimit ⊢
      omega
    · exact List.forall_mem_cons.mpr ⟨hx, hs.out⟩

/-- An outstanding item that is given back is there for the next frame. -/
theorem CacheOk.put {s : CacheState} (hs : CacheOk s) {x : MsgItem} (hx : x ∈ s.out)
    {mp : MsgPool MsgItem} (hmp : MsgConsumer.mcPutMsgToCache s.pool x = some mp) :
    CacheOk ⟨mp, s.out.erase x⟩ := by
  have hout : ∀ y ∈ s.out.erase x, y.payloadCap = MID_MSG_LEN.toNat :=
    fun y hy => hs.out y (List.mem_of_mem_erase hy)
  rw [MsgConsumer.mcPutMsgToCache] at hmp
  by_cases htype : s.pool.type = .cache
  · obtain ⟨items, hlist, hcount, hlimit, hcap⟩ := hs.linked htype
    -- the limit counts all items, so the count does not wrap
    have hmax : s.pool.limit.toNat ≤ 100000 := UInt32.le_iff_toNat_le.mp hs.limit
    have hlen : (s.out.erase x).length + 1 = s.out.length := List.length_erase_add_one hx
    have hsize : UInt32.size = 4294967296 := rfl
    rw [MsgPool.msgPoolPut, if_neg (by simp [htype]), hlist] at hmp
    obtain rfl := Option.some.inj hmp
    refine ⟨fun _ => ⟨x :: items, rfl, ?_, ?_, ?_⟩, hs.limit, hs.payloadLen, hout⟩
    · exact MsgPool.Holds.count_succ ⟨hlist, hcount⟩ (by omega)
    · simp only [List.length_cons]
      omega
    · exact List.forall_mem_cons.mpr ⟨hs.out x hx, hcap⟩
  · -- the item is freed
    rw [MsgPool.msgPoolPut, if_pos htype] at hmp
    obtain rfl := Option.some.inj hmp
    exact ⟨fun h => absurd h htype, hs.limit, hs.payloadLen, hout⟩

/-- The cache is well-formed after its set-up. -/
theorem CacheSetUp.cacheOk {s : CacheState} (hs : CacheSetUp s) : CacheOk s := by
  obtain ⟨hout, alloc, cacheOk, queueOk, mc, hmc, hpool⟩ := hs
  obtain ⟨⟨ok, mc'⟩, hinit, rfl⟩ := Option.map_eq_some_iff.mp hmc
  -- the queue's set-up comes after the cache's, and does not touch it
  have hcache : ∃ ok' : Bool, MsgPool.msgPoolInit
      { (MsgPool.zeroed : MsgPool MsgItem) with count := 100, msgPayloadLen := MID_MSG_LEN }
      .cache 100 MID_MSG_LEN (fun len i => memMalloc (alloc i) len) cacheOk true =
        some (ok', mc'.poolCache) := by
    rw [MsgConsumer.mcMultiThreadInit] at hinit
    split at hinit
    · cases hinit
    · next cache hpool' =>
      rw [Option.some.injEq, Prod.mk.injEq] at hinit
      exact ⟨false, by rw [← hinit.2]; exact hpool'⟩
    · next cache hpool' =>
      split at hinit
      · cases hinit
      · rw [Option.some.injEq, Prod.mk.injEq] at hinit
        exact ⟨true, by rw [← hinit.2]; exact hpool'⟩
  obtain ⟨ok', hcache⟩ := hcache
  rcases MsgPool.msgPoolInit_cache (by decide) (by decide) hcache with
    ⟨-, hmax, items, halloc, hmp⟩ | ⟨-, hmp⟩
  · obtain ⟨hlen, hmem⟩ := MsgPool.allocItems_spec halloc
    rw [hmp] at hpool
    refine ⟨fun _ => ⟨items, by rw [hpool], ?_, ?_, ?_⟩, ?_, fun _ => by rw [hpool], ?_⟩
    · rw [hpool, hlen]
    · rw [hpool, hlen, hout]
      rfl
    · intro x hx
      obtain ⟨i, hi⟩ := hmem x hx
      obtain ⟨addr, -, rfl⟩ := Option.map_eq_some_iff.mp hi
      rfl
    · rw [hpool]
      exact hmax
    · simp [hout]
  · rw [hmp] at hpool
    have htype : s.pool.type ≠ .cache := by rw [hpool]; decide
    exact ⟨fun h => absurd h htype, by rw [hpool]; decide, fun h => absurd h htype, by simp [hout]⟩

/-- A step keeps the cache well-formed, unless it is a wake-up that invents an item. -/
theorem CacheOk.step {s t : CacheState} {label : CacheLabel} (hs : CacheOk s)
    (hwake : noEmptyWake s label) (hstep : CacheStep s label t) : CacheOk t := by
  cases hstep with
  | get hget =>
    rcases hs.get _ with ⟨-, x, mp, hx, -, hok⟩ | ⟨-, hnull⟩
    · -- an item, or no node and the pool as it was
      rw [hx, Prod.mk.injEq] at hget
      obtain ⟨rfl, rfl⟩ := hget
      exact hok
    · rw [hnull, Prod.mk.injEq] at hget
      obtain ⟨rfl, rfl⟩ := hget
      exact hs
  | wakeEmpty => exact hwake.elim
  | put hx hmp => exact hs.put hx hmp

/-- Without such wake-ups every cache holds and handed out items of `MID_MSG_LEN` bytes only. -/
theorem CacheSetUp.cacheOk_final {s : CacheState} (hs : CacheSetUp s)
    {r : List (CacheLabel × CacheState)} (hr : IsRun CacheStep s r)
    (hwakes : Guarded noEmptyWake s r) : CacheOk (final s r) :=
  (always_of_guarded (fun _ _ _ hok hwake hstep => hok.step hwake hstep) hs.cacheOk hr hwakes).last

/-- What is given back last is handed out first. -/
theorem CacheOk.get_of_put {s : CacheState} (hs : CacheOk s) (htype : s.pool.type = .cache)
    {x : MsgItem} {mp : MsgPool MsgItem} (hput : MsgConsumer.mcPutMsgToCache s.pool x = some mp)
    (answer : Option ℕ) :
    ∃ cache, MsgConsumer.mcProducerGetMsg mp answer = (.item x, cache) := by
  obtain ⟨items, hlist, hcount, hlimit, -⟩ := hs.linked htype
  have hmax : s.pool.limit.toNat ≤ 100000 := UInt32.le_iff_toNat_le.mp hs.limit
  have hsize : UInt32.size = 4294967296 := rfl
  obtain ⟨htype', -, hholds⟩ := MsgPool.Holds.put ⟨hlist, hcount⟩ (by omega) hput htype
  have hpos : mp.count ≠ 0 := by
    intro hzero
    have hlen := hholds.count
    rw [hzero] at hlen
    exact Nat.succ_ne_zero _ hlen.symm
  obtain ⟨y, rest, hcons, htake, -⟩ := hholds.take hpos
  obtain ⟨rfl, -⟩ := List.cons.inj hcons
  have hfirst := MsgPool.msgPoolGet_of_pos (memMalloc answer) htype'
    (UInt32.le_refl mp.msgPayloadLen) hpos
  exact ⟨_, hfirst.trans htake⟩

/-! ## The copy -/

/-- An accepted frame is copied into an item of `MID_MSG_LEN` bytes, if the cache hands one out. -/
theorem rasUserMsgRecv_spec {mc : MsgConsumer} {s : CacheState} (hok : CacheOk s)
    (hmc : mc.poolCache = s.pool) {fd : ℤ} {answers : List RecvAnswer} {frame : MsgFrame}
    (hframe : libRecvMsg fd MAX_MSG_LEN.toUInt64 answers = some frame) (answer : Option ℕ) :
    (HandsOut mc.poolCache answer ∧ ∃ item : MsgItem, item.payloadCap = MID_MSG_LEN.toNat ∧
      (rasUserMsgRecv fd .read answers mc answer).1 = .copied ⟨.item item, fd, frame⟩) ∨
    (¬HandsOut mc.poolCache answer ∧
      (rasUserMsgRecv fd .read answers mc answer).1 = .discarded) := by
  rw [hmc]
  rcases hok.get answer with ⟨hout, x, mp, hget, hcap, -⟩ | ⟨hout, hget⟩
  · exact .inl ⟨hout, x, hcap, by simp [rasUserMsgRecv, hframe, hmc, hget]⟩
  · exact .inr ⟨hout, by simp [rasUserMsgRecv, hframe, hmc, hget]⟩

/-- A message is queued with the descriptor it was received on. -/
theorem peer_of_copied {fd : ℤ} {type : EvType} {answers : List RecvAnswer} {mc : MsgConsumer}
    {answer : Option ℕ} {pmsg : QueuedMsg}
    (h : (rasUserMsgRecv fd type answers mc answer).1 = .copied pmsg) : pmsg.peer = fd := by
  unfold rasUserMsgRecv at h
  split at h
  · cases h
  · split at h
    · cases h
    · dsimp only at h
      split at h
      · cases h
      · cases h
        rfl

/-- For every accepted frame and in every state of the cache that is reached without a wake-up on an
empty queue, the copy stays within the item exactly when the payload has at most `MID_MSG_LEN`
bytes, or there is no item to copy to. -/
theorem copyFits_iff {s : CacheState} (hs : CacheSetUp s) {r : List (CacheLabel × CacheState)}
    (hr : IsRun CacheStep s r) (hwakes : Guarded noEmptyWake s r) {mc : MsgConsumer}
    (hmc : mc.poolCache = (final s r).pool) {fd : ℤ} {answers : List RecvAnswer} {frame : MsgFrame}
    (hframe : libRecvMsg fd MAX_MSG_LEN.toUInt64 answers = some frame) (answer : Option ℕ) :
    CopyFits (rasUserMsgRecv fd .read answers mc answer).1 ↔
      frame.len ≤ MID_MSG_LEN ∨ ¬HandsOut mc.poolCache answer := by
  rcases rasUserMsgRecv_spec (hs.cacheOk_final hr hwakes) hmc hframe answer with
    ⟨hout, item, hcap, heq⟩ | ⟨hout, heq⟩
  · rw [heq, or_iff_left (not_not.mpr hout), UInt32.le_iff_toNat_le, ← hcap]
    simp [CopyFits, frame.length_payload]
  · simp [heq, CopyFits, hout]

/-! ## A small and a large frame -/

/-- The consumer of a server whose allocations succeeded. -/
def startedConsumer : MsgConsumer :=
  (MsgConsumer.zeroed.rasUserHighPriorityThread some true true).getD MsgConsumer.zeroed

/-- Its cache. -/
def startedCache : CacheState := ⟨startedConsumer.poolCache, []⟩

theorem cacheSetUp_startedCache : CacheSetUp startedCache :=
  ⟨rfl, some, true, true, startedConsumer, rfl, rfl⟩

/-- A login frame with `n` bytes of payload. -/
def loginFrame (n : UInt32) : MsgFrame :=
  ⟨MSG_GAS_USER_LOGIN, n, List.replicate n.toNat 97, by simp⟩

/-- A login frame that the receive buffer holds is accepted. -/
theorem libRecvMsg_loginFrame {n : UInt32} (hmax : n ≤ MAX_MSG_LEN)
    (hbuf : n.toUInt64 ≤ MAX_MSG_LEN.toUInt64 - MSG_HEAD_LEN) :
    libRecvMsg 7 MAX_MSG_LEN.toUInt64 [.data (loginFrame n).encode] = some (loginFrame n) := by
  have hne : (loginFrame n).encode ≠ [] := by simp [MsgFrame.encode, ByteMemory.leBytes]
  exact libRecvMsg_encode (by norm_num) hmax hbuf (List.forall_mem_singleton.mpr hne)
    (List.flatten_singleton)

/-- The cache when the first item is out. -/
def usedCache : CacheState :=
  let (node, mp) := MsgConsumer.mcProducerGetMsg startedCache.pool none
  ⟨mp, CacheState.handOut startedCache.out node⟩

/-- The next frame, of 80 bytes, is copied into an item that holds it. -/
theorem copyFits_loginFrame :
    CopyFits (rasUserMsgRecv 7 .read [.data (loginFrame 80).encode]
      { startedConsumer with poolCache := usedCache.pool } none).1 :=
  have hr : IsRun CacheStep startedCache [(.get none, usedCache)] := ⟨.get rfl, trivial⟩
  (copyFits_iff cacheSetUp_startedCache hr ⟨trivial, trivial⟩ rfl
    (libRecvMsg_loginFrame (by decide) (by decide)) none).mpr (.inl (by decide))

/-- Not every accepted frame fits: one byte more than `MID_MSG_LEN` is copied past the item. -/
theorem not_copyFits_loginFrame :
    ¬∀ (s : CacheState) (r : List (CacheLabel × CacheState)) (mc : MsgConsumer) (fd : ℤ)
      (answers : List RecvAnswer) (frame : MsgFrame) (answer : Option ℕ),
      CacheSetUp s → IsRun CacheStep s r → mc.poolCache = (final s r).pool →
      libRecvMsg fd MAX_MSG_LEN.toUInt64 answers = some frame →
      CopyFits (rasUserMsgRecv fd .read answers mc answer).1 := by
  intro hall
  -- the length stays a variable below, so that the frame is not evaluated byte by byte
  obtain ⟨n, hlong, hmax, hbuf⟩ : ∃ n : UInt32, MID_MSG_LEN < n ∧ n ≤ MAX_MSG_LEN ∧
      n.toUInt64 ≤ MAX_MSG_LEN.toUInt64 - MSG_HEAD_LEN :=
    ⟨51201, by decide, by decide, by decide⟩
  have hframe := libRecvMsg_loginFrame hmax hbuf
  have hsame : startedConsumer.poolCache = startedCache.pool := rfl
  have hfits :=
    hall startedCache [] startedConsumer 7 _ _ none cacheSetUp_startedCache trivial hsame hframe
  rcases rasUserMsgRecv_spec cacheSetUp_startedCache.cacheOk hsame hframe none with
    ⟨-, item, hcap, heq⟩ | ⟨hout, -⟩
  · rw [heq] at hfits
    obtain ⟨item', hitem', hle⟩ := hfits
    obtain rfl := ListNode.item.inj hitem'
    rw [hcap, (loginFrame n).length_payload] at hle
    exact absurd hle (Nat.not_le.mpr (UInt32.lt_iff_toNat_lt.mp hlong))
  · -- the cache was set up with 100 items
    exact hout ⟨rfl, .inl (by decide)⟩

/-- A wake-up on an empty queue invents an item: where the list head is given back to the cache, the
next frame is copied to it, and 80 bytes do not fit. -/
theorem not_copyFits_wakeEmpty (addr : ℕ) :
    ∃ (r : List (CacheLabel × CacheState)) (mc : MsgConsumer), IsRun CacheStep startedCache r ∧
      mc.poolCache = (final startedCache r).pool ∧
      ¬CopyFits (rasUserMsgRecv 7 .read [.data (loginFrame 80).encode] mc none).1 := by
  have hok := cacheSetUp_startedCache.cacheOk
  obtain ⟨mp, hput⟩ : ∃ mp,
      MsgConsumer.mcPutMsgToCache startedCache.pool (.queueHead addr) = some mp := ⟨_, rfl⟩
  obtain ⟨cache, hget⟩ := hok.get_of_put rfl hput none
  have hstep := CacheStep.put (s := ⟨startedCache.pool, [.queueHead addr]⟩)
    (List.mem_singleton_self _) hput
  refine ⟨[(.wakeEmpty addr, _), (.put (.queueHead addr), _)],
    { startedConsumer with poolCache := mp }, ⟨.wakeEmpty, hstep, trivial⟩, rfl, ?_⟩
  have hframe := libRecvMsg_loginFrame (n := 80) (by decide) (by decide)
  simp only [rasUserMsgRecv, hframe, hget]
  rintro ⟨item, hitem, hle⟩
  obtain rfl := ListNode.item.inj hitem
  rw [(loginFrame 80).length_payload] at hle
  -- there is no payload behind the list head
  have hcap : ¬(loginFrame 80).len.toNat ≤ 0 := by decide
  exact hcap hle

end Gendo
