import Gendo.Library.Tally
import Gendo.Server.MsgConsumer
import Gendo.Server.ThreadPool
import Mathlib.Algebra.Order.Group.Multiset
import Mathlib.Tactic.Abel

/-!
# Where the message items are

A message item is allocated by the cache of its message consumer and goes from there to a
producer, to the consumer queue, to a consumer loop or a job of the thread pool, and back to the
cache. `McStep` is one step of a producer, of a consumer loop (`mc_consumer_run_with_tp`) or of
a job (`mc_consumer_thread_wrapper`). Any number of them may run at once, and the condition
variable of the queue behaves as in `QueueStep`.

Four things make an item appear or get lost. `mc_init_with_msglen` fills the consumer queue, which
`mc_multi_thread_init` leaves empty. A loop that comes back from its wait to an empty queue takes
the list head for an item. A dispatch that fails leaves the item with nobody, since its result is
not looked at; and so does a loop without a `consumer_fun`. `itemsConserved_run` shows that there
is nothing else.
-/

namespace Gendo

open StepSystem Tally

/-- The initialisers of a message consumer, with the pool size and message length they get. -/
inductive McInit
  | multiThread
  | withMsglen (count len : Int32)

namespace MsgConsumer

/-- `mc_init_with_msglen`. `alloc` and `allocQueue` answer the allocations of the two pools'
items, and `blank` is what the memory of an item of the queue holds. -/
def mcInitWithMsglen (mc : MsgConsumer) (count len : Int32) (alloc allocQueue : ℕ → Option ℕ)
    (blank : ℤ × MsgFrame) (cacheOk queueOk : Bool) : Option (Bool × MsgConsumer) :=
  match mc.poolCache.msgPoolInit .cache count.toUInt32 len.toUInt32
      (fun len i => memMalloc (alloc i) len) cacheOk true with
  | none => none
  | some (false, cache) => some (false, { mc with poolCache := cache })
  -- `count` and `len` go to the queue as well
  | some (true, cache) =>
    match mc.poolConsumer.msgPoolInit .consumerProducer count.toUInt32 len.toUInt32
        (fun len i => (memMalloc (allocQueue i) len).map fun item => ⟨.item item, blank.1, blank.2⟩)
        queueOk true with
    | none => none
    | some (ok, queue) => some (ok, ⟨cache, queue, ok || mc.init⟩)

/-- An initialiser, with the answers of the allocator. -/
def runInit (mc : MsgConsumer) (alloc allocQueue : ℕ → Option ℕ) (blank : ℤ × MsgFrame)
    (cacheOk queueOk : Bool) : McInit → Option (Bool × MsgConsumer)
  | .multiThread => mc.mcMultiThreadInit alloc cacheOk queueOk
  | .withMsglen count len => mc.mcInitWithMsglen count len alloc allocQueue blank cacheOk queueOk

end MsgConsumer

/-- How many items the initialiser puts into the consumer queue. -/
def McInit.queueCount : McInit → UInt32
  | .multiThread => 0
  | .withMsglen count _ => count.toUInt32

/-- Where a consumer loop is. -/
inductive LoopPhase
  /-- At the head of the loop, before the lock of the queue. -/
  | outside
  /-- Asleep in `thd_cond_wait`. -/
  | waiting
  /-- Woken in `thd_cond_wait`, and in need of the lock. -/
  | woken
  /-- It has this item. -/
  | got (node : ListNode MsgItem)
  /-- `consumer_fun` returned for this item, in single thread mode. -/
  | served (node : ListNode MsgItem)
  /-- The queue returned NULL. -/
  | stopped
  deriving DecidableEq

/-- A job that the thread pool took. -/
inductive McJob
  | dispatched (node : ListNode MsgItem)
  /-- `consumer_fun` returned for this item. -/
  | served (node : ListNode MsgItem)
  | done
  deriving DecidableEq

/-- A message consumer with the threads around it. -/
structure McState where
  mc : MsgConsumer
  /-- `consumer_fun` is not NULL. -/
  consumerFun : Bool
  isMultiThread : Bool
  /-- The items that producers have. -/
  producers : List MsgItem
  loops : List LoopPhase
  jobs : List McJob
  /-- Every item that the cache allocated. -/
  allocated : List MsgItem
  /-- What was passed to `mc_producer_run`. -/
  passed : List MsgItem
  /-- What `consumer_fun` was called on. -/
  called : List (ListNode MsgItem)

/-- What happens around a message consumer. -/
inductive McLabel
  /-- A producer calls `mc_producer_get_msg`; the allocator would answer with this address. -/
  | get (answer : Option ℕ)
  /-- A producer gives its item back. -/
  | giveBack (pmsg : MsgItem)
  /-- A producer calls `mc_producer_run`, and its signal wakes a loop. -/
  | produce (pmsg : MsgItem) (wake : Option ℕ)
  /-- One more thread runs the loop. -/
  | start
  /-- A loop takes the lock at the start of `msg_pool_consumer`. -/
  | enter (c : ℕ)
  /-- A sleeping loop wakes without a signal. -/
  | spurious (c : ℕ)
  /-- A woken loop takes the lock again. -/
  | resume (c : ℕ)
  /-- A loop calls `consumer_fun` itself. -/
  | serve (c : ℕ)
  /-- A loop gives back the item it served. -/
  | reclaim (c : ℕ)
  /-- A loop calls `thread_dispatch_with_tp`, which ends like this. -/
  | dispatch (c : ℕ) (e : DispatchEnd)
  /-- A loop goes on without a `consumer_fun`. -/
  | skip (c : ℕ)
  /-- A job calls `consumer_fun`. -/
  | jobServe (j : ℕ)
  /-- A job gives its item back. -/
  | jobReclaim (j : ℕ)

/-- The items that producers have after one got a node from the cache. -/
def handOut (producers : List MsgItem) : ListNode MsgItem → List MsgItem
  | .item x => x :: producers
  | .head | .null => producers

/-- The items that were allocated: one that was not seen before is new. -/
def allocate (allocated : List MsgItem) : ListNode MsgItem → List MsgItem
  | .item x => if x ∈ allocated then allocated else x :: allocated
  | .head | .null => allocated

/-- A loop after it read the first node of the queue. -/
def LoopPhase.afterGet : ListNode QueuedMsg → LoopPhase
  | .item pmsg => .got pmsg.node
  | .head => .got .head
  | .null => .stopped

/-- One step of a producer, a loop or a job. -/
inductive McStep : McState → McLabel → McState → Prop
  -- an address is free if no item that was allocated has it
  | get {s answer node cache} : (∀ a, answer = some a → ∀ x ∈ s.allocated, x.addr ≠ a) →
      MsgConsumer.mcProducerGetMsg s.mc.poolCache answer = (node, cache) →
      McStep s (.get answer) { s with
        mc := { s.mc with poolCache := cache }, producers := handOut s.producers node
        allocated := allocate s.allocated node }
  -- a producer that does not pass its item on
  | giveBack {s pmsg cache} : pmsg ∈ s.producers →
      MsgConsumer.mcPutMsgToCache s.mc.poolCache pmsg = some cache →
      McStep s (.giveBack pmsg) { s with
        mc := { s.mc with poolCache := cache }, producers := s.producers.erase pmsg }
  -- `msg_pool_producer` signals only when the queue was empty
  | produceQuiet {s pmsg peer frame queue} : pmsg ∈ s.producers →
      s.mc.poolConsumer.msgPoolProducer ⟨.item pmsg, peer, frame⟩ = some (false, queue) →
      McStep s (.produce pmsg none) { s with
        mc := { s.mc with poolConsumer := queue }, producers := s.producers.erase pmsg
        passed := pmsg :: s.passed }
  -- a signal that no loop waits for is lost
  | produceUnheard {s pmsg peer frame queue} : pmsg ∈ s.producers →
      s.mc.poolConsumer.msgPoolProducer ⟨.item pmsg, peer, frame⟩ = some (true, queue) →
      (∀ phase ∈ s.loops, phase ≠ .waiting) →
      McStep s (.produce pmsg none) { s with
        mc := { s.mc with poolConsumer := queue }, producers := s.producers.erase pmsg
        passed := pmsg :: s.passed }
  | produceWake {s pmsg peer frame queue c} : pmsg ∈ s.producers →
      s.mc.poolConsumer.msgPoolProducer ⟨.item pmsg, peer, frame⟩ = some (true, queue) →
      s.loops[c]? = some .waiting →
      McStep s (.produce pmsg (some c)) { s with
        mc := { s.mc with poolConsumer := queue }, producers := s.producers.erase pmsg
        passed := pmsg :: s.passed, loops := s.loops.set c .woken }
  | start {s} : McStep s .start { s with loops := s.loops ++ [.outside] }
  -- the queue is empty
  | enterWait {s c} : s.loops[c]? = some .outside → s.mc.poolConsumer.msgPoolConsumer = none →
      McStep s (.enter c) { s with loops := s.loops.set c .waiting }
  | enterTake {s c node queue} : s.loops[c]? = some .outside →
      s.mc.poolConsumer.msgPoolConsumer = some (node, queue) →
      McStep s (.enter c) { s with
        mc := { s.mc with poolConsumer := queue }, loops := s.loops.set c (.afterGet node) }
  | spurious {s c} : s.loops[c]? = some .waiting →
      McStep s (.spurious c) { s with loops := s.loops.set c .woken }
  -- `msg_pool_consumer` does not look at the count again
  | resume {s c node queue} : s.loops[c]? = some .woken →
      s.mc.poolConsumer.takeFirst = (node, queue) →
      McStep s (.resume c) { s with
        mc := { s.mc with poolConsumer := queue }, loops := s.loops.set c (.afterGet node) }
  -- single thread dispatcher
  | serve {s c node} : s.loops[c]? = some (.got node) → s.consumerFun = true →
      s.isMultiThread = false →
      McStep s (.serve c) { s with
        loops := s.loops.set c (.served node), called := node :: s.called }
  | reclaim {s c x cache} : s.loops[c]? = some (.served (.item x)) →
      MsgConsumer.mcPutMsgToCache s.mc.poolCache x = some cache →
      McStep s (.reclaim c) { s with
        mc := { s.mc with poolCache := cache }, loops := s.loops.set c .outside }
  -- multi thread dispatcher
  | dispatch {s c node} : s.loops[c]? = some (.got node) → s.consumerFun = true →
      s.isMultiThread = true →
      McStep s (.dispatch c .ok) { s with
        loops := s.loops.set c .outside, jobs := s.jobs ++ [.dispatched node] }
  -- the result is not looked at, so the item is forgotten
  | dispatchFail {s c node e} : s.loops[c]? = some (.got node) → s.consumerFun = true →
      s.isMultiThread = true → e ≠ .ok →
      McStep s (.dispatch c e) { s with loops := s.loops.set c .outside }
  -- neither dispatcher applies
  | skip {s c node} : s.loops[c]? = some (.got node) → s.consumerFun = false →
      McStep s (.skip c) { s with loops := s.loops.set c .outside }
  -- `mc_consumer_thread_wrapper`
  | jobServe {s j node} : s.jobs[j]? = some (.dispatched node) →
      McStep s (.jobServe j) { s with
        jobs := s.jobs.set j (.served node), called := node :: s.called }
  | jobReclaim {s j x cache} : s.jobs[j]? = some (.served (.item x)) →
      MsgConsumer.mcPutMsgToCache s.mc.poolCache x = some cache →
      McStep s (.jobReclaim j) { s with
        mc := { s.mc with poolCache := cache }, jobs := s.jobs.set j .done }

/-- The states in which an initialiser that succeeded leaves a message consumer. The allocator
answers with different blocks. -/
def McStart (init : McInit) (s : McState) : Prop :=
  ∃ mc mc' alloc allocQueue blank cacheOk queueOk,
    MsgConsumer.runInit mc alloc allocQueue blank cacheOk queueOk init = some (true, mc') ∧
    (∀ i j a, alloc i = some a → alloc j = some a → i = j) ∧
    s = ⟨mc', s.consumerFun, s.isMultiThread, [], [], [], mc'.poolCache.msgList.items, [], []⟩

/-- The steps that lose no item and invent none: no loop comes back from its wait to an empty
queue, every dispatch leaves the item to a job, and there is a `consumer_fun`. -/
def mcGuard (s : McState) : McLabel → Prop
  | .resume _ => s.mc.poolConsumer.count ≠ 0
  | .dispatch _ e => e = .ok
  | .skip _ => False
  | _ => True

/-! ## Places -/

/-- The item of a node, if it has one. -/
def nodeItems : ListNode MsgItem → Multiset MsgItem
  | .item x => {x}
  | .head | .null => 0

/-- The item that a loop has. -/
def LoopPhase.items : LoopPhase → Multiset MsgItem
  | .got node | .served node => nodeItems node
  | .outside | .waiting | .woken | .stopped => 0

/-- The item that a job has. -/
def McJob.items : McJob → Multiset MsgItem
  | .dispatched node | .served node => nodeItems node
  | .done => 0

/-- What a loop has yet to call `consumer_fun` on. -/
def LoopPhase.uncalled : LoopPhase → Multiset (ListNode MsgItem)
  | .got node => {node}
  | .served _ | .outside | .waiting | .woken | .stopped => 0

/-- What a job has yet to call `consumer_fun` on. -/
def McJob.uncalled : McJob → Multiset (ListNode MsgItem)
  | .dispatched node => {node}
  | .served _ | .done => 0

/-- The items in the cache, in the queue, with the producers, with the loops and with the jobs. -/
def McState.places (s : McState) : Multiset MsgItem :=
  (s.mc.poolCache.msgList.items : Multiset MsgItem) +
    total (fun pmsg => nodeItems pmsg.node) s.mc.poolConsumer.msgList.items +
    (s.producers : Multiset MsgItem) + total LoopPhase.items s.loops + total McJob.items s.jobs

/-- Every item that was allocated is in one place, the limit counts them, and `consumer_fun` was
called on what was passed to `mc_producer_run`, at most once for each time. -/
structure ItemsConserved (s : McState) : Prop where
  places : s.places = (s.allocated : Multiset MsgItem)
  nodup : (s.allocated.map MsgItem.addr).Nodup
  limit : s.mc.poolCache.limit.toNat = s.allocated.length
  limit_le : s.mc.poolCache.limit ≤ MSG_POOL_MAX_COUNT
  called : (s.called : Multiset (ListNode MsgItem)) ≤ (s.passed.map .item : List (ListNode MsgItem))

/-- The pools hold these items, and the items and calls are accounted for. -/
structure McInv (s : McState) (cached : List MsgItem) (queued : List QueuedMsg) : Prop where
  cacheType : s.mc.poolCache.type = .cache
  cache : s.mc.poolCache.Holds cached
  queueType : s.mc.poolConsumer.type = .consumerProducer
  queue : s.mc.poolConsumer.Holds queued
  queuedItem : ∀ pmsg ∈ queued, ∃ x, pmsg.node = .item x
  places : (cached : Multiset MsgItem) + total (fun pmsg => nodeItems pmsg.node) queued +
    (s.producers : Multiset MsgItem) + total LoopPhase.items s.loops +
    total McJob.items s.jobs = (s.allocated : Multiset MsgItem)
  nodup : (s.allocated.map MsgItem.addr).Nodup
  limit : s.mc.poolCache.limit.toNat = s.allocated.length
  limit_le : s.mc.poolCache.limit ≤ MSG_POOL_MAX_COUNT
  accounted : (s.called : Multiset (ListNode MsgItem)) +
    total (fun pmsg => {pmsg.node}) queued + total LoopPhase.uncalled s.loops +
    total McJob.uncalled s.jobs = (s.passed.map .item : List (ListNode MsgItem))

namespace McInv

variable {s : McState} {cached : List MsgItem} {queued : List QueuedMsg}

theorem conserved (h : McInv s cached queued) : ItemsConserved s := by
  refine ⟨?_, h.nodup, h.limit, h.limit_le, ?_⟩
  · rw [McState.places, h.cache.linked, h.queue.linked]
    exact h.places
  · rw [← h.accounted, add_assoc, add_assoc]
    exact Multiset.le_add_right _ _

/-- Messages with an item count as many items. -/
theorem card_nodeItems {queued : List QueuedMsg} (h : ∀ pmsg ∈ queued, ∃ x, pmsg.node = .item x) :
    Multiset.card (total (fun pmsg => nodeItems pmsg.node) queued) = queued.length := by
  induction queued with
  | nil => rfl
  | cons pmsg queued ih =>
    obtain ⟨⟨x, hx⟩, hrest⟩ := List.forall_mem_cons.mp h
    rw [total_cons, Multiset.card_add, ih hrest, hx, List.length_cons, add_comm]
    rfl

/-- The pools hold no more than was allocated. -/
theorem length_le (h : McInv s cached queued) :
    cached.length ≤ 100000 ∧ queued.length ≤ 100000 := by
  have hmax : s.mc.poolCache.limit.toNat ≤ 100000 := UInt32.le_iff_toNat_le.mp h.limit_le
  have hcard := congrArg Multiset.card h.places
  simp only [Multiset.card_add, Multiset.coe_card, card_nodeItems h.queuedItem] at hcard
  have hlimit := h.limit
  omega

/-- A loop moves on without an item coming or going. -/
theorem loop_same (h : McInv s cached queued) {c : ℕ} {phase phase' : LoopPhase}
    (hc : s.loops[c]? = some phase) (hitems : phase'.items = phase.items)
    (huncalled : phase'.uncalled = phase.uncalled) :
    McInv { s with loops := s.loops.set c phase' } cached queued := by
  refine ⟨h.cacheType, h.cache, h.queueType, h.queue, h.queuedItem, ?_, h.nodup, h.limit,
    h.limit_le, ?_⟩
  · rw [total_set_of_eq _ hc hitems]
    exact h.places
  · rw [total_set_of_eq _ hc huncalled]
    exact h.accounted

theorem start (h : McInv s cached queued) :
    McInv { s with loops := s.loops ++ [.outside] } cached queued := by
  refine ⟨h.cacheType, h.cache, h.queueType, h.queue, h.queuedItem, ?_, h.nodup, h.limit,
    h.limit_le, ?_⟩
  · rw [total_append, total_cons, total_nil, LoopPhase.items, add_zero, add_zero]
    exact h.places
  · rw [total_append, total_cons, total_nil, LoopPhase.uncalled, add_zero, add_zero]
    exact h.accounted

theorem coe_cons_eq_add {α : Type*} (x : α) (l : List α) :
    ((x :: l : List α) : Multiset α) = {x} + (l : Multiset α) := by
  rw [← Multiset.cons_coe, Multiset.singleton_add]

/-- What is taken out of a list is what the list loses. -/
theorem coe_erase_add {l : List MsgItem} {x : MsgItem} (h : x ∈ l) :
    (l : Multiset MsgItem) = (l.erase x : List MsgItem) + {x} := by
  rw [add_comm, ← coe_cons_eq_add]
  exact Multiset.coe_eq_coe.mpr (List.perm_cons_erase h)

/-- A producer passes its item on. -/
theorem produce (h : McInv s cached queued) {pmsg : MsgItem} {peer : ℤ} {frame : MsgFrame}
    {signal : Bool} {queue : MsgPool QueuedMsg} (hmem : pmsg ∈ s.producers)
    (hmp : s.mc.poolConsumer.msgPoolProducer ⟨.item pmsg, peer, frame⟩ = some (signal, queue)) :
    McInv { s with
      mc := { s.mc with poolConsumer := queue }, producers := s.producers.erase pmsg
      passed := pmsg :: s.passed } cached (queued ++ [⟨.item pmsg, peer, frame⟩]) := by
  have hlen := h.length_le.2
  have hsize : UInt32.size = 4294967296 := rfl
  obtain ⟨htype, hholds⟩ := h.queue.produce (by omega) hmp h.queueType
  refine ⟨h.cacheType, h.cache, htype, hholds, ?_, ?_, h.nodup, h.limit, h.limit_le, ?_⟩
  · intro q hq
    rcases List.mem_append.mp hq with hq | hq
    · exact h.queuedItem q hq
    · obtain rfl := List.mem_singleton.mp hq
      exact ⟨pmsg, rfl⟩
  · -- the item goes from the producer to the queue
    have hplaces := h.places
    rw [coe_erase_add hmem] at hplaces
    rw [total_append, total_cons, total_nil, nodeItems, add_zero, ← hplaces]
    abel
  · -- one more call is due, for the message that was passed on
    rw [total_append, total_cons, total_nil, List.map_cons, coe_cons_eq_add, ← h.accounted]
    abel

/-- A loop takes the first item of a queue that has one. -/
theorem taken (h : McInv s cached queued) {c : ℕ} {phase : LoopPhase} {node : ListNode QueuedMsg}
    {queue : MsgPool QueuedMsg} (hc : s.loops[c]? = some phase) (hitems : phase.items = 0)
    (huncalled : phase.uncalled = 0) (hcount : s.mc.poolConsumer.count ≠ 0)
    (htake : s.mc.poolConsumer.takeFirst = (node, queue)) :
    ∃ queued', McInv { s with
      mc := { s.mc with poolConsumer := queue }, loops := s.loops.set c (.afterGet node) }
      cached queued' := by
  obtain ⟨pmsg, rest, rfl, hfirst, hholds⟩ := h.queue.take hcount
  obtain ⟨rfl, rfl⟩ := Prod.mk.inj (htake.symm.trans hfirst)
  refine ⟨rest, h.cacheType, h.cache, h.queueType, hholds,
    fun q hq => h.queuedItem q (List.mem_cons_of_mem _ hq), ?_, h.nodup, h.limit, h.limit_le, ?_⟩
  · -- the item goes from the queue to the loop
    have hset := total_set LoopPhase.items hc (.got pmsg.node)
    rw [hitems, add_zero] at hset
    rw [LoopPhase.afterGet, hset, LoopPhase.items, ← h.places, total_cons]
    abel
  · -- and so does the call that is due
    have hset := total_set LoopPhase.uncalled hc (.got pmsg.node)
    rw [huncalled, add_zero] at hset
    rw [LoopPhase.afterGet, hset, LoopPhase.uncalled, ← h.accounted, total_cons]
    abel

/-- The cache after an item came back, from wherever it was. -/
theorem put (h : McInv s cached queued) {x : MsgItem} {cache : MsgPool MsgItem}
    {producers : List MsgItem} {loops : List LoopPhase} {jobs : List McJob}
    (hput : MsgConsumer.mcPutMsgToCache s.mc.poolCache x = some cache)
    (hplaces : (s.producers : Multiset MsgItem) + total LoopPhase.items s.loops +
      total McJob.items s.jobs = (producers : Multiset MsgItem) + total LoopPhase.items loops +
      total McJob.items jobs + {x})
    (hloops : total LoopPhase.uncalled loops = total LoopPhase.uncalled s.loops)
    (hjobs : total McJob.uncalled jobs = total McJob.uncalled s.jobs) :
    McInv { s with
      mc := { s.mc with poolCache := cache }, producers := producers, loops := loops
      jobs := jobs } (x :: cached) queued := by
  have hlen := h.length_le.1
  have hsize : UInt32.size = 4294967296 := rfl
  obtain ⟨htype, hlimit, hholds⟩ := h.cache.put (by omega) hput h.cacheType
  refine ⟨htype, hholds, h.queueType, h.queue, h.queuedItem, ?_, h.nodup, ?_, ?_, ?_⟩
  · have hold := h.places
    rw [add_assoc, add_assoc, ← add_assoc (s.producers : Multiset MsgItem), hplaces] at hold
    rw [coe_cons_eq_add, ← hold]
    abel
  · rw [hlimit]
    exact h.limit
  · rw [hlimit]
    exact h.limit_le
  · rw [hloops, hjobs]
    exact h.accounted

theorem giveBack (h : McInv s cached queued) {x : MsgItem} {cache : MsgPool MsgItem}
    (hmem : x ∈ s.producers) (hput : MsgConsumer.mcPutMsgToCache s.mc.poolCache x = some cache) :
    McInv { s with mc := { s.mc with poolCache := cache }, producers := s.producers.erase x }
      (x :: cached) queued := by
  -- the producer has the item no longer
  refine h.put hput ?_ rfl rfl
  rw [coe_erase_add hmem]
  abel

theorem reclaim (h : McInv s cached queued) {c : ℕ} {x : MsgItem} {cache : MsgPool MsgItem}
    (hc : s.loops[c]? = some (.served (.item x)))
    (hput : MsgConsumer.mcPutMsgToCache s.mc.poolCache x = some cache) :
    McInv { s with mc := { s.mc with poolCache := cache }, loops := s.loops.set c .outside }
      (x :: cached) queued := by
  -- the loop had it, and called `consumer_fun` on it before
  refine h.put hput ?_ (total_set_of_eq _ hc rfl) rfl
  have hset := total_set LoopPhase.items hc .outside
  rw [LoopPhase.items, LoopPhase.items, nodeItems, add_zero] at hset
  rw [← hset]
  abel

theorem jobReclaim (h : McInv s cached queued) {j : ℕ} {x : MsgItem} {cache : MsgPool MsgItem}
    (hj : s.jobs[j]? = some (.served (.item x)))
    (hput : MsgConsumer.mcPutMsgToCache s.mc.poolCache x = some cache) :
    McInv { s with mc := { s.mc with poolCache := cache }, jobs := s.jobs.set j .done }
      (x :: cached) queued := by
  -- so had the job
  refine h.put hput ?_ rfl (total_set_of_eq _ hj rfl)
  have hset := total_set McJob.items hj .done
  rw [McJob.items, McJob.items, nodeItems, add_zero] at hset
  rw [← hset]
  abel

theorem serve (h : McInv s cached queued) {c : ℕ} {node : ListNode MsgItem}
    (hc : s.loops[c]? = some (.got node)) :
    McInv { s with loops := s.loops.set c (.served node), called := node :: s.called }
      cached queued := by
  refine ⟨h.cacheType, h.cache, h.queueType, h.queue, h.queuedItem, ?_, h.nodup, h.limit,
    h.limit_le, ?_⟩
  · have hsame : (LoopPhase.served node).items = (LoopPhase.got node).items := rfl
    rw [total_set_of_eq _ hc hsame]
    exact h.places
  · -- what was to be called is called
    have hset := total_set LoopPhase.uncalled hc (.served node)
    rw [LoopPhase.uncalled, LoopPhase.uncalled, add_zero] at hset
    rw [← h.accounted, coe_cons_eq_add, ← hset]
    abel

theorem jobServe (h : McInv s cached queued) {j : ℕ} {node : ListNode MsgItem}
    (hj : s.jobs[j]? = some (.dispatched node)) :
    McInv { s with jobs := s.jobs.set j (.served node), called := node :: s.called }
      cached queued := by
  refine ⟨h.cacheType, h.cache, h.queueType, h.queue, h.queuedItem, ?_, h.nodup, h.limit,
    h.limit_le, ?_⟩
  · have hsame : (McJob.served node).items = (McJob.dispatched node).items := rfl
    rw [total_set_of_eq _ hj hsame]
    exact h.places
  · -- what was to be called is called
    have hset := total_set McJob.uncalled hj (.served node)
    rw [McJob.uncalled, McJob.uncalled, add_zero] at hset
    rw [← h.accounted, coe_cons_eq_add, ← hset]
    abel

theorem dispatch (h : McInv s cached queued) {c : ℕ} {node : ListNode MsgItem}
    (hc : s.loops[c]? = some (.got node)) :
    McInv { s with loops := s.loops.set c .outside, jobs := s.jobs ++ [.dispatched node] }
      cached queued := by
  refine ⟨h.cacheType, h.cache, h.queueType, h.queue, h.queuedItem, ?_, h.nodup, h.limit,
    h.limit_le, ?_⟩
  · -- the item goes from the loop to the job
    have hset := total_set LoopPhase.items hc .outside
    rw [LoopPhase.items, LoopPhase.items, add_zero] at hset
    rw [total_append, total_cons, total_nil, McJob.items, ← h.places, ← hset]
    abel
  · -- the call that is due goes with it
    have hset := total_set LoopPhase.uncalled hc .outside
    rw [LoopPhase.uncalled, LoopPhase.uncalled, add_zero] at hset
    rw [total_append, total_cons, total_nil, McJob.uncalled, ← h.accounted, ← hset]
    abel

/-- What is in the cache was allocated. -/
theorem mem_allocated (h : McInv s cached queued) {x : MsgItem} (hx : x ∈ cached) :
    x ∈ s.allocated := by
  rw [← Multiset.mem_coe, ← h.places]
  simp [hx]

/-- The cache allocates an item, with an address that no other has. -/
theorem allocated_new (h : McInv s cached queued) {a : ℕ} {x : MsgItem} (hx : x.addr = a)
    (hfresh : ∀ y ∈ s.allocated, y.addr ≠ a) (hlt : s.mc.poolCache.limit < MSG_POOL_MAX_COUNT) :
    McInv { s with
      mc := { s.mc with poolCache :=
        { s.mc.poolCache with limit := s.mc.poolCache.limit + 1 } }
      producers := handOut s.producers (.item x)
      allocated := allocate s.allocated (.item x) } cached queued := by
  have hmem : x ∉ s.allocated := fun hin => hfresh x hin hx
  have hlt' : s.mc.poolCache.limit.toNat < 100000 := UInt32.lt_iff_toNat_lt.mp hlt
  have hsize : UInt32.size = 4294967296 := rfl
  have hsucc := MsgPool.toNat_add_one (n := s.mc.poolCache.limit) (by omega)
  refine ⟨h.cacheType, ⟨h.cache.linked, h.cache.count⟩, h.queueType, h.queue,
    h.queuedItem, ?_, ?_, ?_, ?_, h.accounted⟩
  · -- it is with the producer
    rw [allocate, if_neg hmem, handOut, coe_cons_eq_add, coe_cons_eq_add, ← h.places]
    abel
  · rw [allocate, if_neg hmem, List.map_cons, List.nodup_cons]
    refine ⟨?_, h.nodup⟩
    rw [List.mem_map, hx]
    rintro ⟨y, hin, hy⟩
    exact hfresh y hin hy
  · rw [allocate, if_neg hmem, List.length_cons, ← h.limit]
    exact hsucc
  · rw [UInt32.le_iff_toNat_le]
    show (s.mc.poolCache.limit + 1).toNat ≤ 100000
    omega

/-- A producer gets the first item of the cache, a new one, or nothing. -/
theorem get (h : McInv s cached queued) {answer : Option ℕ} {node : ListNode MsgItem}
    {cache : MsgPool MsgItem} (hfresh : ∀ a, answer = some a → ∀ x ∈ s.allocated, x.addr ≠ a)
    (hget : MsgConsumer.mcProducerGetMsg s.mc.poolCache answer = (node, cache)) :
    ∃ cached', McInv { s with
      mc := { s.mc with poolCache := cache }, producers := handOut s.producers node
      allocated := allocate s.allocated node } cached' queued := by
  rw [MsgConsumer.mcProducerGetMsg] at hget
  by_cases hzero : s.mc.poolCache.count = 0
  · rw [MsgPool.msgPoolGet_of_eq_zero _ _ h.cacheType hzero] at hget
    split at hget
    · next x hx =>
      split at hget
      · next hlt =>
        obtain ⟨rfl, rfl⟩ := Prod.mk.inj hget
        obtain ⟨a, ha, rfl⟩ := Option.map_eq_some_iff.mp hx
        exact ⟨cached, h.allocated_new rfl (hfresh a ha) hlt⟩
      · -- the limit is reached
        obtain ⟨rfl, rfl⟩ := Prod.mk.inj hget
        exact ⟨cached, h⟩
    · -- there is no memory
      obtain ⟨rfl, rfl⟩ := Prod.mk.inj hget
      exact ⟨cached, h⟩
  · -- the first item goes from the cache to the producer
    rw [MsgPool.msgPoolGet_of_pos _ h.cacheType (UInt32.le_refl _) hzero] at hget
    obtain ⟨x, rest, rfl, htake, hholds⟩ := h.cache.take hzero
    obtain ⟨rfl, rfl⟩ := Prod.mk.inj (hget.symm.trans htake)
    have hmem := h.mem_allocated List.mem_cons_self
    refine ⟨rest, h.cacheType, hholds, h.queueType, h.queue, h.queuedItem, ?_, ?_, ?_,
      h.limit_le, h.accounted⟩
    · rw [allocate, if_pos hmem, handOut, ← h.places, coe_cons_eq_add, coe_cons_eq_add]
      abel
    · rw [allocate, if_pos hmem]
      exact h.nodup
    · rw [allocate, if_pos hmem]
      exact h.limit

/-- A step that its guard allows keeps the items and the calls accounted for. -/
theorem step (h : McInv s cached queued) {label : McLabel} {s' : McState}
    (hguard : mcGuard s label) (hstep : McStep s label s') :
    ∃ cached' queued', McInv s' cached' queued' := by
  cases hstep with
  | get hfresh hget =>
    obtain ⟨cached', h'⟩ := h.get hfresh hget
    exact ⟨cached', queued, h'⟩
  | giveBack hmem hput => exact ⟨_, _, h.giveBack hmem hput⟩
  | produceQuiet hmem hmp => exact ⟨_, _, h.produce hmem hmp⟩
  | produceUnheard hmem hmp => exact ⟨_, _, h.produce hmem hmp⟩
  | produceWake hmem hmp hc => exact ⟨_, _, (h.produce hmem hmp).loop_same hc rfl rfl⟩
  | start => exact ⟨_, _, h.start⟩
  | enterWait hc => exact ⟨_, _, h.loop_same hc rfl rfl⟩
  -- the lock is held from the test of the count on
  | enterTake hc htake =>
    rw [MsgPool.msgPoolConsumer_eq h.queueType] at htake
    split at htake
    · cases htake
    · next hcount =>
      obtain ⟨queued', h'⟩ := h.taken hc rfl rfl hcount (Option.some.inj htake)
      exact ⟨cached, queued', h'⟩
  | spurious hc => exact ⟨_, _, h.loop_same hc rfl rfl⟩
  | resume hc htake =>
    obtain ⟨queued', h'⟩ := h.taken hc rfl rfl hguard htake
    exact ⟨cached, queued', h'⟩
  | serve hc => exact ⟨_, _, h.serve hc⟩
  | reclaim hc hput => exact ⟨_, _, h.reclaim hc hput⟩
  | dispatch hc => exact ⟨_, _, h.dispatch hc⟩
  | dispatchFail _ _ _ hne => exact absurd hguard hne
  | skip => cases hguard
  | jobServe hj => exact ⟨_, _, h.jobServe hj⟩
  | jobReclaim hj hput => exact ⟨_, _, h.jobReclaim hj hput⟩

end McInv

/-- The blocks that an allocator answers with are different. -/
theorem allocItems_addr {alloc : ℕ → Option ℕ} {len : UInt32} {n : ℕ} {items : List MsgItem}
    (hdistinct : ∀ i j a, alloc i = some a → alloc j = some a → i = j)
    (h : MsgPool.allocItems (fun i => memMalloc (alloc i) len) n = some items) :
    (items.map MsgItem.addr).Nodup ∧ ∀ x ∈ items, ∃ i < n, alloc i = some x.addr := by
  induction n generalizing items with
  | zero =>
    obtain rfl := Option.some.inj h
    simp
  | succ n ih =>
    rw [MsgPool.allocItems] at h
    split at h
    · cases h
    · next items' hrec =>
      obtain ⟨x, hx, rfl⟩ := Option.map_eq_some_iff.mp h
      obtain ⟨a, ha, rfl⟩ := Option.map_eq_some_iff.mp hx
      obtain ⟨hnodup, hmem⟩ := ih hrec
      constructor
      · rw [List.map_cons, List.nodup_cons]
        refine ⟨fun hin => ?_, hnodup⟩
        obtain ⟨y, hy, heq⟩ := List.mem_map.mp hin
        obtain ⟨i, hi, hyi⟩ := hmem y hy
        have hya : y.addr = a := heq
        -- items are allocated under different numbers
        have hsame := hdistinct i n a (hya ▸ hyi) ha
        omega
      · refine List.forall_mem_cons.mpr ⟨⟨n, Nat.lt_succ_self n, ha⟩, fun y hy => ?_⟩
        obtain ⟨i, hi, hyi⟩ := hmem y hy
        exact ⟨i, Nat.lt_succ_of_lt hi, hyi⟩

/-- The cache as an initialiser leaves it: full of fresh items. -/
structure FreshCache (cache : MsgPool MsgItem) (alloc : ℕ → Option ℕ) (items : List MsgItem) :
    Prop where
  type : cache.type = .cache
  limit : cache.limit = cache.count
  limit_le : cache.limit ≤ MSG_POOL_MAX_COUNT
  linked : cache.msgList = .linked items
  fresh : MsgPool.allocItems (fun i => memMalloc (alloc i) cache.msgPayloadLen)
    cache.count.toNat = some items

/-- Both initialisers leave a full cache, and a queue with as many items as they put there. -/
theorem runInit_ok {mc mc' : MsgConsumer} {alloc allocQueue : ℕ → Option ℕ}
    {blank : ℤ × MsgFrame} {cacheOk queueOk : Bool} {init : McInit}
    (h : mc.runInit alloc allocQueue blank cacheOk queueOk init = some (true, mc')) :
    (∃ items, FreshCache mc'.poolCache alloc items) ∧
      mc'.poolConsumer.type = .consumerProducer ∧ mc'.poolConsumer.count = init.queueCount ∧
      ∃ queued, mc'.poolConsumer.msgList = .linked queued ∧
        queued.length = init.queueCount.toNat := by
  -- what `msg_pool_init` says of the two pools
  have hcache : ∀ {mp mp' : MsgPool MsgItem} {count len : UInt32} {ok : Bool},
      mp.msgPoolInit .cache count len (fun len i => memMalloc (alloc i) len) ok true =
        some (true, mp') → ∃ items, FreshCache mp' alloc items := by
    intro mp mp' count len ok hinit
    obtain ⟨htype, hlimit, hle, -, items, halloc, hlinked⟩ := MsgPool.msgPoolInit_ok hinit
    exact ⟨items, htype, hlimit, hlimit ▸ hle, hlinked, halloc⟩
  have hqueue : ∀ {mp mp' : MsgPool QueuedMsg} {count len : UInt32}
      {fresh : UInt32 → ℕ → Option QueuedMsg} {ok : Bool},
      mp.msgPoolInit .consumerProducer count len fresh ok true = some (true, mp') →
        mp'.type = .consumerProducer ∧ mp'.count = count ∧
          ∃ queued, mp'.msgList = .linked queued ∧ queued.length = count.toNat := by
    intro mp mp' count len fresh ok hinit
    obtain ⟨htype, -, -, hcount, queued, halloc, hlinked⟩ := MsgPool.msgPoolInit_ok hinit
    have heq := hcount (by decide)
    exact ⟨htype, heq, queued, hlinked, heq ▸ (MsgPool.allocItems_spec halloc).1⟩
  cases init with
  | multiThread =>
    rw [MsgConsumer.runInit, MsgConsumer.mcMultiThreadInit] at h
    split at h
    · cases h
    · cases h
    · next cache hc =>
      split at h
      · cases h
      · next ok queue hq =>
        obtain ⟨rfl, rfl⟩ := Prod.mk.inj (Option.some.inj h)
        exact ⟨hcache hc, hqueue hq⟩
  | withMsglen count len =>
    rw [MsgConsumer.runInit, MsgConsumer.mcInitWithMsglen] at h
    split at h
    · cases h
    · cases h
    · next cache hc =>
      split at h
      · cases h
      · next ok queue hq =>
        obtain ⟨rfl, rfl⟩ := Prod.mk.inj (Option.some.inj h)
        exact ⟨hcache hc, hqueue hq⟩

/-- An initialiser that leaves the queue empty leaves every item in the cache. -/
theorem McStart.inv {init : McInit} {s : McState} (h : McStart init s)
    (hqueue : init.queueCount = 0) : ∃ cached, McInv s cached [] := by
  obtain ⟨mc, mc', alloc, allocQueue, blank, cacheOk, queueOk, hinit, hdistinct, hs⟩ := h
  obtain ⟨⟨items, hcache⟩, htype, hcount, queued, hlinked, hlength⟩ := runInit_ok hinit
  rw [hqueue] at hcount hlength
  obtain rfl := List.length_eq_zero_iff.mp hlength
  have hlen := (MsgPool.allocItems_spec hcache.fresh).1
  have hitems : mc'.poolCache.msgList.items = items := by rw [hcache.linked, MsgList.items]
  rw [hs, hitems]
  refine ⟨items, hcache.type, ⟨hcache.linked, hlen.symm⟩, htype, ⟨hlinked, ?_⟩, by simp, ?_,
    (allocItems_addr hdistinct hcache.fresh).1, ?_, hcache.limit_le, rfl⟩
  · rw [hcount]
    rfl
  · simp
  · rw [hcache.limit]
    exact hlen.symm

/-- No item is lost, invented or in two places, and `consumer_fun` is called only on what was
passed on, in every run from an empty queue whose steps the guard allows. -/
theorem itemsConserved_run {init : McInit} {s : McState} (hs : McStart init s)
    (hqueue : init.queueCount = 0) {r : List (McLabel × McState)} (hr : IsRun McStep s r)
    (hg : Guarded mcGuard s r) : Always ItemsConserved s r := by
  obtain ⟨cached, hinv⟩ := hs.inv hqueue
  have hall : Always (fun t => ∃ cached queued, McInv t cached queued) s r :=
    always_of_guarded (fun _ _ _ ⟨_, _, h⟩ hguard hst => h.step hguard hst) ⟨cached, [], hinv⟩
      hr hg
  refine ⟨hinv.conserved, Along.imp (fun _ _ _ h => ?_) hall.2⟩
  obtain ⟨cached', queued', h'⟩ := h
  exact h'.conserved

/-- An item of the cache, and one of the queue as `mc_init_with_msglen` makes it. -/
def cachedItem : MsgItem := ⟨1000, 64⟩

def blankMsg : QueuedMsg := ⟨.item ⟨2000, 64⟩, 0, listRequest⟩

/-- One item in the cache, an empty queue, and a `consumer_fun` for the thread pool. -/
def emptyStart : McState :=
  ⟨⟨⟨.cache, 1, 1, 64, .linked [cachedItem]⟩, .emptyQueue, true⟩, true, true, [], [], [],
    [cachedItem], [], []⟩

theorem mcStart_emptyStart : McStart .multiThread emptyStart :=
  ⟨{ MsgConsumer.zeroed with poolCache := ⟨.unset, 0, 1, 64, .cleared⟩ }, emptyStart.mc,
    fun i => some (1000 + i), fun _ => none, (0, listRequest), true, true, rfl,
    fun _ _ _ hi hj => Nat.add_left_cancel (Option.some.inj (hi.trans hj.symm)), rfl⟩

/-- The item on its way round: to a producer, to the queue, to a loop, to a job, to the cache. -/
def roundTripRun : List (McLabel × McState) :=
  let mc : MsgConsumer := ⟨⟨.cache, 1, 0, 64, .linked []⟩, .emptyQueue, true⟩
  let queued : MsgConsumer :=
    { mc with poolConsumer := ⟨.consumerProducer, 0, 1, 0, .linked
        [⟨.item cachedItem, 5, listRequest⟩]⟩ }
  let items := [cachedItem]
  let node : ListNode MsgItem := .item cachedItem
  [(.get none, ⟨mc, true, true, items, [], [], items, [], []⟩),
    (.start, ⟨mc, true, true, items, [.outside], [], items, [], []⟩),
    (.enter 0, ⟨mc, true, true, items, [.waiting], [], items, [], []⟩),
    (.produce cachedItem (some 0), ⟨queued, true, true, [], [.woken], [], items, items, []⟩),
    (.resume 0, ⟨mc, true, true, [], [.got node], [], items, items, []⟩),
    (.dispatch 0 .ok, ⟨mc, true, true, [], [.outside], [.dispatched node], items, items, []⟩),
    (.jobServe 0, ⟨mc, true, true, [], [.outside], [.served node], items, items, [node]⟩),
    (.jobReclaim 0, ⟨emptyStart.mc, true, true, [], [.outside], [.done], items, items, [node]⟩)]

theorem isRun_roundTripRun : IsRun McStep emptyStart roundTripRun :=
  ⟨@McStep.get emptyStart none (.item cachedItem) _ (by simp) rfl, .start, .enterWait rfl rfl,
    @McStep.produceWake _ cachedItem 5 listRequest _ 0 (by decide) rfl rfl,
    @McStep.resume _ 0 (.item ⟨.item cachedItem, 5, listRequest⟩) _ rfl rfl, .dispatch rfl rfl rfl,
    .jobServe rfl, @McStep.jobReclaim _ 0 cachedItem _ rfl rfl, trivial⟩

theorem itemsConserved_roundTripRun : Always ItemsConserved emptyStart roundTripRun :=
  itemsConserved_run mcStart_emptyStart rfl isRun_roundTripRun
    ⟨trivial, trivial, trivial, trivial, (by decide : (1 : UInt32) ≠ 0), rfl, trivial, trivial,
      trivial⟩

/-- The same consumer after `mc_init_with_msglen`, which fills the queue as well. -/
def prefilledStart : McState :=
  ⟨⟨⟨.cache, 1, 1, 64, .linked [cachedItem]⟩, ⟨.consumerProducer, 1, 1, 64, .linked [blankMsg]⟩,
    true⟩, true, false, [], [], [], [cachedItem], [], []⟩

theorem mcStart_prefilledStart : McStart (.withMsglen 1 64) prefilledStart :=
  ⟨MsgConsumer.zeroed, prefilledStart.mc, fun i => some (1000 + i), fun i => some (2000 + i),
    (0, listRequest), true, true, rfl,
    fun _ _ _ hi hj => Nat.add_left_cancel (Option.some.inj (hi.trans hj.symm)), rfl⟩

/-- The consumer loop calls `consumer_fun` on the blank item. -/
def blankRun : List (McLabel × McState) :=
  let mc : MsgConsumer := { prefilledStart.mc with
    poolConsumer := ⟨.consumerProducer, 1, 0, 64, .linked []⟩ }
  [(.start, { prefilledStart with loops := [.outside] }),
    (.enter 0, { prefilledStart with mc := mc, loops := [.got blankMsg.node] }),
    (.serve 0, { prefilledStart with
      mc := mc, loops := [.served blankMsg.node], called := [blankMsg.node] })]

theorem isRun_blankRun : IsRun McStep prefilledStart blankRun :=
  ⟨.start, @McStep.enterTake _ 0 (.item blankMsg) _ rfl rfl, .serve rfl rfl rfl, trivial⟩

/-- After `mc_init_with_msglen` the consumer is called on what no producer passed on. -/
theorem not_itemsConserved_prefilled :
    ∃ init s r, McStart init s ∧ IsRun McStep s r ∧ ¬Always ItemsConserved s r ∧
      ¬Always (fun t => (t.called : Multiset (ListNode MsgItem)) ≤
        (t.passed.map .item : List (ListNode MsgItem))) s r := by
  have hcalled : ¬Always (fun t => (t.called : Multiset (ListNode MsgItem)) ≤
      (t.passed.map .item : List (ListNode MsgItem))) prefilledStart blankRun := by
    intro h
    have hle := Multiset.card_le_card h.last
    exact absurd hle (by decide)
  exact ⟨_, _, _, mcStart_prefilledStart, isRun_blankRun,
    fun h => hcalled (h.imp fun _ ht => ht.called), hcalled⟩

end Gendo
