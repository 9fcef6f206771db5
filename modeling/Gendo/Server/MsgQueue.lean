import Gendo.Library.Channel
import Gendo.Library.StepSystem
import Gendo.Server.MsgPool
import Mathlib.Logic.Function.Basic
import Mathlib.Tactic.NormNum

/-!
# The producer and consumer queue under interleaving

Any number of threads call `msg_pool_producer` and `msg_pool_consumer` on one pool. A step of
`QueueStep` is one critical section of the pool's lock, or a wake-up of a thread that sleeps on
the condition variable. The condition variable follows POSIX: a signal wakes one of the threads
that sleep on it, if any; a thread may wake without a signal; and a woken thread takes the lock
some time later, so that others may run in between.

`msg_pool_consumer` tests `count == 0` once, with an `if`, and takes the first node of the list
after its wait whatever it finds there. `queueCorrect_iff` shows what this costs: a run behaves
as a queue in each of its states exactly when no consumer comes back from its wait to an empty
pool (and fewer than `2 ^ 32` items are ever queued). The signal on the change from 0 to 1 alone
loses no wake-up: `QueueCorrect.live` is kept by every such run.

## Main definitions

* `QueueStep`: the steps of the threads.
* `Represents`: the pool is a faithful picture of a `Channel`.
* `QueueCorrect`: what the queue is for, as a property of states.
* `queueGuard`: which steps keep it.
-/

namespace Gendo

open StepSystem

variable {κ α : Type*}

/-- Where a consumer thread is. -/
inductive ConsumerPhase
  /-- Not in `msg_pool_consumer`, or before its lock. -/
  | outside
  /-- Asleep in `thd_cond_wait`. -/
  | waiting
  /-- Woken in `thd_cond_wait`, and in need of the lock. -/
  | woken
  deriving DecidableEq, Repr

/-- The pool, its consumer threads, and the history of both ends. -/
structure QueueState (κ α : Type*) where
  pool : MsgPool α
  phase : κ → ConsumerPhase
  /-- What was handed to `msg_pool_producer`, oldest first. -/
  produced : List α
  /-- What `msg_pool_consumer` returned, oldest first. -/
  returned : List (ListNode α)

/-- The steps of the threads. -/
inductive QueueLabel (κ α : Type*)
  /-- `msg_pool_producer` with this item, and the consumer its signal wakes. -/
  | produce (pmsg : α) (wake : Option κ)
  /-- A consumer takes the lock at the start of `msg_pool_consumer`. -/
  | enter (c : κ)
  /-- A sleeping consumer wakes without a signal. -/
  | spurious (c : κ)
  /-- A woken consumer takes the lock again. -/
  | resume (c : κ)

/-- The pool initialised empty, with every consumer outside. -/
def QueueState.start : QueueState κ α :=
  ⟨MsgPool.emptyQueue, fun _ => .outside, [], []⟩

/-- One critical section or wake-up. -/
inductive QueueStep [DecidableEq κ] :
    QueueState κ α → QueueLabel κ α → QueueState κ α → Prop
  | produceQuiet {s pmsg mp} : s.pool.msgPoolProducer pmsg = some (false, mp) →
      QueueStep s (.produce pmsg none)
        { s with pool := mp, produced := s.produced ++ [pmsg] }
  | produceUnheard {s pmsg mp} : s.pool.msgPoolProducer pmsg = some (true, mp) →
      (∀ c, s.phase c ≠ .waiting) →
      QueueStep s (.produce pmsg none)
        { s with pool := mp, produced := s.produced ++ [pmsg] }
  | produceWake {s pmsg mp c} : s.pool.msgPoolProducer pmsg = some (true, mp) →
      s.phase c = .waiting →
      QueueStep s (.produce pmsg (some c))
        { s with pool := mp, produced := s.produced ++ [pmsg]
                 phase := Function.update s.phase c .woken }
  | enterWait {s c} : s.phase c = .outside → s.pool.msgPoolConsumer = none →
      QueueStep s (.enter c) { s with phase := Function.update s.phase c .waiting }
  | enterTake {s c node mp} : s.phase c = .outside →
      s.pool.msgPoolConsumer = some (node, mp) →
      QueueStep s (.enter c) { s with pool := mp, returned := s.returned ++ [node] }
  | spurious {s c} : s.phase c = .waiting →
      QueueStep s (.spurious c) { s with phase := Function.update s.phase c .woken }
  | resume {s c} : s.phase c = .woken →
      QueueStep s (.resume c)
        { s with pool := s.pool.takeFirst.2, returned := s.returned ++ [s.pool.takeFirst.1]
                 phase := Function.update s.phase c .outside }

/-- The pool and the histories are those of the channel: its pending items are the linked items
and their number is the count. -/
structure Represents (s : QueueState κ α) (ch : Channel α) : Prop where
  type : s.pool.type = .consumerProducer
  produced : s.produced = ch.sent
  returned : s.returned = ch.received.map .item
  linked : s.pool.msgList = .linked ch.pending
  count : s.pool.count.toNat = ch.pending.length

/-- Every consumer sleeps, and there is one. -/
def AllAsleep (s : QueueState κ α) : Prop :=
  (∃ c, s.phase c = .waiting) ∧ ∀ c, s.phase c = .waiting

/-- What the queue is for. Every returned node is a real item, produced and not returned before,
in production order, and `count` is the number of linked items, none below zero: the pool
represents a channel. And no item stays queued while every consumer sleeps. -/
structure QueueCorrect (s : QueueState κ α) : Prop where
  channel : ∃ ch, Represents s ch
  live : AllAsleep s → s.pool.msgList = .linked []

/-- The steps that keep the queue correct: no consumer comes back from its wait to a count of
zero, and no item is produced when the count would wrap. -/
def queueGuard (s : QueueState κ α) : QueueLabel κ α → Prop
  | .produce _ _ => s.pool.count.toNat + 1 < 2 ^ 32
  | .resume _ => s.pool.count ≠ 0
  | .enter _ | .spurious _ => True

/-- The initialised pool represents the empty channel. -/
theorem represents_start : Represents (QueueState.start : QueueState κ α) Channel.empty :=
  ⟨rfl, rfl, rfl, rfl, rfl⟩

theorem queueCorrect_start : QueueCorrect (QueueState.start : QueueState κ α) :=
  ⟨⟨_, represents_start⟩, fun _ => rfl⟩

namespace Represents

variable {s : QueueState κ α} {ch : Channel α}

/-- A count of zero means that nothing is linked. -/
theorem count_eq_zero_iff (h : Represents s ch) : s.pool.count = 0 ↔ ch.pending = [] := by
  rw [← List.length_eq_zero_iff, ← h.count]
  exact ⟨fun hc => by simp [hc], fun hc => UInt32.toNat_inj.mp (by simpa using hc)⟩

/-- Only the phases of the consumers changed. -/
theorem set_phase (h : Represents s ch) (phase : κ → ConsumerPhase) :
    Represents { s with phase := phase } ch :=
  ⟨h.type, h.produced, h.returned, h.linked, h.count⟩

/-- Producing an item sends it on the channel, and signals if nothing was pending. -/
theorem produce (h : Represents s ch) (hcount : s.pool.count.toNat + 1 < 2 ^ 32) {x : α}
    {signal : Bool} {mp : MsgPool α} (hp : s.pool.msgPoolProducer x = some (signal, mp)) :
    Represents { s with pool := mp, produced := s.produced ++ [x] } (ch.send x) ∧
      (signal = true ↔ ch.pending = []) := by
  rw [MsgPool.msgPoolProducer_linked x h.type h.linked] at hp
  simp only [Option.some.injEq, Prod.mk.injEq] at hp
  obtain ⟨rfl, rfl⟩ := hp
  -- the signal is given where the count goes from 0 to 1
  have hsucc := MsgPool.toNat_add_one hcount
  refine ⟨⟨h.type, by simp [h.produced], by simp [h.returned], by simp, ?_⟩, ?_⟩
  · simp [hsucc, h.count]
  · rw [← h.count_eq_zero_iff, beq_iff_eq, ← UInt32.toNat_inj, ← UInt32.toNat_inj, hsucc]
    simp

/-- Taking a node when something is pending receives the oldest item. -/
theorem take (h : Represents s ch) (hcount : s.pool.count ≠ 0) :
    ∃ ch', Represents { s with pool := s.pool.takeFirst.2
                               returned := s.returned ++ [s.pool.takeFirst.1] } ch' := by
  -- the count is not 0, so taking one off does not wrap
  obtain ⟨x, rest, hpending, htake, hholds⟩ := MsgPool.Holds.take ⟨h.linked, h.count⟩ hcount
  refine ⟨ch.receive x rest hpending, ?_⟩
  rw [htake]
  refine ⟨h.type, by simp [h.produced], by simp [h.returned], by simp, ?_⟩
  rw [Channel.pending_receive]
  exact hholds.count

end Represents

variable [DecidableEq κ]

/-- A consumer that was moved to another phase than `waiting` is not asleep. -/
private theorem not_allAsleep_update {s : QueueState κ α} {c : κ} {ph : ConsumerPhase}
    (hph : ph ≠ .waiting) (pool : MsgPool α) (produced : List α) (returned : List (ListNode α)) :
    ¬AllAsleep (⟨pool, Function.update s.phase c ph, produced, returned⟩ : QueueState κ α) :=
  fun h => hph (by simpa using h.2 c)

/-- Every guarded step keeps the queue correct. -/
theorem queueCorrect_step {s t : QueueState κ α} {a : QueueLabel κ α} (hs : QueueCorrect s)
    (hstep : QueueStep s a t) (hg : queueGuard s a) : QueueCorrect t := by
  obtain ⟨⟨ch, hch⟩, hlive⟩ := hs
  cases hstep with
  | produceQuiet hp =>
    obtain ⟨hch', hsignal⟩ := hch.produce hg hp
    refine ⟨⟨_, hch'⟩, fun hasleep => ?_⟩
    -- something was queued already, so the consumers were not all asleep before
    have hempty := hlive hasleep
    rw [hch.linked, MsgList.linked.injEq] at hempty
    exact absurd (hsignal.mpr hempty) (by simp)
  | produceUnheard hp hnone =>
    obtain ⟨hch', -⟩ := hch.produce hg hp
    exact ⟨⟨_, hch'⟩, fun ⟨⟨c, hc⟩, _⟩ => absurd hc (hnone c)⟩
  | produceWake hp hc =>
    obtain ⟨hch', -⟩ := hch.produce hg hp
    exact ⟨⟨_, hch'.set_phase _⟩, fun h => absurd h (not_allAsleep_update (by simp) _ _ _)⟩
  | enterWait hc hwait =>
    refine ⟨⟨ch, hch.set_phase _⟩, fun _ => ?_⟩
    -- a consumer only falls asleep where nothing is queued
    have hzero : s.pool.count = 0 := by
      rw [MsgPool.msgPoolConsumer_eq hch.type] at hwait
      simpa using hwait
    rw [hch.linked, hch.count_eq_zero_iff.mp hzero]
  | @enterTake c _ _ hc htake =>
    rw [MsgPool.msgPoolConsumer_eq hch.type] at htake
    split at htake
    · cases htake
    · next hcount =>
      rw [Option.some.injEq] at htake
      obtain ⟨ch', hch'⟩ := hch.take hcount
      rw [htake] at hch'
      refine ⟨⟨ch', hch'⟩, fun hasleep => ?_⟩
      -- the consumer that took the item is not asleep
      have : ConsumerPhase.outside = .waiting := hc.symm.trans (hasleep.2 c)
      cases this
  | spurious hc =>
    exact ⟨⟨ch, hch.set_phase _⟩, fun h => absurd h (not_allAsleep_update (by simp) _ _ _)⟩
  | resume hc =>
    obtain ⟨ch', hch'⟩ := hch.take hg
    exact ⟨⟨ch', hch'.set_phase _⟩, fun h => absurd h (not_allAsleep_update (by simp) _ _ _)⟩

/-- A step that the guard rejects ends in a state that is not correct. -/
theorem queueGuard_of_queueCorrect {s t : QueueState κ α} {a : QueueLabel κ α}
    (hs : QueueCorrect s) (hstep : QueueStep s a t) (ht : QueueCorrect t) : queueGuard s a := by
  obtain ⟨⟨ch, hch⟩, -⟩ := hs
  obtain ⟨⟨ch', hch'⟩, -⟩ := ht
  -- producing makes the linked list longer by one and the count cannot be 0 afterwards
  have hproduce : ∀ {x : α} {signal : Bool} {mp : MsgPool α},
      s.pool.msgPoolProducer x = some (signal, mp) → mp.msgList = .linked ch'.pending →
      mp.count.toNat = ch'.pending.length → s.pool.count.toNat + 1 < 2 ^ 32 := by
    intro x signal mp hp hlinked hcount
    rw [MsgPool.msgPoolProducer_linked x hch.type hch.linked] at hp
    simp only [Option.some.injEq, Prod.mk.injEq] at hp
    obtain ⟨-, rfl⟩ := hp
    rw [MsgList.linked.injEq] at hlinked
    rw [← hlinked, UInt32.toNat_add, List.length_append, ← hch.count] at hcount
    -- the count would be 2 ^ 32, which wraps to 0
    by_contra hwrap
    have hle := s.pool.count.toNat_lt
    have hmax : s.pool.count.toNat + 1 = 2 ^ 32 := by omega
    have hmod : (s.pool.count.toNat + 1) % 2 ^ 32 = s.pool.count.toNat + 1 := hcount
    rw [hmax, Nat.mod_self] at hmod
    exact absurd hmod (by norm_num)
  cases hstep with
  | produceQuiet hp => exact hproduce hp hch'.linked hch'.count
  | produceUnheard hp _ => exact hproduce hp hch'.linked hch'.count
  | produceWake hp _ => exact hproduce hp hch'.linked hch'.count
  | enterWait _ _ => trivial
  | enterTake _ _ => trivial
  | spurious _ => trivial
  | resume hc =>
    intro hzero
    have hempty : s.pool.msgList = .linked [] := by
      rw [hch.linked, hch.count_eq_zero_iff.mp hzero]
    -- the head itself was returned, which is no item
    have hmem : (.head : ListNode α) ∈ ch'.received.map .item := by
      rw [← hch'.returned, MsgPool.takeFirst_nil hempty]
      simp
    simp at hmem

/-- A run of the threads from the empty pool behaves as a queue in every state exactly when none
of its consumers comes back from its wait to an empty pool and the count never wraps. -/
theorem queueCorrect_iff {r : List (QueueLabel κ α × QueueState κ α)}
    (hr : IsRun QueueStep QueueState.start r) :
    Always QueueCorrect QueueState.start r ↔ Guarded queueGuard QueueState.start r := by
  refine always_iff_guarded (fun s (h : QueueCorrect s) => h) ?_ ?_ queueCorrect_start hr
  · exact fun s a t hs hstep hg => queueCorrect_step hs hstep hg
  · exact fun s a t hs hstep ht => queueGuard_of_queueCorrect hs hstep ht

/-! ## Two consumers and one item -/

/-- Consumer `true` found the pool empty and sleeps. -/
def asleepState : QueueState Bool ℕ :=
  ⟨MsgPool.emptyQueue, Function.update (fun _ => .outside) true .waiting, [], []⟩

/-- Item 7 was produced, and its signal woke consumer `true`. -/
def signalledState : QueueState Bool ℕ :=
  ⟨⟨.consumerProducer, 0, 1, 0, .linked [7]⟩, Function.update asleepState.phase true .woken,
    [7], []⟩

/-- Consumer `true` came back from its wait and took the item. -/
def servedState : QueueState Bool ℕ :=
  ⟨⟨.consumerProducer, 0, 0, 0, .linked []⟩, Function.update signalledState.phase true .outside,
    [7], [.item 7]⟩

/-- Consumer `false` entered first and took the item. -/
def overtakenState : QueueState Bool ℕ :=
  ⟨⟨.consumerProducer, 0, 0, 0, .linked []⟩, signalledState.phase, [7], [.item 7]⟩

/-- Consumer `true` came back from its wait to the empty pool: it returned the list head, and the
count wrapped below zero. -/
def strayState : QueueState Bool ℕ :=
  ⟨⟨.consumerProducer, 0, 4294967295, 0, .cleared⟩,
    Function.update overtakenState.phase true .outside, [7], [.item 7, .head]⟩

/-- A consumer sleeps, is woken by an item and takes it. -/
def servedRun : List (QueueLabel Bool ℕ × QueueState Bool ℕ) :=
  [(.enter true, asleepState), (.produce 7 (some true), signalledState),
    (.resume true, servedState)]

/-- The same, except that another consumer takes the item before the woken one has the lock. -/
def overtakenRun : List (QueueLabel Bool ℕ × QueueState Bool ℕ) :=
  [(.enter true, asleepState), (.produce 7 (some true), signalledState),
    (.enter false, overtakenState), (.resume true, strayState)]

theorem isRun_servedRun : IsRun QueueStep QueueState.start servedRun :=
  ⟨.enterWait rfl rfl, .produceWake rfl rfl, .resume rfl, trivial⟩

theorem isRun_overtakenRun : IsRun QueueStep QueueState.start overtakenRun :=
  ⟨.enterWait rfl rfl, .produceWake rfl rfl, .enterTake rfl rfl, .resume rfl, trivial⟩

/-- The run in which the woken consumer is not overtaken is correct throughout. -/
theorem queueCorrect_servedRun : Always QueueCorrect QueueState.start servedRun := by
  refine (queueCorrect_iff isRun_servedRun).mpr ⟨trivial, ?_, ?_, trivial⟩
  · change (0 : UInt32).toNat + 1 < 2 ^ 32
    decide
  · change (1 : UInt32) ≠ 0
    decide

/-- Not every run is correct: an overtaken consumer returns the list head as a message. -/
theorem not_queueCorrect_overtaken :
    ¬∀ r : List (QueueLabel Bool ℕ × QueueState Bool ℕ),
      IsRun QueueStep QueueState.start r → Always QueueCorrect QueueState.start r := by
  intro hall
  -- the channel would have handed out the list head
  obtain ⟨-, -, -, -, hstray, -⟩ := hall _ isRun_overtakenRun
  obtain ⟨ch, hch⟩ := hstray.channel
  have hreturned : [.item 7, .head] = ch.received.map ListNode.item := hch.returned
  have hmem : (.head : ListNode ℕ) ∈ ch.received.map .item := by simp [← hreturned]
  simp at hmem

end Gendo
