import Gendo.Library.StepSystem
import Gendo.Library.Tally
import Mathlib.Data.Int.Notation

/-!
# The thread pool

The pool of `lib-thread.c`: `thread_dispatch_with_tp` gives a job to an idle thread, or to a new
one, or waits for a thread to become idle, and `thread_wrapper` is the life of a thread: it runs
its job, goes back to the pool and waits for the next one.

Three locks and conditions are at work. The pool's lock protects its counters and the states of
its threads. A thread holds its own lock from before it goes back to the pool until it waits on
its own condition, so a dispatcher that already took it as idle cannot hand its job over before
the thread waits. And `mIdleCond` tells waiting dispatchers that a thread came back.

`J` is the type of jobs: a function with its two arguments.
-/

namespace Gendo

open StepSystem Tally

/-- Where a thread is in `thread_wrapper`. -/
inductive WorkerPhase
  /-- At the head of its loop, about to call `pfunc`. -/
  | atLoop
  /-- In `pfunc`. -/
  | inJob
  /-- Back from `pfunc`, about to take its own lock. -/
  | jobDone
  /-- In `reclaim_thread`, with its own lock, about to take the pool's. -/
  | reclaiming
  /-- In `reclaim_thread`, idle, about to signal `mIdleCond`. -/
  | reclaimed
  /-- Back from `reclaim_thread`, with its own lock, about to wait. -/
  | parking
  /-- In `thd_cond_wait` on its own condition. -/
  | waiting
  /-- Woken in `thd_cond_wait`, in need of its own lock. -/
  | woken
  /-- In `reclaim_thread`, not taken back, about to signal `mIdleCond`. -/
  | refused
  /-- Back from a failed `reclaim_thread`. -/
  | leaving
  /-- Out of the list and freed. -/
  | gone
  deriving DecidableEq, Repr

/-- `thread_item_t`: whether `THD_STATE_BUSY` is set, what it is to run, and where it is. -/
structure PoolThread (J : Type*) where
  busy : Bool
  job : J
  phase : WorkerPhase
  deriving DecidableEq, Repr

/-- How `thread_dispatch_with_tp` ends. -/
inductive DispatchEnd
  | ok
  /-- The attributes of a new thread could not be read or set. -/
  | stackError
  /-- `pthread_create` failed. -/
  | createError
  /-- "pool has idle thread, but return NULL". -/
  | gotNull
  /-- "no such condition". -/
  | noCondition
  deriving DecidableEq, Repr

/-- Where a call of `thread_dispatch_with_tp` is. -/
inductive DispatchPhase
  /-- About to take the pool's lock. -/
  | entering
  /-- In `thd_cond_wait` on `mIdleCond`. -/
  | waiting
  /-- Woken in `thd_cond_wait`, in need of the pool's lock. -/
  | woken
  /-- It has the pool's lock, and hands its job to an idle thread. -/
  | handing
  | returned (e : DispatchEnd)
  deriving DecidableEq, Repr

/-- A call of `thread_dispatch_with_tp`. -/
structure DispatchCall (J : Type*) where
  job : J
  phase : DispatchPhase
  deriving DecidableEq, Repr

/-- Who has the pool's lock between two steps: a call that took a thread as idle, before or after
it assigned its job. -/
structure Handover where
  call : ℕ
  thread : ℕ
  assigned : Bool
  deriving DecidableEq, Repr

/-- `thread_pool_t` with its threads and the calls of its dispatchers. -/
structure ThreadPool (J : Type*) where
  threadsNum : ℤ
  maxThreads : ℤ
  idleThreads : ℤ
  /-- All threads ever created, the oldest first. The list of the pool has the newest first. -/
  threads : List (PoolThread J)
  calls : List (DispatchCall J)
  lock : Option Handover
  /-- Which thread called `pfunc` of which job. -/
  executed : List (ℕ × J)

variable {J : Type*}

/-- `thread_pool_new`; `create_thread_pool` sets `max_threads` to 2 for a bad argument, and then
to the argument all the same. -/
def threadPoolNew (maxThread : ℤ) : ThreadPool J := ⟨0, maxThread, 0, [], [], none, []⟩

/-- What the head of `thread_dispatch_with_tp` decides under the pool's lock. -/
inductive DispatchBranch
  | wait
  | create
  | idle
  | noCondition
  deriving DecidableEq, Repr

/-- The conditions of `thread_dispatch_with_tp`, in their order. -/
def ThreadPool.branch (s : ThreadPool J) : DispatchBranch :=
  -- IS_NO_IDLE_AND_EXCEED_LIMIT
  if s.idleThreads ≤ 0 ∧ s.threadsNum ≥ s.maxThreads then .wait
  -- IS_NO_IDLE_AND_BELOW_LIMIT
  else if s.idleThreads ≤ 0 ∧ s.threadsNum < s.maxThreads then .create
  -- IS_IDLE
  else if s.idleThreads > 0 then .idle
  else .noCondition

/-- `is_thread_idle` of a thread that is in the list. -/
def PoolThread.isIdle (t : PoolThread J) : Bool := !t.busy && decide (t.phase ≠ .gone)

/-- The thread that `thread_get_idle` takes: the first idle one of the list. -/
def threadGetIdle (threads : List (PoolThread J)) : Option ℕ :=
  -- the list has the newest thread first
  (List.range threads.length).reverse.find? fun w => threads[w]?.any PoolThread.isIdle

/-- The moves of a thread that nobody else sees: it returns from its job, takes its own lock,
waits and gives its lock back, or takes it again and goes back to its loop. -/
def WorkerPhase.next : WorkerPhase → Option WorkerPhase
  | .inJob => some .jobDone
  | .jobDone => some .reclaiming
  | .parking => some .waiting
  | .woken => some .atLoop
  | .atLoop | .reclaiming | .reclaimed | .waiting | .refused | .leaving | .gone => none

/-- Where `reclaim_thread` goes after it signalled `mIdleCond`. -/
def WorkerPhase.afterSignal : WorkerPhase → Option WorkerPhase
  | .reclaimed => some .parking
  | .refused => some .leaving
  | .atLoop | .inJob | .jobDone | .reclaiming | .parking | .waiting | .woken | .leaving
  | .gone => none

/-- The thread has its own lock. -/
def WorkerPhase.hasLock : WorkerPhase → Bool
  | .reclaiming | .reclaimed | .parking | .refused | .leaving => true
  | .atLoop | .inJob | .jobDone | .waiting | .woken | .gone => false

namespace ThreadPool

/-- One thread changes. -/
def setThread (s : ThreadPool J) (w : ℕ) (t : PoolThread J) : ThreadPool J :=
  { s with threads := s.threads.set w t }

/-- One call changes. -/
def setCall (s : ThreadPool J) (c : ℕ) (call : DispatchCall J) : ThreadPool J :=
  { s with calls := s.calls.set c call }

end ThreadPool

/-- What happens in the pool. -/
inductive PoolLabel (J : Type*)
  /-- Somebody calls `thread_dispatch_with_tp`. -/
  | call (job : J)
  /-- The call has the pool's lock, and goes through the conditions. The creation of a thread, if
  it comes to that, ends as given, and everything else is `ok` here. -/
  | decide (c : ℕ) (created : DispatchEnd)
  /-- The call assigns its job, under the thread's own lock. -/
  | assign (c : ℕ)
  /-- The call signals the thread's condition and gives the pool's lock back. -/
  | signalThread (c : ℕ)
  /-- A thread calls `pfunc`. -/
  | run (w : ℕ)
  /-- A thread moves on by itself. -/
  | move (w : ℕ)
  /-- The locked section of `reclaim_thread`. -/
  | reclaim (w : ℕ)
  /-- `reclaim_thread` signals `mIdleCond`, and wakes a call if one waits. -/
  | signalIdle (w : ℕ) (wake : Option ℕ)
  /-- `thread_remove_new` of a thread that was not taken back. -/
  | remove (w : ℕ)

/-- A call that takes the pool's lock: a new one, or one that was woken in its wait. -/
def DispatchPhase.atLock : DispatchPhase → Bool
  | .entering | .woken => true
  | .waiting | .handing | .returned _ => false

/-- One step of a call or of a thread. -/
inductive PoolStep : ThreadPool J → PoolLabel J → ThreadPool J → Prop
  | call {s job} :
      PoolStep s (.call job) { s with calls := s.calls ++ [⟨job, .entering⟩] }
  -- the loop around `thd_cond_wait`: a woken call tests the condition again
  | wait {s c call} : s.calls[c]? = some call → call.phase.atLock = true → s.lock = none →
      s.branch = .wait →
      PoolStep s (.decide c .ok) (s.setCall c { call with phase := .waiting })
  -- the new thread starts at `thread_wrapper`, with its job assigned and marked as busy
  | create {s c call} : s.calls[c]? = some call → call.phase.atLock = true → s.lock = none →
      s.branch = .create →
      PoolStep s (.decide c .ok) { s with
        threads := s.threads ++ [⟨true, call.job, .atLoop⟩], threadsNum := s.threadsNum + 1
        calls := s.calls.set c { call with phase := .returned .ok } }
  -- an attribute of the thread, or `pthread_create`
  | createFail {s c call e} : s.calls[c]? = some call → call.phase.atLock = true →
      s.lock = none → s.branch = .create → e = .stackError ∨ e = .createError →
      PoolStep s (.decide c e) (s.setCall c { call with phase := .returned e })
  -- `thread_get_idle`: the thread is marked as busy before it has its job
  | take {s c call w t} : s.calls[c]? = some call → call.phase.atLock = true →
      s.lock = none → s.branch = .idle → threadGetIdle s.threads = some w →
      s.threads[w]? = some t →
      PoolStep s (.decide c .ok) { s with
        threads := s.threads.set w { t with busy := true }, idleThreads := s.idleThreads - 1
        calls := s.calls.set c { call with phase := .handing }, lock := some ⟨c, w, false⟩ }
  -- `goto out`, with the result 0 of a call that succeeds
  | takeNone {s c call} : s.calls[c]? = some call → call.phase.atLock = true →
      s.lock = none → s.branch = .idle → threadGetIdle s.threads = none →
      PoolStep s (.decide c .ok) (s.setCall c { call with phase := .returned .gotNull })
  | noCondition {s c call} : s.calls[c]? = some call → call.phase.atLock = true →
      s.lock = none → s.branch = .noCondition →
      PoolStep s (.decide c .ok) (s.setCall c { call with phase := .returned .noCondition })
  -- the lock of the thread is free once it waits on its condition
  | assign {s c call w t} : s.lock = some ⟨c, w, false⟩ → s.calls[c]? = some call →
      s.threads[w]? = some t → t.phase.hasLock = false →
      PoolStep s (.assign c) { s with
        threads := s.threads.set w { t with job := call.job }, lock := some ⟨c, w, true⟩ }
  -- a signal that no thread waits for is lost
  | signalThread {s c call w t} : s.lock = some ⟨c, w, true⟩ → s.calls[c]? = some call →
      s.threads[w]? = some t →
      PoolStep s (.signalThread c) { s with
        threads := s.threads.set w
          { t with phase := if t.phase = .waiting then .woken else t.phase }
        calls := s.calls.set c { call with phase := .returned .ok }, lock := none }
  -- what `pfunc` does is not part of the pool
  | run {s w t} : s.threads[w]? = some t → t.phase = .atLoop →
      PoolStep s (.run w) { s with
        threads := s.threads.set w { t with phase := .inJob }
        executed := s.executed ++ [(w, t.job)] }
  | move {s w t p} : s.threads[w]? = some t → t.phase.next = some p →
      PoolStep s (.move w) (s.setThread w { t with phase := p })
  -- `thread_put_idle`
  | reclaim {s w t} : s.threads[w]? = some t → t.phase = .reclaiming → s.lock = none →
      s.idleThreads < s.maxThreads →
      PoolStep s (.reclaim w) { s with
        threads := s.threads.set w { t with busy := false, phase := .reclaimed }
        idleThreads := s.idleThreads + 1 }
  -- more idle threads than the pool may have
  | refuse {s w t} : s.threads[w]? = some t → t.phase = .reclaiming → s.lock = none →
      ¬s.idleThreads < s.maxThreads →
      PoolStep s (.reclaim w) (s.setThread w { t with phase := .refused })
  | signalUnheard {s w t p} : s.threads[w]? = some t → t.phase.afterSignal = some p →
      (∀ call ∈ s.calls, call.phase ≠ .waiting) →
      PoolStep s (.signalIdle w none) (s.setThread w { t with phase := p })
  -- one of the waiting calls is woken, whichever it is
  | signalWake {s w t p c call} : s.threads[w]? = some t → t.phase.afterSignal = some p →
      s.calls[c]? = some call → call.phase = .waiting →
      PoolStep s (.signalIdle w (some c)) { s with
        threads := s.threads.set w { t with phase := p }
        calls := s.calls.set c { call with phase := .woken } }
  -- `thread_remove_new`, then `mem_free`
  | remove {s w t} : s.threads[w]? = some t → t.phase = .leaving →
      PoolStep s (.remove w) { s with
        threads := s.threads.set w { t with phase := .gone }, threadsNum := s.threadsNum - 1 }

/-- No thread is created without success. -/
def creationGuard (_ : ThreadPool J) : PoolLabel J → Prop
  | .decide _ created => created = .ok
  | _ => True

/-- Nobody calls `thread_dispatch_with_tp`. -/
def noCallGuard (_ : ThreadPool J) : PoolLabel J → Prop
  | .call _ => False
  | _ => True

/-! ## The functions -/

/-- If a thread is idle, one is found. -/
theorem threadGetIdle_isSome {threads : List (PoolThread J)}
    (h : 0 < count PoolThread.isIdle threads) : (threadGetIdle threads).isSome := by
  obtain ⟨w, t, hw, ht⟩ := exists_of_count_pos _ h
  obtain ⟨hlt, -⟩ := List.getElem?_eq_some_iff.mp hw
  rw [threadGetIdle, List.find?_isSome]
  refine ⟨w, ?_, ?_⟩
  · simpa using hlt
  · simp [hw, ht]

/-- The thread that is taken is idle. -/
theorem isIdle_of_threadGetIdle {threads : List (PoolThread J)} {w : ℕ}
    (h : threadGetIdle threads = some w) {t : PoolThread J} (hw : threads[w]? = some t) :
    t.isIdle = true := by
  have hidle := List.find?_some h
  simpa [hw] using hidle

/-- The thread that is taken is in the list. -/
theorem threadGetIdle_thread {threads : List (PoolThread J)} {w : ℕ}
    (h : threadGetIdle threads = some w) : ∃ t, threads[w]? = some t := by
  have hidle := List.find?_some h
  rw [Option.any_eq_true] at hidle
  obtain ⟨t, ht, -⟩ := hidle
  exact ⟨t, ht⟩

/-- The conditions of a dispatch leave no case out. -/
theorem branch_ne_noCondition (s : ThreadPool J) : s.branch ≠ .noCondition := by
  unfold ThreadPool.branch
  split_ifs with hwait hcreate hidle
  · simp
  · simp
  · simp
  · omega

theorem branch_eq_wait {s : ThreadPool J} (h : s.branch = .wait) :
    s.idleThreads ≤ 0 ∧ s.maxThreads ≤ s.threadsNum := by
  unfold ThreadPool.branch at h
  split_ifs at h with hwait
  exact hwait

theorem branch_eq_create {s : ThreadPool J} (h : s.branch = .create) :
    s.idleThreads ≤ 0 ∧ s.threadsNum < s.maxThreads := by
  unfold ThreadPool.branch at h
  split_ifs at h with hwait hcreate
  exact hcreate

theorem branch_eq_idle {s : ThreadPool J} (h : s.branch = .idle) : 0 < s.idleThreads := by
  unfold ThreadPool.branch at h
  split_ifs at h with hwait hcreate hidle
  exact hidle

end Gendo
