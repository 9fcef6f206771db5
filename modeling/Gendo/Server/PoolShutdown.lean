import Gendo.Server.ExactlyOnce

/-!
# Shutting the pool down

`free_thread_pool` against the threads of the pool, from any state that dispatching leaves behind
(`_thread_dispatch` does on the global pool what `thread_dispatch_with_tp` does on any). It sets
`is_shutdown`, waits on `mFullCond` until all threads are idle, wakes them, waits on `mEmptyCond`
until all have left, and frees them. A thread that leaves its loop signals `mEmptyCond` if
`threads_num` is 0 by then, but nothing takes the thread off that count: with one thread or more,
the last wait never ends (`closesWell_iff`). So nothing is freed under a thread either, and no job
is run twice, but one may be dropped.
-/

namespace Gendo

open StepSystem Tally

/-- Where a thread is with respect to the loop of `thread_wrapper`. -/
inductive ThreadExit
  | inLoop
  /-- It found `is_shutdown` set, and is about to take its own lock. -/
  | leaving
  | ended
  deriving DecidableEq, Repr

/-- Where `free_thread_pool` is. -/
inductive CloserPhase
  /-- About to take the pool's lock. -/
  | entering
  /-- In `thd_cond_wait` on `mFullCond`. -/
  | waitFull
  /-- Woken there, in need of the pool's lock. -/
  | wokenFull
  /-- With the pool's lock, in its loop, with so many threads still to come. -/
  | waking (left : ℕ)
  /-- In `thd_cond_wait` on `mEmptyCond`. -/
  | waitEmpty
  /-- Woken there, in need of the pool's lock. -/
  | wokenEmpty
  /-- The threads of the list are freed, and the pool with them. -/
  | freed
  deriving DecidableEq, Repr

/-- `free_thread_pool` waits, and no signal is on its way. -/
def CloserPhase.waits : CloserPhase → Bool
  | .waitFull | .waitEmpty => true
  | .entering | .wokenFull | .waking _ | .wokenEmpty | .freed => false

/-- `free_thread_pool` has the pool's lock between two steps. -/
def CloserPhase.hasLock : CloserPhase → Bool
  | .waking _ => true
  | .entering | .waitFull | .wokenFull | .waitEmpty | .wokenEmpty | .freed => false

/-- A pool that is shut down. -/
structure ClosingPool (J : Type*) where
  pool : ThreadPool J
  isShutdown : Bool
  closer : CloserPhase
  exits : ℕ → ThreadExit

variable {J : Type*}

/-- A pool when `free_thread_pool` is called. -/
def ClosingPool.start (s : ThreadPool J) : ClosingPool J := ⟨s, false, .entering, fun _ => .inLoop⟩

/-- What happens while the pool is shut down. -/
inductive ClosingLabel (J : Type*)
  /-- A thread goes on as ever. -/
  | worker (w : ℕ) (label : PoolLabel J)
  /-- A thread leaves its loop. -/
  | exit (w : ℕ)
  /-- The locked section of `thread_wrapper` behind the loop. -/
  | finish (w : ℕ)
  /-- `free_thread_pool` goes on. -/
  | close

/-- The steps of a thread, except `reclaim`, which takes the pool's lock. -/
def PoolLabel.isThread (w : ℕ) : PoolLabel J → Prop
  | .run w' => w' = w
  | .move w' => w' = w
  | .signalIdle w' _ => w' = w
  | .remove w' => w' = w
  | .call _ | .decide _ _ | .assign _ | .signalThread _ | .reclaim _ => False

/-- The loop of `free_thread_pool` is about to begin, or the wait in front of it. -/
def ThreadPool.closerPhase (s : ThreadPool J) : CloserPhase :=
  if s.idleThreads < s.threadsNum then .waitFull else .waking s.threads.length

/-- `free_thread_pool` signals the condition of a thread. -/
def PoolThread.signalled (t : PoolThread J) : PoolThread J :=
  { t with phase := if t.phase = .waiting then .woken else t.phase }

/-- One step of a thread, or of `free_thread_pool`. -/
inductive ClosingStep : ClosingPool J → ClosingLabel J → ClosingPool J → Prop
  -- the head of the loop tests `is_shutdown`
  | thread {s w label p} : label.isThread w → s.exits w = .inLoop →
      (label = .run w → s.isShutdown = false) → PoolStep s.pool label p →
      ClosingStep s (.worker w label) { s with pool := p }
  -- `reclaim_thread` signals `mFullCond` if it takes the thread back and all are idle
  | reclaim {s w p} : s.exits w = .inLoop → s.closer.hasLock = false →
      PoolStep s.pool (.reclaim w) p →
      ClosingStep s (.worker w (.reclaim w)) { s with
        pool := p
        closer := if s.closer = .waitFull ∧ s.pool.idleThreads < p.idleThreads ∧
          p.threadsNum ≤ p.idleThreads then .wokenFull else s.closer }
  | exit {s w t} : s.pool.threads[w]? = some t → t.phase = .atLoop → s.exits w = .inLoop →
      s.isShutdown = true →
      ClosingStep s (.exit w) { s with exits := Function.update s.exits w .leaving }
  | finish {s w t} : s.pool.threads[w]? = some t → s.exits w = .leaving →
      ClosingStep s (.finish w) { s with
        exits := Function.update s.exits w .ended
        closer := if s.closer = .waitEmpty ∧ s.pool.threadsNum ≤ 0 then .wokenEmpty
          else s.closer }
  | enter {s} : s.closer = .entering → s.pool.lock = none →
      ClosingStep s .close { s with isShutdown := true, closer := s.pool.closerPhase }
  -- the condition is not tested again
  | wakeFull {s} : s.closer = .wokenFull → s.pool.lock = none →
      ClosingStep s .close { s with closer := .waking s.pool.threads.length }
  -- the newest thread comes first; the lock of the thread must be free
  | wake {s k t} : s.closer = .waking (k + 1) → s.pool.threads[k]? = some t →
      t.phase ≠ .gone → t.phase.hasLock = false →
      ClosingStep s .close { s with
        pool := s.pool.setThread k t.signalled, closer := .waking k }
  -- a thread that was removed is not in the list
  | skip {s k t} : s.closer = .waking (k + 1) → s.pool.threads[k]? = some t →
      t.phase = .gone → ClosingStep s .close { s with closer := .waking k }
  | waitEmpty {s} : s.closer = .waking 0 → 0 < s.pool.threadsNum →
      ClosingStep s .close { s with closer := .waitEmpty }
  | free {s} : s.closer = .waking 0 → ¬0 < s.pool.threadsNum →
      ClosingStep s .close { s with closer := .freed }
  | wakeEmpty {s} : s.closer = .wokenEmpty → s.pool.lock = none →
      ClosingStep s .close { s with closer := .freed }

/-! ## What a shutdown owes -/

/-- The jobs of the calls that succeeded. -/
def ThreadPool.accepted (s : ThreadPool J) : Multiset J := total DispatchCall.doneJob s.calls

/-- A step in which a thread uses its `thread_item_t`. From its job a thread returns to its own
lock. -/
def ClosingLabel.usesItem : ClosingLabel J → Bool
  | .worker _ _ | .finish _ => true
  | .exit _ | .close => false

/-- `free_thread_pool` waits, and whatever the threads do, nobody wakes it. -/
def ClosingPool.Stuck (s : ClosingPool J) : Prop :=
  s.closer.waits = true ∧ ∀ r, IsRun ClosingStep s r → (final s r).closer = s.closer

/-- No step is left. -/
def ClosingPool.Settled (s : ClosingPool J) : Prop := ∀ label s', ¬ClosingStep s label s'

/-- No job was run more often than it was dispatched, and none is left over at the end. -/
structure JobsOnce (s : ClosingPool J) : Prop where
  ran_le : s.pool.ran ≤ s.pool.accepted
  ran_eq : s.Settled → s.pool.ran = s.pool.accepted

/-- A run of the shutdown as it should be. -/
structure ClosesWell (s : ClosingPool J) (r : List (ClosingLabel J × ClosingPool J)) : Prop where
  jobs : Always JobsOnce s r
  items : Along (fun s label _ => label.usesItem = true → s.closer ≠ .freed) s r
  wakes : Always (fun s => ¬s.Stuck) s r

/-! ## Pools whose calls returned -/

/-- Every call of `thread_dispatch_with_tp` returned, however it ended. -/
def ThreadPool.CallsDone (s : ThreadPool J) : Prop :=
  ∀ call ∈ s.calls, ∃ e, call.phase = .returned e

/-- A call that failed, as it was before. -/
def DispatchCall.retried (call : DispatchCall J) : DispatchCall J :=
  match call.phase with
  | .returned .ok => call
  | .returned _ => { call with phase := .entering }
  | _ => call

/-- The pool as if no creation of a thread had failed: the calls that failed are still to come. -/
def ThreadPool.retried (s : ThreadPool J) : ThreadPool J :=
  { s with calls := s.calls.map DispatchCall.retried }

section Retried

variable {s s' : ThreadPool J} {label : PoolLabel J} {c : ℕ} {call call' : DispatchCall J}

theorem DispatchCall.retried_eq (h : ∀ e, call.phase = .returned e → e = .ok) :
    call.retried = call := by
  rw [DispatchCall.retried]
  split
  · rfl
  · next e hne hphase => exact absurd (h e hphase) hne
  · rfl

theorem DispatchCall.retried_phase_ne {p : DispatchPhase} (h : call.phase ≠ p)
    (hp : p ≠ .entering) : call.retried.phase ≠ p := by
  rw [DispatchCall.retried]
  split
  · exact h
  · exact Ne.symm hp
  · exact h

theorem DispatchCall.doneJob_retried (call : DispatchCall J) :
    call.retried.doneJob = call.doneJob := by
  rw [DispatchCall.retried]
  split
  · rfl
  · next e hne hphase =>
    rw [DispatchCall.doneJob, DispatchCall.doneJob, hphase, if_neg (by simp),
      if_neg fun heq => hne (DispatchPhase.returned.inj heq)]
  · rfl

theorem accepted_retried (s : ThreadPool J) : s.retried.accepted = s.accepted := by
  rw [ThreadPool.accepted, ThreadPool.accepted, ThreadPool.retried, total, total, List.map_map]
  exact congrArg List.sum (List.map_congr_left fun call _ => call.doneJob_retried)

/-- A call that did not return is there as it is. -/
theorem retried_call (hc : s.calls[c]? = some call) (hphase : ∀ e, call.phase ≠ .returned e) :
    s.retried.calls[c]? = some call := by
  have hsame : call.retried = call :=
    DispatchCall.retried_eq fun e he => absurd he (hphase e)
  show (s.calls.map _)[c]? = _
  rw [List.getElem?_map, hc, Option.map_some, hsame]

theorem retried_set (hok : ∀ e, call'.phase = .returned e → e = .ok) :
    (s.calls.set c call').map DispatchCall.retried =
      (s.calls.map DispatchCall.retried).set c call' := by
  rw [List.map_set, DispatchCall.retried_eq hok]

/-- A call with the lock is the same in both pools. -/
theorem retried_handing (h : PoolInv s.retried) {o : Handover} (hlock : s.lock = some o)
    (hc : s.calls[o.call]? = some call) : call.phase = .handing := by
  obtain ⟨call₂, t, hhand⟩ := h.lock o hlock
  have hcall : s.retried.calls[o.call]? = some call.retried := by
    show (s.calls.map _)[o.call]? = _
    rw [List.getElem?_map, hc, Option.map_some]
  have hphase := hhand.handing
  obtain rfl := Option.some.inj (hcall.symm.trans hhand.atCall)
  by_contra hne
  exact DispatchCall.retried_phase_ne hne (by simp) hphase

/-- A step without a failure is one of the pool without failures. -/
theorem retried_step (h : PoolInv s.retried) (hguard : creationGuard s label)
    (hstep : PoolStep s label s') : PoolStep s.retried label s'.retried := by
  cases hstep with
  | @call job =>
    have happend : (s.calls ++ [(⟨job, .entering⟩ : DispatchCall J)]).map DispatchCall.retried =
        s.retried.calls ++ [⟨job, .entering⟩] := List.map_append
    show PoolStep s.retried _ { s with calls := (s.calls ++ [_]).map DispatchCall.retried }
    rw [happend]
    exact .call
  | wait hc hat hfree hbranch =>
    have hnot := (PoolInv.atLock_spec hat).2.1
    have hset := PoolStep.wait (retried_call hc hnot) hat hfree hbranch
    rwa [ThreadPool.setCall, ThreadPool.retried, ← retried_set (by simp)] at hset
  | create hc hat hfree hbranch =>
    have hnot := (PoolInv.atLock_spec hat).2.1
    have hset := PoolStep.create (retried_call hc hnot) hat hfree hbranch
    rwa [ThreadPool.retried, ← retried_set (by simp)] at hset
  | createFail hc hat hfree hbranch he =>
    -- the guard lets no creation fail
    rcases he with rfl | rfl
    · cases hguard
    · cases hguard
  | take hc hat hfree hbranch hget hw =>
    have hnot := (PoolInv.atLock_spec hat).2.1
    have hset := PoolStep.take (retried_call hc hnot) hat hfree hbranch hget hw
    rwa [ThreadPool.retried, ← retried_set (by simp)] at hset
  | takeNone hc hat hfree hbranch hget => exact absurd hget (h.idle_found hbranch)
  | noCondition hc hat hfree hbranch => exact absurd hbranch (branch_ne_noCondition s)
  | assign hlock hc hw hown =>
    have hphase := retried_handing h hlock hc
    exact .assign hlock (retried_call hc fun e he => by cases hphase.symm.trans he) hw hown
  | signalThread hlock hc hw =>
    have hphase := retried_handing h hlock hc
    have hset : PoolStep s.retried _ _ := .signalThread hlock
      (retried_call hc fun e he => by cases hphase.symm.trans he) hw
    rwa [ThreadPool.retried, ← retried_set (by simp)] at hset
  | run hw hphase => exact .run hw hphase
  | move hw hp => exact .move hw hp
  | reclaim hw hphase hfree hlt => exact .reclaim hw hphase hfree hlt
  | refuse hw hphase hfree hnot => exact .refuse hw hphase hfree hnot
  | signalUnheard hw hp hnone =>
    refine .signalUnheard hw hp fun call hcall => ?_
    obtain ⟨call', hcall', rfl⟩ := List.mem_map.mp hcall
    exact DispatchCall.retried_phase_ne (hnone call' hcall') (by simp)
  | signalWake hw hp hc hwaiting =>
    have hset : PoolStep s.retried _ _ := .signalWake hw hp
      (retried_call hc fun e he => by cases hwaiting.symm.trans he) hwaiting
    rwa [ThreadPool.retried, ← retried_set (by simp)] at hset
  | remove hw hphase => exact .remove hw hphase

/-- The invariant of a pool some of whose threads could not be created. -/
theorem poolInv_retried_step (h : PoolInv s.retried) (hstep : PoolStep s label s') :
    PoolInv s'.retried := by
  by_cases hguard : creationGuard s label
  · exact h.step hguard (retried_step h hguard hstep)
  · cases hstep with
    | @createFail c call e hc hat hfree hbranch he =>
      -- the call is to come again, and no other call waits in a pool that is not full
      obtain ⟨hhanding, hreturned, -⟩ := PoolInv.atLock_spec hat
      obtain ⟨-, hlt⟩ := branch_eq_create hbranch
      have hset : s.retried.setCall c { call with phase := .entering } =
          (s.setCall c { call with phase := .returned e }).retried := by
        simp only [ThreadPool.setCall, ThreadPool.retried, List.map_set]
        rcases he with rfl | rfl
        · rfl
        · rfl
      rw [← hset]
      refine h.callStep (retried_call hc hreturned) hhanding (by simp) hreturned (by simp) ?_
      intro hwait
      have hmax := (h.wakeUps (PoolInv.waiting_of_set (by simp) hwait)).1
      exact absurd hlt (not_lt.mpr hmax)
    | wait | take | takeNone | create => exact absurd rfl hguard
    | noCondition _ _ _ hbranch => exact absurd hbranch (branch_ne_noCondition s)
    | _ => exact absurd trivial hguard

/-- A pool that may have no threads never runs a job. -/
structure PoolEmpty (s : ThreadPool J) : Prop where
  max : s.maxThreads ≤ 0
  threads : s.threads = []
  num : s.threadsNum = 0
  idle : s.idleThreads = 0
  ran : s.ran = 0
  accepted : s.accepted = 0

theorem poolEmpty_step (h : PoolEmpty s) (hstep : PoolStep s label s') : PoolEmpty s' := by
  have hbranch : s.branch = .wait := if_pos ⟨h.idle.le, by rw [h.num]; exact h.max⟩
  have hthread : ∀ {w : ℕ} {t : PoolThread J}, s.threads[w]? ≠ some t := by
    intro w t
    rw [h.threads]
    simp
  cases hstep with
  | call =>
    refine ⟨h.max, h.threads, h.num, h.idle, h.ran, ?_⟩
    have haccepted := h.accepted
    rw [ThreadPool.accepted] at haccepted ⊢
    rw [total_append, haccepted]
    simp [DispatchCall.doneJob]
  | wait hc hat =>
    refine ⟨h.max, h.threads, h.num, h.idle, h.ran, ?_⟩
    have hreturned := (PoolInv.atLock_spec hat).2.1
    have haccepted := h.accepted
    rw [ThreadPool.accepted] at haccepted ⊢
    rw [← haccepted]
    exact total_set_of_eq _ hc (by simp [DispatchCall.doneJob, hreturned])
  | create _ _ _ hb | createFail _ _ _ hb | take _ _ _ hb | takeNone _ _ _ hb
  | noCondition _ _ _ hb => cases hbranch.symm.trans hb
  | assign _ _ hw | signalThread _ _ hw => exact absurd hw hthread
  | run hw | move hw | reclaim hw | refuse hw | signalUnheard hw | signalWake hw | remove hw =>
    exact absurd hw hthread

/-- Every pool that dispatching leaves behind. -/
theorem poolInv_of_run {n : ℤ} {r : List (PoolLabel J × ThreadPool J)}
    (hr : IsRun PoolStep (threadPoolNew n) r) :
    PoolInv (final (threadPoolNew n) r).retried ∨ PoolEmpty (final (threadPoolNew n) r) := by
  rcases lt_or_ge 0 n with hn | hn
  · refine .inl ?_
    have hstep : ∀ (s : ThreadPool J) label s', PoolInv s.retried → PoolStep s label s' →
        PoolInv s'.retried := fun s label s' h hst => poolInv_retried_step h hst
    have hinit : PoolInv (threadPoolNew n : ThreadPool J).retried := poolInv_new hn
    exact (always_of_invariant hstep hinit hr).last
  · refine .inr ?_
    have hstep : ∀ (s : ThreadPool J) label s', PoolEmpty s → PoolStep s label s' →
        PoolEmpty s' := fun s label s' h hst => poolEmpty_step h hst
    exact (always_of_invariant hstep ⟨hn, rfl, rfl, rfl, rfl, rfl⟩ hr).last

end Retried

/-! ## The invariant -/

/-- A thread that has no job, or will find `is_shutdown` set before it runs one. -/
def WorkerPhase.resting : WorkerPhase → Bool
  | .reclaimed | .parking | .waiting | .woken | .atLoop => true
  | .inJob | .jobDone | .reclaiming | .refused | .leaving | .gone => false

/-- `free_thread_pool` did not pass the wait for all threads to be idle. -/
def CloserPhase.early : CloserPhase → Bool
  | .entering | .waitFull => true
  | .wokenFull | .waking _ | .waitEmpty | .wokenEmpty | .freed => false

/-- The invariant of a shutdown, with one thread or more. First the pool goes on as ever, but for
the threads that leave; then no thread runs a job or leaves the list. -/
structure ClosingInv (s : ClosingPool J) : Prop where
  calls : s.pool.CallsDone
  num_pos : 0 < s.pool.threadsNum
  lock : s.pool.lock = none
  shutdown : s.closer ≠ .entering → s.isShutdown = true
  early : s.closer.early = true → PoolInv s.pool.retried
  late : s.closer.early = false → s.closer ≠ .wokenEmpty ∧ s.closer ≠ .freed ∧
    ∀ (w : ℕ) (t : PoolThread J), s.pool.threads[w]? = some t → t.phase.resting = true
  ran_le : s.pool.ran ≤ s.pool.accepted

section Closing

variable {p p' : ThreadPool J} {s s' : ClosingPool J} {label : PoolLabel J} {w : ℕ}

/-- No call has the lock once all returned. -/
theorem lock_none_of_callsDone (h : PoolInv p.retried) (hcalls : p.CallsDone) : p.lock = none := by
  rcases hlock : p.lock with _ | o
  · rfl
  · obtain ⟨call₂, t, hhand⟩ := h.lock o hlock
    have hmem : call₂ ∈ p.calls.map DispatchCall.retried := List.mem_of_getElem? hhand.atCall
    obtain ⟨call, hcall, rfl⟩ := List.mem_map.mp hmem
    obtain ⟨e, he⟩ := hcalls call hcall
    have hne : call.phase ≠ .handing := by
      rw [he]
      simp
    exact absurd hhand.handing (DispatchCall.retried_phase_ne hne (by simp))

/-- What was run was dispatched. -/
theorem ran_le_of_inv (h : PoolInv p.retried) : p.ran ≤ p.accepted := by
  rw [← accepted_retried]
  exact (Multiset.le_add_right _ _).trans_eq h.jobs

/-- Where every thread is idle, every thread rests. -/
theorem resting_of_idle (h : PoolInv p.retried) (hidle : p.threadsNum ≤ p.idleThreads)
    {t : PoolThread J} (hw : p.threads[w]? = some t) : t.phase.resting = true := by
  have hthread : t.isIdle = true := by
    by_contra hnot
    rw [Bool.not_eq_true] at hnot
    have hlt := count_lt_length PoolThread.isIdle hw hnot
    have hcount : p.idleThreads = count PoolThread.isIdle p.threads := h.idle
    have hnum : p.threadsNum = p.threads.length := h.num
    omega
  obtain ⟨-, hactive, -⟩ := h.idle_thread hw hthread
  have hpool := (h.threads w t hw).inPool
  generalize t.phase = q at hactive hpool ⊢
  cases q <;> simp_all [WorkerPhase.active, WorkerPhase.inPool, WorkerPhase.resting]

/-- A step of a thread while no call waits for one. -/
theorem worker_step (hthread : label.isThread w ∨ label = .reclaim w) (hcalls : p.CallsDone)
    (hstep : PoolStep p label p') :
    p'.calls = p.calls ∧ p'.lock = p.lock ∧ p'.threads.length = p.threads.length := by
  cases hstep with
  | call | wait | create | createFail | take | takeNone | noCondition | assign | signalThread =>
    rcases hthread with h | h
    · exact h.elim
    · cases h
  | run | move | reclaim | refuse | signalUnheard | remove =>
    exact ⟨rfl, rfl, List.length_set⟩
  | signalWake _ _ hc hwaiting =>
    obtain ⟨e, he⟩ := hcalls _ (List.mem_of_getElem? hc)
    cases hwaiting.symm.trans he

theorem resting_set {threads : List (PoolThread J)} {t' : PoolThread J}
    (hrest : ∀ (w : ℕ) (t : PoolThread J), threads[w]? = some t → t.phase.resting = true)
    (h : t'.phase.resting = true) (k w : ℕ) (t : PoolThread J)
    (hw : (threads.set k t')[w]? = some t) : t.phase.resting = true := by
  rcases List.mem_or_eq_of_mem_set (List.mem_of_getElem? hw) with hmem | rfl
  · obtain ⟨w', hw'⟩ := List.mem_iff_getElem?.mp hmem
    exact hrest w' t hw'
  · exact h

theorem resting_next {q q' : WorkerPhase} (h : q.next = some q' ∨ q.afterSignal = some q')
    (hq : q.resting = true) : q'.resting = true := by
  rcases h with h | h
  · cases q <;> cases h <;> first | rfl | cases hq
  · cases q <;> cases h <;> first | rfl | cases hq

/-- A step of a pool whose threads rest, if none runs a job. -/
theorem resting_step (hrun : label ≠ .run w)
    (hrest : ∀ (w : ℕ) (t : PoolThread J), p.threads[w]? = some t → t.phase.resting = true)
    (hthread : label.isThread w ∨ label = .reclaim w) (hstep : PoolStep p label p') :
    p'.executed = p.executed ∧ p'.threadsNum = p.threadsNum ∧
      ∀ (w : ℕ) (t : PoolThread J), p'.threads[w]? = some t → t.phase.resting = true := by
  have hnot : ∀ {w : ℕ} {t : PoolThread J} {q : WorkerPhase}, p.threads[w]? = some t →
      t.phase = q → q.resting = true := fun hw hq => hq ▸ hrest _ _ hw
  cases hstep with
  | call | wait | create | createFail | take | takeNone | noCondition | assign | signalThread =>
    rcases hthread with h | h
    · exact h.elim
    · cases h
  | run =>
    rcases hthread with h | h
    · exact absurd (congrArg PoolLabel.run h) hrun
    · cases h
  | reclaim hw hphase | refuse hw hphase | remove hw hphase => cases hnot hw hphase
  | move hw hq => exact ⟨rfl, rfl, resting_set hrest (resting_next (.inl hq) (hrest _ _ hw)) _⟩
  | signalUnheard hw hq =>
    exact ⟨rfl, rfl, resting_set hrest (resting_next (.inr hq) (hrest _ _ hw)) _⟩
  | signalWake hw hq =>
    exact ⟨rfl, rfl, resting_set hrest (resting_next (.inr hq) (hrest _ _ hw)) _⟩

/-- A thread goes on in a pool that is shut down. -/
theorem ClosingInv.worker (h : ClosingInv s) {closer : CloserPhase}
    (hthread : label.isThread w ∨ label = .reclaim w)
    (hrun : label = .run w → s.isShutdown = false) (hstep : PoolStep s.pool label p')
    (hcloser : closer = s.closer ∨
      closer = .wokenFull ∧ s.closer = .waitFull ∧ p'.threadsNum ≤ p'.idleThreads) :
    ClosingInv { s with pool := p', closer := closer } := by
  obtain ⟨hcalls, hlock, hlen⟩ := worker_step hthread h.calls hstep
  have haccepted : p'.accepted = s.pool.accepted := by
    rw [ThreadPool.accepted, hcalls]
    rfl
  have hdone : p'.CallsDone := by
    rw [ThreadPool.CallsDone, hcalls]
    exact h.calls
  have hfree : p'.lock = none := hlock.trans h.lock
  by_cases hearly : s.closer.early = true
  · have hinv := poolInv_retried_step (h.early hearly) hstep
    have hnum : p'.threadsNum = s.pool.threadsNum := by
      have hbefore : s.pool.threadsNum = s.pool.threads.length := (h.early hearly).num
      have hafter : p'.threadsNum = p'.threads.length := hinv.num
      rw [hbefore, hafter, hlen]
    refine ⟨hdone, hnum ▸ h.num_pos, hfree, ?_, fun _ => hinv, ?_, ran_le_of_inv hinv⟩
    · rcases hcloser with rfl | ⟨-, hwait, -⟩
      · exact h.shutdown
      · exact fun _ => h.shutdown (by rw [hwait]; simp)
    · -- if all threads are idle now, they rest
      rcases hcloser with rfl | ⟨rfl, -, hidle⟩
      · exact fun hlate => absurd hearly (by rw [hlate]; decide)
      · exact fun _ => ⟨by simp, by simp, fun w t hw => resting_of_idle hinv hidle hw⟩
  · rw [Bool.not_eq_true] at hearly
    obtain ⟨hempty, hfreed, hrest⟩ := h.late hearly
    have hshut : s.isShutdown = true := h.shutdown (by rintro heq; rw [heq] at hearly; cases hearly)
    have hnotrun : label ≠ .run w := fun heq => by cases hshut.symm.trans (hrun heq)
    obtain ⟨hexecuted, hnum, hrest'⟩ := resting_step hnotrun hrest hthread hstep
    have hsame : closer = s.closer := by
      refine hcloser.resolve_right fun hwake => ?_
      rw [hwake.2.1] at hearly
      cases hearly
    subst hsame
    refine ⟨hdone, hnum ▸ h.num_pos, hfree, h.shutdown, ?_, fun _ => ⟨hempty, hfreed, hrest'⟩, ?_⟩
    · exact fun hlate => by cases hearly.symm.trans hlate
    · show p'.ran ≤ p'.accepted
      rw [haccepted, ThreadPool.ran, hexecuted]
      exact h.ran_le

/-- The next phase of `free_thread_pool`, if nothing else changes. -/
theorem ClosingInv.close (h : ClosingInv s) {closer : CloserPhase} {isShutdown : Bool}
    (hshut : isShutdown = true) (hearly : closer.early = true → s.closer.early = true)
    (hlate : closer.early = false → closer ≠ .wokenEmpty ∧ closer ≠ .freed ∧
      ∀ (w : ℕ) (t : PoolThread J), s.pool.threads[w]? = some t → t.phase.resting = true) :
    ClosingInv { s with isShutdown := isShutdown, closer := closer } :=
  ⟨h.calls, h.num_pos, h.lock, fun _ => hshut, fun he => h.early (hearly he), hlate, h.ran_le⟩

theorem ClosingInv.step (h : ClosingInv s) {label : ClosingLabel J}
    (hstep : ClosingStep s label s') : ClosingInv s' := by
  cases hstep with
  | thread hthread hin hrun hstep =>
    exact h.worker (.inl hthread) hrun hstep (.inl rfl)
  | reclaim hin hfree hstep =>
    refine h.worker (.inr rfl) (fun heq => by cases heq) hstep ?_
    split_ifs with hwake
    · exact .inr ⟨rfl, hwake.1, hwake.2.2⟩
    · exact .inl rfl
  | exit => exact ⟨h.calls, h.num_pos, h.lock, h.shutdown, h.early, h.late, h.ran_le⟩
  | finish =>
    -- there is a thread, so `mEmptyCond` is not signalled
    rw [if_neg fun hwake => absurd h.num_pos (not_lt.mpr hwake.2)]
    exact ⟨h.calls, h.num_pos, h.lock, h.shutdown, h.early, h.late, h.ran_le⟩
  | enter hphase _ =>
    have hearly : s.closer.early = true := by
      rw [hphase]
      rfl
    refine h.close rfl (fun _ => hearly) ?_
    rw [ThreadPool.closerPhase]
    split_ifs with hidle
    · exact fun hlate => by cases hlate
    · exact fun _ => ⟨by simp, by simp,
        fun w t hw => resting_of_idle (h.early hearly) (not_lt.mp hidle) hw⟩
  | wakeFull hphase _ =>
    obtain ⟨-, -, hrest⟩ := h.late (by rw [hphase]; rfl)
    exact h.close (h.shutdown (by rw [hphase]; simp)) (fun he => by cases he)
      fun _ => ⟨by simp, by simp, hrest⟩
  | @wake k t hphase hw hlist hfree =>
    obtain ⟨-, -, hrest⟩ := h.late (by rw [hphase]; rfl)
    have hwoken : t.signalled.phase.resting = true := by
      rw [PoolThread.signalled]
      dsimp only
      split_ifs
      · rfl
      · exact hrest k t hw
    exact ⟨h.calls, h.num_pos, h.lock, fun _ => h.shutdown (by rw [hphase]; simp),
      (fun he => by cases he), fun _ => ⟨by simp, by simp, resting_set hrest hwoken k⟩, h.ran_le⟩
  | skip hphase | waitEmpty hphase =>
    obtain ⟨-, -, hrest⟩ := h.late (by rw [hphase]; rfl)
    exact h.close (h.shutdown (by rw [hphase]; simp)) (fun he => by cases he)
      fun _ => ⟨by simp, by simp, hrest⟩
  | free _ hnone => exact absurd h.num_pos hnone
  | wakeEmpty hphase _ => exact absurd hphase (h.late (by rw [hphase]; rfl)).1

end Closing

/-! ## With threads -/

section Threads

variable {p p' : ThreadPool J} {s : ClosingPool J} {w : ℕ}

theorem closingInv_start (h : PoolInv p.retried) (hcalls : p.CallsDone) (hne : p.threads ≠ []) :
    ClosingInv (.start p) := by
  have hnum : p.threadsNum = p.threads.length := h.num
  have hpos := List.length_pos_iff.mpr hne
  refine ⟨hcalls, ?_, lock_none_of_callsDone h hcalls, fun hphase => absurd rfl hphase, fun _ => h,
    (fun hlate => by cases hlate), ran_le_of_inv h⟩
  show 0 < p.threadsNum
  omega

theorem ClosingInv.always (h : ClosingInv s) {r : List (ClosingLabel J × ClosingPool J)}
    (hr : IsRun ClosingStep s r) : Always ClosingInv s r := by
  have hstep : ∀ (s : ClosingPool J) label s', ClosingInv s → ClosingStep s label s' →
      ClosingInv s' := fun s label s' hs hst => hs.step hst
  exact always_of_invariant hstep h hr

/-- As long as there are threads, nothing is freed. -/
theorem ClosingInv.not_freed (h : ClosingInv s) : s.closer ≠ .freed := by
  intro hphase
  exact (h.late (by rw [hphase]; rfl)).2.1 hphase

/-- The last wait has no end. -/
theorem ClosingInv.stuck (h : ClosingInv s) (hphase : s.closer = .waitEmpty) : s.Stuck := by
  have hstep : ∀ (s : ClosingPool J) label s', ClosingInv s ∧ s.closer = .waitEmpty →
      ClosingStep s label s' → True ∧ ClosingInv s' ∧ s'.closer = .waitEmpty := by
    rintro s label s' ⟨hinv, hwait⟩ hstep
    refine ⟨trivial, hinv.step hstep, ?_⟩
    cases hstep with
    | thread | exit => exact hwait
    | reclaim => rw [if_neg (by rw [hwait]; simp), hwait]
    | finish => rw [if_neg fun hwake => absurd hinv.num_pos (not_lt.mpr hwake.2), hwait]
    | enter hphase | wakeFull hphase | wake hphase | skip hphase | waitEmpty hphase | free hphase
    | wakeEmpty hphase => cases hwait.symm.trans hphase
  refine ⟨by rw [hphase]; rfl, fun r hr => ?_⟩
  induction r generalizing s with
  | nil => rfl
  | cons x r ih =>
    obtain ⟨-, hinv, hwait⟩ := hstep _ _ _ ⟨h, hphase⟩ hr.1
    show (final x.2 r).closer = _
    rw [ih hinv hwait hr.2, hwait, hphase]

/-- A thread goes on before the shutdown begins. -/
theorem start_step {label : PoolLabel J} (hthread : label.isThread w ∨ label = .reclaim w)
    (hstep : PoolStep p label p') : ∃ a, ClosingStep (.start p) a (.start p') := by
  rcases hthread with h | rfl
  · exact ⟨_, .thread h rfl (fun _ => rfl) hstep⟩
  · exact ⟨_, .reclaim rfl rfl hstep⟩

/-- A thread that does not wait for a job can go on. -/
theorem exists_workerStep (h : PoolInv p.retried) (hcalls : p.CallsDone) {t : PoolThread J}
    (hw : p.threads[w]? = some t) (hne : t.phase ≠ .waiting) :
    ∃ label p', (label.isThread w ∨ label = .reclaim w) ∧ PoolStep p label p' := by
  have hunheard : ∀ call ∈ p.calls, call.phase ≠ .waiting := by
    intro call hcall hwait
    obtain ⟨e, he⟩ := hcalls call hcall
    cases hwait.symm.trans he
  have hpool := (h.threads w t hw).inPool
  rcases hphase : t.phase with _ | _ | _ | _ | _ | _ | _ | _ | _ | _ | _
  case atLoop => exact ⟨.run w, _, .inl rfl, .run hw hphase⟩
  case inJob | jobDone | parking | woken =>
    exact ⟨.move w, _, .inl rfl, .move hw (by rw [hphase]; rfl)⟩
  case reclaiming =>
    exact ⟨_, _, .inr rfl, .reclaim hw hphase (lock_none_of_callsDone h hcalls) (h.room hw hphase)⟩
  case reclaimed =>
    exact ⟨.signalIdle w none, _, .inl rfl, .signalUnheard hw (by rw [hphase]; rfl) hunheard⟩
  case waiting => exact absurd hphase hne
  case refused | leaving | gone =>
    rw [hphase] at hpool
    cases hpool

/-- The threads come to wait for jobs, if nothing else happens. -/
theorem reaches_waiting (h : PoolInv p.retried) (hcalls : p.CallsDone) (hne : p.threads ≠ []) :
    ∃ p', Relation.ReflTransGen (fun s t => ∃ a, ClosingStep s a t) (.start p) (.start p') ∧
      PoolInv p'.retried ∧ p'.CallsDone ∧ p'.threads ≠ [] ∧
      ∀ t ∈ p'.threads, t.phase = .waiting := by
  induction hn : p.retried.work using Nat.strong_induction_on generalizing p with
  | _ n ih =>
    by_cases hwait : ∀ t ∈ p.threads, t.phase = .waiting
    · exact ⟨p, .refl, h, hcalls, hne, hwait⟩
    · push Not at hwait
      obtain ⟨t, ht, hphase⟩ := hwait
      obtain ⟨w, hw⟩ := List.mem_iff_getElem?.mp ht
      obtain ⟨label, p₁, hthread, hstep⟩ := exists_workerStep h hcalls hw hphase
      obtain ⟨hcalls₁, -, hlen⟩ := worker_step hthread hcalls hstep
      have hguard : creationGuard p label ∧ noCallGuard p label := by
        rcases hthread with hthread | rfl
        · cases label <;> first | exact ⟨trivial, trivial⟩ | exact hthread.elim
        · exact ⟨trivial, trivial⟩
      have hlt := h.work_lt hguard.2 (retried_step h hguard.1 hstep)
      have hdone : p₁.CallsDone := by
        rw [ThreadPool.CallsDone, hcalls₁]
        exact hcalls
      have hne₁ : p₁.threads ≠ [] := by
        rw [← List.length_pos_iff, hlen]
        exact List.length_pos_iff.mpr hne
      obtain ⟨p', hreach, hrest⟩ :=
        ih _ (hn ▸ hlt) (poolInv_retried_step h hstep) hdone hne₁ rfl
      exact ⟨p', .head (start_step hthread hstep) hreach, hrest⟩

/-- `free_thread_pool` goes through its loop if every thread gave its lock back. -/
theorem reaches_endOfLoop {k : ℕ} (hphase : s.closer = .waking k)
    (hk : k ≤ s.pool.threads.length)
    (hfree : ∀ t ∈ s.pool.threads, t.phase = .waiting ∨ t.phase = .woken) :
    ∃ s', Relation.ReflTransGen (fun s t => ∃ a, ClosingStep s a t) s s' ∧
      s'.closer = .waking 0 := by
  induction k generalizing s with
  | zero => exact ⟨s, .refl, hphase⟩
  | succ k ih =>
    obtain ⟨t, hw⟩ : ∃ t, s.pool.threads[k]? = some t :=
      ⟨_, List.getElem?_eq_getElem (Nat.lt_of_succ_le hk)⟩
    have ht := hfree t (List.mem_of_getElem? hw)
    have hgone : t.phase ≠ .gone := by
      rcases ht with ht | ht <;> simp [ht]
    have hlock : t.phase.hasLock = false := by
      rcases ht with ht | ht <;> simp [ht, WorkerPhase.hasLock]
    have hwoken : t.signalled.phase = .woken := by
      rcases ht with ht | ht <;> simp [PoolThread.signalled, ht]
    have hstep := ClosingStep.wake hphase hw hgone hlock
    obtain ⟨s', hreach, hend⟩ := ih (s := { s with
        pool := s.pool.setThread k t.signalled, closer := .waking k }) rfl
      (by
        show k ≤ (s.pool.threads.set k t.signalled).length
        rw [List.length_set]
        exact Nat.le_of_succ_le hk)
      (by
        intro u hu
        rcases List.mem_or_eq_of_mem_set hu with hold | rfl
        · exact hfree u hold
        · exact .inr hwoken)
    exact ⟨s', .head ⟨_, hstep⟩ hreach, hend⟩

/-- With one thread or more, the shutdown comes to the wait that has no end. -/
theorem exists_stuck (h : PoolInv p.retried) (hcalls : p.CallsDone) (hne : p.threads ≠ []) :
    ∃ r, IsRun ClosingStep (.start p) r ∧ (final (.start p) r).Stuck := by
  obtain ⟨p₁, hreach, hinv, hdone, hne₁, hwaiting⟩ := reaches_waiting h hcalls hne
  have hfree := lock_none_of_callsDone hinv hdone
  have hidle : ¬p₁.idleThreads < p₁.threadsNum := by
    have hall : ∀ t ∈ p₁.threads, t.isIdle = true := by
      intro t ht
      obtain ⟨w, hw⟩ := List.mem_iff_getElem?.mp ht
      have hok := hinv.threads w t hw
      have hlock : p₁.retried.lock = none := hfree
      have hbusy := hok.busy
      rw [hwaiting t ht, hlock] at hbusy
      rw [PoolThread.isIdle_eq hok.inPool, hbusy]
      rfl
    have hcount : p₁.idleThreads = count PoolThread.isIdle p₁.threads := hinv.idle
    have hnum : p₁.threadsNum = p₁.threads.length := hinv.num
    rw [count_eq_length _ hall] at hcount
    omega
  have hphase : p₁.closerPhase = .waking p₁.threads.length := if_neg hidle
  -- every thread is idle already, so that the closer signals to all of them, and then waits until
  -- the last one is gone
  have henter : ClosingStep (.start p₁) .close
      ⟨p₁, true, .waking p₁.threads.length, fun _ => .inLoop⟩ := by
    rw [← hphase]
    exact .enter rfl hfree
  obtain ⟨s₂, hloop, hend⟩ := reaches_endOfLoop
    (s := ⟨p₁, true, .waking p₁.threads.length, fun _ => .inLoop⟩) rfl le_rfl
    fun t ht => .inl (hwaiting t ht)
  have hreach₂ := hreach.trans (.head ⟨_, henter⟩ hloop)
  have hstart := closingInv_start h hcalls hne
  have hinv₂ : ClosingInv s₂ := by
    obtain ⟨r, hr, hfinal⟩ := exists_run hreach₂
    exact hfinal ▸ (hstart.always hr).last
  obtain ⟨r, hr, hfinal⟩ := exists_run (hreach₂.tail ⟨_, .waitEmpty hend hinv₂.num_pos⟩)
  refine ⟨r, hr, (hstart.always hr).last.stuck ?_⟩
  rw [hfinal]

end Threads

/-! ## Without threads -/

/-- The shutdown of a pool without threads. -/
structure ClosingEmpty (s : ClosingPool J) : Prop where
  threads : s.pool.threads = []
  num : s.pool.threadsNum = 0
  idle : s.pool.idleThreads = 0
  ran : s.pool.ran = s.pool.accepted
  closer : s.closer = .entering ∨ s.closer = .waking 0 ∨ s.closer = .freed

section Empty

variable {p : ThreadPool J} {s s' : ClosingPool J}

theorem closingEmpty_start (h : PoolInv p.retried ∨ PoolEmpty p) (hthreads : p.threads = []) :
    ClosingEmpty (.start p) := by
  rcases h with h | h
  · have hidle : p.idleThreads = count PoolThread.isIdle p.threads := h.idle
    have hnum : p.threadsNum = p.threads.length := h.num
    have hjobs : p.ran + total PoolThread.pendingJob p.threads = p.retried.accepted := h.jobs
    rw [hthreads] at hidle hnum hjobs
    rw [accepted_retried, total_nil, add_zero] at hjobs
    exact ⟨hthreads, hnum, hidle, hjobs, .inl rfl⟩
  · exact ⟨hthreads, h.num, h.idle, h.ran.trans h.accepted.symm, .inl rfl⟩

/-- Only `free_thread_pool` takes steps, and it never waits. -/
theorem ClosingEmpty.step (h : ClosingEmpty s) {label : ClosingLabel J}
    (hstep : ClosingStep s label s') : label.usesItem = false ∧ ClosingEmpty s' := by
  have hnone : ∀ {w : ℕ} {t : PoolThread J}, s.pool.threads[w]? ≠ some t := by
    intro w t
    rw [h.threads]
    simp
  have hworker : ∀ {w : ℕ} {label : PoolLabel J} {p : ThreadPool J},
      label.isThread w ∨ label = .reclaim w → ¬PoolStep s.pool label p := by
    intro w label p hthread hst
    cases hst with
    | call | wait | create | createFail | take | takeNone | noCondition | assign | signalThread =>
      rcases hthread with h | h
      · exact h.elim
      · cases h
    | run hw | move hw | reclaim hw | refuse hw | signalUnheard hw | signalWake hw | remove hw =>
      exact hnone hw
  cases hstep with
  | thread hthread _ _ hst => exact absurd hst (hworker (.inl hthread))
  | reclaim _ _ hst => exact absurd hst (hworker (.inr rfl))
  | exit hw | finish hw | wake _ hw | skip _ hw => exact absurd hw hnone
  | enter =>
    have hphase : s.pool.closerPhase = .waking 0 := by
      rw [ThreadPool.closerPhase, if_neg (by rw [h.idle, h.num]; decide), h.threads]
      rfl
    exact ⟨rfl, h.threads, h.num, h.idle, h.ran, .inr (.inl hphase)⟩
  | wakeFull hphase => rcases h.closer with h | h | h <;> cases hphase.symm.trans h
  | waitEmpty _ hpos => exact absurd h.num (Int.ne_of_gt hpos)
  | free => exact ⟨rfl, h.threads, h.num, h.idle, h.ran, .inr (.inr rfl)⟩
  | wakeEmpty hphase => rcases h.closer with h | h | h <;> cases hphase.symm.trans h

theorem ClosingEmpty.closesWell (h : ClosingEmpty s) {r : List (ClosingLabel J × ClosingPool J)}
    (hr : IsRun ClosingStep s r) : ClosesWell s r := by
  have hstep : ∀ (s : ClosingPool J) label s', ClosingEmpty s → ClosingStep s label s' →
      ClosingEmpty s' := fun s label s' hs hst => (hs.step hst).2
  have hall := always_of_invariant hstep h hr
  refine ⟨hall.imp fun s hs => ⟨hs.ran.le, fun _ => hs.ran⟩, ?_, hall.imp fun s hs => ?_⟩
  · have hitems : ∀ (s : ClosingPool J) label s', ClosingEmpty s → ClosingStep s label s' →
        (label.usesItem = true → s.closer ≠ .freed) ∧ ClosingEmpty s' := by
      intro s label s' hs hst
      obtain ⟨huses, hs'⟩ := hs.step hst
      exact ⟨fun hit => (by cases huses.symm.trans hit), hs'⟩
    exact along_of_invariant hitems h hr
  · rintro ⟨hwaits, -⟩
    rcases hs.closer with h | h | h <;> rw [h] at hwaits <;> cases hwaits

end Empty

/-! ## When a pool shuts down -/

/-- A pool that dispatching left behind, all calls returned, shuts down as it should in every run
exactly if it has no threads. In every run, no thread uses its item after it was freed, and no job
is run more often than it was dispatched. -/
theorem closesWell_iff {n : ℤ} {r : List (PoolLabel J × ThreadPool J)}
    (hr : IsRun PoolStep (threadPoolNew n) r) (hcalls : (final (threadPoolNew n) r).CallsDone) :
    ((∀ r', IsRun ClosingStep (.start (final (threadPoolNew n) r)) r' →
        ClosesWell (.start (final (threadPoolNew n) r)) r') ↔
      (final (threadPoolNew n) r).threads = []) ∧
    ∀ r', IsRun ClosingStep (.start (final (threadPoolNew n) r)) r' →
      Along (fun s label _ => label.usesItem = true → s.closer ≠ .freed)
        (.start (final (threadPoolNew n) r)) r' ∧
      Always (fun s => s.pool.ran ≤ s.pool.accepted) (.start (final (threadPoolNew n) r)) r' := by
  have hpool := poolInv_of_run hr
  generalize final (threadPoolNew n) r = p at hpool hcalls
  by_cases hthreads : p.threads = []
  · have hempty := closingEmpty_start hpool hthreads
    refine ⟨⟨fun _ => hthreads, fun _ r' hr' => hempty.closesWell hr'⟩, fun r' hr' => ?_⟩
    have hwell := hempty.closesWell hr'
    exact ⟨hwell.items, hwell.jobs.imp fun s hs => hs.ran_le⟩
  · have hinv : PoolInv p.retried := hpool.resolve_right fun h => hthreads h.threads
    refine ⟨⟨fun hall => ?_, fun h => absurd h hthreads⟩, fun r' hr' => ?_⟩
    · obtain ⟨r', hr', hstuck⟩ := exists_stuck hinv hcalls hthreads
      exact absurd hstuck (hall r' hr').wakes.last
    · have hstart := closingInv_start hinv hcalls hthreads
      have hstep : ∀ (s : ClosingPool J) label s', ClosingInv s → ClosingStep s label s' →
          (label.usesItem = true → s.closer ≠ .freed) ∧ ClosingInv s' :=
        fun s label s' hs hst => ⟨fun _ => hs.not_freed, hs.step hst⟩
      exact ⟨along_of_invariant hstep hstart hr', (hstart.always hr').imp fun s hs => hs.ran_le⟩

/-- A pool that got one job. -/
def oneJobRun : List (PoolLabel ℕ × ThreadPool ℕ) :=
  [(.call 4, ⟨0, 2, 0, [], [⟨4, .entering⟩], none, []⟩),
    (.decide 0 .ok, ⟨1, 2, 0, [⟨true, 4, .atLoop⟩], [⟨4, .returned .ok⟩], none, []⟩)]

theorem isRun_oneJobRun : IsRun PoolStep (threadPoolNew 2) oneJobRun :=
  ⟨.call, @PoolStep.create _ _ 0 ⟨4, .entering⟩ rfl rfl rfl (by decide), trivial⟩

theorem callsDone_oneJobRun : (final (threadPoolNew 2) oneJobRun).CallsDone := by
  intro call hcall
  obtain rfl := List.mem_singleton.mp hcall
  exact ⟨.ok, rfl⟩

theorem closesWell_oneJobRun :
    ((∀ r', IsRun ClosingStep (.start (final (threadPoolNew 2) oneJobRun)) r' →
        ClosesWell (.start (final (threadPoolNew 2) oneJobRun)) r') ↔
      (final (threadPoolNew 2) oneJobRun).threads = []) ∧
    ∀ r', IsRun ClosingStep (.start (final (threadPoolNew 2) oneJobRun)) r' →
      Along (fun s label _ => label.usesItem = true → s.closer ≠ .freed)
        (.start (final (threadPoolNew 2) oneJobRun)) r' ∧
      Always (fun s => s.pool.ran ≤ s.pool.accepted)
        (.start (final (threadPoolNew 2) oneJobRun)) r' :=
  closesWell_iff isRun_oneJobRun callsDone_oneJobRun

/-- Not every pool shuts down: not one that got a job. -/
theorem not_closesWell_oneJob :
    ¬∀ (n : ℤ) (r : List (PoolLabel ℕ × ThreadPool ℕ)), IsRun PoolStep (threadPoolNew n) r →
      (final (threadPoolNew n) r).CallsDone →
      ∀ r', IsRun ClosingStep (.start (final (threadPoolNew n) r)) r' →
        ClosesWell (.start (final (threadPoolNew n) r)) r' := by
  intro h
  have hne : (final (threadPoolNew 2) oneJobRun).threads ≠ [] := List.cons_ne_nil _ _
  have hinv := (poolInv_of_run isRun_oneJobRun).resolve_right fun hempty =>
    hne hempty.threads
  obtain ⟨r', hr', hstuck⟩ := exists_stuck hinv callsDone_oneJobRun hne
  exact absurd hstuck (h 2 _ isRun_oneJobRun callsDone_oneJobRun r' hr').wakes.last

end Gendo
