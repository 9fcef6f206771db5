import Gendo.Server.ThreadPool
import Mathlib.Algebra.Order.BigOperators.Group.List
import Mathlib.Algebra.Order.Group.Multiset

/-!
# Every dispatched job runs once

`PoolInv` ties the counters of the pool to the flags of its threads, the flag of a thread to
where it is, and the window of a hand-over to the thread that was taken: it is back in the pool,
and once its job is assigned it waits. Jobs are counted as a multiset, so a job that is lost or
run twice would show. For the rest, `work` falls with every step that is not a new call, and
`wakeUps` says that no call waits while every thread does.
-/

namespace Gendo

open StepSystem Tally

variable {J : Type*}

/-- The thread belongs to its job: from the moment it was woken, or created, until it goes back
to the pool. -/
def WorkerPhase.active : WorkerPhase → Bool
  | .atLoop | .inJob | .jobDone | .reclaiming | .woken => true
  | .reclaimed | .parking | .waiting | .refused | .leaving | .gone => false

/-- `reclaim_thread` never refused the thread. -/
def WorkerPhase.inPool : WorkerPhase → Bool
  | .atLoop | .inJob | .jobDone | .reclaiming | .reclaimed | .parking | .waiting | .woken => true
  | .refused | .leaving | .gone => false

/-- The thread went back to the pool and did not signal yet. -/
def PoolThread.isReclaimed (t : PoolThread J) : Bool := decide (t.phase = .reclaimed)

/-- The job that the thread has and did not start. -/
def PoolThread.pendingJob (t : PoolThread J) : Multiset J :=
  if t.phase = .atLoop ∨ t.phase = .woken then {t.job} else 0

/-- The call was woken and does not have the lock yet. -/
def DispatchCall.isWoken (call : DispatchCall J) : Bool := decide (call.phase = .woken)

/-- The job of a call that returned. -/
def DispatchCall.doneJob (call : DispatchCall J) : Multiset J :=
  if call.phase = .returned .ok then {call.job} else 0

/-- What is true of a thread: its flag says whether it is at work or taken for a job. -/
structure ThreadOk (lock : Option Handover) (w : ℕ) (t : PoolThread J) : Prop where
  inPool : t.phase.inPool = true
  busy : t.busy = (t.phase.active || lock.any (·.thread == w))

/-- What is true of a call: only the one with the lock hands over, and all end well. -/
structure CallOk (lock : Option Handover) (c : ℕ) (call : DispatchCall J) : Prop where
  handing : call.phase = .handing → lock.any (·.call == c)
  ends : ∀ e, call.phase = .returned e → e = .ok

/-- What is true of the call with the lock: the thread it took is back in the pool, and waits,
with the call's job, once that is assigned. -/
structure HandoverOk (s : ThreadPool J) (h : Handover) (call : DispatchCall J) (t : PoolThread J) :
    Prop where
  handing : call.phase = .handing
  atCall : s.calls[h.call]? = some call
  atThread : s.threads[h.thread]? = some t
  idle : t.phase.active = false
  assigned : h.assigned = true → t.phase = .waiting ∧ t.job = call.job

/-- The invariant of the pool. -/
structure PoolInv (s : ThreadPool J) : Prop where
  max_pos : 0 < s.maxThreads
  num : s.threadsNum = s.threads.length
  num_le : s.threadsNum ≤ s.maxThreads
  idle : s.idleThreads = count PoolThread.isIdle s.threads
  threads : ∀ (w : ℕ) (t : PoolThread J), s.threads[w]? = some t → ThreadOk s.lock w t
  calls : ∀ (c : ℕ) (call : DispatchCall J), s.calls[c]? = some call → CallOk s.lock c call
  lock : ∀ h, s.lock = some h → ∃ call t, HandoverOk s h call t
  /-- What was run or is about to be is what the returned calls dispatched. -/
  jobs : (s.executed.map Prod.snd : Multiset J) + total PoolThread.pendingJob s.threads =
    total DispatchCall.doneJob s.calls
  /-- While a call waits, every idle thread is known to somebody who is on the way. -/
  wakeUps : (∃ call ∈ s.calls, call.phase = .waiting) → s.maxThreads ≤ s.threadsNum ∧
    s.idleThreads ≤ count PoolThread.isReclaimed s.threads + count DispatchCall.isWoken s.calls

theorem poolInv_new {n : ℤ} (hn : 0 < n) : PoolInv (threadPoolNew n : ThreadPool J) := by
  refine ⟨hn, rfl, hn.le, rfl, ?_, ?_, ?_, rfl, ?_⟩
  all_goals simp [threadPoolNew]

/-- A thread of the pool is idle when its flag says so. -/
theorem PoolThread.isIdle_eq {t : PoolThread J} (h : t.phase.inPool = true) :
    t.isIdle = !t.busy := by
  have hgone : t.phase ≠ .gone := by
    intro heq
    rw [heq] at h
    cases h
  simp [PoolThread.isIdle, hgone]

namespace PoolInv

variable {s : ThreadPool J}

/-- A thread that is idle is back in the pool and taken by no call. -/
theorem idle_thread (h : PoolInv s) {w : ℕ} {t : PoolThread J} (hw : s.threads[w]? = some t)
    (hidle : t.isIdle = true) :
    t.busy = false ∧ t.phase.active = false ∧ s.lock.any (·.thread == w) = false := by
  have hbusy : t.busy = false := by
    rw [PoolThread.isIdle, Bool.and_eq_true] at hidle
    simpa using hidle.1
  have hok := (h.threads w t hw).busy
  rw [hbusy] at hok
  have hor := Bool.or_eq_false_iff.mp hok.symm
  exact ⟨hbusy, hor⟩

/-- A thread at work is not idle. -/
theorem not_idle_of_active (h : PoolInv s) {w : ℕ} {t : PoolThread J}
    (hw : s.threads[w]? = some t) (hactive : t.phase.active = true) :
    t.busy = true ∧ t.isIdle = false := by
  have hbusy : t.busy = true := by
    rw [(h.threads w t hw).busy, hactive, Bool.true_or]
  exact ⟨hbusy, by rw [PoolThread.isIdle, hbusy, Bool.not_true, Bool.false_and]⟩

/-- The counter is right after a thread changed that is as idle as before. -/
theorem idle_set (h : PoolInv s) {w : ℕ} {t t' : PoolThread J} (hw : s.threads[w]? = some t)
    (hsame : t'.isIdle = t.isIdle) :
    s.idleThreads = count PoolThread.isIdle (s.threads.set w t') := by
  rw [h.idle]
  exact congrArg Nat.cast (total_set_of_eq _ hw (by rw [hsame])).symm

/-- The threads after one of them changed, and perhaps the lock with it. -/
theorem threads_set (h : PoolInv s) {w : ℕ} {t t' : PoolThread J} {lock : Option Handover}
    (hw : s.threads[w]? = some t) (hok : ThreadOk lock w t')
    (hlock : ∀ w', w' ≠ w → lock.any (·.thread == w') = s.lock.any (·.thread == w'))
    (w' : ℕ) (u : PoolThread J) (hu : (s.threads.set w t')[w']? = some u) :
    ThreadOk lock w' u := by
  rw [getElem?_set_of_some hw] at hu
  split at hu
  · next heq =>
    obtain rfl := Option.some.inj hu
    exact heq ▸ hok
  · next hne =>
    have hold := h.threads w' u hu
    exact ⟨hold.inPool, by rw [hlock w' (Ne.symm hne)]; exact hold.busy⟩

/-- The calls after one of them changed, and perhaps the lock with it. -/
theorem calls_set (h : PoolInv s) {c : ℕ} {call call' : DispatchCall J}
    {lock : Option Handover} (hc : s.calls[c]? = some call) (hok : CallOk lock c call')
    (hlock : ∀ c', c' ≠ c → s.lock.any (·.call == c') = true → lock.any (·.call == c') = true)
    (c' : ℕ) (call₂ : DispatchCall J) (h₂ : (s.calls.set c call')[c']? = some call₂) :
    CallOk lock c' call₂ := by
  rw [getElem?_set_of_some hc] at h₂
  split at h₂
  · next heq =>
    obtain rfl := Option.some.inj h₂
    exact heq ▸ hok
  · next hne =>
    have hold := h.calls c' call₂ h₂
    exact ⟨fun hh => hlock c' (Ne.symm hne) (hold.handing hh), hold.ends⟩

/-- A call is waiting after a call changed to a phase other than `waiting`, only if one was. -/
theorem waiting_of_set {calls : List (DispatchCall J)} {c : ℕ} {call' : DispatchCall J}
    (hphase : call'.phase ≠ .waiting)
    (h : ∃ call ∈ calls.set c call', call.phase = .waiting) :
    ∃ call ∈ calls, call.phase = .waiting := by
  obtain ⟨call, hmem, hcall⟩ := h
  rcases List.mem_or_eq_of_mem_set hmem with hold | rfl
  · exact ⟨call, hold, hcall⟩
  · exact absurd hcall hphase

/-- A step of one thread alone, which is not yet assigned a job and stays as it is for the
dispatchers: its flag, and whether it is at work. -/
theorem threadStep (h : PoolInv s) {w : ℕ} {t t' : PoolThread J} {executed : List (ℕ × J)}
    (hw : s.threads[w]? = some t) (hbusy : t'.busy = t.busy)
    (hactive : t'.phase.active = t.phase.active) (hpool : t'.phase.inPool = true)
    (hassigned : t.phase ≠ .waiting)
    (hjobs : (executed.map Prod.snd : Multiset J) + total PoolThread.pendingJob
      (s.threads.set w t') = total DispatchCall.doneJob s.calls)
    (hwake : (∃ call ∈ s.calls, call.phase = .waiting) → s.maxThreads ≤ s.threadsNum ∧
      s.idleThreads ≤ count PoolThread.isReclaimed (s.threads.set w t') +
        count DispatchCall.isWoken s.calls) :
    PoolInv { s with threads := s.threads.set w t', executed := executed } := by
  have hok : ThreadOk s.lock w t' := by
    refine ⟨hpool, ?_⟩
    rw [hbusy, (h.threads w t hw).busy, hactive]
  have hidle : t'.isIdle = t.isIdle := by
    rw [PoolThread.isIdle_eq hpool, PoolThread.isIdle_eq (h.threads w t hw).inPool, hbusy]
  refine ⟨h.max_pos, ?_, h.num_le, h.idle_set hw hidle, h.threads_set hw hok (fun _ _ => rfl),
    h.calls, ?_, hjobs, hwake⟩
  · simpa using h.num
  · intro ho hlock
    obtain ⟨call, u, hhand⟩ := h.lock ho hlock
    by_cases hsame : w = ho.thread
    · -- it is the thread that was taken, so no job is assigned to it yet
      obtain rfl : t = u := Option.some.inj (hw.symm.trans (hsame ▸ hhand.atThread))
      refine ⟨call, t', hhand.handing, hhand.atCall, ?_, hactive.trans hhand.idle, ?_⟩
      · rw [getElem?_set_of_some hw, if_pos hsame]
      · exact fun ha => absurd (hhand.assigned ha).1 hassigned
    · -- another thread was taken, and that one did not change
      refine ⟨call, u, hhand.handing, hhand.atCall, ?_, hhand.idle, hhand.assigned⟩
      rw [getElem?_set_of_some hw, if_neg hsame]
      exact hhand.atThread

/-- Who is known to be idle stays known when no thread comes back to the pool or signals. -/
theorem wakeUps_set (h : PoolInv s) {w : ℕ} {t t' : PoolThread J} (hw : s.threads[w]? = some t)
    (hsame : t'.isReclaimed = t.isReclaimed)
    (hwait : ∃ call ∈ s.calls, call.phase = .waiting) : s.maxThreads ≤ s.threadsNum ∧
      s.idleThreads ≤ count PoolThread.isReclaimed (s.threads.set w t') +
        count DispatchCall.isWoken s.calls := by
  have hcount : count PoolThread.isReclaimed (s.threads.set w t') =
      count PoolThread.isReclaimed s.threads := total_set_of_eq _ hw (by rw [hsame])
  rw [hcount]
  exact h.wakeUps hwait

/-- What a thread's own moves keep. -/
theorem next_spec {p q : WorkerPhase} (h : p.next = some q) :
    q.active = p.active ∧ q.inPool = true ∧ p ≠ .waiting ∧ p ≠ .reclaimed ∧
      q ≠ .reclaimed ∧ ((q = .atLoop ∨ q = .woken) ↔ (p = .atLoop ∨ p = .woken)) := by
  cases p <;> cases h <;> decide

theorem move (h : PoolInv s) {w : ℕ} {t : PoolThread J} {p : WorkerPhase}
    (hw : s.threads[w]? = some t) (hp : t.phase.next = some p) :
    PoolInv (s.setThread w { t with phase := p }) := by
  obtain ⟨hactive, hpool, hwaiting, hrec, hrec', hpending⟩ := next_spec hp
  refine h.threadStep hw rfl hactive hpool hwaiting ?_ (h.wakeUps_set hw ?_)
  · -- a job that was not started stays with its thread
    rw [total_set_of_eq _ hw (by simp only [PoolThread.pendingJob, hpending])]
    exact h.jobs
  · simp [PoolThread.isReclaimed, hrec, hrec']

theorem run (h : PoolInv s) {w : ℕ} {t : PoolThread J} (hw : s.threads[w]? = some t)
    (hphase : t.phase = .atLoop) :
    PoolInv { s with
      threads := s.threads.set w { t with phase := .inJob }
      executed := s.executed ++ [(w, t.job)] } := by
  refine h.threadStep hw rfl ?_ rfl ?_ ?_ (h.wakeUps_set hw ?_)
  · rw [hphase]
    rfl
  · simp [hphase]
  · -- the job leaves the thread for the list of those that were run
    have hset := total_set PoolThread.pendingJob hw { t with phase := .inJob }
    simp only [PoolThread.pendingJob, hphase, true_or, if_true, reduceCtorEq, or_self, if_false,
      add_zero] at hset
    rw [← h.jobs, ← hset, List.map_append, List.map_singleton, ← Multiset.coe_add, add_assoc,
      add_comm (total _ _), Multiset.coe_singleton]
  · simp [PoolThread.isReclaimed, hphase]

/-- A thread that signals `mIdleCond` was taken back before. -/
theorem afterSignal_spec (h : PoolInv s) {w : ℕ} {t : PoolThread J} {p : WorkerPhase}
    (hw : s.threads[w]? = some t) (hp : t.phase.afterSignal = some p) :
    t.phase = .reclaimed ∧ p = .parking := by
  have hpool := (h.threads w t hw).inPool
  -- of the two phases that signal, only one is that of a thread of the pool
  generalize t.phase = q at hp hpool
  cases q <;> cases hp
  · exact ⟨rfl, rfl⟩
  · cases hpool

theorem signalUnheard (h : PoolInv s) {w : ℕ} {t : PoolThread J} {p : WorkerPhase}
    (hw : s.threads[w]? = some t) (hp : t.phase.afterSignal = some p)
    (hnone : ∀ call ∈ s.calls, call.phase ≠ .waiting) :
    PoolInv (s.setThread w { t with phase := p }) := by
  obtain ⟨hphase, rfl⟩ := h.afterSignal_spec hw hp
  refine h.threadStep hw rfl ?_ rfl ?_ ?_ ?_
  · rw [hphase]
    rfl
  · simp [hphase]
  · rw [total_set_of_eq _ hw (by simp [PoolThread.pendingJob, hphase])]
    exact h.jobs
  · -- nobody waits for the signal
    rintro ⟨call, hmem, hwait⟩
    exact absurd hwait (hnone call hmem)

/-- A step of one call alone, which has no lock before or after and does not return. -/
theorem callStep (h : PoolInv s) {c : ℕ} {call call' : DispatchCall J}
    (hc : s.calls[c]? = some call) (hlock : call.phase ≠ .handing) (hlock' : call'.phase ≠ .handing)
    (hdone : ∀ e, call.phase ≠ .returned e) (hdone' : ∀ e, call'.phase ≠ .returned e)
    (hwake : (∃ call ∈ s.calls.set c call', call.phase = .waiting) → s.maxThreads ≤ s.threadsNum ∧
      s.idleThreads ≤ count PoolThread.isReclaimed s.threads +
        count DispatchCall.isWoken (s.calls.set c call')) :
    PoolInv (s.setCall c call') := by
  have hok : CallOk s.lock c call' :=
    ⟨fun hh => absurd hh hlock', fun e he => absurd he (hdone' e)⟩
  refine ⟨h.max_pos, h.num, h.num_le, h.idle, h.threads, h.calls_set hc hok (fun _ _ hh => hh), ?_,
    ?_, hwake⟩
  · -- the call with the lock is another one
    intro ho hl
    obtain ⟨call₂, u, hhand⟩ := h.lock ho hl
    have hne : c ≠ ho.call := by
      intro heq
      obtain rfl : call = call₂ := Option.some.inj (hc.symm.trans (heq ▸ hhand.atCall))
      exact hlock hhand.handing
    refine ⟨call₂, u, hhand.handing, ?_, hhand.atThread, hhand.idle, hhand.assigned⟩
    show (s.calls.set c call')[ho.call]? = some call₂
    rw [getElem?_set_of_some hc, if_neg hne]
    exact hhand.atCall
  · show _ = total DispatchCall.doneJob (s.calls.set c call')
    rw [total_set_of_eq _ hc (by simp [DispatchCall.doneJob, hdone, hdone'])]
    exact h.jobs

/-- A call that is about to take the lock does not have it, and did not return. -/
theorem atLock_spec {p : DispatchPhase} (h : p.atLock = true) :
    p ≠ .handing ∧ (∀ e, p ≠ .returned e) ∧ p ≠ .waiting := by
  cases p <;> simp_all [DispatchPhase.atLock]

theorem wait (h : PoolInv s) {c : ℕ} {call : DispatchCall J} (hc : s.calls[c]? = some call)
    (hat : call.phase.atLock = true) (hbranch : s.branch = .wait) :
    PoolInv (s.setCall c { call with phase := .waiting }) := by
  obtain ⟨hhanding, hreturned, -⟩ := atLock_spec hat
  refine h.callStep hc hhanding (by simp) hreturned (by simp) (fun _ => ?_)
  -- no thread is idle, so there is nothing to be woken for
  obtain ⟨hidle, hmax⟩ := branch_eq_wait hbranch
  exact ⟨hmax, by omega⟩

theorem call (h : PoolInv s) (job : J) :
    PoolInv { s with calls := s.calls ++ [⟨job, .entering⟩] } := by
  refine ⟨h.max_pos, h.num, h.num_le, h.idle, h.threads, ?_, ?_, ?_, ?_⟩
  · -- the new call has not got the lock
    intro c call hc
    rw [List.getElem?_append] at hc
    split at hc
    · exact h.calls c call hc
    · obtain rfl := List.mem_singleton.mp (List.mem_of_getElem? hc)
      exact ⟨by simp, by simp⟩
  · intro ho hl
    obtain ⟨call, t, hhand⟩ := h.lock ho hl
    obtain ⟨hlt, -⟩ := List.getElem?_eq_some_iff.mp hhand.atCall
    refine ⟨call, t, hhand.handing, ?_, hhand.atThread, hhand.idle, hhand.assigned⟩
    rw [List.getElem?_append_left hlt]
    exact hhand.atCall
  · -- the new call did not return
    rw [total_append, ← h.jobs]
    simp [DispatchCall.doneJob]
  · -- nor does it wait
    rintro ⟨call, hmem, hwait⟩
    rcases List.mem_append.mp hmem with hold | hnew
    · obtain ⟨hmax, hle⟩ := h.wakeUps ⟨call, hold, hwait⟩
      rw [count_append]
      exact ⟨hmax, by push_cast; omega⟩
    · obtain rfl := List.mem_singleton.mp hnew
      cases hwait

/-- A thread that signals leaves one idle thread less to be told of, and the call it wakes one
more that is on the way. -/
theorem signalWake (h : PoolInv s) {w c : ℕ} {t : PoolThread J} {p : WorkerPhase}
    {call : DispatchCall J} (hw : s.threads[w]? = some t) (hp : t.phase.afterSignal = some p)
    (hc : s.calls[c]? = some call) (hwaiting : call.phase = .waiting) :
    PoolInv { s with
      threads := s.threads.set w { t with phase := p }
      calls := s.calls.set c { call with phase := .woken } } := by
  obtain ⟨hphase, rfl⟩ := h.afterSignal_spec hw hp
  obtain ⟨hmax, hle⟩ := h.wakeUps ⟨call, List.mem_of_getElem? hc, hwaiting⟩
  have hwoken := count_set DispatchCall.isWoken hc { call with phase := .woken }
  have hreclaimed := count_set PoolThread.isReclaimed hw { t with phase := .parking }
  have hwas : call.isWoken.toNat = 0 := by simp [DispatchCall.isWoken, hwaiting]
  have hsignals : t.isReclaimed.toNat = 1 := by simp [PoolThread.isReclaimed, hphase]
  have his : DispatchCall.isWoken { call with phase := .woken } = true := rfl
  have hparks : PoolThread.isReclaimed { t with phase := .parking } = false := rfl
  rw [hwas, his, Bool.toNat_true] at hwoken
  rw [hsignals, hparks, Bool.toNat_false] at hreclaimed
  -- first the call is woken, then the thread goes on: each step is one of its own
  have hwoken' : PoolInv (s.setCall c { call with phase := .woken }) := by
    refine h.callStep hc (by simp [hwaiting]) (by simp) (by simp [hwaiting]) (by simp) (fun _ => ?_)
    exact ⟨hmax, by omega⟩
  refine hwoken'.threadStep hw rfl ?_ rfl ?_ ?_ (fun _ => ⟨hmax, ?_⟩)
  · rw [hphase]
    rfl
  · simp [hphase]
  · have hjobs := hwoken'.jobs
    rw [← hjobs]
    congr 1
    exact total_set_of_eq _ hw (by simp [PoolThread.pendingJob, hphase])
  · show s.idleThreads ≤ count PoolThread.isReclaimed (s.threads.set w _) +
      count DispatchCall.isWoken (s.calls.set c _)
    omega

theorem create (h : PoolInv s) {c : ℕ} {call : DispatchCall J} (hc : s.calls[c]? = some call)
    (hat : call.phase.atLock = true) (hfree : s.lock = none) (hbranch : s.branch = .create) :
    PoolInv { s with
      threads := s.threads ++ [⟨true, call.job, .atLoop⟩], threadsNum := s.threadsNum + 1
      calls := s.calls.set c { call with phase := .returned .ok } } := by
  obtain ⟨hidle, hlt⟩ := branch_eq_create hbranch
  obtain ⟨-, hreturned, -⟩ := atLock_spec hat
  have hok : CallOk s.lock c { call with phase := .returned .ok } := ⟨by simp, by simp⟩
  refine ⟨h.max_pos, ?_, ?_, ?_, ?_, h.calls_set hc hok (fun _ _ hh => hh), ?_, ?_, ?_⟩
  · simpa using h.num
  · dsimp only
    omega
  · -- the new thread is busy
    rw [h.idle, count_append]
    simp [PoolThread.isIdle]
  · intro w t hw
    rw [List.getElem?_append] at hw
    split at hw
    · exact h.threads w t hw
    · obtain rfl := List.mem_singleton.mp (List.mem_of_getElem? hw)
      exact ⟨rfl, rfl⟩
  · intro ho hl
    rw [hfree] at hl
    cases hl
  · -- the job goes from the call to the new thread
    have hset := total_set DispatchCall.doneJob hc { call with phase := .returned .ok }
    simp only [DispatchCall.doneJob, hreturned, if_true, if_false, add_zero] at hset
    rw [total_append, ← add_assoc, h.jobs]
    simp [hset, PoolThread.pendingJob]
  · -- a call that waits shows that the pool is full, and this one found room
    intro hwait
    have hmax := (h.wakeUps (waiting_of_set (by simp) hwait)).1
    omega

theorem take (h : PoolInv s) {c w : ℕ} {call : DispatchCall J} {t : PoolThread J}
    (hc : s.calls[c]? = some call) (hat : call.phase.atLock = true) (hfree : s.lock = none)
    (hget : threadGetIdle s.threads = some w) (hw : s.threads[w]? = some t) :
    PoolInv { s with
      threads := s.threads.set w { t with busy := true }, idleThreads := s.idleThreads - 1
      calls := s.calls.set c { call with phase := .handing }, lock := some ⟨c, w, false⟩ } := by
  obtain ⟨-, hreturned, -⟩ := atLock_spec hat
  have hidle := isIdle_of_threadGetIdle hget hw
  obtain ⟨hbusy, hactive, -⟩ := h.idle_thread hw hidle
  have hpool := (h.threads w t hw).inPool
  have hthread : ThreadOk (some ⟨c, w, false⟩) w { t with busy := true } :=
    ⟨hpool, by simp⟩
  have hcall : CallOk (some ⟨c, w, false⟩) c { call with phase := .handing } :=
    ⟨by simp, by simp⟩
  refine ⟨h.max_pos, ?_, h.num_le, ?_, h.threads_set hw hthread ?_, h.calls_set hc hcall ?_, ?_,
    ?_, ?_⟩
  · simpa using h.num
  · -- the thread that was taken is idle no longer
    have hset := count_set PoolThread.isIdle hw { t with busy := true }
    have hidle' : PoolThread.isIdle { t with busy := true } = false := by simp [PoolThread.isIdle]
    simp only [hidle, hidle', Bool.toNat_true, Bool.toNat_false] at hset
    have hcount := h.idle
    dsimp only
    omega
  · -- for the other threads nothing changes: the lock was free
    intro w' hne
    simp [hfree, Ne.symm hne]
  · intro c' _ hl
    simp [hfree] at hl
  · -- the hand-over begins with this call and this thread
    intro ho hl
    obtain rfl := Option.some.inj hl
    refine ⟨{ call with phase := .handing }, { t with busy := true }, rfl, ?_, ?_, hactive,
      by simp⟩
    · exact (getElem?_set_of_some hc _ c).trans (if_pos rfl)
    · exact (getElem?_set_of_some hw _ w).trans (if_pos rfl)
  · -- no job moved
    rw [total_set_of_eq _ hw (by rfl),
      total_set_of_eq _ hc (by simp [DispatchCall.doneJob, hreturned])]
    exact h.jobs
  · -- one idle thread less, and at most one woken call less
    intro hwait
    obtain ⟨hmax, hle⟩ := h.wakeUps (waiting_of_set (by simp) hwait)
    have hsame : count PoolThread.isReclaimed (s.threads.set w { t with busy := true }) =
        count PoolThread.isReclaimed s.threads := total_set_of_eq _ hw rfl
    have hwoken := count_set DispatchCall.isWoken hc { call with phase := .handing }
    have hone : call.isWoken.toNat ≤ 1 := Bool.toNat_le _
    refine ⟨hmax, ?_⟩
    rw [hsame]
    dsimp only
    omega

theorem assign (h : PoolInv s) {c w : ℕ} {call : DispatchCall J} {t : PoolThread J}
    (hlock : s.lock = some ⟨c, w, false⟩) (hc : s.calls[c]? = some call)
    (hw : s.threads[w]? = some t) (hown : t.phase.hasLock = false) :
    PoolInv { s with
      threads := s.threads.set w { t with job := call.job }, lock := some ⟨c, w, true⟩ } := by
  obtain ⟨call₂, t₂, hhand⟩ := h.lock _ hlock
  obtain rfl : call = call₂ := Option.some.inj (hc.symm.trans hhand.atCall)
  obtain rfl : t = t₂ := Option.some.inj (hw.symm.trans hhand.atThread)
  have hok := h.threads w t hw
  -- the thread gave its lock back, so it waits
  have hwaiting : t.phase = .waiting := by
    have hidle := hhand.idle
    have hpool := hok.inPool
    generalize t.phase = q at hidle hpool hown
    cases q <;> simp_all [WorkerPhase.active, WorkerPhase.hasLock, WorkerPhase.inPool]
  have hthread : ThreadOk (some ⟨c, w, true⟩) w { t with job := call.job } :=
    ⟨hok.inPool, by rw [hok.busy, hlock]; rfl⟩
  refine ⟨h.max_pos, ?_, h.num_le, h.idle_set hw rfl, h.threads_set hw hthread ?_, ?_, ?_, ?_,
    h.wakeUps_set hw rfl⟩
  · simpa using h.num
  · -- the same thread is taken before and after
    intro w' _
    rw [hlock]
    rfl
  · intro c' call' hc'
    have hold := h.calls c' call' hc'
    rw [hlock] at hold
    exact ⟨hold.handing, hold.ends⟩
  · -- the hand-over goes on, with the job assigned
    intro ho hl
    obtain rfl := Option.some.inj hl
    refine ⟨call, { t with job := call.job }, hhand.handing, hc, ?_, hhand.idle,
      fun _ => ⟨hwaiting, rfl⟩⟩
    exact (getElem?_set_of_some hw _ w).trans (if_pos rfl)
  · rw [total_set_of_eq _ hw (by simp [PoolThread.pendingJob, hwaiting])]
    exact h.jobs

theorem signalThread (h : PoolInv s) {c w : ℕ} {call : DispatchCall J} {t : PoolThread J}
    (hlock : s.lock = some ⟨c, w, true⟩) (hc : s.calls[c]? = some call)
    (hw : s.threads[w]? = some t) :
    PoolInv { s with
      threads := s.threads.set w
        { t with phase := if t.phase = .waiting then .woken else t.phase }
      calls := s.calls.set c { call with phase := .returned .ok }, lock := none } := by
  obtain ⟨call₂, t₂, hhand⟩ := h.lock _ hlock
  obtain rfl : call = call₂ := Option.some.inj (hc.symm.trans hhand.atCall)
  obtain rfl : t = t₂ := Option.some.inj (hw.symm.trans hhand.atThread)
  obtain ⟨hwaiting, hjob⟩ := hhand.assigned rfl
  have hok := h.threads w t hw
  have hbusy : t.busy = true := by
    rw [hok.busy, hlock]
    simp
  rw [if_pos hwaiting]
  have hthread : ThreadOk none w { t with phase := .woken } := ⟨rfl, hbusy⟩
  have hcall : CallOk none c { call with phase := .returned .ok } := ⟨by simp, by simp⟩
  have hidle : PoolThread.isIdle { t with phase := .woken } = t.isIdle := by
    rw [PoolThread.isIdle_eq rfl, PoolThread.isIdle_eq hok.inPool]
  refine ⟨h.max_pos, ?_, h.num_le, h.idle_set hw hidle, h.threads_set hw hthread ?_,
    h.calls_set hc hcall ?_, ?_, ?_, ?_⟩
  · simpa using h.num
  · -- the other threads were not taken
    intro w' hne
    simp [hlock, Ne.symm hne]
  · intro c' hne hl
    simp [hlock, Ne.symm hne] at hl
  · -- the lock is free again
    intro ho hl
    cases hl
  · -- the thread has the job of the call that returns
    have hthreads := total_set PoolThread.pendingJob hw { t with phase := .woken }
    have hcalls := total_set DispatchCall.doneJob hc { call with phase := .returned .ok }
    simp only [PoolThread.pendingJob, hwaiting, reduceCtorEq, or_self, if_false, or_true, if_true,
      add_zero] at hthreads
    simp only [DispatchCall.doneJob, hhand.handing, reduceCtorEq, if_true, if_false,
      add_zero] at hcalls
    rw [hthreads, hcalls, ← add_assoc, h.jobs, hjob]
  · -- neither the thread nor the call was one of those on the way
    intro hwait
    obtain ⟨hmax, hle⟩ := h.wakeUps (waiting_of_set (by simp) hwait)
    have hsame : count DispatchCall.isWoken
        (s.calls.set c { call with phase := .returned .ok }) = count DispatchCall.isWoken s.calls :=
      total_set_of_eq _ hc (by simp [DispatchCall.isWoken, hhand.handing])
    have hreclaimed : count PoolThread.isReclaimed (s.threads.set w { t with phase := .woken }) =
        count PoolThread.isReclaimed s.threads :=
      total_set_of_eq _ hw (by simp [PoolThread.isReclaimed, hwaiting])
    rw [hsame, hreclaimed]
    exact ⟨hmax, hle⟩

theorem reclaim (h : PoolInv s) {w : ℕ} {t : PoolThread J} (hw : s.threads[w]? = some t)
    (hphase : t.phase = .reclaiming) (hfree : s.lock = none) :
    PoolInv { s with
      threads := s.threads.set w { t with busy := false, phase := .reclaimed }
      idleThreads := s.idleThreads + 1 } := by
  obtain ⟨hbusy, hidle⟩ := h.not_idle_of_active hw (by rw [hphase]; rfl)
  have hthread : ThreadOk s.lock w { t with busy := false, phase := .reclaimed } :=
    ⟨rfl, by rw [hfree]; rfl⟩
  have hreclaimed := count_set PoolThread.isReclaimed hw
    { t with busy := false, phase := .reclaimed }
  have hwas : t.isReclaimed = false := by simp [PoolThread.isReclaimed, hphase]
  have his : PoolThread.isReclaimed { t with busy := false, phase := .reclaimed } = true := rfl
  rw [hwas, his, Bool.toNat_true, Bool.toNat_false] at hreclaimed
  refine ⟨h.max_pos, ?_, h.num_le, ?_, h.threads_set hw hthread (fun _ _ => rfl), h.calls, ?_, ?_,
    ?_⟩
  · simpa using h.num
  · -- the thread is idle from here on
    have hset := count_set PoolThread.isIdle hw { t with busy := false, phase := .reclaimed }
    rw [hidle, PoolThread.isIdle_eq rfl] at hset
    simp only [Bool.not_false, Bool.toNat_true, Bool.toNat_false] at hset
    have hcount := h.idle
    dsimp only
    omega
  · intro ho hl
    rw [hfree] at hl
    cases hl
  · -- its job was done
    rw [total_set_of_eq _ hw (by simp [PoolThread.pendingJob, hphase])]
    exact h.jobs
  · -- one more thread is idle, and it has yet to signal
    intro hwait
    obtain ⟨hmax, hle⟩ := h.wakeUps hwait
    refine ⟨hmax, ?_⟩
    dsimp only at hle ⊢
    omega

/-- A counter that says some thread is idle is right. -/
theorem idle_found (h : PoolInv s) (hbranch : s.branch = .idle) :
    threadGetIdle s.threads ≠ none := by
  have hpos := branch_eq_idle hbranch
  have hcount : 0 < count PoolThread.isIdle s.threads := by
    have hidle := h.idle
    omega
  exact Option.isSome_iff_ne_none.mp (threadGetIdle_isSome hcount)

/-- A thread that comes back finds room, since it is not idle itself. -/
theorem room (h : PoolInv s) {w : ℕ} {t : PoolThread J} (hw : s.threads[w]? = some t)
    (hphase : t.phase = .reclaiming) : s.idleThreads < s.maxThreads := by
  obtain ⟨-, hidle⟩ := h.not_idle_of_active hw (by rw [hphase]; rfl)
  have hlt := count_lt_length PoolThread.isIdle hw hidle
  have hcount := h.idle
  have hnum := h.num
  have hle := h.num_le
  omega

/-- A step keeps the invariant when threads are created with success. -/
theorem step (h : PoolInv s) {label : PoolLabel J} {s' : ThreadPool J}
    (hguard : creationGuard s label) (hstep : PoolStep s label s') : PoolInv s' := by
  cases hstep with
  | call => exact h.call _
  | wait hc hat hfree hbranch => exact h.wait hc hat hbranch
  | create hc hat hfree hbranch => exact h.create hc hat hfree hbranch
  | createFail hc hat hfree hbranch he =>
    rcases he with rfl | rfl
    · -- a creation that fails is what the condition excludes
      cases hguard
    · cases hguard
  | take hc hat hfree hbranch hget hw => exact h.take hc hat hfree hget hw
  | takeNone hc hat hfree hbranch hget => exact absurd hget (h.idle_found hbranch)
  | noCondition hc hat hfree hbranch => exact absurd hbranch (branch_ne_noCondition s)
  | assign hlock hc hw hown => exact h.assign hlock hc hw hown
  | signalThread hlock hc hw => exact h.signalThread hlock hc hw
  | run hw hphase => exact h.run hw hphase
  | move hw hp => exact h.move hw hp
  | reclaim hw hphase hfree hlt => exact h.reclaim hw hphase hfree
  | refuse hw hphase hfree hnot => exact absurd (h.room hw hphase) hnot
  | signalUnheard hw hp hnone => exact h.signalUnheard hw hp hnone
  | signalWake hw hp hc hwaiting => exact h.signalWake hw hp hc hwaiting
  | remove hw hphase =>
    have hpool := (h.threads _ _ hw).inPool
    rw [hphase] at hpool
    cases hpool

end PoolInv

/-! ## What is left to do -/

/-- How far a thread is from its wait. A thread that is woken needs the most moves. -/
def WorkerPhase.work : WorkerPhase → ℕ
  | .woken => 8
  | .atLoop => 7
  | .inJob => 6
  | .jobDone => 5
  | .reclaiming => 4
  | .reclaimed | .refused => 3
  | .parking | .leaving => 1
  | .waiting | .gone => 0

/-- How far a call is from its end, the thread that it wakes included. -/
def DispatchPhase.work : DispatchPhase → ℕ
  | .entering | .woken => 11
  | .waiting => 10
  | .handing => 9
  | .returned _ => 0

/-- A call that has the lock assigns its job first. -/
def Handover.work (h : Handover) : ℕ := (!h.assigned).toNat

/-- An upper bound of the steps that are left when nobody calls. -/
def ThreadPool.work (s : ThreadPool J) : ℕ :=
  total (·.phase.work) s.threads + total (·.phase.work) s.calls + s.lock.elim 0 Handover.work

theorem atLock_work {p : DispatchPhase} (h : p.atLock = true) : p.work = 11 := by
  cases p <;> simp_all [DispatchPhase.atLock, DispatchPhase.work]

theorem next_work {p q : WorkerPhase} (h : p.next = some q) : q.work < p.work := by
  cases p <;> cases h <;> decide

theorem afterSignal_work {p q : WorkerPhase} (h : p.afterSignal = some q) :
    p.work = 3 ∧ q.work = 1 := by
  cases p <;> cases h <;> decide

section work

variable {s : ThreadPool J}

/-- A thread that moves on alone. -/
theorem work_setThread {w : ℕ} {t : PoolThread J} {p q : WorkerPhase} {busy : Bool} {job : J}
    {executed : List (ℕ × J)} {num idle : ℤ} (hw : s.threads[w]? = some t) (hp : t.phase = p)
    (hlt : q.work < p.work) :
    ThreadPool.work { s with
      threads := s.threads.set w ⟨busy, job, q⟩, threadsNum := num, idleThreads := idle
      executed := executed } < s.work := by
  have hset := total_set (·.phase.work) hw ⟨busy, job, q⟩
  simp only [hp] at hset
  simp only [ThreadPool.work]
  omega

/-- A call that has the lock moves on, to its wait or to its end. -/
theorem work_setCall {c : ℕ} {call : DispatchCall J} {p : DispatchPhase} {job : J}
    (hc : s.calls[c]? = some call) (hat : call.phase.atLock = true) (hlt : p.work < 11) :
    (s.setCall c ⟨job, p⟩).work < s.work := by
  have hset := total_set (·.phase.work) hc ⟨job, p⟩
  simp only [atLock_work hat] at hset
  simp only [ThreadPool.setCall, ThreadPool.work]
  omega

/-- A call and a thread that move on together, with the lock or without it. -/
theorem work_setBoth {c w : ℕ} {call call' : DispatchCall J} {t t' : PoolThread J}
    {lock : Option Handover} {idle : ℤ} (hc : s.calls[c]? = some call)
    (hw : s.threads[w]? = some t)
    (hlt : t'.phase.work + call'.phase.work + lock.elim 0 Handover.work <
      t.phase.work + call.phase.work + s.lock.elim 0 Handover.work) :
    ThreadPool.work { s with
      threads := s.threads.set w t', calls := s.calls.set c call', lock := lock
      idleThreads := idle } < s.work := by
  have hcalls := total_set (·.phase.work) hc call'
  have hthreads := total_set (·.phase.work) hw t'
  simp only [ThreadPool.work]
  omega

/-- Every step but a new call leaves less to do. -/
theorem PoolInv.work_lt (h : PoolInv s) {label : PoolLabel J} {s' : ThreadPool J}
    (hguard : noCallGuard s label) (hstep : PoolStep s label s') : s'.work < s.work := by
  cases hstep with
  | call => cases hguard
  | wait hc hat => exact work_setCall hc hat (by decide)
  | @create c call hc hat =>
    -- the new thread has less before it than the call had
    have hset := total_set (·.phase.work) hc { call with phase := .returned .ok }
    simp only [atLock_work hat] at hset
    simp only [ThreadPool.work, total_append, total_cons, total_nil]
    have hend : (DispatchPhase.returned .ok).work = 0 := rfl
    have hnew : WorkerPhase.atLoop.work = 7 := rfl
    omega
  | createFail hc hat _ _ he =>
    refine work_setCall hc hat ?_
    rcases he with rfl | rfl
    · decide
    · decide
  | @take c call w t hc hat hfree _ _ hw =>
    refine work_setBoth hc hw ?_
    have hhanding : DispatchPhase.handing.work = 9 := rfl
    have hlock : (⟨c, w, false⟩ : Handover).work = 1 := rfl
    simp only [atLock_work hat, hfree, Option.elim_none, Option.elim_some]
    omega
  | takeNone hc hat => exact work_setCall hc hat (by decide)
  | noCondition hc hat => exact work_setCall hc hat (by decide)
  | @assign c call w t hlock hc hw =>
    have hthreads := total_set (·.phase.work) hw { t with job := call.job }
    dsimp only at hthreads
    have hbefore : (⟨c, w, false⟩ : Handover).work = 1 := rfl
    have hafter : (⟨c, w, true⟩ : Handover).work = 0 := rfl
    simp only [ThreadPool.work, hlock, Option.elim_some]
    omega
  | @signalThread c call w t hlock hc hw =>
    -- what the thread is woken to do was counted with the call
    obtain ⟨call₂, t₂, hhand⟩ := h.lock _ hlock
    obtain rfl : call = call₂ := Option.some.inj (hc.symm.trans hhand.atCall)
    obtain rfl : t = t₂ := Option.some.inj (hw.symm.trans hhand.atThread)
    have hwaiting := (hhand.assigned rfl).1
    refine work_setBoth hc hw ?_
    have hhanding : DispatchPhase.handing.work = 9 := rfl
    have hend : (DispatchPhase.returned .ok).work = 0 := rfl
    have hwait : WorkerPhase.waiting.work = 0 := rfl
    have hwoken : WorkerPhase.woken.work = 8 := rfl
    simp only [hhand.handing, hlock, hwaiting, if_true, Option.elim_none, Option.elim_some]
    omega
  | run hw hphase => exact work_setThread hw hphase (by decide)
  | move hw hp => exact work_setThread hw rfl (next_work hp)
  | reclaim hw hphase => exact work_setThread hw hphase (by decide)
  | refuse hw hphase => exact work_setThread hw hphase (by decide)
  | @signalUnheard w t p hw hp =>
    obtain ⟨hbefore, hafter⟩ := afterSignal_work hp
    exact work_setThread hw rfl (by omega)
  | @signalWake w t p c call hw hp hc hwaiting =>
    -- the call that is woken has one more step before it, the thread two less
    obtain ⟨hbefore, hafter⟩ := afterSignal_work hp
    refine work_setBoth hc hw ?_
    have hwait : DispatchPhase.waiting.work = 10 := rfl
    have hwoken : DispatchPhase.woken.work = 11 := rfl
    simp only [hwaiting]
    omega
  | remove hw hphase => exact work_setThread hw hphase (by decide)

end work

/-! ## What a pool comes to -/

/-- No step is left, unless somebody calls. -/
def ThreadPool.Settled (s : ThreadPool J) : Prop :=
  ∀ label s', PoolStep s label s' → ∃ job, label = .call job

theorem ThreadPool.Settled.not_step {s s' : ThreadPool J} {label : PoolLabel J}
    (hsettled : s.Settled) (hstep : PoolStep s label s') (hlabel : ∀ job, label ≠ .call job) :
    False := by
  obtain ⟨job, hjob⟩ := hsettled label s' hstep
  exact hlabel job hjob

/-- The jobs of all calls. -/
def ThreadPool.dispatched (s : ThreadPool J) : Multiset J := (s.calls.map (·.job) : List J)

/-- The jobs that were run. -/
def ThreadPool.ran (s : ThreadPool J) : Multiset J := (s.executed.map Prod.snd : List J)

namespace PoolInv

variable {s : ThreadPool J}

/-- In a settled pool no thread can move on alone, or signal. -/
theorem settled_moves (hsettled : s.Settled) {w : ℕ} {t : PoolThread J}
    (hw : s.threads[w]? = some t) :
    t.phase.next = none ∧ t.phase.afterSignal = none ∧ t.phase ≠ .atLoop := by
  refine ⟨?_, ?_, ?_⟩
  · rw [Option.eq_none_iff_forall_ne_some]
    exact fun p hp => hsettled.not_step (.move hw hp) (by simp)
  · -- whether a call waits or not, the thread could signal
    rw [Option.eq_none_iff_forall_ne_some]
    intro p hp
    by_cases hwait : ∃ call ∈ s.calls, call.phase = .waiting
    · obtain ⟨call, hmem, hcall⟩ := hwait
      obtain ⟨c, hc⟩ := List.mem_iff_getElem?.mp hmem
      exact hsettled.not_step (.signalWake hw hp hc hcall) (by simp)
    · push Not at hwait
      exact hsettled.not_step (.signalUnheard hw hp hwait) (by simp)
  · exact fun hphase => hsettled.not_step (.run hw hphase) (by simp)

/-- A call with the lock can go on: the thread that it took waits, or is on its way to. -/
theorem lock_none (h : PoolInv s) (hsettled : s.Settled) : s.lock = none := by
  rcases hlock : s.lock with _ | ⟨c, w, assigned⟩
  · rfl
  · obtain ⟨call, t, hhand⟩ := h.lock _ hlock
    cases assigned
    · have hown : t.phase.hasLock = false := by
        obtain ⟨hnext, hsignal, -⟩ := settled_moves hsettled hhand.atThread
        have hidle := hhand.idle
        have hpool := (h.threads _ _ hhand.atThread).inPool
        -- of the phases in which a thread has its lock, none is one it can stay in
        generalize t.phase = p at hnext hsignal hidle hpool
        cases p <;> simp_all [WorkerPhase.next, WorkerPhase.afterSignal, WorkerPhase.active,
          WorkerPhase.inPool, WorkerPhase.hasLock]
      exact (hsettled.not_step (.assign hlock hhand.atCall hhand.atThread hown) (by simp)).elim
    · exact (hsettled.not_step (.signalThread hlock hhand.atCall hhand.atThread) (by simp)).elim

/-- In a settled pool every thread waits for a job. -/
theorem thread_waiting (h : PoolInv s) (hsettled : s.Settled) {w : ℕ} {t : PoolThread J}
    (hw : s.threads[w]? = some t) : t.phase = .waiting := by
  obtain ⟨hnext, hsignal, hloop⟩ := settled_moves hsettled hw
  have hreclaiming : t.phase ≠ .reclaiming := by
    intro hphase
    have hfree := h.lock_none hsettled
    exact hsettled.not_step (.reclaim hw hphase hfree (h.room hw hphase)) (by simp)
  have hpool := (h.threads w t hw).inPool
  generalize t.phase = p at hnext hsignal hloop hreclaiming hpool
  cases p <;> simp_all [WorkerPhase.next, WorkerPhase.afterSignal, WorkerPhase.inPool]

/-- In a settled pool no call is about to take the lock. -/
theorem not_atLock (h : PoolInv s) (hsettled : s.Settled) {c : ℕ} {call : DispatchCall J}
    (hc : s.calls[c]? = some call) : call.phase.atLock = false := by
  by_contra hat
  rw [Bool.not_eq_false] at hat
  have hfree := h.lock_none hsettled
  have hstep : ∃ s', PoolStep s (.decide c .ok) s' := by
    rcases hbranch : s.branch
    · exact ⟨_, .wait hc hat hfree hbranch⟩
    · exact ⟨_, .create hc hat hfree hbranch⟩
    · obtain ⟨w, hget⟩ := Option.ne_none_iff_exists'.mp (h.idle_found hbranch)
      obtain ⟨t, hw⟩ := threadGetIdle_thread hget
      exact ⟨_, .take hc hat hfree hbranch hget hw⟩
    · exact ⟨_, .noCondition hc hat hfree hbranch⟩
  obtain ⟨s', hstep⟩ := hstep
  exact hsettled.not_step hstep (by simp)

/-- In a settled pool no call waits: every thread is idle, and somebody would be on the way. -/
theorem not_waiting (h : PoolInv s) (hsettled : s.Settled) {c : ℕ} {call : DispatchCall J}
    (hc : s.calls[c]? = some call) : call.phase ≠ .waiting := by
  intro hwait
  obtain ⟨hmax, hle⟩ := h.wakeUps ⟨call, List.mem_of_getElem? hc, hwait⟩
  have hreclaimed : count PoolThread.isReclaimed s.threads = 0 := by
    by_contra hpos
    obtain ⟨w, t, hw, ht⟩ := exists_of_count_pos _ (Nat.pos_of_ne_zero hpos)
    have hphase := h.thread_waiting hsettled hw
    rw [PoolThread.isReclaimed, hphase] at ht
    cases ht
  have hwoken : count DispatchCall.isWoken s.calls = 0 := by
    by_contra hpos
    obtain ⟨c', call', hc', hcall'⟩ := exists_of_count_pos _ (Nat.pos_of_ne_zero hpos)
    have hat := h.not_atLock hsettled hc'
    rw [of_decide_eq_true hcall'] at hat
    cases hat
  -- so no thread is idle, but the pool has one, and it waits
  have hpos := h.max_pos
  have hnum := h.num
  have hlen : 0 < s.threads.length := by omega
  have hw := List.getElem?_eq_getElem hlen
  have hidle : (s.threads[0]).isIdle = true := by
    have hok := h.threads 0 _ hw
    rw [PoolThread.isIdle_eq hok.inPool, hok.busy, h.thread_waiting hsettled hw,
      h.lock_none hsettled]
    rfl
  have hcount := count_pos _ hw hidle
  have heq := h.idle
  omega

/-- In a settled pool every call succeeded. -/
theorem call_returned (h : PoolInv s) (hsettled : s.Settled) {c : ℕ} {call : DispatchCall J}
    (hc : s.calls[c]? = some call) : call.phase = .returned .ok := by
  have hat := h.not_atLock hsettled hc
  have hwait := h.not_waiting hsettled hc
  have hok := h.calls c call hc
  rcases hphase : call.phase with _ | _ | _ | _ | e
  · -- it is about to take the lock
    rw [hphase] at hat
    cases hat
  · exact absurd hphase hwait
  · -- it was woken, and is about to take the lock
    rw [hphase] at hat
    cases hat
  · -- it would have the lock, which is free
    have hlock := hok.handing hphase
    rw [h.lock_none hsettled] at hlock
    cases hlock
  · rw [hok.ends e hphase]

/-- The jobs of some calls, one by one. -/
theorem total_job (calls : List (DispatchCall J)) :
    total (fun call => ({call.job} : Multiset J)) calls = (calls.map (·.job) : List J) := by
  induction calls with
  | nil => rfl
  | cons call calls ih =>
    rw [total_cons, List.map_cons, ← Multiset.cons_coe, ← Multiset.singleton_add, ih]

/-- What was run was dispatched, and not run more often than dispatched. -/
theorem ran_le (h : PoolInv s) : s.ran ≤ s.dispatched := by
  calc s.ran ≤ s.ran + total PoolThread.pendingJob s.threads := Multiset.le_add_right _ _
    _ = total DispatchCall.doneJob s.calls := h.jobs
    _ ≤ total (fun call => {call.job}) s.calls := by
      refine List.sum_le_sum fun call _ => ?_
      rw [DispatchCall.doneJob]
      split_ifs
      · -- a call that returned counts its job on both sides
        exact le_rfl
      · exact Multiset.zero_le _
    _ = s.dispatched := total_job s.calls

/-- In a settled pool everything that was dispatched was run. -/
theorem ran_eq (h : PoolInv s) (hsettled : s.Settled) : s.ran = s.dispatched := by
  have hpending : total PoolThread.pendingJob s.threads = 0 := by
    refine total_eq_zero fun t ht => ?_
    obtain ⟨w, hw⟩ := List.mem_iff_getElem?.mp ht
    simp [PoolThread.pendingJob, h.thread_waiting hsettled hw]
  have hdone : total DispatchCall.doneJob s.calls = total (fun call => {call.job}) s.calls := by
    refine total_congr fun call hcall => ?_
    obtain ⟨c, hc⟩ := List.mem_iff_getElem?.mp hcall
    rw [DispatchCall.doneJob, if_pos (h.call_returned hsettled hc)]
  calc s.ran = s.ran + total PoolThread.pendingJob s.threads := by rw [hpending, add_zero]
    _ = total DispatchCall.doneJob s.calls := h.jobs
    _ = s.dispatched := by rw [hdone, total_job, ThreadPool.dispatched]

/-- While nobody calls, a run ends. -/
theorem run_length_le (h : PoolInv s) {r : List (PoolLabel J × ThreadPool J)}
    (hr : IsRun PoolStep s r) (hcreate : Guarded creationGuard s r)
    (hcall : Guarded noCallGuard s r) : r.length ≤ s.work := by
  induction r generalizing s with
  | nil => exact Nat.zero_le _
  | cons x r ih =>
    have hlt := h.work_lt hcall.1 hr.1
    have hle := ih (h.step hcreate.1 hr.1) hr.2 hcreate.2 hcall.2
    rw [List.length_cons]
    omega

end PoolInv

/-- What is true of the pool at every point: its counters, while its lock is free, and that a job
whose call succeeded was run once, or is the next job of one thread. -/
structure PoolOk (s : ThreadPool J) : Prop where
  idle : s.lock = none → s.idleThreads = count PoolThread.isIdle s.threads
  bounds : s.lock = none → s.idleThreads ≤ s.threadsNum ∧ s.threadsNum ≤ s.maxThreads
  ends : ∀ call ∈ s.calls, call.phase ≠ .returned .gotNull ∧ call.phase ≠ .returned .noCondition
  inPool : ∀ t ∈ s.threads, t.phase.inPool = true
  ran : s.ran ≤ s.dispatched
  accounted : s.ran + total PoolThread.pendingJob s.threads = total DispatchCall.doneJob s.calls

theorem PoolInv.ok {s : ThreadPool J} (h : PoolInv s) : PoolOk s := by
  refine ⟨fun _ => h.idle, fun _ => ⟨?_, h.num_le⟩, ?_, ?_, h.ran_le, h.jobs⟩
  · have hle := count_le_length PoolThread.isIdle s.threads
    have hidle := h.idle
    have hnum := h.num
    omega
  · intro call hcall
    obtain ⟨c, hc⟩ := List.mem_iff_getElem?.mp hcall
    have hends := (h.calls c call hc).ends
    refine ⟨fun hphase => ?_, fun hphase => ?_⟩
    · have hok := hends _ hphase
      cases hok
    · have hok := hends _ hphase
      cases hok
  · intro t ht
    obtain ⟨w, hw⟩ := List.mem_iff_getElem?.mp ht
    exact (h.threads w t hw).inPool

/-- A pool runs every job that is dispatched to it once: its counters are right at every point,
no job is run twice, the pool comes to rest when nobody calls, and once it rests every call
succeeded and every job was run. -/
theorem threadPool_exactlyOnce {n : ℤ} (hn : 0 < n) {r : List (PoolLabel J × ThreadPool J)}
    (hr : IsRun PoolStep (threadPoolNew n) r) (hg : Guarded creationGuard (threadPoolNew n) r) :
    Always PoolOk (threadPoolNew n) r ∧
      (∀ r', IsRun PoolStep (final (threadPoolNew n) r) r' →
        Guarded creationGuard (final (threadPoolNew n) r) r' →
        Guarded noCallGuard (final (threadPoolNew n) r) r' →
        r'.length ≤ (final (threadPoolNew n) r).work) ∧
      ((final (threadPoolNew n) r).Settled →
        (∀ call ∈ (final (threadPoolNew n) r).calls, call.phase = .returned .ok) ∧
          (final (threadPoolNew n) r).ran = (final (threadPoolNew n) r).dispatched) := by
  have hinv : Always PoolInv (threadPoolNew n) r :=
    always_of_guarded (fun _ _ _ h hguard hst => h.step hguard hst) (poolInv_new hn) hr hg
  refine ⟨⟨hinv.1.ok, Along.imp (fun _ _ _ h => h.ok) hinv.2⟩, ?_, ?_⟩
  · intro r' hr' hcreate hcall
    exact hinv.last.run_length_le hr' hcreate hcall
  · intro hsettled
    refine ⟨fun call hcall => ?_, hinv.last.ran_eq hsettled⟩
    obtain ⟨c, hc⟩ := List.mem_iff_getElem?.mp hcall
    exact hinv.last.call_returned hsettled hc

/-- A pool of one thread: the second call waits until the thread comes back from its first job,
and is woken. -/
def queuedRun : List (PoolLabel ℕ × ThreadPool ℕ) :=
  [(.call 4, ⟨0, 1, 0, [], [⟨4, .entering⟩], none, []⟩),
    (.decide 0 .ok, ⟨1, 1, 0, [⟨true, 4, .atLoop⟩], [⟨4, .returned .ok⟩], none, []⟩),
    (.call 5, ⟨1, 1, 0, [⟨true, 4, .atLoop⟩], [⟨4, .returned .ok⟩, ⟨5, .entering⟩], none, []⟩),
    (.decide 1 .ok,
      ⟨1, 1, 0, [⟨true, 4, .atLoop⟩], [⟨4, .returned .ok⟩, ⟨5, .waiting⟩], none, []⟩),
    (.run 0, ⟨1, 1, 0, [⟨true, 4, .inJob⟩], [⟨4, .returned .ok⟩, ⟨5, .waiting⟩], none, [(0, 4)]⟩),
    (.move 0,
      ⟨1, 1, 0, [⟨true, 4, .jobDone⟩], [⟨4, .returned .ok⟩, ⟨5, .waiting⟩], none, [(0, 4)]⟩),
    (.move 0,
      ⟨1, 1, 0, [⟨true, 4, .reclaiming⟩], [⟨4, .returned .ok⟩, ⟨5, .waiting⟩], none, [(0, 4)]⟩),
    (.reclaim 0,
      ⟨1, 1, 1, [⟨false, 4, .reclaimed⟩], [⟨4, .returned .ok⟩, ⟨5, .waiting⟩], none, [(0, 4)]⟩),
    (.signalIdle 0 (some 1),
      ⟨1, 1, 1, [⟨false, 4, .parking⟩], [⟨4, .returned .ok⟩, ⟨5, .woken⟩], none, [(0, 4)]⟩)]

theorem isRun_queuedRun : IsRun PoolStep (threadPoolNew 1) queuedRun :=
  ⟨.call, @PoolStep.create _ _ 0 ⟨4, .entering⟩ rfl rfl rfl (by decide), .call,
    @PoolStep.wait _ _ 1 ⟨5, .entering⟩ rfl rfl rfl (by decide),
    @PoolStep.run _ _ 0 ⟨true, 4, .atLoop⟩ rfl rfl,
    @PoolStep.move _ _ 0 ⟨true, 4, .inJob⟩ .jobDone rfl rfl,
    @PoolStep.move _ _ 0 ⟨true, 4, .jobDone⟩ .reclaiming rfl rfl,
    @PoolStep.reclaim _ _ 0 ⟨true, 4, .reclaiming⟩ rfl rfl rfl (by decide),
    @PoolStep.signalWake _ _ 0 ⟨false, 4, .reclaimed⟩ .parking 1 ⟨5, .waiting⟩ rfl rfl rfl rfl,
    trivial⟩

theorem guarded_queuedRun : Guarded creationGuard (threadPoolNew 1) queuedRun :=
  ⟨trivial, rfl, trivial, rfl, trivial, trivial, trivial, trivial, trivial, trivial⟩

theorem threadPool_exactlyOnce_queuedRun :
    Always PoolOk (threadPoolNew 1) queuedRun ∧
      (∀ r', IsRun PoolStep (final (threadPoolNew 1) queuedRun) r' →
        Guarded creationGuard (final (threadPoolNew 1) queuedRun) r' →
        Guarded noCallGuard (final (threadPoolNew 1) queuedRun) r' →
        r'.length ≤ (final (threadPoolNew 1) queuedRun).work) ∧
      ((final (threadPoolNew 1) queuedRun).Settled →
        (∀ call ∈ (final (threadPoolNew 1) queuedRun).calls, call.phase = .returned .ok) ∧
          (final (threadPoolNew 1) queuedRun).ran =
            (final (threadPoolNew 1) queuedRun).dispatched) :=
  threadPool_exactlyOnce (by decide) isRun_queuedRun guarded_queuedRun

end Gendo
