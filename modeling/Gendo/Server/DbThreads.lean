import Gendo.Library.StepSystem
import Gendo.Library.Tally
import Gendo.Server.UserDb

/-!
# Threads at the database pool

The pool of `lib-db.c` shared by any number of threads that take a handle, use it and put it
back. A semaphore counts the handles to be had, and a lock protects their states; the two are
updated one after the other, so between them there are threads that went through the semaphore
and have no handle yet, and threads whose handle is idle again and not counted yet.

`DbPoolOk` says that these windows account exactly for the difference between the semaphore and
the idle handles. From it follows what the pool is for: who comes through the semaphore finds an
idle handle, and a handle has at most one user (`dbPoolOk_run`).
-/

namespace Gendo

open StepSystem Tally

/-- Where a thread is in `_db_get_handle`, its use of the handle, and `db_put_handle`. -/
inductive DbThread
  /-- It has no handle and asks for none, or waits for the semaphore. -/
  | outside
  /-- It came through `sem_wait`, and has marked no handle yet. -/
  | passed
  /-- `_db_get_handle` gave it this handle. -/
  | using (handle : ℕ)
  /-- Its handle is marked idle again, and `sem_post` comes next. -/
  | unmarked
  /-- `_db_get_handle` came through `sem_wait` and returned NULL. -/
  | gotNull
  deriving DecidableEq, Repr

/-- The thread came through the semaphore and has no handle yet. -/
def DbThread.isPassed : DbThread → Bool
  | .passed => true
  | .outside | .using _ | .unmarked | .gotNull => false

/-- The thread put its handle back and did not post the semaphore yet. -/
def DbThread.isUnmarked : DbThread → Bool
  | .unmarked => true
  | .outside | .passed | .using _ | .gotNull => false

/-- The handle can be taken. -/
def DbHandleState.isIdle : DbHandleState → Bool
  | .idle => true
  | .busy => false

/-- The pool, its semaphore, and the threads that use it. -/
structure DbThreads where
  pool : DbPool
  sem : ℕ
  threads : List DbThread

/-- What a thread does. -/
inductive DbLabel
  /-- A thread is started. -/
  | start
  /-- `_db_get_handle` of a pool without handles returns at once. -/
  | refuse (c : ℕ)
  /-- `sem_wait`, which is left with a permit only. -/
  | wait (c : ℕ)
  /-- The locked section of `_db_get_handle`. -/
  | mark (c : ℕ)
  /-- The locked section of `db_put_handle`. -/
  | unmark (c : ℕ)
  /-- `sem_post`. -/
  | post (c : ℕ)

/-- The loop of `db_pool_init`: `connect i` says whether its `i`-th round got memory and a
connection. -/
def dbConnectHandles (connect : ℕ → Bool) : ℕ → Option (List DbHandleState)
  | 0 => some []
  | n + 1 =>
    match dbConnectHandles connect n with
    | none => none
    -- a round that fails ends `db_pool_init`
    | some handles => if connect n then some (.idle :: handles) else none

/-- `db_pool_init`: the pool and the value of its semaphore, or `none` when it returns `ERROR`. -/
def dbPoolInit (connect : ℕ → Bool) (lockOk semOk : Bool) (count : ℤ) : Option (DbPool × ℕ) :=
  match dbConnectHandles connect count.toNat with
  | none => none
  | some handles => if lockOk && semOk then some (⟨count, handles⟩, count.toNat) else none

/-- The handle at an index, with its state set. -/
def DbPool.setState (pool : DbPool) (handle : ℕ) (state : DbHandleState) : DbPool :=
  { pool with handleList := pool.handleList.set handle state }

/-- One step of a thread: a locked section, or an operation of the semaphore. -/
inductive DbStep : DbThreads → DbLabel → DbThreads → Prop
  | start {s} : DbStep s .start { s with threads := s.threads ++ [.outside] }
  -- before the semaphore
  | refuse {s c} : s.threads[c]? = some .outside → s.pool.count ≤ 0 → DbStep s (.refuse c) s
  -- a thread without a permit stays where it is
  | wait {s c sem} : s.threads[c]? = some .outside → 0 < s.pool.count → s.sem = sem + 1 →
      DbStep s (.wait c) { s with sem := sem, threads := s.threads.set c .passed }
  -- the first idle handle, whoever posted the permit
  | mark {s c handle} : s.threads[c]? = some .passed → dbGetHandle s.pool = some handle →
      DbStep s (.mark c) { s with
        pool := s.pool.setState handle .busy, threads := s.threads.set c (.using handle) }
  | markNone {s c} : s.threads[c]? = some .passed → dbGetHandle s.pool = none →
      DbStep s (.mark c) { s with threads := s.threads.set c .gotNull }
  -- the handle can be taken from here on, and the semaphore does not say so yet
  | unmark {s c handle} : s.threads[c]? = some (.using handle) →
      DbStep s (.unmark c) { s with
        pool := s.pool.setState handle .idle, threads := s.threads.set c .unmarked }
  | post {s c} : s.threads[c]? = some .unmarked →
      DbStep s (.post c) { s with sem := s.sem + 1, threads := s.threads.set c .outside }

/-- The pool after `db_pool_init`, without threads. -/
def DbThreads.ofInit (init : DbPool × ℕ) : DbThreads := ⟨init.1, init.2, []⟩

/-- What the pool is for: a handle has one user, who comes through the semaphore finds an idle
handle, and the semaphore with the threads in its two windows accounts for the idle handles. -/
structure DbPoolOk (s : DbThreads) : Prop where
  exclusive : ∀ c c' handle : ℕ, s.threads[c]? = some (.using handle) →
    s.threads[c']? = some (.using handle) → c = c'
  finds : ∀ c : ℕ, s.threads[c]? = some .passed → (dbGetHandle s.pool).isSome
  neverNull : ∀ c : ℕ, s.threads[c]? ≠ some .gotNull
  accounts : s.sem + count DbThread.isPassed s.threads + count DbThread.isUnmarked s.threads =
    count DbHandleState.isIdle s.pool.handleList

/-- What every step keeps: the accounts, and that a handle in use is marked busy. -/
structure DbPoolInv (s : DbThreads) : Prop where
  count_pos : 0 < s.pool.count
  exclusive : ∀ c c' handle : ℕ, s.threads[c]? = some (.using handle) →
    s.threads[c']? = some (.using handle) → c = c'
  busy : ∀ c handle : ℕ, s.threads[c]? = some (.using handle) →
    s.pool.handleList[handle]? = some .busy
  neverNull : ∀ c : ℕ, s.threads[c]? ≠ some .gotNull
  accounts : s.sem + count DbThread.isPassed s.threads + count DbThread.isUnmarked s.threads =
    count DbHandleState.isIdle s.pool.handleList

/-! ## The functions -/

theorem dbConnectHandles_eq {connect : ℕ → Bool} {n : ℕ} {handles : List DbHandleState}
    (h : dbConnectHandles connect n = some handles) :
    count DbHandleState.isIdle handles = n := by
  induction n generalizing handles with
  | zero =>
    obtain rfl := Option.some.inj h
    rfl
  | succ n ih =>
    rw [dbConnectHandles] at h
    split at h
    · cases h
    · next handles' hrec =>
      split at h
      · obtain rfl := Option.some.inj h
        rw [count_cons, ih hrec]
        exact Nat.add_comm 1 n
      · cases h

/-- The handle that is taken was idle. -/
theorem idle_of_dbGetHandle {pool : DbPool} {handle : ℕ} (h : dbGetHandle pool = some handle) :
    pool.handleList[handle]? = some .idle := by
  rw [dbGetHandle] at h
  split at h
  · cases h
  · obtain ⟨hlt, hidle, -⟩ := List.findIdx?_eq_some_iff_getElem.mp h
    rw [List.getElem?_eq_getElem hlt, of_decide_eq_true hidle]

/-- If a handle is idle, one is found. -/
theorem dbGetHandle_isSome {pool : DbPool} (hcount : 0 < pool.count)
    (hidle : 0 < count DbHandleState.isIdle pool.handleList) : (dbGetHandle pool).isSome := by
  obtain ⟨i, state, hi, hstate⟩ := exists_of_count_pos _ hidle
  obtain rfl : state = .idle := by cases state <;> simp_all [DbHandleState.isIdle]
  rw [dbGetHandle, if_neg (not_le.mpr hcount), List.findIdx?_isSome]
  exact List.any_eq_true.mpr ⟨.idle, List.mem_of_getElem? hi, rfl⟩

/-! ## The invariant -/

theorem dbPoolInv_ofInit {connect : ℕ → Bool} {lockOk semOk : Bool} {n : ℤ}
    {init : DbPool × ℕ} (hn : 0 < n) (h : dbPoolInit connect lockOk semOk n = some init) :
    DbPoolInv (.ofInit init) := by
  rw [dbPoolInit] at h
  split at h
  · cases h
  · next handles hconnect =>
    split at h
    · obtain rfl := Option.some.inj h
      refine ⟨hn, ?_, ?_, ?_, ?_⟩
      · simp [DbThreads.ofInit]
      · simp [DbThreads.ofInit]
      · simp [DbThreads.ofInit]
      · simp [DbThreads.ofInit, dbConnectHandles_eq hconnect]
    · cases h

namespace DbPoolInv

variable {s : DbThreads}

/-- Who came through the semaphore leaves an idle handle in the account. -/
theorem finds (h : DbPoolInv s) {c : ℕ} (hc : s.threads[c]? = some .passed) :
    (dbGetHandle s.pool).isSome := by
  refine dbGetHandle_isSome h.count_pos ?_
  have hpassed : 0 < count DbThread.isPassed s.threads := Tally.count_pos _ hc rfl
  have haccounts := h.accounts
  omega

theorem dbPoolOk (h : DbPoolInv s) : DbPoolOk s :=
  ⟨h.exclusive, fun _ hc => h.finds hc, h.neverNull, h.accounts⟩

/-- A thread that moves to a place without a handle takes no one's handle away. -/
theorem using_of_set {c c' handle : ℕ} {old new : DbThread} (hc : s.threads[c]? = some old)
    (hnew : ∀ handle, new ≠ .using handle)
    (h : (s.threads.set c new)[c']? = some (.using handle)) :
    s.threads[c']? = some (.using handle) ∧ c' ≠ c := by
  rw [getElem?_set_of_some hc] at h
  split at h
  · exact absurd (Option.some.inj h) (hnew handle)
  · next hne => exact ⟨h, Ne.symm hne⟩

/-- A thread that moves to another place than `gotNull` did not get NULL. -/
theorem ne_gotNull_of_set {c : ℕ} {old new : DbThread} (hc : s.threads[c]? = some old)
    (hnew : new ≠ .gotNull) (h : ∀ d : ℕ, s.threads[d]? ≠ some .gotNull) (d : ℕ) :
    (s.threads.set c new)[d]? ≠ some .gotNull := by
  rw [getElem?_set_of_some hc]
  split
  · exact fun heq => hnew (Option.some.inj heq)
  · exact h d

/-- What is known of the threads is known after one came that has no handle. -/
theorem start (h : DbPoolInv s) : DbPoolInv { s with threads := s.threads ++ [.outside] } := by
  have hold : ∀ (c : ℕ) (thread : DbThread), thread ≠ .outside →
      (s.threads ++ [DbThread.outside])[c]? = some thread → s.threads[c]? = some thread := by
    intro c thread hne hc
    rw [List.getElem?_append] at hc
    split at hc
    · exact hc
    · have hmem := List.mem_of_getElem? hc
      exact absurd (List.mem_singleton.mp hmem) hne
  refine ⟨h.count_pos, ?_, ?_, ?_, ?_⟩
  · intro c c' handle hc hc'
    exact h.exclusive c c' handle (hold _ _ (by simp) hc) (hold _ _ (by simp) hc')
  · intro c handle hc
    exact h.busy c handle (hold _ _ (by simp) hc)
  · intro c hc
    exact h.neverNull c (hold _ _ (by simp) hc)
  · simpa [DbThread.isPassed, DbThread.isUnmarked] using h.accounts

/-- A thread passes the semaphore, in one direction or the other. -/
theorem pass (h : DbPoolInv s) {c sem : ℕ} {old new : DbThread} (hc : s.threads[c]? = some old)
    (hnew : ∀ handle, new ≠ .using handle) (hnull : new ≠ .gotNull)
    (haccounts : sem + count DbThread.isPassed (s.threads.set c new) +
      count DbThread.isUnmarked (s.threads.set c new) =
      count DbHandleState.isIdle s.pool.handleList) :
    DbPoolInv { s with sem := sem, threads := s.threads.set c new } := by
  refine ⟨h.count_pos, ?_, ?_, ne_gotNull_of_set hc hnull h.neverNull, haccounts⟩
  · intro d d' handle hd hd'
    exact h.exclusive d d' handle (using_of_set hc hnew hd).1 (using_of_set hc hnew hd').1
  · intro d handle hd
    exact h.busy d handle (using_of_set hc hnew hd).1

theorem wait (h : DbPoolInv s) {c sem : ℕ} (hc : s.threads[c]? = some .outside)
    (hsem : s.sem = sem + 1) :
    DbPoolInv { s with sem := sem, threads := s.threads.set c .passed } := by
  refine h.pass hc (by simp) (by simp) ?_
  -- the semaphore goes down by the thread that came through
  have hpassed := count_set DbThread.isPassed hc .passed
  have hunmarked := count_set DbThread.isUnmarked hc .passed
  simp only [DbThread.isPassed, DbThread.isUnmarked, Bool.toNat_true,
    Bool.toNat_false] at hpassed hunmarked
  have haccounts := h.accounts
  omega

theorem post (h : DbPoolInv s) {c : ℕ} (hc : s.threads[c]? = some .unmarked) :
    DbPoolInv { s with sem := s.sem + 1, threads := s.threads.set c .outside } := by
  refine h.pass hc (by simp) (by simp) ?_
  -- the semaphore goes up by the thread that had put its handle back
  have hpassed := count_set DbThread.isPassed hc .outside
  have hunmarked := count_set DbThread.isUnmarked hc .outside
  simp only [DbThread.isPassed, DbThread.isUnmarked, Bool.toNat_true,
    Bool.toNat_false] at hpassed hunmarked
  have haccounts := h.accounts
  omega

theorem mark (h : DbPoolInv s) {c handle : ℕ} (hc : s.threads[c]? = some .passed)
    (hget : dbGetHandle s.pool = some handle) :
    DbPoolInv { s with
      pool := s.pool.setState handle .busy, threads := s.threads.set c (.using handle) } := by
  have hidle := idle_of_dbGetHandle hget
  have hlist : ∀ i : ℕ, (s.pool.handleList.set handle DbHandleState.busy)[i]? =
      if handle = i then some .busy else s.pool.handleList[i]? :=
    getElem?_set_of_some hidle .busy
  -- nobody uses the handle, since it was idle
  have hfree : ∀ d : ℕ, s.threads[d]? ≠ some (.using handle) := by
    intro d hd
    rw [h.busy d handle hd] at hidle
    cases hidle
  refine ⟨h.count_pos, ?_, ?_, ne_gotNull_of_set hc (by simp) h.neverNull, ?_⟩
  · -- of two users, none, one or both may be the thread that moved
    intro d d' i hd hd'
    simp only [getElem?_set_of_some hc] at hd hd'
    split at hd <;> split at hd'
    · next heq heq' => exact heq.symm.trans heq'
    · obtain rfl : handle = i := by simpa using hd
      exact absurd hd' (hfree d')
    · obtain rfl : handle = i := by simpa using hd'
      exact absurd hd (hfree d)
    · exact h.exclusive d d' i hd hd'
  · intro d i hd
    rw [getElem?_set_of_some hc] at hd
    rw [DbPool.setState, hlist]
    split at hd
    · obtain rfl : handle = i := by simpa using hd
      simp
    · split
      · rfl
      · exact h.busy d i hd
  · -- one thread less between the semaphore and its handle, and one idle handle less
    have hpassed := count_set DbThread.isPassed hc (.using handle)
    have hunmarked := count_set DbThread.isUnmarked hc (.using handle)
    have hcounted := count_set DbHandleState.isIdle hidle .busy
    simp only [DbThread.isPassed, DbThread.isUnmarked, DbHandleState.isIdle, Bool.toNat_true,
      Bool.toNat_false] at hpassed hunmarked hcounted
    have haccounts := h.accounts
    simp only [DbPool.setState]
    omega

theorem unmark (h : DbPoolInv s) {c handle : ℕ} (hc : s.threads[c]? = some (.using handle)) :
    DbPoolInv { s with
      pool := s.pool.setState handle .idle, threads := s.threads.set c .unmarked } := by
  have hlist : ∀ i : ℕ, (s.pool.handleList.set handle DbHandleState.idle)[i]? =
      if handle = i then some .idle else s.pool.handleList[i]? :=
    getElem?_set_of_some (h.busy c handle hc) .idle
  refine ⟨h.count_pos, ?_, ?_, ne_gotNull_of_set hc (by simp) h.neverNull, ?_⟩
  · intro d d' i hd hd'
    exact h.exclusive d d' i (using_of_set hc (by simp) hd).1 (using_of_set hc (by simp) hd').1
  · intro d i hd
    obtain ⟨hold, hne⟩ := using_of_set hc (by simp) hd
    -- the handle put back was this thread's alone
    have hother : handle ≠ i := fun heq => hne (h.exclusive d c i hold (heq ▸ hc))
    rw [DbPool.setState, hlist, if_neg hother]
    exact h.busy d i hold
  · -- one more idle handle, which the semaphore does not count yet
    have hpassed := count_set DbThread.isPassed hc .unmarked
    have hunmarked := count_set DbThread.isUnmarked hc .unmarked
    have hcounted := count_set DbHandleState.isIdle (h.busy c handle hc) .idle
    simp only [DbThread.isPassed, DbThread.isUnmarked, DbHandleState.isIdle, Bool.toNat_true,
      Bool.toNat_false] at hpassed hunmarked hcounted
    have haccounts := h.accounts
    simp only [DbPool.setState]
    omega

/-- Every step keeps the accounts. -/
theorem step {t : DbThreads} {a : DbLabel} (h : DbPoolInv s) (hstep : DbStep s a t) :
    DbPoolInv t := by
  cases hstep with
  | start => exact h.start
  | refuse _ _ => exact h
  | wait hc _ hsem => exact h.wait hc hsem
  | mark hc hget => exact h.mark hc hget
  -- the accounts leave an idle handle for each thread that came through
  | markNone hc hget =>
    have hfound := h.finds hc
    rw [hget] at hfound
    cases hfound
  | unmark hc => exact h.unmark hc
  | post hc => exact h.post hc

end DbPoolInv

/-- From a successful initialisation on, whatever the threads do and in whatever order, no
handle has two users, no thread that came through the semaphore gets NULL, and the accounts
hold. -/
theorem dbPoolOk_run {connect : ℕ → Bool} {lockOk semOk : Bool} {n : ℤ} {init : DbPool × ℕ}
    (hn : 0 < n) (hinit : dbPoolInit connect lockOk semOk n = some init)
    {r : List (DbLabel × DbThreads)} (hr : IsRun DbStep (.ofInit init) r) :
    Always DbPoolOk (.ofInit init) r := by
  have hinv : DbPoolInv (.ofInit init) := dbPoolInv_ofInit hn hinit
  refine ⟨hinv.dbPoolOk, ?_⟩
  exact along_of_invariant (fun s a t hs hstep => ⟨(hs.step hstep).dbPoolOk, hs.step hstep⟩)
    hinv hr

/-! ## One handle for two threads -/

/-- The first thread takes the handle and puts it back, then the second one comes through the
semaphore. -/
def handOverRun : List (DbLabel × DbThreads) :=
  [(.start, ⟨⟨1, [.idle]⟩, 1, [.outside]⟩),
    (.start, ⟨⟨1, [.idle]⟩, 1, [.outside, .outside]⟩),
    (.wait 0, ⟨⟨1, [.idle]⟩, 0, [.passed, .outside]⟩),
    (.mark 0, ⟨⟨1, [.busy]⟩, 0, [.using 0, .outside]⟩),
    (.unmark 0, ⟨⟨1, [.idle]⟩, 0, [.unmarked, .outside]⟩),
    (.post 0, ⟨⟨1, [.idle]⟩, 1, [.outside, .outside]⟩),
    (.wait 1, ⟨⟨1, [.idle]⟩, 0, [.outside, .passed]⟩)]

theorem isRun_handOverRun :
    IsRun DbStep (.ofInit (⟨1, [.idle]⟩, 1)) handOverRun :=
  ⟨.start, .start, .wait rfl (by decide) rfl, @DbStep.mark _ 0 0 rfl rfl,
    @DbStep.unmark _ 0 0 rfl, .post rfl, .wait rfl (by decide) rfl, trivial⟩

theorem dbPoolOk_handOverRun : Always DbPoolOk (.ofInit (⟨1, [.idle]⟩, 1)) handOverRun :=
  @dbPoolOk_run (fun _ => true) true true 1 _ (by decide) rfl _ isRun_handOverRun

end Gendo
