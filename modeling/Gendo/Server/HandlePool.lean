import Gendo.Library.StepSystem
import Gendo.Library.Tally

/-!
# The general handle pool

The pool of `lib-handle-pool.c`. A client takes a handle, may mark it broken with `hp_set_none`
while it holds it, and puts it back; a maintenance thread walks the pool with `hp_keeplive_walk`
and reopens the handles it finds broken. Every function works under the pool's lock, except
`hp_set_none`.

A handle's state is one of in use, to be had and broken, so a handle that its client marked is no
longer known to be in use. `handleSafe_iff` shows that this is the only thing that goes wrong:
handles are exclusive, and reopened only while nobody holds them, exactly in the runs in which
the walk never comes to a handle that its client marked and did not put back yet.
-/

namespace Gendo

open StepSystem Tally

/-- `HANDLE_NONE`, `HANDLE_BUSY` and `HANDLE_IDLE`. -/
inductive HandleState
  | none
  | busy
  | idle
  deriving DecidableEq, Repr

/-- `handle_t`: its state, whether `handle` is not NULL, and which of its callbacks there are. -/
structure HpHandle where
  state : HandleState
  live : Bool
  pfnOpen : Bool
  pfnClose : Bool
  deriving DecidableEq, Repr

/-- What `pfn_open` or `pfn_close` returns, and whether it leaves `handle` not NULL. -/
structure HpCallback where
  ret : ℤ
  live : Bool
  deriving DecidableEq, Repr

/-- `handle_pool_t`. -/
structure HandlePool where
  count : ℕ
  handleList : List HpHandle
  deriving DecidableEq, Repr

namespace HandlePool

/-- `hp_init`. -/
def hpInit : HandlePool := ⟨0, []⟩

/-- `hp_new_handle`, with the outcome of `pfn_open` and whether there is a `pfn_close`. -/
def hpNewHandle (pool : HandlePool) (opened : HpCallback) (pfnClose : Bool) : HandlePool :=
  -- a handle that does not open is freed again
  if opened.ret ≠ 0 then pool
  else ⟨pool.count + 1, ⟨.idle, opened.live, true, pfnClose⟩ :: pool.handleList⟩

/-- The pool after `hp_init` and some calls of `hp_new_handle`. -/
def setUp (calls : List (HpCallback × Bool)) : HandlePool :=
  calls.foldl (fun pool call => pool.hpNewHandle call.1 call.2) hpInit

/-- The handle at an index, with its state set. -/
def setState (pool : HandlePool) (i : ℕ) (state : HandleState) : HandlePool :=
  { pool with handleList := pool.handleList.modify i fun h => { h with state := state } }

end HandlePool

/-- `is_hd_ok`. -/
def isHdOk (h : HpHandle) : Bool := h.state == .idle && h.live

/-- The handle that `_hp_get_handle` takes, by its place in the list. -/
def hpGetHandle (pool : HandlePool) : Option ℕ :=
  if pool.count = 0 then none else pool.handleList.findIdx? isHdOk

/-- The state that `hp_put_handle` gives the handle. -/
def hpPutHandle (h : HpHandle) : HandleState :=
  -- any other handle is "inactive", a marked one among them
  if h.live && h.state == .busy then .idle else .none

/-- `hp_reinit_handle` up to and with its `pfn_close`: the value of `ret`, and the handle. -/
def hpReinitClose (h : HpHandle) (close : HpCallback) : ℤ × HpHandle :=
  if h.pfnClose then (close.ret, { h with live := close.live }) else (0, h)

/-- `hp_reinit_handle` from its `pfn_open` on. -/
def hpReinitOpen (ret : ℤ) (h : HpHandle) (opened : HpCallback) : HpHandle :=
  -- without `pfn_open` it is what `pfn_close` returned that counts
  let ret := if h.pfnOpen then opened.ret else ret
  let live := if h.pfnOpen then opened.live else h.live
  { h with live := live, state := if ret ≠ 0 then .none else .idle }

/-- A client of the pool. -/
inductive HpClient
  /-- It holds no handle. -/
  | outside
  /-- It holds this handle, and did or did not mark it broken since it got it. -/
  | holding (handle : ℕ) (marked : Bool)
  deriving DecidableEq, Repr

/-- Where the maintenance thread is in `hp_keeplive_walk`. It has the lock unless it rests. -/
inductive HpWalk
  | resting
  /-- It looks at this handle next. -/
  | looking (handle : ℕ)
  /-- It is in `hp_reinit_handle` of this one, past `pfn_close`, with `ret` as given. -/
  | closed (handle : ℕ) (ret : ℤ)
  deriving DecidableEq, Repr

/-- The pool, its clients, and the maintenance thread. -/
structure HpState where
  pool : HandlePool
  clients : List HpClient
  walk : HpWalk

/-- What the threads do. -/
inductive HpLabel
  /-- A client comes. -/
  | start
  /-- `_hp_get_handle`. -/
  | get (c : ℕ)
  /-- `hp_set_none` of the handle that the client holds. -/
  | setNone (c : ℕ)
  /-- `hp_put_handle`. -/
  | put (c : ℕ)
  /-- `hp_keeplive_walk` is called. -/
  | walkStart
  /-- The walk finds a handle that is not broken. -/
  | walkPass
  /-- The walk finds this handle broken, and `hp_reinit_handle` closes it. -/
  | walkClose (handle : ℕ)
  /-- `hp_reinit_handle` opens this handle again. -/
  | walkOpen (handle : ℕ)
  /-- The walk is through, and gives the lock back. -/
  | walkEnd
  deriving DecidableEq, Repr

/-- One step of a client or of the maintenance thread. -/
inductive HpStep : HpState → HpLabel → HpState → Prop
  | start {s} : HpStep s .start { s with clients := s.clients ++ [.outside] }
  | get {s c i} : s.walk = .resting → s.clients[c]? = some .outside →
      hpGetHandle s.pool = some i →
      HpStep s (.get c) { s with
        pool := s.pool.setState i .busy, clients := s.clients.set c (.holding i false) }
  -- the walk through the list found none
  | getNone {s c} : s.walk = .resting → s.clients[c]? = some .outside →
      hpGetHandle s.pool = none → HpStep s (.get c) s
  -- no lock is asked for: the walk may be anywhere
  | setNone {s c i marked} : s.clients[c]? = some (.holding i marked) →
      HpStep s (.setNone c) { s with
        pool := s.pool.setState i .none, clients := s.clients.set c (.holding i true) }
  | put {s c i marked h} : s.walk = .resting → s.clients[c]? = some (.holding i marked) →
      s.pool.handleList[i]? = some h →
      HpStep s (.put c) { s with
        pool := s.pool.setState i (hpPutHandle h), clients := s.clients.set c .outside }
  -- an empty pool is left alone
  | walkStart {s} : s.walk = .resting → s.pool.count ≠ 0 →
      HpStep s .walkStart { s with walk := .looking 0 }
  | walkPass {s i h} : s.walk = .looking i → s.pool.handleList[i]? = some h → h.state ≠ .none →
      HpStep s .walkPass { s with walk := .looking (i + 1) }
  -- `is_hp_none`, whoever has the handle
  | walkClose {s i h close} : s.walk = .looking i → s.pool.handleList[i]? = some h →
      h.state = .none →
      HpStep s (.walkClose i) { s with
        pool := { s.pool with handleList := s.pool.handleList.set i (hpReinitClose h close).2 }
        walk := .closed i (hpReinitClose h close).1 }
  -- `pfn_open` and what follows; the walk goes on from the next handle
  | walkOpen {s i ret h opened} : s.walk = .closed i ret → s.pool.handleList[i]? = some h →
      HpStep s (.walkOpen i) { s with
        pool := { s.pool with handleList := s.pool.handleList.set i (hpReinitOpen ret h opened) }
        walk := .looking (i + 1) }
  | walkEnd {s i} : s.walk = .looking i → s.pool.handleList.length ≤ i →
      HpStep s .walkEnd { s with walk := .resting }

/-- A pool that was set up, before anybody uses it. -/
def HpState.ofSetUp (calls : List (HpCallback × Bool)) : HpState :=
  ⟨HandlePool.setUp calls, [], .resting⟩

/-- The client holds the handle. -/
def Holds (s : HpState) (c i : ℕ) : Prop := ∃ marked, s.clients[c]? = some (.holding i marked)

/-- The handle that `hp_reinit_handle` closes or opens in a step. -/
def HpLabel.reopens : HpLabel → Option ℕ
  | .walkClose i | .walkOpen i => some i
  | .start | .get _ | .setNone _ | .put _ | .walkStart | .walkPass | .walkEnd => none

/-- After the step no handle is held by two clients, and the step closes or opens no handle that
somebody holds. -/
structure HandleSafe (s : HpState) (a : HpLabel) (t : HpState) : Prop where
  exclusive : ∀ c c' i, Holds t c i → Holds t c' i → c = c'
  untouched : ∀ i, a.reopens = some i → ∀ c, ¬Holds s c i

/-- The walk comes to no handle that its client marked and did not put back yet. -/
def walkGuard (s : HpState) : HpLabel → Prop
  -- only the walk needs a condition, and only where it finds a broken handle
  | .walkClose i => ∀ c : ℕ, s.clients[c]? ≠ some (.holding i true)
  | _ => True

/-- What the guarded steps keep: a handle that is held has the state its client gave it, and
`hp_reinit_handle` is never between its two callbacks for a handle that is held. -/
structure HandlesInv (s : HpState) : Prop where
  exclusive : ∀ c c' i, Holds s c i → Holds s c' i → c = c'
  state : ∀ (c i : ℕ) (marked : Bool), s.clients[c]? = some (.holding i marked) →
    ∃ h, s.pool.handleList[i]? = some h ∧ h.state = if marked then .none else .busy
  closed : ∀ i ret, s.walk = .closed i ret → ∀ c, ¬Holds s c i

/-! ## The functions -/

/-- The handle that is taken was to be had. -/
theorem idle_of_hpGetHandle {pool : HandlePool} {i : ℕ} (h : hpGetHandle pool = some i) :
    ∃ hd, pool.handleList[i]? = some hd ∧ hd.state = .idle := by
  rw [hpGetHandle] at h
  split at h
  · cases h
  · obtain ⟨hlt, hok, -⟩ := List.findIdx?_eq_some_iff_getElem.mp h
    rw [isHdOk, Bool.and_eq_true, beq_iff_eq] at hok
    exact ⟨_, List.getElem?_eq_getElem hlt, hok.1⟩

theorem getElem?_setState {pool : HandlePool} {i : ℕ} {h : HpHandle}
    (hi : pool.handleList[i]? = some h) (state : HandleState) (j : ℕ) :
    (pool.setState i state).handleList[j]? =
      if i = j then some { h with state := state } else pool.handleList[j]? := by
  rw [HandlePool.setState, List.getElem?_modify]
  split
  · next heq => simp [← heq, hi]
  · simp

/-! ## The invariant -/

theorem handlesInv_ofSetUp (calls : List (HpCallback × Bool)) : HandlesInv (.ofSetUp calls) := by
  refine ⟨?_, ?_, ?_⟩
  · simp [Holds, HpState.ofSetUp]
  · simp [HpState.ofSetUp]
  · simp [HpState.ofSetUp]

/-- Who holds a handle after a client moved. -/
theorem holds_set {s t : HpState} {c : ℕ} {old new : HpClient} (hc : s.clients[c]? = some old)
    (ht : t.clients = s.clients.set c new) {c' i : ℕ} (h : Holds t c' i) :
    (c' = c ∧ ∃ marked, new = .holding i marked) ∨ (c' ≠ c ∧ Holds s c' i) := by
  obtain ⟨marked, h⟩ := h
  rw [ht, getElem?_set_of_some hc] at h
  split at h
  · next heq => exact .inl ⟨heq.symm, marked, Option.some.inj h⟩
  · next hne => exact .inr ⟨Ne.symm hne, marked, h⟩

namespace HandlesInv

variable {s : HpState}

/-- A handle that is held is not to be had. -/
theorem not_idle (h : HandlesInv s) {c i : ℕ} (hc : Holds s c i) {hd : HpHandle}
    (hi : s.pool.handleList[i]? = some hd) : hd.state ≠ .idle := by
  obtain ⟨marked, hc⟩ := hc
  obtain ⟨hd', hi', hstate⟩ := h.state c i marked hc
  obtain rfl := Option.some.inj (hi.symm.trans hi')
  rw [hstate]
  cases marked <;> simp

/-- The guard keeps the walk from a handle that is held. -/
theorem not_holds_of_guard (h : HandlesInv s) {i : ℕ} {hd : HpHandle}
    (hi : s.pool.handleList[i]? = some hd) (hnone : hd.state = .none)
    (hg : walkGuard s (.walkClose i)) (c : ℕ) : ¬Holds s c i := by
  rintro ⟨marked, hc⟩
  cases marked with
  | true => exact hg c hc
  | false =>
    -- an unmarked handle is marked as in use
    obtain ⟨hd', hi', hstate⟩ := h.state c i false hc
    obtain rfl := Option.some.inj (hi.symm.trans hi')
    simp [hnone] at hstate

/-- Who held a handle still does after a client came. -/
theorem start (h : HandlesInv s) : HandlesInv { s with clients := s.clients ++ [.outside] } := by
  have hold : ∀ (c i : ℕ) (marked : Bool),
      (s.clients ++ [HpClient.outside])[c]? = some (.holding i marked) →
      s.clients[c]? = some (.holding i marked) := by
    intro c i marked hc
    rw [List.getElem?_append] at hc
    split at hc
    · exact hc
    · have hmem := List.mem_of_getElem? hc
      simp at hmem
  refine ⟨?_, fun c i marked hc => h.state c i marked (hold c i marked hc), ?_⟩
  · rintro c c' i ⟨m, hc⟩ ⟨m', hc'⟩
    exact h.exclusive c c' i ⟨m, hold c i m hc⟩ ⟨m', hold c' i m' hc'⟩
  · rintro i ret hwalk c ⟨m, hc⟩
    exact h.closed i ret hwalk c ⟨m, hold c i m hc⟩

theorem get (h : HandlesInv s) {c i : ℕ} (hrest : s.walk = .resting)
    (hc : s.clients[c]? = some .outside) (hget : hpGetHandle s.pool = some i) :
    HandlesInv { s with
      pool := s.pool.setState i .busy, clients := s.clients.set c (.holding i false) } := by
  obtain ⟨hd, hi, hidle⟩ := idle_of_hpGetHandle hget
  -- nobody holds the handle, since it was to be had
  have hfree : ∀ c', ¬Holds s c' i := fun c' hc' => h.not_idle hc' hi hidle
  refine ⟨?_, ?_, ?_⟩
  · -- of two holders, none, one or both may be the client that moved
    intro d d' j hd hd'
    rcases holds_set hc rfl hd with ⟨rfl, _, heq⟩ | ⟨hne, hold⟩ <;>
      rcases holds_set hc rfl hd' with ⟨rfl, _, heq'⟩ | ⟨hne', hold'⟩
    · rfl
    · obtain ⟨rfl, -⟩ := HpClient.holding.inj heq
      exact absurd hold' (hfree d')
    · obtain ⟨rfl, -⟩ := HpClient.holding.inj heq'
      exact absurd hold (hfree d)
    · exact h.exclusive d d' j hold hold'
  · intro d j marked hd'
    rw [getElem?_setState hi]
    rw [getElem?_set_of_some hc] at hd'
    split at hd'
    · obtain ⟨rfl, rfl⟩ := HpClient.holding.inj (Option.some.inj hd')
      exact ⟨_, if_pos rfl, rfl⟩
    · have hne : i ≠ j := fun heq => hfree d ⟨marked, heq ▸ hd'⟩
      rw [if_neg hne]
      exact h.state d j marked hd'
  · intro j ret hwalk
    rw [hrest] at hwalk
    cases hwalk

theorem setNone (h : HandlesInv s) {c i : ℕ} {marked : Bool}
    (hc : s.clients[c]? = some (.holding i marked)) :
    HandlesInv { s with
      pool := s.pool.setState i .none, clients := s.clients.set c (.holding i true) } := by
  obtain ⟨hd, hi, -⟩ := h.state c i marked hc
  have hkept : ∀ d j, Holds { s with
      pool := s.pool.setState i .none, clients := s.clients.set c (.holding i true) } d j →
      Holds s d j := by
    intro d j hd
    rcases holds_set hc rfl hd with ⟨rfl, _, heq⟩ | ⟨-, hold⟩
    · obtain ⟨rfl, -⟩ := HpClient.holding.inj heq
      exact ⟨marked, hc⟩
    · exact hold
  refine ⟨?_, ?_, ?_⟩
  · exact fun d d' j hd hd' => h.exclusive d d' j (hkept d j hd) (hkept d' j hd')
  · intro d j m hd'
    rw [getElem?_setState hi]
    rw [getElem?_set_of_some hc] at hd'
    split at hd'
    · obtain ⟨rfl, rfl⟩ := HpClient.holding.inj (Option.some.inj hd')
      exact ⟨_, if_pos rfl, rfl⟩
    · next hne =>
      -- the handle belongs to another client
      have hother : i ≠ j := fun heq =>
        hne (h.exclusive c d i ⟨marked, hc⟩ ⟨m, heq ▸ hd'⟩)
      rw [if_neg hother]
      exact h.state d j m hd'
  · -- `hp_set_none` takes no lock, so the walk may be under way
    exact fun j ret hwalk d hd => h.closed j ret hwalk d (hkept d j hd)

theorem put (h : HandlesInv s) {c i : ℕ} {marked : Bool} {hd : HpHandle}
    (hrest : s.walk = .resting) (hc : s.clients[c]? = some (.holding i marked))
    (hi : s.pool.handleList[i]? = some hd) :
    HandlesInv { s with
      pool := s.pool.setState i (hpPutHandle hd), clients := s.clients.set c .outside } := by
  have hkept : ∀ d j, Holds { s with
      pool := s.pool.setState i (hpPutHandle hd), clients := s.clients.set c .outside } d j →
      d ≠ c ∧ Holds s d j := by
    intro d j hd
    rcases holds_set hc rfl hd with ⟨-, _, heq⟩ | hold
    · cases heq
    · exact hold
  refine ⟨?_, ?_, ?_⟩
  · exact fun d d' j hd hd' => h.exclusive d d' j (hkept d j hd).2 (hkept d' j hd').2
  · intro d j m hd'
    obtain ⟨hne, m', hold⟩ := hkept d j ⟨m, hd'⟩
    -- the handle put back was this client's alone
    have hother : i ≠ j := fun heq =>
      hne (h.exclusive d c i ⟨m', heq ▸ hold⟩ ⟨marked, hc⟩)
    rw [getElem?_setState hi, if_neg hother]
    rw [getElem?_set_of_some hc, if_neg (Ne.symm hne)] at hd'
    exact h.state d j m hd'
  · intro j ret hwalk
    rw [hrest] at hwalk
    cases hwalk

/-- The walk moves on, and is not between the two callbacks of a handle. -/
theorem walk (h : HandlesInv s) {walk : HpWalk} (hwalk : ∀ i ret, walk ≠ .closed i ret) :
    HandlesInv { s with walk := walk } :=
  ⟨h.exclusive, h.state, fun i ret heq => absurd heq (hwalk i ret)⟩

/-- The walk changes a handle that nobody holds. -/
theorem reinit (h : HandlesInv s) {i : ℕ} {hd hd' : HpHandle} {walk : HpWalk}
    (hi : s.pool.handleList[i]? = some hd) (hfree : ∀ c, ¬Holds s c i)
    (hwalk : ∀ j ret, walk = .closed j ret → j = i) :
    HandlesInv { s with
      pool := { s.pool with handleList := s.pool.handleList.set i hd' }, walk := walk } := by
  refine ⟨h.exclusive, ?_, ?_⟩
  · intro d j m hholds
    have hne : i ≠ j := fun heq => hfree d ⟨m, heq ▸ hholds⟩
    rw [getElem?_set_of_some hi, if_neg hne]
    exact h.state d j m hholds
  · intro j ret heq
    obtain rfl := hwalk j ret heq
    exact hfree

/-- Guarded steps keep handles exclusive. -/
theorem step (h : HandlesInv s) {t : HpState} {a : HpLabel} (hstep : HpStep s a t)
    (hg : walkGuard s a) : HandlesInv t := by
  cases hstep with
  | start => exact h.start
  | get hrest hc hget => exact h.get hrest hc hget
  | getNone _ _ _ => exact h
  | setNone hc => exact h.setNone hc
  | put hrest hc hi => exact h.put hrest hc hi
  | walkStart _ _ => exact h.walk (by simp)
  | walkPass _ _ _ => exact h.walk (by simp)
  | walkClose _ hi hnone =>
    -- the guard is needed here: the handle is broken, but it may be held
    refine h.reinit hi (h.not_holds_of_guard hi hnone hg) fun j ret heq => ?_
    exact (HpWalk.closed.inj heq).1.symm
  | walkOpen hwalk hi => exact h.reinit hi (h.closed _ _ hwalk) (by simp)
  | walkEnd _ _ => exact h.walk (by simp)

/-- A guarded step is safe. -/
theorem handleSafe (h : HandlesInv s) {t : HpState} {a : HpLabel} (hstep : HpStep s a t)
    (hg : walkGuard s a) : HandleSafe s a t := by
  refine ⟨(h.step hstep hg).exclusive, fun i hi => ?_⟩
  cases hstep with
  | walkClose _ hhd hnone =>
    obtain rfl := Option.some.inj hi
    exact h.not_holds_of_guard hhd hnone hg
  | walkOpen hwalk _ =>
    obtain rfl := Option.some.inj hi
    exact h.closed _ _ hwalk
  | start | get _ _ _ | getNone _ _ _ | setNone _ | put _ _ _ | walkStart _ _ | walkPass _ _ _
  | walkEnd _ _ => cases hi

end HandlesInv

/-- A step that is safe was guarded. -/
theorem walkGuard_of_handleSafe {s t : HpState} {a : HpLabel} (h : HandleSafe s a t) :
    walkGuard s a := by
  unfold walkGuard
  split
  · next i => exact fun c hc => h.untouched i rfl c ⟨true, hc⟩
  · trivial

/-- In a run of the clients and the maintenance thread, handles are exclusive and are reopened
only while nobody holds them, exactly when the walk comes to no handle that its client marked
broken and did not put back yet. -/
theorem handleSafe_iff {calls : List (HpCallback × Bool)} {r : List (HpLabel × HpState)}
    (hr : IsRun HpStep (.ofSetUp calls) r) :
    Along HandleSafe (.ofSetUp calls) r ↔ Guarded walkGuard (.ofSetUp calls) r := by
  refine along_iff_guarded ?_ ?_ (handlesInv_ofSetUp calls) hr
  · exact fun s a t hs hstep hg => ⟨hs.handleSafe hstep hg, hs.step hstep hg⟩
  · exact fun s a t _ _ hsafe => walkGuard_of_handleSafe hsafe

/-! ## One handle and two clients -/

/-- One handle that opens and closes without error. -/
def oneHandle : List (HpCallback × Bool) := [(⟨0, true⟩, true)]

/-- The handle, its state as given. -/
def handleIn (state : HandleState) : HandlePool := ⟨1, [⟨state, true, true, true⟩]⟩

/-- Client 0 has the handle; client 1 has none. -/
def heldState : HpState := ⟨handleIn .busy, [.holding 0 false, .outside], .resting⟩

/-- Client 0 marked the handle. -/
def markedState : HpState := ⟨handleIn .none, [.holding 0 true, .outside], .resting⟩

/-- Both clients come, and client 0 gets the handle and marks it. -/
def markRun : List (HpLabel × HpState) :=
  [(.start, ⟨handleIn .idle, [.outside], .resting⟩),
    (.start, ⟨handleIn .idle, [.outside, .outside], .resting⟩),
    (.get 0, heldState), (.setNone 0, markedState)]

/-- The handle is put back before the walk comes to it. -/
def returnedRun : List (HpLabel × HpState) :=
  markRun ++ [(.put 0, ⟨handleIn .none, [.outside, .outside], .resting⟩),
    (.walkStart, ⟨handleIn .none, [.outside, .outside], .looking 0⟩),
    (.walkClose 0, ⟨handleIn .none, [.outside, .outside], .closed 0 0⟩)]

/-- The walk comes to the handle while client 0 still has it, and client 1 gets it next. -/
def reopenedRun : List (HpLabel × HpState) :=
  markRun ++ [(.walkStart, ⟨handleIn .none, [.holding 0 true, .outside], .looking 0⟩),
    (.walkClose 0, ⟨handleIn .none, [.holding 0 true, .outside], .closed 0 0⟩),
    (.walkOpen 0, ⟨handleIn .idle, [.holding 0 true, .outside], .looking 1⟩),
    (.walkEnd, ⟨handleIn .idle, [.holding 0 true, .outside], .resting⟩),
    (.get 1, ⟨handleIn .busy, [.holding 0 true, .holding 0 false], .resting⟩)]

theorem isRun_returnedRun : IsRun HpStep (.ofSetUp oneHandle) returnedRun :=
  ⟨.start, .start, @HpStep.get _ 0 0 rfl rfl rfl, @HpStep.setNone _ 0 0 false rfl,
    @HpStep.put _ 0 0 true ⟨.none, true, true, true⟩ rfl rfl rfl, .walkStart rfl (by decide),
    @HpStep.walkClose _ 0 ⟨.none, true, true, true⟩ ⟨0, true⟩ rfl rfl rfl, trivial⟩

theorem isRun_reopenedRun : IsRun HpStep (.ofSetUp oneHandle) reopenedRun :=
  ⟨.start, .start, @HpStep.get _ 0 0 rfl rfl rfl, @HpStep.setNone _ 0 0 false rfl,
    .walkStart rfl (by decide),
    @HpStep.walkClose _ 0 ⟨.none, true, true, true⟩ ⟨0, true⟩ rfl rfl rfl,
    @HpStep.walkOpen _ 0 0 ⟨.none, true, true, true⟩ ⟨0, true⟩ rfl rfl,
    @HpStep.walkEnd _ 1 rfl (by decide), @HpStep.get _ 1 0 rfl rfl rfl, trivial⟩

/-- Putting the handle back first is safe. -/
theorem handleSafe_returnedRun : Along HandleSafe (.ofSetUp oneHandle) returnedRun := by
  refine (handleSafe_iff isRun_returnedRun).mpr
    ⟨trivial, trivial, trivial, trivial, trivial, trivial, fun c hc => ?_, trivial⟩
  -- nobody holds the handle when the walk closes it
  have hmem := List.mem_of_getElem? hc
  simp at hmem

/-- Not every run is safe: a handle that was marked is handed out a second time. -/
theorem not_handleSafe_reopened :
    ¬∀ (calls : List (HpCallback × Bool)) (r : List (HpLabel × HpState)),
      IsRun HpStep (.ofSetUp calls) r → Along HandleSafe (.ofSetUp calls) r := by
  intro hall
  obtain ⟨-, -, -, -, -, -, -, -, hlast, -⟩ := hall oneHandle reopenedRun isRun_reopenedRun
  have hsame := hlast.exclusive 0 1 0 ⟨true, rfl⟩ ⟨false, rfl⟩
  cases hsame

end Gendo
