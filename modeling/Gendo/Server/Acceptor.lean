import Gendo.Library.StepSystem
import Gendo.Server.MsgConsumer
import Mathlib.Logic.Function.Basic

/-!
# Descriptors and their nodes

The pool of `lib-libevt.c`: one node for each connection, and one for each timer and signal
handler. libevent accepts a connection and calls `libevt_accept_conn_cb`, which makes the node in
four steps, each of which may fail. From then on the descriptor is closed by `libevt_clean` alone,
which `ras_user_msg_recv` calls for its node.

A callback that returns between the `accept` and the node leaves a descriptor that nobody can
close any more, and `lib_close` does not close the descriptor 0. `tracked_iff` shows that
nothing else goes wrong, in any run.
-/

namespace Gendo

open StepSystem

/-- `libevt_t`: where `mem_malloc` put it, and its descriptor, which is -1 for a timer or a signal
handler. -/
structure Libevt where
  addr : ℕ
  fd : ℤ
  deriving DecidableEq, Repr

/-- `libevt_pool_t`: the counter, and the list of nodes, the newest first. -/
structure LibevtPool where
  cur : ℤ
  node : List Libevt
  deriving DecidableEq, Repr

namespace LibevtPool

/-- `libevt_pool_new`, with the answers of `mem_malloc` and `event_base_new`. -/
def libevtPoolNew (max : ℤ) (malloc base : Bool) : Option LibevtPool :=
  if max ≤ 0 then none
  else if !malloc then none
  else if !base then none
  else some ⟨0, []⟩

/-- `libevt_new`, with the answer of `mem_malloc`. -/
def libevtNew (evtPool : LibevtPool) (malloc : Option ℕ) (fd : ℤ) :
    Option Libevt × LibevtPool :=
  match malloc with
  | none => (none, evtPool)
  | some addr => (some ⟨addr, fd⟩, ⟨evtPool.cur + 1, ⟨addr, fd⟩ :: evtPool.node⟩)

/-- `libevt_del`. -/
def libevtDel (evtPool : LibevtPool) (evt : Libevt) : LibevtPool :=
  ⟨evtPool.cur - 1, evtPool.node.erase evt⟩

end LibevtPool

/-- What the calls of `libevt_accept_conn_cb` answer: whether `setsockopt`, `event_assign` and
`event_add` succeed, and what `mem_malloc` returns. -/
structure AcceptAnswers where
  setsockopt : Bool
  malloc : Option ℕ
  assign : Bool
  add : Bool
  deriving DecidableEq, Repr

/-- `libevt_set_recv_timeout`: whether it returns `OK`. -/
def libevtSetRecvTimeout (timeout : ℤ) (setsockopt : Bool) : Bool :=
  if timeout ≤ 0 then true else setsockopt

/-- `libevt_accept_conn_cb`, with the descriptors that it passes to `lib_close`. The base and the
pool are those that `libevt_acceptor` put into the acceptor. -/
def libevtAcceptConnCb (socketTimeout : ℤ) (evtPool : LibevtPool) (fd : ℤ)
    (answers : AcceptAnswers) : LibevtPool × List ℤ :=
  if 0 < socketTimeout ∧ libevtSetRecvTimeout socketTimeout answers.setsockopt = false then
    (evtPool, [])
  else
    match evtPool.libevtNew answers.malloc fd with
    | (none, evtPool) => (evtPool, [])
    | (some evt, evtPool) =>
      if !answers.assign then (evtPool.libevtDel evt, [fd])
      -- with a timeout for idle connections or without one
      else if !answers.add then (evtPool.libevtDel evt, [fd])
      else (evtPool, [])

/-- `libevt_timer` and `libevt_signal`. -/
def libevtTimer (evtPool : LibevtPool) (answers : AcceptAnswers) : LibevtPool :=
  match evtPool.libevtNew answers.malloc (-1) with
  | (none, evtPool) => evtPool
  | (some evt, evtPool) =>
    if !answers.assign then evtPool.libevtDel evt
    else if !answers.add then evtPool.libevtDel evt
    else evtPool

/-- The pool, and the kernel's table of descriptors. -/
structure AcceptorState where
  evtPool : LibevtPool
  /-- The accepted connection that a descriptor is open for. -/
  fds : ℤ → Option ℕ
  /-- How many connections were accepted. -/
  next : ℕ
  /-- What each call of `close` closed, which is nothing where the descriptor was not open. -/
  closes : List (Option ℕ)

/-- What happens. -/
inductive AcceptorLabel
  /-- libevent accepts a connection. -/
  | accept (fd : ℤ) (answers : AcceptAnswers)
  /-- libevent reports an event of a connection. -/
  | event (evt : Libevt) (type : EvType) (recvs : List RecvAnswer) (mc : MsgConsumer)
      (answer : Option ℕ)
  /-- Another call of `libevt_clean`. -/
  | clean (evt : Libevt)
  /-- A timer or a signal handler is set up. -/
  | timer (answers : AcceptAnswers)

namespace AcceptorState

/-- The server before the first connection. -/
def start (evtPool : LibevtPool) : AcceptorState := ⟨evtPool, fun _ => none, 0, []⟩

/-- `lib_close`. -/
def libClose (s : AcceptorState) (fd : ℤ) : AcceptorState :=
  if 0 < fd then
    { s with fds := Function.update s.fds fd none, closes := s.closes ++ [s.fds fd] }
  else s

/-- `libevt_clean`; what `event_del` returns is not looked at. -/
def libevtClean (s : AcceptorState) (evt : Libevt) : AcceptorState :=
  let s := s.libClose evt.fd
  { s with evtPool := s.evtPool.libevtDel evt }

/-- A descriptor is given to a connection. -/
def opened (s : AcceptorState) (fd : ℤ) : AcceptorState :=
  { s with fds := Function.update s.fds fd (some s.next), next := s.next + 1 }

/-- A connection is accepted, and the callback runs. -/
def accepted (socketTimeout : ℤ) (s : AcceptorState) (fd : ℤ) (answers : AcceptAnswers) :
    AcceptorState :=
  let done := libevtAcceptConnCb socketTimeout s.evtPool fd answers
  done.2.foldl libClose { s.opened fd with evtPool := done.1 }

/-- The callback of a connection's event. -/
def afterRecv (s : AcceptorState) (evt : Libevt) : RecvOutcome → AcceptorState
  | .cleaned => s.libevtClean evt
  | .discarded | .copied _ => s

end AcceptorState

/-- What `mem_malloc` returns is no node of the pool. -/
def FreshMalloc (evtPool : LibevtPool) (malloc : Option ℕ) : Prop :=
  ∀ addr, malloc = some addr → addr ∉ evtPool.node.map Libevt.addr

/-- One callback of libevent, or one of the calls that the server makes before it runs. -/
inductive AcceptorStep (socketTimeout : ℤ) :
    AcceptorState → AcceptorLabel → AcceptorState → Prop
  | accept {s fd answers} : 0 ≤ fd → s.fds fd = none → FreshMalloc s.evtPool answers.malloc →
      AcceptorStep socketTimeout s (.accept fd answers) (s.accepted socketTimeout fd answers)
  | event {s evt type recvs mc answer} : evt ∈ s.evtPool.node → evt.fd ≠ -1 →
      AcceptorStep socketTimeout s (.event evt type recvs mc answer)
        (s.afterRecv evt (rasUserMsgRecv evt.fd type recvs mc answer).1)
  | clean {s evt} : evt ∈ s.evtPool.node →
      AcceptorStep socketTimeout s (.clean evt) (s.libevtClean evt)
  | timer {s answers} : FreshMalloc s.evtPool answers.malloc →
      AcceptorStep socketTimeout s (.timer answers)
        { s with evtPool := libevtTimer s.evtPool answers }

/-- Every accepted descriptor that is open has its node, and every node its descriptor. -/
structure Tracked (s : AcceptorState) : Prop where
  linked : ∀ fd c, s.fds fd = some c → s.evtPool.node.countP (·.fd = fd) = 1
  opened : ∀ evt ∈ s.evtPool.node, evt.fd ≠ -1 → ∃ c, s.fds evt.fd = some c
  cur : s.evtPool.cur = s.evtPool.node.length
  /-- Every `close` closed a connection, and no two the same. -/
  once : ∃ cs : List ℕ, s.closes = cs.map some ∧ cs.Nodup

/-- The callback gets as far as the node, and what is closed is not the descriptor 0. -/
def trackGuard (socketTimeout : ℤ) (_ : AcceptorState) : AcceptorLabel → Prop
  | .accept fd answers =>
    (0 < socketTimeout → answers.setsockopt = true) ∧ answers.malloc ≠ none ∧
      (fd = 0 → answers.assign = true ∧ answers.add = true)
  | .event evt type recvs mc answer =>
    evt.fd = 0 → (rasUserMsgRecv evt.fd type recvs mc answer).1 ≠ .cleaned
  | .clean evt => evt.fd ≠ 0
  | .timer _ => True

/-- What is kept besides: nodes are told apart by their addresses, and no connection that was
closed is open. -/
structure TrackedInv (s : AcceptorState) : Prop extends Tracked s where
  addrs : (s.evtPool.node.map Libevt.addr).Nodup
  fds_next : ∀ fd c, s.fds fd = some c → 0 ≤ fd ∧ c < s.next ∧ some c ∉ s.closes
  inj : ∀ fd fd' c, s.fds fd = some c → s.fds fd' = some c → fd = fd'
  closes_next : ∀ c, some c ∈ s.closes → c < s.next

/-! ## The functions -/

namespace LibevtPool

@[simp]
theorem libevtNew_none (evtPool : LibevtPool) (fd : ℤ) :
    evtPool.libevtNew none fd = (none, evtPool) := rfl

@[simp]
theorem libevtNew_some (evtPool : LibevtPool) (addr : ℕ) (fd : ℤ) :
    evtPool.libevtNew (some addr) fd =
      (some ⟨addr, fd⟩, ⟨evtPool.cur + 1, ⟨addr, fd⟩ :: evtPool.node⟩) := rfl

/-- A node that was just made is taken out again. -/
@[simp]
theorem libevtDel_libevtNew (evtPool : LibevtPool) (evt : Libevt) :
    LibevtPool.libevtDel ⟨evtPool.cur + 1, evt :: evtPool.node⟩ evt = evtPool := by
  simp [libevtDel]

end LibevtPool

@[simp]
theorem libClose_evtPool (s : AcceptorState) (fd : ℤ) : (s.libClose fd).evtPool = s.evtPool := by
  rw [AcceptorState.libClose]
  split
  · rfl
  · rfl

/-- What the callback of a new connection does: it stops before there is a node, it closes the
descriptor again, or it leaves a node. -/
theorem libevtAcceptConnCb_cases (socketTimeout : ℤ) (evtPool : LibevtPool) (fd : ℤ)
    (answers : AcceptAnswers) :
    (((0 < socketTimeout ∧ answers.setsockopt = false) ∨ answers.malloc = none) ∧
        libevtAcceptConnCb socketTimeout evtPool fd answers = (evtPool, [])) ∨
      ((0 < socketTimeout → answers.setsockopt = true) ∧ answers.malloc ≠ none ∧
        ¬(answers.assign = true ∧ answers.add = true) ∧
        libevtAcceptConnCb socketTimeout evtPool fd answers = (evtPool, [fd])) ∨
      ((0 < socketTimeout → answers.setsockopt = true) ∧
        ∃ addr, answers.malloc = some addr ∧ answers.assign = true ∧ answers.add = true ∧
          libevtAcceptConnCb socketTimeout evtPool fd answers =
            (⟨evtPool.cur + 1, ⟨addr, fd⟩ :: evtPool.node⟩, [])) := by
  obtain ⟨setsockopt, malloc, assign, add⟩ := answers
  by_cases hsock : 0 < socketTimeout ∧ setsockopt = false
  · refine .inl ⟨.inl hsock, ?_⟩
    simp [libevtAcceptConnCb, libevtSetRecvTimeout, hsock.1, hsock.2]
  have hset : 0 < socketTimeout → setsockopt = true := by
    simpa using hsock
  have hcheck : ¬(0 < socketTimeout ∧ libevtSetRecvTimeout socketTimeout setsockopt = false) := by
    rintro ⟨hpos, hfail⟩
    simp [libevtSetRecvTimeout, hset hpos] at hfail
  cases malloc with
  | none =>
    -- nobody closes the descriptor
    refine .inl ⟨.inr rfl, ?_⟩
    rw [libevtAcceptConnCb, if_neg hcheck]
    rfl
  | some addr =>
    right
    by_cases hboth : assign = true ∧ add = true
    · obtain ⟨rfl, rfl⟩ := hboth
      refine .inr ⟨hset, addr, rfl, rfl, rfl, ?_⟩
      rw [libevtAcceptConnCb, if_neg hcheck]
      rfl
    · refine .inl ⟨hset, by simp, hboth, ?_⟩
      rw [libevtAcceptConnCb, if_neg hcheck]
      cases assign with
      | false => simp
      | true =>
        cases add with
        | false => simp
        | true => exact absurd ⟨rfl, rfl⟩ hboth

/-- A timer leaves a node without descriptor, or none. -/
theorem libevtTimer_cases (evtPool : LibevtPool) (answers : AcceptAnswers) :
    libevtTimer evtPool answers = evtPool ∨
      ∃ addr, answers.malloc = some addr ∧
        libevtTimer evtPool answers = ⟨evtPool.cur + 1, ⟨addr, -1⟩ :: evtPool.node⟩ := by
  obtain ⟨setsockopt, malloc, assign, add⟩ := answers
  cases malloc with
  | none => exact .inl rfl
  | some addr =>
    cases assign with
    | false => exact .inl (by simp [libevtTimer])
    | true =>
      cases add with
      | false => exact .inl (by simp [libevtTimer])
      | true => exact .inr ⟨addr, rfl, rfl⟩

/-! ## The invariant -/

/-- The server before the first connection has nothing to track. -/
theorem trackedInv_start {max : ℤ} {malloc base : Bool} {evtPool : LibevtPool}
    (h : LibevtPool.libevtPoolNew max malloc base = some evtPool) :
    TrackedInv (AcceptorState.start evtPool) := by
  have hempty : evtPool = ⟨0, []⟩ := by
    rw [LibevtPool.libevtPoolNew] at h
    split_ifs at h
    exact (Option.some.inj h).symm
  subst hempty
  exact
    { linked := fun fd c hfd => by cases hfd
      opened := fun evt hevt => by cases hevt
      cur := rfl
      once := ⟨[], rfl, List.nodup_nil⟩
      addrs := List.nodup_nil
      fds_next := fun fd c hfd => by cases hfd
      inj := fun fd fd' c hfd => by cases hfd
      closes_next := fun c hc => by cases hc }

namespace TrackedInv

variable {s : AcceptorState} {evt evt' : Libevt} {fd : ℤ} {c : ℕ}

/-- A descriptor that is not open has no node. -/
theorem countP_eq_zero (h : TrackedInv s) (hfd : 0 ≤ fd) (hclosed : s.fds fd = none) :
    s.evtPool.node.countP (·.fd = fd) = 0 := by
  rw [List.countP_eq_zero]
  intro evt hevt heq
  have hevtfd : evt.fd = fd := by simpa using heq
  obtain ⟨c, hc⟩ := h.opened evt hevt (by omega)
  rw [hevtfd, hclosed] at hc
  cases hc

/-- Taking a node out leaves the nodes of the other descriptors. -/
theorem countP_libevtDel (hevt : evt ∈ s.evtPool.node) (fd : ℤ) :
    (s.evtPool.libevtDel evt).node.countP (·.fd = fd) + (if evt.fd = fd then 1 else 0) =
      s.evtPool.node.countP (·.fd = fd) := by
  have hperm := (List.perm_cons_erase hevt).countP_eq fun e : Libevt => decide (e.fd = fd)
  rw [hperm, List.countP_cons, LibevtPool.libevtDel]
  simp

theorem cur_libevtDel (h : TrackedInv s) (hevt : evt ∈ s.evtPool.node) :
    (s.evtPool.libevtDel evt).cur = (s.evtPool.libevtDel evt).node.length := by
  have hlen := (List.perm_cons_erase hevt).length_eq
  have hcur := h.cur
  rw [List.length_cons] at hlen
  simp only [LibevtPool.libevtDel]
  omega

theorem addrs_libevtDel (h : TrackedInv s) :
    ((s.evtPool.libevtDel evt).node.map Libevt.addr).Nodup :=
  h.addrs.sublist (List.erase_sublist.map _)

/-- A node for which there is no descriptor comes or goes. -/
theorem setPool (h : TrackedInv s) {evtPool : LibevtPool}
    (hcount : ∀ fd, 0 ≤ fd →
      evtPool.node.countP (·.fd = fd) = s.evtPool.node.countP (·.fd = fd))
    (hopened : ∀ evt ∈ evtPool.node, evt.fd ≠ -1 → evt ∈ s.evtPool.node)
    (hcur : evtPool.cur = evtPool.node.length) (haddrs : (evtPool.node.map Libevt.addr).Nodup) :
    TrackedInv { s with evtPool := evtPool } where
  linked fd c hc := (hcount fd (h.fds_next fd c hc).1).trans (h.linked fd c hc)
  opened evt hevt hfd := h.opened evt (hopened evt hevt hfd) hfd
  cur := hcur
  once := h.once
  addrs := haddrs
  fds_next := h.fds_next
  inj := h.inj
  closes_next := h.closes_next

/-- A connection is accepted, and its node is linked. -/
theorem linked_accept (h : TrackedInv s) (hpos : 0 ≤ fd) (hfree : s.fds fd = none) {addr : ℕ}
    (haddr : addr ∉ s.evtPool.node.map Libevt.addr) :
    TrackedInv { s.opened fd with
      evtPool := ⟨s.evtPool.cur + 1, ⟨addr, fd⟩ :: s.evtPool.node⟩ } where
  linked fd' c' hc' := by
    simp only [AcceptorState.opened] at hc'
    rw [List.countP_cons]
    by_cases heq : fd' = fd
    · subst heq
      simp [h.countP_eq_zero hpos hfree]
    · rw [Function.update_of_ne heq] at hc'
      simp [h.linked _ _ hc', Ne.symm heq]
  opened evt hevt hfd := by
    simp only [AcceptorState.opened]
    rcases List.mem_cons.mp hevt with rfl | hold
    · exact ⟨s.next, Function.update_self ..⟩
    · obtain ⟨c, hc⟩ := h.opened evt hold hfd
      refine ⟨c, ?_⟩
      rw [Function.update_of_ne, hc]
      intro heq
      rw [heq, hfree] at hc
      cases hc
  cur := by
    have hcur := h.cur
    simp only [List.length_cons]
    omega
  once := h.once
  addrs := List.nodup_cons.mpr ⟨haddr, h.addrs⟩
  fds_next fd' c' hc' := by
    simp only [AcceptorState.opened] at hc' ⊢
    by_cases heq : fd' = fd
    · subst heq
      rw [Function.update_self, Option.some.injEq] at hc'
      subst hc'
      exact ⟨hpos, Nat.lt_succ_self _, fun hmem => (h.closes_next _ hmem).false⟩
    · rw [Function.update_of_ne heq] at hc'
      obtain ⟨hnonneg, hlt, hnew⟩ := h.fds_next _ _ hc'
      exact ⟨hnonneg, hlt.trans (Nat.lt_succ_self _), hnew⟩
  inj fd₁ fd₂ c' h₁ h₂ := by
    simp only [AcceptorState.opened] at h₁ h₂
    -- the number of the new connection is new
    by_cases heq₁ : fd₁ = fd <;> by_cases heq₂ : fd₂ = fd
    · rw [heq₁, heq₂]
    · subst heq₁
      rw [Function.update_self, Option.some.injEq] at h₁
      rw [Function.update_of_ne heq₂] at h₂
      exact absurd (h.fds_next _ _ h₂).2.1 (by omega)
    · subst heq₂
      rw [Function.update_self, Option.some.injEq] at h₂
      rw [Function.update_of_ne heq₁] at h₁
      exact absurd (h.fds_next _ _ h₁).2.1 (by omega)
    · rw [Function.update_of_ne heq₁] at h₁
      rw [Function.update_of_ne heq₂] at h₂
      exact h.inj _ _ _ h₁ h₂
  closes_next c' hc' := (h.closes_next c' hc').trans (Nat.lt_succ_self _)

/-- A descriptor that has no node is closed. -/
theorem libClose (h : TrackedInv s) {c : ℕ} (hpos : 0 < fd) (hopen : s.fds fd = some c)
    {evtPool : LibevtPool}
    (hcount : ∀ fd', 0 ≤ fd' → fd' ≠ fd →
      evtPool.node.countP (·.fd = fd') = s.evtPool.node.countP (·.fd = fd'))
    (hopened : ∀ evt ∈ evtPool.node, evt ∈ s.evtPool.node ∧ evt.fd ≠ fd)
    (hcur : evtPool.cur = evtPool.node.length)
    (haddrs : (evtPool.node.map Libevt.addr).Nodup) :
    TrackedInv { s.libClose fd with evtPool := evtPool } := by
  obtain ⟨-, hlt, hnew⟩ := h.fds_next fd c hopen
  obtain ⟨cs, hcs, hnodup⟩ := h.once
  -- what is open after it was open before, under another number
  have hother : ∀ fd' c', Function.update s.fds fd none fd' = some c' →
      fd' ≠ fd ∧ s.fds fd' = some c' := by
    intro fd' c' hc'
    by_cases heq : fd' = fd
    · subst heq
      simp at hc'
    · exact ⟨heq, by rwa [Function.update_of_ne heq] at hc'⟩
  simp only [AcceptorState.libClose, if_pos hpos, hopen]
  refine
    { linked := fun fd' c' hc' => ?_, opened := fun evt hevt hfd => ?_, cur := hcur
      once := ⟨cs ++ [c], by simp [hcs], ?_⟩, addrs := haddrs
      fds_next := fun fd' c' hc' => ?_, inj := fun fd₁ fd₂ c' h₁ h₂ => ?_
      closes_next := fun c' hc' => ?_ }
  · obtain ⟨hne, hold⟩ := hother _ _ hc'
    exact (hcount fd' (h.fds_next _ _ hold).1 hne).trans (h.linked _ _ hold)
  · obtain ⟨hold, hne⟩ := hopened evt hevt
    obtain ⟨c', hc'⟩ := h.opened evt hold hfd
    exact ⟨c', (Function.update_of_ne hne _ _).trans hc'⟩
  · rw [List.nodup_append]
    refine ⟨hnodup, by simp, fun a ha b hb heq => hnew ?_⟩
    rw [List.mem_singleton] at hb
    rw [hcs, ← hb, ← heq]
    exact List.mem_map_of_mem ha
  · obtain ⟨hne, hold⟩ := hother _ _ hc'
    obtain ⟨hnonneg, hlt', hnew'⟩ := h.fds_next _ _ hold
    refine ⟨hnonneg, hlt', ?_⟩
    rw [List.mem_append, List.mem_singleton, Option.some.injEq]
    rintro (hmem | rfl)
    · exact hnew' hmem
    · exact hne (h.inj _ _ _ hold hopen)
  · exact h.inj _ _ _ (hother _ _ h₁).2 (hother _ _ h₂).2
  · rw [List.mem_append, List.mem_singleton, Option.some.injEq] at hc'
    rcases hc' with hmem | rfl
    · exact h.closes_next _ hmem
    · exact hlt

/-- `libevt_clean` of a node whose descriptor is not 0. -/
theorem libevtClean (h : TrackedInv s) (hevt : evt ∈ s.evtPool.node) (hfd : evt.fd ≠ 0) :
    TrackedInv (s.libevtClean evt) := by
  have hcount := countP_libevtDel hevt
  by_cases htimer : evt.fd = -1
  · have hclose : s.libClose evt.fd = s := by simp [AcceptorState.libClose, htimer]
    rw [AcceptorState.libevtClean, hclose]
    refine h.setPool (fun fd hpos => ?_) (fun e he _ => List.mem_of_mem_erase he)
      (h.cur_libevtDel hevt) h.addrs_libevtDel
    have hthis := hcount fd
    rw [if_neg (by omega)] at hthis
    exact hthis
  · obtain ⟨c, hc⟩ := h.opened evt hevt htimer
    have hpos : 0 < evt.fd := by
      have hnonneg := (h.fds_next _ _ hc).1
      omega
    rw [AcceptorState.libevtClean]
    simp only [libClose_evtPool]
    refine h.libClose hpos hc (fun fd _ hne => ?_) (fun e he => ⟨List.mem_of_mem_erase he, ?_⟩)
      (h.cur_libevtDel hevt) h.addrs_libevtDel
    · have hthis := hcount fd
      rw [if_neg (Ne.symm hne)] at hthis
      exact hthis
    · -- no other node has this descriptor
      intro heq
      have hthis := hcount evt.fd
      rw [if_pos rfl, h.linked _ _ hc] at hthis
      have hzero : (s.evtPool.libevtDel evt).node.countP (·.fd = evt.fd) = 0 := by omega
      exact List.countP_eq_zero.mp hzero e he (by simpa using heq)

/-- A node that is made for a timer. -/
theorem timer (h : TrackedInv s) {answers : AcceptAnswers}
    (hfresh : FreshMalloc s.evtPool answers.malloc) :
    TrackedInv { s with evtPool := libevtTimer s.evtPool answers } := by
  rcases libevtTimer_cases s.evtPool answers with heq | ⟨addr, haddr, heq⟩
  · rw [heq]
    exact h
  · rw [heq]
    refine h.setPool (fun fd hpos => ?_) (fun evt hevt hfd => ?_) ?_ ?_
    · rw [List.countP_cons, if_neg (by simp; omega), Nat.add_zero]
    · rcases List.mem_cons.mp hevt with rfl | hold
      · exact absurd rfl hfd
      · exact hold
    · simp [h.cur]
    · exact List.nodup_cons.mpr ⟨hfresh addr haddr, h.addrs⟩

/-- A connection whose callback makes a node, or closes the descriptor again. -/
theorem accept (h : TrackedInv s) {socketTimeout : ℤ} {answers : AcceptAnswers} (hpos : 0 ≤ fd)
    (hfree : s.fds fd = none) (hfresh : FreshMalloc s.evtPool answers.malloc)
    (hg : trackGuard socketTimeout s (.accept fd answers)) :
    TrackedInv (s.accepted socketTimeout fd answers) := by
  obtain ⟨hsock, hmalloc, hzero⟩ := hg
  rw [AcceptorState.accepted]
  rcases libevtAcceptConnCb_cases socketTimeout s.evtPool fd answers with
    ⟨hfail, -⟩ | ⟨-, -, hundone, heq⟩ | ⟨-, addr, haddr, -, -, heq⟩
  · rcases hfail with ⟨hpos', hset⟩ | hnone
    · rw [hsock hpos'] at hset
      cases hset
    · exact absurd hnone hmalloc
  · -- the node is taken out again, and the descriptor closed: as if a node had been linked
    obtain ⟨addr, haddr⟩ := Option.ne_none_iff_exists'.mp hmalloc
    have hlinked := h.linked_accept hpos hfree (hfresh addr haddr)
    have hfd : fd ≠ 0 := fun h0 => hundone (hzero h0)
    have hmem : ⟨addr, fd⟩ ∈ Libevt.mk addr fd :: s.evtPool.node := List.mem_cons_self ..
    have hclean := hlinked.libevtClean hmem hfd
    have hposs : 0 < fd := by omega
    rw [heq]
    simpa [AcceptorState.libevtClean, AcceptorState.libClose, AcceptorState.opened, hposs]
      using hclean
  · rw [heq]
    exact h.linked_accept hpos hfree (hfresh addr haddr)

/-- Guarded steps keep descriptors tracked. -/
theorem step (h : TrackedInv s) {socketTimeout : ℤ} {t : AcceptorState} {a : AcceptorLabel}
    (hg : trackGuard socketTimeout s a) (hstep : AcceptorStep socketTimeout s a t) :
    TrackedInv t := by
  cases hstep with
  | accept hpos hfree hfresh => exact h.accept hpos hfree hfresh hg
  | @event evt type recvs mc answer hevt hfd =>
    cases hout : (rasUserMsgRecv evt.fd type recvs mc answer).1 with
    | cleaned => exact h.libevtClean hevt fun h0 => hg h0 hout
    | discarded => exact h
    | copied pmsg => exact h
  | clean hevt => exact h.libevtClean hevt hg
  | timer hfresh => exact h.timer hfresh

/-- A node that is taken out without closing its descriptor is missing. -/
theorem not_tracked_libevtClean (h : TrackedInv s) (hevt : evt ∈ s.evtPool.node)
    (hfd : evt.fd = 0) : ¬Tracked (s.libevtClean evt) := by
  intro htracked
  obtain ⟨c, hc⟩ := h.opened evt hevt (by omega)
  have hclose : s.libClose evt.fd = s := by simp [AcceptorState.libClose, hfd]
  have hone := htracked.linked evt.fd c (by rw [AcceptorState.libevtClean, hclose]; exact hc)
  have hdel := countP_libevtDel hevt evt.fd
  rw [AcceptorState.libevtClean, hclose] at hone
  rw [if_pos rfl, h.linked _ _ hc] at hdel
  dsimp only at hone
  omega

/-- Where the callback of a new connection does not meet the guard, the new descriptor has no
node. -/
theorem guard_of_tracked_accept (h : TrackedInv s) {socketTimeout : ℤ} {answers : AcceptAnswers}
    (hpos : 0 ≤ fd) (hfree : s.fds fd = none)
    (htracked : Tracked (s.accepted socketTimeout fd answers)) :
    trackGuard socketTimeout s (.accept fd answers) := by
  have hzero := h.countP_eq_zero hpos hfree
  have hbad : ∀ t : AcceptorState, Tracked t → t.evtPool = s.evtPool →
      t.fds fd = some s.next → False := by
    intro t ht hpool hfd
    have hone := ht.linked fd s.next hfd
    rw [hpool] at hone
    omega
  rw [AcceptorState.accepted] at htracked
  rcases libevtAcceptConnCb_cases socketTimeout s.evtPool fd answers with
    ⟨-, heq⟩ | ⟨hsock, hmalloc, -, heq⟩ | ⟨hsock, addr, haddr, hassign, hadd, heq⟩
  · rw [heq] at htracked
    exact (hbad _ htracked rfl (Function.update_self ..)).elim
  · refine ⟨hsock, hmalloc, fun h0 => ?_⟩
    -- the descriptor 0 stays open
    rw [heq] at htracked
    have hstays : (s.opened fd).libClose fd = s.opened fd := by
      simp [AcceptorState.libClose, h0]
    refine (hbad _ htracked ?_ ?_).elim
    · simp
    · simp [AcceptorState.libClose, h0, AcceptorState.opened]
  · exact ⟨hsock, by simp [haddr], fun _ => ⟨hassign, hadd⟩⟩

/-- Only guarded steps keep descriptors tracked. -/
theorem guard_of_tracked (h : TrackedInv s) {socketTimeout : ℤ} {t : AcceptorState}
    {a : AcceptorLabel} (hstep : AcceptorStep socketTimeout s a t) (ht : Tracked t) :
    trackGuard socketTimeout s a := by
  cases hstep with
  | accept hpos hfree _ => exact h.guard_of_tracked_accept hpos hfree ht
  | event hevt _ =>
    intro h0 hout
    rw [hout] at ht
    exact h.not_tracked_libevtClean hevt h0 ht
  | clean hevt => exact fun h0 => h.not_tracked_libevtClean hevt h0 ht
  | timer _ => trivial

end TrackedInv

/-- In a run of the server descriptors are tracked all the time exactly if every callback of a new
connection gets as far as the node, and the descriptor 0 never has to be closed. -/
theorem tracked_iff {max socketTimeout : ℤ} {malloc base : Bool} {evtPool : LibevtPool}
    (hnew : LibevtPool.libevtPoolNew max malloc base = some evtPool)
    {r : List (AcceptorLabel × AcceptorState)}
    (hr : IsRun (AcceptorStep socketTimeout) (AcceptorState.start evtPool) r) :
    Always Tracked (AcceptorState.start evtPool) r ↔
      Guarded (trackGuard socketTimeout) (AcceptorState.start evtPool) r :=
  always_iff_guarded (fun _ hi => hi.toTracked) (fun _ _ _ hi hst hg => hi.step hg hst)
    (fun _ _ _ hi hst ht => hi.guard_of_tracked hst ht) (trackedInv_start hnew) hr

/-! ## A connection without a node -/

/-- The pool of a server that has just started. -/
def emptyPool : LibevtPool := ⟨0, []⟩

/-- Every call succeeds, and the node is put at the address 1000. -/
def goodAnswers : AcceptAnswers := ⟨true, some 1000, true, true⟩

/-- A connection comes and is idle for too long. -/
def idleRun : List (AcceptorLabel × AcceptorState) :=
  let s := (AcceptorState.start emptyPool).accepted 1 4 goodAnswers
  [(.accept 4 goodAnswers, s),
    (.event ⟨1000, 4⟩ .timeout [] .zeroed none, s.libevtClean ⟨1000, 4⟩)]

theorem tracked_idleRun :
    IsRun (AcceptorStep 1) (AcceptorState.start emptyPool) idleRun ∧
      Always Tracked (AcceptorState.start emptyPool) idleRun := by
  have hnew : LibevtPool.libevtPoolNew 2000 true true = some emptyPool := rfl
  have hrun : IsRun (AcceptorStep 1) (AcceptorState.start emptyPool) idleRun := by
    refine ⟨.accept (by decide) rfl ?_, ?_, trivial⟩
    · intro addr _
      exact List.not_mem_nil
    · have hmem : ⟨1000, 4⟩ ∈ [Libevt.mk 1000 4] := List.mem_cons_self ..
      exact .event hmem (by decide)
  refine ⟨hrun, (tracked_iff hnew hrun).mpr ⟨⟨fun _ => rfl, nofun, nofun⟩, nofun, trivial⟩⟩

/-- A connection comes while there is no memory for its node. -/
def leakRun : List (AcceptorLabel × AcceptorState) :=
  let answers : AcceptAnswers := ⟨true, none, true, true⟩
  [(.accept 4 answers, (AcceptorState.start emptyPool).accepted 1 4 answers)]

theorem not_tracked_leakRun :
    ¬∀ r, IsRun (AcceptorStep 1) (AcceptorState.start emptyPool) r →
      Always Tracked (AcceptorState.start emptyPool) r := by
  intro h
  have hrun : IsRun (AcceptorStep 1) (AcceptorState.start emptyPool) leakRun := by
    refine ⟨.accept (by decide) rfl ?_, trivial⟩
    rintro addr ⟨⟩
  have hlast := (h leakRun hrun).2.1
  have hone := hlast.linked 4 0 rfl
  exact absurd hone (by decide)

end Gendo
