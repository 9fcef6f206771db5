import Gendo.Server.PollRegistry

/-!
# The loop of a reactor

`poll_wait` gets the events of the kernel in batches, and calls for each the function of its
server. These functions add and delete servers, so that an event may be visited when its server
is gone, or when its descriptor belongs to another one; the loop looks it up again by the
descriptor. Over the call it keeps a pointer to the server: it writes `last_time` to it, and
deletes it if the function returned an error.

`reactor_serves` is about that pointer, and `reactor_cleans` about `poll_timer_clean_idle_fd`,
which goes by `last_time`.
-/

namespace Gendo

open StepSystem

/-! ## Events -/

/-- An entry of `epoll_ev`: the descriptor, and whether `EPOLLIN` and `EPOLLOUT` are set. -/
structure EpollEvent where
  fd : ℤ
  epollin : Bool
  epollout : Bool
  deriving DecidableEq, Repr

/-- The type of an event for the function of a server. -/
inductive PollEvent
  | pollIn
  | pollOut
  | pollErr
  deriving DecidableEq, Repr

/-- The type that `poll_wait` calls for. -/
def EpollEvent.type (e : EpollEvent) : PollEvent :=
  if e.epollin then .pollIn else if e.epollout then .pollOut else .pollErr

/-- What the function of a server does: its calls of the reactor, whether `poll_stop` is among
them, and what it returns; and the calls of `pFun_del` if the server is deleted for that. -/
structure PollCallback (F D : Type*) where
  calls : List (PollLabel F D)
  stop : Bool
  ret : ℤ
  delCalls : List (PollLabel F D)

/-! ## The loop -/

variable {F D : Type*}

/-- `POLL_MAX_CLEAN_IDLE_FD_TIME`. -/
def POLL_MAX_CLEAN_IDLE_FD_TIME : ℤ := 1200

/-- The server that lies at an address, if there is one. -/
def PollPoll.nodeAt (pPoll : PollPoll F D) (addr : ℕ) : Option (PollServer F D) :=
  (List.range POLL_HASH_SIZE.toNat).findSome? fun i =>
    (pPoll.serverList i).find? fun node => node.addr = addr

/-- The server that a call adds. -/
def PollSystem.addedBy (s : PollSystem F D) : PollLabel F D → Option (PollServer F D)
  | .addIdle fd pFunSrv idleTimeout a =>
    (pollAddServerWithIdleTimeout s.poll fd pFunSrv idleTimeout a).1
  | .addDelete fd pFunSrv pFunDelCb a =>
    (pollAddServerWithDeleteCallback s.poll fd pFunSrv pFunDelCb a).1
  | .del _ => none
  | .delByFd _ => none

/-- Several calls. -/
def PollSystem.nextAll (s : PollSystem F D) (labels : List (PollLabel F D)) : PollSystem F D :=
  labels.foldl next s

/-- Each of several calls satisfies a condition in its turn. -/
def PollSystem.Each (ok : PollSystem F D → PollLabel F D → Prop) :
    PollSystem F D → List (PollLabel F D) → Prop
  | _, [] => True
  | s, label :: labels => ok s label ∧ Each ok (s.next label) labels

/-- A reactor in its loop. -/
structure PollReactor (F D : Type*) where
  sys : PollSystem F D
  /-- `last_time` in the memory of the servers. -/
  lastTime : ℕ → ℤ
  /-- `nowtime`, which stays 0 where there is no timeout. -/
  nowtime : ℤ
  /-- What is left of the batch. -/
  events : List EpollEvent
  /-- The functions that were called, with their descriptors and types. -/
  served : List (F × ℤ × PollEvent)
  /-- Memory was used in which there is no server. -/
  broken : Bool
  /-- When the server of a descriptor was last called, or 0 since it was added. -/
  busy : ℤ → ℤ

namespace PollReactor

def init : PollReactor F D := ⟨.init, fun _ => 0, 0, [], [], false, fun _ => 0⟩

/-- A call of the reactor. `mem_malloc` clears the memory of a new server. -/
def call (s : PollReactor F D) (label : PollLabel F D) : PollReactor F D :=
  match s.sys.addedBy label with
  | none => { s with sys := s.sys.next label }
  | some srv =>
    { s with
      sys := s.sys.next label
      lastTime := Function.update s.lastTime srv.addr 0
      busy := Function.update s.busy srv.serverFd 0 }

/-- Several calls. -/
def callAll (s : PollReactor F D) (labels : List (PollLabel F D)) : PollReactor F D :=
  labels.foldl call s

/-- `poll_del_server` of a server in the memory, whose `pFun_del` makes these calls. -/
def deleteNode (s : PollReactor F D) (node : PollServer F D) (delCalls : List (PollLabel F D)) :
    PollReactor F D :=
  if (s.sys.deleted (.del (some node))).1 = OK ∧ node.pFunDel.isSome then
    (s.call (.del (some node))).callAll delCalls
  else s.call (.del (some node))

/-- `pEventValue->last_time = nowtime`. -/
def stamp (s : PollReactor F D) (addr : ℕ) (fd : ℤ) : PollReactor F D :=
  { s with
    lastTime := Function.update s.lastTime addr s.nowtime
    busy := Function.update s.busy fd s.nowtime }

/-- What `poll_wait` does with the server at an address when its function has returned. -/
def returned (s : PollReactor F D) (addr : ℕ) (fd : ℤ) (cb : PollCallback F D) :
    PollReactor F D :=
  match s.sys.poll.nodeAt addr with
  | none => { s with broken := true }
  | some node =>
    if cb.ret ≠ 0 then (s.stamp addr fd).deleteNode node cb.delCalls else s.stamp addr fd

/-- The body of the loop over the events. -/
def serve (s : PollReactor F D) (e : EpollEvent) (cb : PollCallback F D) : PollReactor F D :=
  if e.fd < 0 then s
  else
    match pollGetServerByFd s.sys.poll e.fd with
    -- the server was deleted by an earlier event of the batch
    | none => s
    | some srv =>
      let s := ({ s with served := s.served ++ [(srv.pFunSvr, srv.serverFd, e.type)] }
        ).callAll cb.calls
      let s := s.returned srv.addr e.fd cb
      if cb.stop then { s with events := [] } else s

/-- The condition of `poll_timer_clean_idle_fd`. -/
def isIdle (s : PollReactor F D) (now : ℤ) (pSrv : PollServer F D) : Bool :=
  pSrv.idleTimeout ≠ 0 && now - s.lastTime pSrv.addr > POLL_MAX_CLEAN_IDLE_FD_TIME

/-- Its body. Servers with an idle timeout have no `pFun_del`. -/
def cleanNode (now : ℤ) (s : PollReactor F D) (pSrv : PollServer F D) : PollReactor F D :=
  if s.isIdle now pSrv then s.deleteNode pSrv [] else s

/-- `poll_timer_clean_idle_fd`. The next server of a list is read before one is deleted. -/
def clean (s : PollReactor F D) (now : ℤ) : PollReactor F D :=
  (List.range POLL_HASH_SIZE.toNat).foldl
    (fun s i => (s.sys.poll.serverList i).foldl (cleanNode now) s) s

end PollReactor

/-- What happens. -/
inductive ReactorLabel (F D : Type*)
  /-- A call that is not from a server's function: of a timer, or before `poll_wait`. -/
  | call (label : PollLabel F D)
  /-- `epoll_wait` fills the array. -/
  | wait (nowtime : ℤ) (events : List EpollEvent)
  /-- The next event is visited. -/
  | event (cb : PollCallback F D)
  /-- `poll_timer_clean_idle_fd`, called by its timer. -/
  | clean (now : ℤ)

namespace PollReactor

def next (s : PollReactor F D) : ReactorLabel F D → PollReactor F D
  | .call label => s.call label
  | .wait nowtime events => { s with nowtime := nowtime, events := events }
  | .event cb =>
    match s.events with
    | [] => s
    | e :: rest => ({ s with events := rest }).serve e cb
  | .clean now => s.clean now

end PollReactor

/-! ## Runs -/

namespace PollReactor

/-- The calls that the function of a server makes satisfy a condition, and those of its
`pFun_del`. -/
def Calls (ok : PollSystem F D → PollLabel F D → Prop) (s : PollReactor F D)
    (cb : PollCallback F D) : Prop :=
  ∀ e ∈ s.events.head?, ∀ srv, s.sys.registry.get e.fd = some srv →
    s.sys.Each ok cb.calls ∧
      (cb.ret ≠ 0 → ((s.sys.nextAll cb.calls).next (.del (some srv))).Each ok cb.delCalls)

/-- The servers with an idle timeout have descriptors that `poll_del_server` takes. -/
def IdleDeletable (s : PollReactor F D) : Prop :=
  ∀ fd srv, s.sys.registry.get fd = some srv → srv.idleTimeout ≠ 0 →
    0 < fd ∧ fd < POLL_MAX_EVENT_NUM

/-- What the system does: a batch comes when the one before is over, and memory that is new is
not in use. -/
def Valid (s : PollReactor F D) : ReactorLabel F D → Prop
  | .call label => s.events = [] ∧ s.sys.Valid label
  | .wait _ _ => s.events = []
  | .event cb => s.Calls PollSystem.Valid cb
  | .clean _ => s.events = []

end PollReactor

/-- One step. -/
def ReactorStep (s : PollReactor F D) (label : ReactorLabel F D) (t : PollReactor F D) : Prop :=
  s.Valid label ∧ t = s.next label

/-- What is deleted has a descriptor that `poll_del_server` takes, and no function of a server
deletes this server: `poll_wait` does that, by what it returns. -/
def considerate (s : PollReactor F D) : ReactorLabel F D → Prop
  | .call label => deletable s.sys label
  | .wait _ _ => True
  | .event cb => s.Calls deletable cb ∧
    ∀ e ∈ s.events.head?, ∀ srv, s.sys.registry.get e.fd = some srv →
      (s.sys.nextAll cb.calls).registry.get e.fd = some srv ∧
        (cb.ret ≠ 0 → 0 < e.fd ∧ e.fd < POLL_MAX_EVENT_NUM)
  | .clean _ => s.IdleDeletable

/-- No memory was used in which there is no server, and the reactor finds its servers. -/
structure ReactorOk (s : PollReactor F D) : Prop where
  fine : s.broken = false
  poll : PollOk s.sys

/-- What is done with a server when its function returns in a state of the reactor: after an
error this very server is deleted, and otherwise it gets the time of the batch, and no other server
does. -/
def Settles (s : PollReactor F D) (srv : PollServer F D) (cb : PollCallback F D)
    (t : PollReactor F D) : Prop :=
  if cb.ret = 0 then
    t.sys = s.sys ∧ t.lastTime = Function.update s.lastTime srv.addr s.nowtime
  else
    t.sys = (s.sys.next (.del (some srv))).nextAll
        (if srv.pFunDel.isSome then cb.delCalls else []) ∧
      Deletes s.sys (.del (some srv)) (s.sys.next (.del (some srv)))

/-- An event goes to the server that has its descriptor when it is visited, if there is one, and
this server is still there when its function returns. -/
def ServesEvent (s : PollReactor F D) (e : EpollEvent) (cb : PollCallback F D)
    (t : PollReactor F D) : Prop :=
  match s.sys.registry.get e.fd with
  | none => t.served = s.served ∧ t.sys = s.sys
  | some srv => t.served = s.served ++ [(srv.pFunSvr, e.fd, e.type)] ∧
    (s.callAll cb.calls).sys.registry.get e.fd = some srv ∧ Settles (s.callAll cb.calls) srv cb t

/-- So does the next event of the batch. -/
def Serves (s : PollReactor F D) (label : ReactorLabel F D) (t : PollReactor F D) : Prop :=
  match label with
  | .event cb => ∀ e ∈ s.events.head?, ServesEvent s e cb t
  | _ => True

/-- The servers with an idle timeout are deleted that were not called for so long, or not at all
since they were added, and no others. -/
def Cleans (s : PollReactor F D) (label : ReactorLabel F D) (t : PollReactor F D) : Prop :=
  match label with
  | .clean now => ∀ fd, t.sys.registry.get fd = (s.sys.registry.get fd).filter fun srv =>
    srv.idleTimeout = 0 ∨ now - s.busy fd ≤ POLL_MAX_CLEAN_IDLE_FD_TIME
  | _ => True

/-! ## One call -/

/-- The server that is added is new. -/
structure Added (s : PollSystem F D) (srv : PollServer F D) : Prop where
  nonneg : 0 ≤ srv.serverFd
  epoll : srv.serverFd ∉ s.poll.epoll
  fresh : ∀ i, ∀ node ∈ s.poll.serverList i, node.addr ≠ srv.addr

theorem added_of_pollAdd {s : PollSystem F D} {fd : ℤ} {pFunSrv : Option F} {a : AddAnswers}
    (fill : ℕ → F → PollServer F D) {srv : PollServer F D} (hfresh : s.Fresh a)
    (hfill : ∀ addr f, (fill addr f).serverFd = fd ∧ (fill addr f).addr = addr)
    (h : (pollAdd s.poll fd pFunSrv a fill).1 = some srv) :
    Added s srv ∧ ∃ addr f, srv = fill addr f := by
  -- the returns of `NULL` first
  rcases pFunSrv with _ | f
  · exact absurd h (by simp [pollAdd])
  by_cases hneg : fd < 0
  · exact absurd h (by simp [pollAdd, hneg])
  rcases halloc : a.alloc with _ | addr
  · exact absurd h (by simp [pollAdd, hneg, halloc])
  by_cases hepoll : a.epollAdd = false ∨ fd ∈ s.poll.epoll
  · exact absurd h (by simp [pollAdd, hneg, halloc, hepoll])
  obtain rfl : fill addr f = srv := by simpa [pollAdd, hneg, halloc, hepoll] using h
  obtain ⟨hfd, haddr⟩ := hfill addr f
  refine ⟨⟨?_, ?_, fun i node hnode => ?_⟩, addr, f, rfl⟩
  · rw [hfd]
    exact Int.not_lt.mp hneg
  · rw [hfd]
    exact fun hmem => hepoll (.inr hmem)
  · rw [haddr]
    exact hfresh addr halloc i node hnode

/-- What is added is new, and has a function for its deletion only without an idle timeout. -/
theorem added_of_addedBy {s : PollSystem F D} {label : PollLabel F D} {srv : PollServer F D}
    (hvalid : s.Valid label) (h : s.addedBy label = some srv) :
    Added s srv ∧ (srv.idleTimeout ≠ 0 → srv.pFunDel = none) := by
  match label with
  | .addIdle fd pFunSrv idleTimeout a =>
    obtain ⟨hadded, addr, f, rfl⟩ := added_of_pollAdd
      (fun addr f => ⟨addr, fd, f, none, idleTimeout⟩) hvalid (fun _ _ => ⟨rfl, rfl⟩) h
    exact ⟨hadded, fun _ => rfl⟩
  | .addDelete fd pFunSrv pFunDelCb a =>
    obtain ⟨hadded, addr, f, rfl⟩ := added_of_pollAdd
      (fun addr f => ⟨addr, fd, f, pFunDelCb, 0⟩) hvalid (fun _ _ => ⟨rfl, rfl⟩) h
    exact ⟨hadded, fun hne => absurd rfl hne⟩

/-- A call adds its server to the registry, or takes something out. -/
theorem get_next_cases {s : PollSystem F D} (h : PollInv s) {label : PollLabel F D}
    (hvalid : s.Valid label) {fd : ℤ} {node : PollServer F D}
    (hget : (s.next label).registry.get fd = some node) :
    s.addedBy label = some node ∧ fd = node.serverFd ∨
      s.registry.get fd = some node ∧ ∀ srv, s.addedBy label = some srv → fd ≠ srv.serverFd := by
  -- both additions end in `added`, and a server is added only where there was none
  have hadd : ∀ r : Option (PollServer F D) × PollPoll F D,
      (∀ srv, r.1 = some srv → s.registry.get srv.serverFd = none) →
      (s.added r).registry.get fd = some node →
      r.1 = some node ∧ fd = node.serverFd ∨
        s.registry.get fd = some node ∧ ∀ srv, r.1 = some srv → fd ≠ srv.serverFd := by
    rintro ⟨_ | srv, poll⟩ hnew hget
    · exact .inr ⟨hget, fun srv hsrv => absurd hsrv (by simp)⟩
    · change (s.registry.insert srv.serverFd srv).get fd = some node at hget
      rw [OrderedMap.get_insert (hnew srv rfl), Function.update_apply] at hget
      split_ifs at hget with heq
      · obtain rfl := Option.some.inj hget
        exact .inl ⟨rfl, heq⟩
      · refine .inr ⟨hget, fun srv' hsrv => ?_⟩
        obtain rfl := Option.some.inj hsrv
        exact heq
  have hnew : ∀ srv, s.addedBy label = some srv → s.registry.get srv.serverFd = none := by
    intro srv hsrv
    have hepoll := (added_of_addedBy hvalid hsrv).1.epoll
    rwa [h.epoll, not_not] at hepoll
  match label with
  | .addIdle .. => exact hadd _ hnew hget
  | .addDelete .. => exact hadd _ hnew hget
  | .del none => exact .inr ⟨hget, fun srv hsrv => absurd hsrv (by simp [PollSystem.addedBy])⟩
  | .del (some srv) =>
    refine .inr ⟨?_, fun srv hsrv => absurd hsrv (by simp [PollSystem.addedBy])⟩
    change (s.registry.erase srv.serverFd).get fd = some node at hget
    rw [OrderedMap.get_erase, Function.update_apply] at hget
    split_ifs at hget
    exact hget
  | .delByFd fd' =>
    refine .inr ⟨?_, fun srv hsrv => absurd hsrv (by simp [PollSystem.addedBy])⟩
    change (s.registry.erase fd').get fd = some node at hget
    rw [OrderedMap.get_erase, Function.update_apply] at hget
    split_ifs at hget
    exact hget

/-! ## The invariant -/

/-- The servers that are registered have the time of their last call. -/
structure ReactorInv (s : PollReactor F D) : Prop where
  sys : PollInv s.sys
  last : ∀ fd srv, s.sys.registry.get fd = some srv → s.lastTime srv.addr = s.busy fd
  pFunDel : ∀ fd srv, s.sys.registry.get fd = some srv → srv.idleTimeout ≠ 0 → srv.pFunDel = none
  fine : s.broken = false

theorem reactorInv_init : ReactorInv (.init : PollReactor F D) where
  sys := pollInv_init
  last _ _ h := absurd h (by simp [PollReactor.init, PollSystem.init])
  pFunDel _ _ h := absurd h (by simp [PollReactor.init, PollSystem.init])
  fine := rfl

/-- Servers under different descriptors are at different addresses. -/
theorem PollInv.addr_ne {s : PollSystem F D} (h : PollInv s) {fd fd' : ℤ} {a b : PollServer F D}
    (ha : s.registry.get fd = some a) (hb : s.registry.get fd' = some b) (hne : fd ≠ fd') :
    a.addr ≠ b.addr := by
  obtain ⟨hmema, rfl⟩ := h.mem_table ha
  obtain ⟨hmemb, rfl⟩ := h.mem_table hb
  intro heq
  exact hne (congrArg PollServer.serverFd (h.addrs _ a hmema _ b hmemb heq))

/-- The server at the address of a registered one is this one. -/
theorem PollInv.nodeAt {s : PollSystem F D} (h : PollInv s) {fd : ℤ} {srv : PollServer F D}
    (hget : s.registry.get fd = some srv) : s.poll.nodeAt srv.addr = some srv := by
  obtain ⟨hmem, rfl⟩ := h.mem_table hget
  -- what is found has the address, and so it is this server
  have hfound : ∀ node, s.poll.nodeAt srv.addr = some node → node = srv := by
    intro node hnode
    obtain ⟨i, -, hfind⟩ := List.exists_of_findSome?_eq_some hnode
    have haddr : node.addr = srv.addr := by simpa using List.find?_some hfind
    exact h.addrs i node (List.mem_of_find?_eq_some hfind) _ srv hmem haddr
  rcases hnode : s.poll.nodeAt srv.addr with _ | node
  · -- its list is one of those that are searched
    have hbucket : fdBucket srv.serverFd ∈ List.range POLL_HASH_SIZE.toNat := by
      have hlt := pollHashFd_lt srv.serverFd
      have hnn := pollHashFd_nonneg (h.nonneg _ srv hmem)
      rw [List.mem_range, fdBucket]
      omega
    have hnone := List.findSome?_eq_none_iff.mp hnode _ hbucket
    have hnot := List.find?_eq_none.mp hnone srv hmem
    exact absurd (decide_eq_true rfl) hnot
  · rw [hfound node hnode]

namespace PollReactor

variable {s : PollReactor F D}

theorem sys_call {label : PollLabel F D} : (s.call label).sys = s.sys.next label := by
  rw [call]
  split <;> rfl

theorem sys_callAll {labels : List (PollLabel F D)} :
    (s.callAll labels).sys = s.sys.nextAll labels := by
  induction labels generalizing s with
  | nil => rfl
  | cons label labels ih =>
    rw [callAll, List.foldl_cons, ← callAll, ih, sys_call]
    rfl

/-- Calls change neither what was served nor the batch. -/
theorem served_call {label : PollLabel F D} : (s.call label).served = s.served ∧
    (s.call label).events = s.events ∧ (s.call label).nowtime = s.nowtime := by
  rw [call]
  split <;> exact ⟨rfl, rfl, rfl⟩

theorem served_callAll {labels : List (PollLabel F D)} : (s.callAll labels).served = s.served ∧
    (s.callAll labels).events = s.events ∧ (s.callAll labels).nowtime = s.nowtime := by
  induction labels generalizing s with
  | nil => exact ⟨rfl, rfl, rfl⟩
  | cons label labels ih =>
    rw [callAll, List.foldl_cons, ← callAll, ih.1, ih.2.1, ih.2.2]
    exact served_call

/-- The batch, and what was served, do not matter for calls. -/
theorem callAll_of_batch (events : List EpollEvent) (served : List (F × ℤ × PollEvent))
    (labels : List (PollLabel F D)) :
    ({ s with events := events, served := served }).callAll labels =
      { s.callAll labels with events := events, served := served } := by
  induction labels generalizing s with
  | nil => rfl
  | cons label labels ih =>
    have hcall : ({ s with events := events, served := served }).call label =
        { s.call label with events := events, served := served } := by
      rw [call, call]
      cases s.sys.addedBy label <;> rfl
    rw [callAll, List.foldl_cons, ← callAll, hcall, ih]
    rfl

theorem served_deleteNode {node : PollServer F D} {delCalls : List (PollLabel F D)} :
    (s.deleteNode node delCalls).served = s.served := by
  rw [deleteNode]
  split
  · rw [served_callAll.1, served_call.1]
  · exact served_call.1

end PollReactor

namespace ReactorInv

variable {s : PollReactor F D}

/-- A new server has the time 0, and is nobody else's memory. -/
theorem call (h : ReactorInv s) {label : PollLabel F D} (hvalid : s.sys.Valid label)
    (hguard : deletable s.sys label) : ReactorInv (s.call label) := by
  have hsys := (h.sys.step hvalid hguard).2
  have hcases fd node (hget : (s.sys.next label).registry.get fd = some node) :=
    get_next_cases h.sys hvalid hget
  have hadded srv (hsrv : s.sys.addedBy label = some srv) := added_of_addedBy hvalid hsrv
  have hpFunDel : ∀ fd node, (s.sys.next label).registry.get fd = some node →
      node.idleTimeout ≠ 0 → node.pFunDel = none := by
    intro fd node hget
    rcases hcases fd node hget with ⟨hnew, -⟩ | ⟨hold, -⟩
    · exact (hadded node hnew).2
    · exact h.pFunDel fd node hold
  rw [PollReactor.call]
  rcases haddedBy : s.sys.addedBy label with _ | srv
  · refine ⟨hsys, fun fd node hget => ?_, hpFunDel, h.fine⟩
    rcases hcases fd node hget with ⟨hnew, -⟩ | ⟨hold, -⟩
    · exact absurd (haddedBy.symm.trans hnew) (by simp)
    · exact h.last fd node hold
  · refine ⟨hsys, fun fd node hget => ?_, hpFunDel, h.fine⟩
    dsimp only
    rcases hcases fd node hget with ⟨hnew, rfl⟩ | ⟨hold, hne⟩
    · obtain rfl := Option.some.inj (haddedBy.symm.trans hnew)
      rw [Function.update_self, Function.update_self]
    · -- the memory of an older server is left alone
      obtain ⟨hmem, rfl⟩ := h.sys.mem_table hold
      have haddr := (hadded srv haddedBy).1.fresh _ node hmem
      rw [Function.update_of_ne haddr, Function.update_of_ne (hne srv haddedBy)]
      exact h.last _ node hold

theorem callAll (h : ReactorInv s) {labels : List (PollLabel F D)}
    (hvalid : s.sys.Each PollSystem.Valid labels) (hguard : s.sys.Each deletable labels) :
    ReactorInv (s.callAll labels) := by
  induction labels generalizing s with
  | nil => exact h
  | cons label labels ih =>
    have hsys : (s.call label).sys = s.sys.next label := PollReactor.sys_call
    apply ih (h.call hvalid.1 hguard.1)
    · rw [hsys]
      exact hvalid.2
    · rw [hsys]
      exact hguard.2

/-- The deletion of a registered server, with what its `pFun_del` does. -/
theorem deleteNode (h : ReactorInv s) {fd : ℤ} {srv : PollServer F D}
    (hget : s.sys.registry.get fd = some srv) (hfd : 0 < fd ∧ fd < POLL_MAX_EVENT_NUM)
    (delCalls : List (PollLabel F D))
    (hvalid : (s.sys.next (.del (some srv))).Each PollSystem.Valid delCalls)
    (hguard : (s.sys.next (.del (some srv))).Each deletable delCalls) :
    ReactorInv (s.deleteNode srv delCalls) ∧
      (s.deleteNode srv delCalls).sys = (s.sys.next (.del (some srv))).nextAll
        (if srv.pFunDel.isSome then delCalls else []) ∧
      Deletes s.sys (.del (some srv)) (s.sys.next (.del (some srv))) := by
  obtain ⟨-, rfl⟩ := h.sys.mem_table hget
  have hdelValid : s.sys.Valid (.del (some srv)) := by
    intro node hnode
    obtain rfl := Option.some.inj hnode
    exact hget
  have hdelGuard : deletable s.sys (.del (some srv)) := by
    intro node hnode
    obtain rfl := Option.some.inj hnode
    exact hfd
  have hdeletes := (h.sys.step hdelValid hdelGuard).1
  have hok : (s.sys.deleted (.del (some srv))).1 = OK := (hdeletes srv rfl).1
  have hinv := h.call hdelValid hdelGuard
  have hsys : (s.call (.del (some srv))).sys = s.sys.next (.del (some srv)) :=
    PollReactor.sys_call
  rw [PollReactor.deleteNode]
  -- `pFun_del` is called for a server that is out of the lists by then
  by_cases hfun : srv.pFunDel.isSome
  · rw [if_pos ⟨hok, hfun⟩, if_pos hfun, PollReactor.sys_callAll, hsys]
    rw [← hsys] at hvalid hguard
    exact ⟨hinv.callAll hvalid hguard, rfl, hdeletes⟩
  · rw [if_neg fun hboth => hfun hboth.2, if_neg hfun]
    exact ⟨hinv, hsys, hdeletes⟩

/-- `pEventValue->last_time` is written to the memory of the server that was called. -/
theorem stamp (h : ReactorInv s) {fd : ℤ} {srv : PollServer F D}
    (hget : s.sys.registry.get fd = some srv) : ReactorInv (s.stamp srv.addr fd) where
  sys := h.sys
  last fd' node hnode := by
    dsimp only [PollReactor.stamp] at hnode ⊢
    by_cases heq : fd' = fd
    · subst heq
      obtain rfl := Option.some.inj (hget.symm.trans hnode)
      rw [Function.update_self, Function.update_self]
    · rw [Function.update_of_ne (h.sys.addr_ne hnode hget heq), Function.update_of_ne heq]
      exact h.last fd' node hnode
  pFunDel := h.pFunDel
  fine := h.fine

/-- What the loop does with a server that its function has left registered. -/
theorem returned (h : ReactorInv s) {fd : ℤ} {srv : PollServer F D} (cb : PollCallback F D)
    (hget : s.sys.registry.get fd = some srv)
    (hfd : cb.ret ≠ 0 → 0 < fd ∧ fd < POLL_MAX_EVENT_NUM)
    (hvalid : cb.ret ≠ 0 → (s.sys.next (.del (some srv))).Each PollSystem.Valid cb.delCalls)
    (hguard : cb.ret ≠ 0 → (s.sys.next (.del (some srv))).Each deletable cb.delCalls) :
    ReactorInv (s.returned srv.addr fd cb) ∧ (s.returned srv.addr fd cb).served = s.served ∧
      Settles s srv cb (s.returned srv.addr fd cb) := by
  have hstamp := h.stamp hget
  have hreturned : s.returned srv.addr fd cb =
      if cb.ret ≠ 0 then (s.stamp srv.addr fd).deleteNode srv cb.delCalls
      else s.stamp srv.addr fd := by
    unfold PollReactor.returned
    rw [h.sys.nodeAt hget]
  rw [hreturned, Settles]
  -- the stamp comes first, also for a server that is then deleted
  by_cases hret : cb.ret = 0
  · rw [if_neg (not_not.mpr hret), if_pos hret]
    exact ⟨hstamp, rfl, rfl, rfl⟩
  · rw [if_pos hret, if_neg hret]
    have hsys : (s.stamp srv.addr fd).sys = s.sys := rfl
    have hdelete := hstamp.deleteNode (hsys ▸ hget) (hfd hret) cb.delCalls
      (hsys ▸ hvalid hret) (hsys ▸ hguard hret)
    rw [hsys] at hdelete
    exact ⟨hdelete.1, PollReactor.served_deleteNode, hdelete.2⟩

/-- The events of the batch, and what was called, do not matter. -/
theorem of_batch (h : ReactorInv s) (events : List EpollEvent) (served : List (F × ℤ × PollEvent)) :
    ReactorInv { s with events := events, served := served } := ⟨h.sys, h.last, h.pFunDel, h.fine⟩

/-- An event whose descriptor has no server is passed over. -/
theorem serve_of_none (h : ReactorInv s) {e : EpollEvent} (cb : PollCallback F D)
    (hget : s.sys.registry.get e.fd = none) : s.serve e cb = s := by
  rw [PollReactor.serve, h.sys.getServer, hget]
  exact ite_self _

theorem serve_of_some (h : ReactorInv s) {e : EpollEvent} (cb : PollCallback F D)
    {srv : PollServer F D} (hget : s.sys.registry.get e.fd = some srv) :
    s.serve e cb =
      let t := (({ s with served := s.served ++ [(srv.pFunSvr, e.fd, e.type)] }
        ).callAll cb.calls).returned srv.addr e.fd cb
      if cb.stop then { t with events := [] } else t := by
  obtain ⟨hmem, hfd⟩ := h.sys.mem_table hget
  have hnn : ¬e.fd < 0 := Int.not_lt.mpr (hfd ▸ h.sys.nonneg _ srv hmem)
  rw [PollReactor.serve, if_neg hnn, h.sys.getServer, hget]
  dsimp only
  rw [hfd]

/-- An event that is visited. -/
theorem serve (h : ReactorInv s) {e : EpollEvent} {cb : PollCallback F D}
    (hvalid : ∀ srv, s.sys.registry.get e.fd = some srv → s.sys.Each PollSystem.Valid cb.calls ∧
      (cb.ret ≠ 0 →
        ((s.sys.nextAll cb.calls).next (.del (some srv))).Each PollSystem.Valid cb.delCalls))
    (hguard : ∀ srv, s.sys.registry.get e.fd = some srv → s.sys.Each deletable cb.calls ∧
      (cb.ret ≠ 0 → ((s.sys.nextAll cb.calls).next (.del (some srv))).Each deletable cb.delCalls))
    (hkeeps : ∀ srv, s.sys.registry.get e.fd = some srv →
      (s.sys.nextAll cb.calls).registry.get e.fd = some srv ∧
        (cb.ret ≠ 0 → 0 < e.fd ∧ e.fd < POLL_MAX_EVENT_NUM)) :
    ServesEvent s e cb (s.serve e cb) ∧ ReactorInv (s.serve e cb) := by
  rw [ServesEvent]
  rcases hget : s.sys.registry.get e.fd with _ | srv
  · rw [h.serve_of_none cb hget]
    exact ⟨⟨rfl, rfl⟩, h⟩
  · obtain ⟨hkept, hfd⟩ := hkeeps srv hget
    rw [h.serve_of_some cb hget]
    -- the state in which the function has returned
    set called := ({ s with served := s.served ++ [(srv.pFunSvr, e.fd, e.type)] }).callAll cb.calls
    have hcalled : called = { s.callAll cb.calls with
        events := s.events, served := s.served ++ [(srv.pFunSvr, e.fd, e.type)] } :=
      PollReactor.callAll_of_batch s.events _ cb.calls
    have hinv : ReactorInv called := by
      rw [hcalled]
      exact (h.callAll (hvalid srv hget).1 (hguard srv hget).1).of_batch _ _
    have hsys : called.sys = s.sys.nextAll cb.calls := PollReactor.sys_callAll
    rw [← hsys] at hkept
    have hreturned := hinv.returned cb hkept hfd (hsys.symm ▸ (hvalid srv hget).2)
      (hsys.symm ▸ (hguard srv hget).2)
    rw [hcalled] at hkept
    dsimp only
    generalize called.returned srv.addr e.fd cb = t at hreturned ⊢
    obtain ⟨hreturnedInv, hreturnedServed, hsettles⟩ := hreturned
    rw [hcalled] at hreturnedServed hsettles
    -- `poll_stop` only ends the batch
    by_cases hstop : cb.stop
    · rw [if_pos hstop]
      exact ⟨⟨hreturnedServed, hkept, hsettles⟩, hreturnedInv.of_batch [] t.served⟩
    · rw [if_neg hstop]
      exact ⟨⟨hreturnedServed, hkept, hsettles⟩, hreturnedInv⟩

/-- If the function has deleted its own server, and no other has got the memory, the loop uses
memory in which there is no server. -/
theorem broken_of_deleted (h : ReactorInv s) {e : EpollEvent} (cb : PollCallback F D)
    {srv : PollServer F D} (hget : s.sys.registry.get e.fd = some srv)
    (hgone : ∀ i, ∀ node ∈ (s.sys.nextAll cb.calls).poll.serverList i, node.addr ≠ srv.addr) :
    (s.serve e cb).broken = true := by
  have hnone : (s.sys.nextAll cb.calls).poll.nodeAt srv.addr = none := by
    unfold PollPoll.nodeAt
    rw [List.findSome?_eq_none_iff]
    intro i _
    rw [List.find?_eq_none]
    intro node hnode
    rw [decide_eq_true_eq]
    exact hgone i node hnode
  rw [h.serve_of_some cb hget]
  unfold PollReactor.returned
  rw [PollReactor.sys_callAll, hnone]
  cases cb.stop <;> rfl

/-- The step for an event of the batch. -/
theorem event (h : ReactorInv s) {cb : PollCallback F D} (hvalid : s.Valid (.event cb))
    (hguard : considerate s (.event cb)) :
    Serves s (.event cb) (s.next (.event cb)) ∧ ReactorInv (s.next (.event cb)) := by
  rcases hevents : s.events with _ | ⟨e, rest⟩
  · rw [PollReactor.next, hevents]
    exact ⟨fun e he => absurd he (by simp [hevents]), h⟩
  · have hhead : e ∈ s.events.head? := by
      rw [hevents]
      rfl
    have hserve := (h.of_batch rest s.served).serve (hvalid e hhead) (hguard.1 e hhead)
      (hguard.2 e hhead)
    rw [PollReactor.next, hevents]
    refine ⟨fun e' he' => ?_, hserve.2⟩
    obtain rfl := Option.some.inj (hhead.symm.trans he')
    have hserves := hserve.1
    rw [ServesEvent, PollReactor.callAll_of_batch] at hserves
    exact hserves

/-! ## Cleaning -/

/-- The idle servers among those that were visited are deleted, and nothing else is changed. -/
structure Swept (now : ℤ) (s : PollReactor F D) (visited : PollServer F D → Prop)
    (t : PollReactor F D) : Prop where
  inv : ReactorInv t
  times : t.lastTime = s.lastTime ∧ t.busy = s.busy
  get : ∀ fd node, t.sys.registry.get fd = some node ↔
    s.sys.registry.get fd = some node ∧ ¬(visited node ∧ s.isIdle now node)

namespace Swept

variable {now : ℤ} {visited : PollServer F D → Prop} {t : PollReactor F D}

theorem isIdle (h : Swept now s visited t) (node : PollServer F D) :
    t.isIdle now node = s.isIdle now node := by
  rw [PollReactor.isIdle, PollReactor.isIdle, h.times.1]

theorem idleDeletable (h : Swept now s visited t) (hidle : s.IdleDeletable) : t.IdleDeletable :=
  fun fd srv hget => hidle fd srv ((h.get fd srv).mp hget).1

/-- One part after the other. -/
theorem trans {visited' : PollServer F D → Prop} {u : PollReactor F D}
    (h : Swept now s visited t) (h' : Swept now t visited' u) :
    Swept now s (fun node => visited node ∨ visited' node) u where
  inv := h'.inv
  times := ⟨h'.times.1.trans h.times.1, h'.times.2.trans h.times.2⟩
  get fd node := by
    rw [h'.get, h.get, h.isIdle]
    tauto

/-- It is only about the servers that are registered. -/
theorem congr {visited' : PollServer F D → Prop} (h : Swept now s visited t)
    (hvisited : ∀ fd node, s.sys.registry.get fd = some node → (visited node ↔ visited' node)) :
    Swept now s visited' t where
  inv := h.inv
  times := h.times
  get fd node := by
    rw [h.get]
    refine and_congr_right fun hget => ?_
    rw [hvisited fd node hget]

end Swept

/-- One server is visited. -/
theorem swept_cleanNode (h : ReactorInv s) (hidle : s.IdleDeletable) (now : ℤ)
    {node : PollServer F D} (hget : s.sys.registry.get node.serverFd = some node) :
    Swept now s (fun n => n = node) (s.cleanNode now node) := by
  rw [PollReactor.cleanNode]
  by_cases hnode : s.isIdle now node
  · have htimeout : node.idleTimeout ≠ 0 := by
      rw [PollReactor.isIdle, Bool.and_eq_true, decide_eq_true_eq] at hnode
      exact hnode.1
    have hinv : ReactorInv (s.deleteNode node []) :=
      (h.deleteNode hget (hidle _ node hget htimeout) [] trivial trivial).1
    -- it has no `pFun_del`
    have hdelete : s.deleteNode node [] = s.call (.del (some node)) := by
      have hnone := h.pFunDel _ node hget htimeout
      rw [PollReactor.deleteNode, if_neg (by simp [hnone])]
    rw [if_pos hnode]
    refine ⟨hinv, ?_, fun fd n => ?_⟩
    · rw [hdelete]
      exact ⟨rfl, rfl⟩
    · rw [hdelete, PollReactor.sys_call]
      show (s.sys.registry.erase node.serverFd).get fd = some n ↔ _
      rw [OrderedMap.get_erase, Function.update_apply]
      split_ifs with hfd
      · -- under its descriptor there was nothing else
        subst hfd
        rw [hget]
        constructor
        · exact fun hnone => absurd hnone (by simp)
        · rintro ⟨hsome, hnot⟩
          obtain rfl := Option.some.inj hsome
          exact absurd ⟨rfl, hnode⟩ hnot
      · refine (and_iff_left_of_imp fun hn hboth => hfd ?_).symm
        obtain ⟨rfl, -⟩ := hboth
        exact (h.sys.mem_table hn).2.symm
  · rw [if_neg hnode]
    refine ⟨h, ⟨rfl, rfl⟩, fun fd n => (and_iff_left fun hboth => hnode ?_).symm⟩
    rw [← hboth.1]
    exact hboth.2

/-- One list is visited. A server that comes later in the list is still there then. -/
theorem swept_list (h : ReactorInv s) (hidle : s.IdleDeletable) (now : ℤ)
    {l : List (PollServer F D)} (hnodup : (l.map PollServer.serverFd).Nodup)
    (hget : ∀ node ∈ l, s.sys.registry.get node.serverFd = some node) :
    Swept now s (fun node => node ∈ l) (l.foldl (PollReactor.cleanNode now) s) := by
  induction l generalizing s with
  | nil => exact ⟨h, ⟨rfl, rfl⟩, fun fd node => by simp⟩
  | cons node l ih =>
    obtain ⟨hnew, hnodup⟩ := List.nodup_cons.mp hnodup
    obtain ⟨hnode, hrest⟩ := List.forall_mem_cons.mp hget
    have hone := swept_cleanNode h hidle now hnode
    -- the walk deletes the node that it is at, and no other
    have hlater : ∀ later ∈ l,
        (s.cleanNode now node).sys.registry.get later.serverFd = some later := by
      intro later hlater
      rw [hone.get]
      refine ⟨hrest later hlater, fun hboth => hnew ?_⟩
      rw [← hboth.1]
      exact List.mem_map_of_mem hlater
    refine (hone.trans (ih hone.inv (hone.idleDeletable hidle) hnodup hlater)).congr ?_
    intro fd n _
    rw [List.mem_cons]

/-- Several lists are visited. -/
theorem swept_lists (h : ReactorInv s) (hidle : s.IdleDeletable) (now : ℤ) (indices : List ℕ) :
    Swept now s (fun node => fdBucket node.serverFd ∈ indices)
      (indices.foldl (fun s i => (s.sys.poll.serverList i).foldl (PollReactor.cleanNode now) s)
        s) := by
  induction indices generalizing s with
  | nil => exact ⟨h, ⟨rfl, rfl⟩, fun fd node => by simp⟩
  | cons i indices ih =>
    have hget : ∀ node ∈ s.sys.poll.serverList i,
        s.sys.registry.get node.serverFd = some node := by
      intro node hnode
      rw [← h.sys.found, h.sys.table.lookup_eq_some_iff, h.sys.table.bucket i node hnode]
      exact ⟨hnode, rfl⟩
    have hlist := swept_list h hidle now (h.sys.table.nodup i) hget
    refine (hlist.trans (ih hlist.inv (hlist.idleDeletable hidle))).congr fun fd node hnode => ?_
    obtain ⟨hmem, -⟩ := h.sys.mem_table hnode
    -- a server is in the list of its descriptor only
    have hbucket : node ∈ s.sys.poll.serverList i ↔ fdBucket node.serverFd = i := by
      constructor
      · exact h.sys.table.bucket i node
      · rintro rfl
        exact hmem
    rw [hbucket, List.mem_cons]

/-- After all lists, the idle servers are deleted. -/
theorem Swept.cleans {now : ℤ} {t : PollReactor F D} (h : ReactorInv s)
    (hswept : Swept now s
      (fun node => fdBucket node.serverFd ∈ List.range POLL_HASH_SIZE.toNat) t) :
    Cleans s (.clean now) t := by
  intro fd
  ext node
  rw [Option.filter_eq_some_iff]
  refine (hswept.get fd node).trans (and_congr_right fun hget => ?_)
  obtain ⟨hmem, rfl⟩ := h.sys.mem_table hget
  -- every server is in one of the lists
  have hvisited : fdBucket node.serverFd ∈ List.range POLL_HASH_SIZE.toNat := by
    have hlt := pollHashFd_lt node.serverFd
    have hnn := pollHashFd_nonneg (h.sys.nonneg _ node hmem)
    rw [List.mem_range, fdBucket]
    omega
  rw [and_iff_right hvisited, PollReactor.isIdle, h.last _ node hget, decide_eq_true_eq,
    Bool.and_eq_true, decide_eq_true_eq, decide_eq_true_eq]
  omega

/-- The step for the timer. -/
theorem clean (h : ReactorInv s) (hidle : s.IdleDeletable) (now : ℤ) :
    Cleans s (.clean now) (s.clean now) ∧ ReactorInv (s.clean now) := by
  have hswept := swept_lists h hidle now (List.range POLL_HASH_SIZE.toNat)
  unfold PollReactor.clean
  exact ⟨hswept.cleans h, hswept.inv⟩

theorem step (h : ReactorInv s) {label : ReactorLabel F D} (hvalid : s.Valid label)
    (hguard : considerate s label) :
    (Serves s label (s.next label) ∧ Cleans s label (s.next label)) ∧
      ReactorInv (s.next label) := by
  match label with
  | .call label => exact ⟨⟨trivial, trivial⟩, h.call hvalid.2 hguard⟩
  | .wait nowtime events =>
    exact ⟨⟨trivial, trivial⟩, ⟨h.sys, h.last, h.pFunDel, h.fine⟩⟩
  | .event cb =>
    obtain ⟨hserves, hinv⟩ := h.event hvalid hguard
    exact ⟨⟨hserves, trivial⟩, hinv⟩
  | .clean now =>
    obtain ⟨hcleans, hinv⟩ := h.clean hguard now
    exact ⟨⟨trivial, hcleans⟩, hinv⟩

theorem ok (h : ReactorInv s) : ReactorOk s := ⟨h.fine, h.sys.ok⟩

end ReactorInv

/-! ## The results -/

/-- In every run in which no function of a server deletes this server, the reactor uses no memory
in which there is no server, and finds its servers; every event goes to the server that has its
descriptor at this time, although the events before it may have deleted servers, and added others
under the same descriptors or in the same memory; and this server is deleted exactly if its
function returns an error. -/
theorem reactor_serves {r : List (ReactorLabel F D × PollReactor F D)}
    (hr : IsRun ReactorStep .init r) (hg : Guarded considerate .init r) :
    Always ReactorOk .init r ∧ Along Serves .init r := by
  have hstep : ∀ (s : PollReactor F D) label t, ReactorInv s →
      ReactorStep s label t ∧ considerate s label → Serves s label t ∧ ReactorInv t := by
    rintro s label t h ⟨⟨hvalid, rfl⟩, hguard⟩
    obtain ⟨⟨hserves, -⟩, hinv⟩ := h.step hvalid hguard
    exact ⟨hserves, hinv⟩
  have hrun := hr.and hg
  have halways := always_of_invariant (fun s label t h hst => (hstep s label t h hst).2)
    reactorInv_init hrun
  exact ⟨halways.imp fun _ h => h.ok, along_of_invariant hstep reactorInv_init hrun⟩

/-- Two servers have events, and the function of the first deletes the second. -/
def twoServersRun : List (ReactorLabel Unit ℕ × PollReactor Unit ℕ) :=
  runOf PollReactor.next .init
    [.call (.addIdle 7 (some ()) 1 ⟨some 100, true⟩),
      .call (.addIdle 9 (some ()) 1 ⟨some 101, true⟩),
      .wait 5 [⟨7, true, false⟩, ⟨9, true, false⟩], .event ⟨[.delByFd 9], false, 0, []⟩]

theorem reactor_serves_twoServersRun :
    Always ReactorOk .init twoServersRun ∧ Along Serves .init twoServersRun := by
  refine reactor_serves ⟨⟨⟨rfl, ?_⟩, rfl⟩, ⟨⟨rfl, ?_⟩, rfl⟩, ⟨rfl, rfl⟩, ⟨?_, rfl⟩, trivial⟩
    ⟨?_, ?_, trivial, ⟨?_, ?_⟩, trivial⟩
  · exact fun _ _ _ _ h => absurd h List.not_mem_nil
  · intro addr haddr i srv hsrv
    obtain rfl := Option.some.inj haddr
    have hlist : srv ∈ Function.update (fun _ => []) 7 [⟨100, 7, (), none, 1⟩] i := hsrv
    rw [Function.update_apply] at hlist
    split_ifs at hlist
    · rw [List.mem_singleton.mp hlist]
      decide
    · exact absurd hlist List.not_mem_nil
  · exact fun e _ srv _ => ⟨⟨trivial, trivial⟩, fun h => absurd rfl h⟩
  · exact fun srv h => absurd h (by simp [PollSystem.target])
  · exact fun srv h => absurd h (by simp [PollSystem.target])
  · intro e _ srv _
    refine ⟨⟨fun node hnode => ?_, trivial⟩, fun h => absurd rfl h⟩
    obtain rfl : ⟨101, 9, (), none, 1⟩ = node := Option.some.inj hnode
    decide
  · intro e he srv hsrv
    obtain rfl : ⟨7, true, false⟩ = e := Option.some.inj he
    exact ⟨hsrv, fun h => absurd rfl h⟩

/-- In such a run, `poll_timer_clean_idle_fd` deletes exactly the servers with an idle timeout
that were not called in the last `POLL_MAX_CLEAN_IDLE_FD_TIME` seconds. One that was not called
since it was added counts as last called at the time 0. -/
theorem reactor_cleans {r : List (ReactorLabel F D × PollReactor F D)}
    (hr : IsRun ReactorStep .init r) (hg : Guarded considerate .init r) :
    Along Cleans .init r := by
  have hstep : ∀ (s : PollReactor F D) label t, ReactorInv s →
      ReactorStep s label t ∧ considerate s label → Cleans s label t ∧ ReactorInv t := by
    rintro s label t h ⟨⟨hvalid, rfl⟩, hguard⟩
    obtain ⟨⟨-, hcleans⟩, hinv⟩ := h.step hvalid hguard
    exact ⟨hcleans, hinv⟩
  exact along_of_invariant hstep reactorInv_init (hr.and hg)

/-- A server that was never called. -/
def neverCalledRun : List (ReactorLabel Unit ℕ × PollReactor Unit ℕ) :=
  runOf PollReactor.next .init
    [.call (.addIdle 7 (some ()) 1 ⟨some 100, true⟩), .clean 1201]

theorem reactor_cleans_neverCalledRun : Along Cleans .init neverCalledRun := by
  refine reactor_cleans ⟨⟨⟨rfl, ?_⟩, rfl⟩, ⟨rfl, rfl⟩, trivial⟩ ⟨?_, ?_, trivial⟩
  · exact fun _ _ _ _ h => absurd h List.not_mem_nil
  · exact fun srv h => absurd h (by simp [PollSystem.target])
  · intro fd srv hsrv _
    have hget : Function.update (fun _ => none) 7 (some ⟨100, 7, (), none, 1⟩) fd = some srv := hsrv
    rw [Function.update_apply] at hget
    split_ifs at hget with hfd
    rw [hfd]
    decide

end Gendo
