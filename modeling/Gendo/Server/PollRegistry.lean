import Gendo.Library.ChainedHash
import Gendo.Library.OrderedMap
import Gendo.Library.StepSystem
import Gendo.Server.LibTypes

/-!
# The servers of a reactor

The part of `lib-poll.c` that registers descriptors: a hash table of `lib-hash.c` with the server
of each descriptor, the number of servers, and the kernel's own set. `PollSystem` sets it beside
the map from descriptors to the servers that were added and not deleted.

The two functions that add take every descriptor from 0 on; `poll_del_server` refuses 0 and
everything from `POLL_MAX_EVENT_NUM` on, so such a server is never deleted (`pollRegistry_iff`).
-/

namespace Gendo

open StepSystem

/-! ## The hash table -/

section Hash

variable {α : Type*}

/-- `hash_add` to a table of the given size: what it returns, and the table. -/
def hashAdd (size key : ℤ) (node : α) (table : ℕ → List α) : ℤ × (ℕ → List α) :=
  if key < 0 ∨ key ≥ size then (-1, table)
  else (0, Function.update table key.toNat (table key.toNat ++ [node]))

/-- `hash_walk`: the first node for which `func` is negative, in the list of the key, or in all
lists if the key is the size of the table. -/
def hashWalk (size key : ℤ) (func : α → ℤ) (table : ℕ → List α) : Option α :=
  let node := if 0 ≤ key ∧ key < size then (table key.toNat).find? fun a => func a < 0 else none
  if key = size then
    (List.range size.toNat).findSome? fun i => (table i).find? fun a => func a < 0
  else node

end Hash

/-! ## The reactor -/

/-- `POLL_MAX_EVENT_NUM`. -/
def POLL_MAX_EVENT_NUM : ℤ := 50000

/-- `POLL_HASH_SIZE`. -/
def POLL_HASH_SIZE : ℤ := 50000

/-- `poll_server_t`, where `F` and `D` are the functions for events and for deletion, each with
its parameter. -/
structure PollServer (F D : Type*) where
  /-- Where it was allocated. -/
  addr : ℕ
  serverFd : ℤ
  pFunSvr : F
  pFunDel : Option D
  idleTimeout : ℤ

/-- `poll_poll_t`, and what it does to the outside. -/
structure PollPoll (F D : Type*) where
  serverList : ℕ → List (PollServer F D)
  maxConn : ℤ
  /-- The descriptors in the kernel's set. -/
  epoll : List ℤ
  /-- The descriptors that were closed. -/
  closed : List ℤ
  /-- The calls of `pFun_del`. -/
  delCalls : List (ℤ × D)
  /-- What was given to `mem_free`. -/
  freed : List ℕ

variable {F D : Type*}

/-- `poll_new`. -/
def pollNew : PollPoll F D := ⟨fun _ => [], 0, [], [], [], []⟩

/-- `poll_hash_fd`. -/
def pollHashFd (fd : ℤ) : ℤ := fd.tmod POLL_HASH_SIZE

/-- `poll_compare_fd`. -/
def pollCompareFd (fd : ℤ) (pServer : PollServer F D) : ℤ :=
  if fd = pServer.serverFd then ERROR else OK

/-- `poll_get_server_by_fd`, and `poll_get_server`. -/
def pollGetServerByFd (pPoll : PollPoll F D) (fd : ℤ) : Option (PollServer F D) :=
  hashWalk POLL_HASH_SIZE (pollHashFd fd) (pollCompareFd fd) pPoll.serverList

/-- What `mem_malloc` and `epoll_ctl` answer when a server is added. -/
structure AddAnswers where
  alloc : Option ℕ
  epollAdd : Bool

/-- The way the two functions that add go, with the server that they fill in: what they return,
and the reactor. -/
def pollAdd (pPoll : PollPoll F D) (fd : ℤ) (pFunSrv : Option F) (a : AddAnswers)
    (fill : ℕ → F → PollServer F D) : Option (PollServer F D) × PollPoll F D :=
  match pFunSrv with
  | none => (none, pPoll)
  | some f =>
    if fd < 0 then (none, pPoll)
    else
      match a.alloc with
      | none => (none, pPoll)
      | some addr =>
        -- the kernel takes a descriptor once
        if a.epollAdd = false ∨ fd ∈ pPoll.epoll then
          (none, { pPoll with freed := pPoll.freed ++ [addr] })
        else
          (some (fill addr f), { pPoll with
            epoll := pPoll.epoll ++ [fd]
            maxConn := pPoll.maxConn + 1
            serverList := (hashAdd POLL_HASH_SIZE (pollHashFd (fill addr f).serverFd)
              (fill addr f) pPoll.serverList).2 })

/-- `poll_add_server_with_idle_timeout`. -/
def pollAddServerWithIdleTimeout (pPoll : PollPoll F D) (fd : ℤ) (pFunSrv : Option F)
    (idleTimeout : ℤ) (a : AddAnswers) : Option (PollServer F D) × PollPoll F D :=
  pollAdd pPoll fd pFunSrv a fun addr f => ⟨addr, fd, f, none, idleTimeout⟩

/-- `poll_add_server_with_delete_callback`. -/
def pollAddServerWithDeleteCallback (pPoll : PollPoll F D) (fd : ℤ) (pFunSrv : Option F)
    (pFunDelCb : Option D) (a : AddAnswers) : Option (PollServer F D) × PollPoll F D :=
  pollAdd pPoll fd pFunSrv a fun addr f => ⟨addr, fd, f, pFunDelCb, 0⟩

/-- `poll_del_server`: what it returns, and the reactor. A node is taken out of its list by its
neighbours, without its key. -/
def pollDelServer (pPoll : PollPoll F D) (pSrv : Option (PollServer F D)) : ℤ × PollPoll F D :=
  match pSrv with
  | none => (ERROR, pPoll)
  | some srv =>
    if srv.serverFd ≤ 0 ∨ srv.serverFd ≥ POLL_MAX_EVENT_NUM then (ERROR, pPoll)
    else
      (OK, { pPoll with
        maxConn := pPoll.maxConn - 1
        epoll := pPoll.epoll.erase srv.serverFd
        serverList := fun i => (pPoll.serverList i).filter fun node => node.addr ≠ srv.addr
        closed := if srv.serverFd > 0 then pPoll.closed ++ [srv.serverFd] else pPoll.closed
        delCalls := if srv.serverFd > 0 then
          pPoll.delCalls ++ (srv.pFunDel.map fun d => (srv.serverFd, d)).toList
          else pPoll.delCalls
        freed := pPoll.freed ++ [srv.addr] })

/-- `poll_del_server_by_fd`. -/
def pollDelServerByFd (pPoll : PollPoll F D) (fd : ℤ) : ℤ × PollPoll F D :=
  pollDelServer pPoll (pollGetServerByFd pPoll fd)

/-! ## Runs -/

/-- A reactor, and the servers that were added and not deleted. -/
structure PollSystem (F D : Type*) where
  poll : PollPoll F D
  registry : OrderedMap ℤ (PollServer F D)

/-- A call. -/
inductive PollLabel (F D : Type*)
  | addIdle (fd : ℤ) (pFunSrv : Option F) (idleTimeout : ℤ) (a : AddAnswers)
  | addDelete (fd : ℤ) (pFunSrv : Option F) (pFunDelCb : Option D) (a : AddAnswers)
  | del (pSrv : Option (PollServer F D))
  | delByFd (fd : ℤ)

namespace PollSystem

def init : PollSystem F D := ⟨pollNew, .empty⟩

/-- A server that is returned was added. -/
def added (s : PollSystem F D) (r : Option (PollServer F D) × PollPoll F D) : PollSystem F D :=
  ⟨r.2, r.1.elim s.registry fun srv => s.registry.insert srv.serverFd srv⟩

/-- The server that a call is to delete. -/
def target (s : PollSystem F D) : PollLabel F D → Option (PollServer F D)
  | .addIdle .. | .addDelete .. => none
  | .del pSrv => pSrv
  | .delByFd fd => s.registry.get fd

/-- The reactor after a deletion, and what was returned. -/
def deleted (s : PollSystem F D) : PollLabel F D → ℤ × PollPoll F D
  | .addIdle .. | .addDelete .. => (OK, s.poll)
  | .del pSrv => pollDelServer s.poll pSrv
  | .delByFd fd => pollDelServerByFd s.poll fd

/-- The call is made. -/
def next (s : PollSystem F D) : PollLabel F D → PollSystem F D
  | .addIdle fd pFunSrv idleTimeout a =>
    s.added (pollAddServerWithIdleTimeout s.poll fd pFunSrv idleTimeout a)
  | .addDelete fd pFunSrv pFunDelCb a =>
    s.added (pollAddServerWithDeleteCallback s.poll fd pFunSrv pFunDelCb a)
  | .del pSrv => ⟨(s.deleted (.del pSrv)).2,
    pSrv.elim s.registry fun srv => s.registry.erase srv.serverFd⟩
  | .delByFd fd => ⟨(s.deleted (.delByFd fd)).2, s.registry.erase fd⟩

/-- Memory that is not in use. -/
def Fresh (s : PollSystem F D) (a : AddAnswers) : Prop :=
  ∀ addr ∈ a.alloc, ∀ i, ∀ srv ∈ s.poll.serverList i, srv.addr ≠ addr

/-- New memory is not in use, and a server that is deleted was added and not deleted. -/
def Valid (s : PollSystem F D) : PollLabel F D → Prop
  | .addIdle _ _ _ a => s.Fresh a
  | .addDelete _ _ _ a => s.Fresh a
  | .del pSrv => ∀ srv ∈ pSrv, s.registry.get srv.serverFd = some srv
  | .delByFd _ => True

end PollSystem

/-- One call. -/
def PollStep (s : PollSystem F D) (label : PollLabel F D) (t : PollSystem F D) : Prop :=
  s.Valid label ∧ t = s.next label

/-- The reactor finds the servers that were added and not deleted, and has their number. -/
structure PollOk (s : PollSystem F D) : Prop where
  found : ∀ fd, pollGetServerByFd s.poll fd = s.registry.get fd
  conn : s.poll.maxConn = s.registry.order.length

/-- A server that a call is to delete is taken out of the table, and freed. -/
def Deletes (s : PollSystem F D) (label : PollLabel F D) (t : PollSystem F D) : Prop :=
  ∀ srv ∈ s.target label, (s.deleted label).1 = OK ∧
    (∀ i, ∀ node ∈ t.poll.serverList i, node.addr ≠ srv.addr) ∧
    t.poll.freed = s.poll.freed ++ [srv.addr]

/-- The descriptors that `poll_del_server` takes. -/
def deletable (s : PollSystem F D) (label : PollLabel F D) : Prop :=
  ∀ srv ∈ s.target label, 0 < srv.serverFd ∧ srv.serverFd < POLL_MAX_EVENT_NUM

/-! ## The invariant -/

/-- The list of a descriptor. -/
def fdBucket (fd : ℤ) : ℕ := (pollHashFd fd).toNat

/-- The table is that of the registry, and so are the kernel's set and the number. -/
structure PollInv (s : PollSystem F D) : Prop where
  table : ChainedHash.WellFormed fdBucket PollServer.serverFd s.poll.serverList
  found : ∀ fd, ChainedHash.lookup fdBucket PollServer.serverFd s.poll.serverList fd =
    s.registry.get fd
  nonneg : ∀ i, ∀ srv ∈ s.poll.serverList i, 0 ≤ srv.serverFd
  addrs : ∀ i, ∀ a ∈ s.poll.serverList i, ∀ j, ∀ b ∈ s.poll.serverList j, a.addr = b.addr → a = b
  epoll_nodup : s.poll.epoll.Nodup
  epoll : ∀ fd, fd ∈ s.poll.epoll ↔ s.registry.get fd ≠ none
  conn : s.poll.maxConn = s.registry.order.length

theorem pollInv_init : PollInv (.init : PollSystem F D) where
  table := ChainedHash.wellFormed_empty
  found _ := rfl
  nonneg _ _ h := absurd h List.not_mem_nil
  addrs _ _ h := absurd h List.not_mem_nil
  epoll_nodup := List.nodup_nil
  epoll _ := by simp [PollSystem.init, pollNew]
  conn := rfl

theorem pollHashFd_lt (fd : ℤ) : pollHashFd fd < POLL_HASH_SIZE := Int.tmod_lt_of_pos fd (by decide)

theorem pollHashFd_nonneg {fd : ℤ} (h : 0 ≤ fd) : 0 ≤ pollHashFd fd := Int.tmod_nonneg _ h

namespace PollInv

variable {s : PollSystem F D}

/-- The walk through the list of a descriptor finds its server. -/
theorem getServer (h : PollInv s) (fd : ℤ) : pollGetServerByFd s.poll fd = s.registry.get fd := by
  have hfunc : (fun a : PollServer F D => decide (pollCompareFd fd a < 0)) =
      fun a => decide (a.serverFd = fd) := by
    funext a
    rw [pollCompareFd]
    split_ifs with heq
    · simp [heq, ERROR]
    · simp [Ne.symm heq, OK]
  rw [pollGetServerByFd, hashWalk, if_neg (Int.ne_of_lt (pollHashFd_lt fd)), hfunc, ← h.found]
  split_ifs with hkey
  · rfl
  · -- the key is negative, and so is the descriptor
    have hfd : fd < 0 := by
      by_contra hnot
      exact hkey ⟨pollHashFd_nonneg (Int.not_lt.mp hnot), pollHashFd_lt fd⟩
    symm
    rw [Option.eq_none_iff_forall_ne_some]
    intro srv hsrv
    obtain ⟨hmem, rfl⟩ := h.table.lookup_eq_some_iff.mp hsrv
    exact absurd hfd (Int.not_lt.mpr (h.nonneg _ srv hmem))

theorem ok (h : PollInv s) : PollOk s := ⟨h.getServer, h.conn⟩

/-- A new server. -/
theorem insert (h : PollInv s) {srv : PollServer F D} {freed : List ℕ} (hfd : 0 ≤ srv.serverFd)
    (hnew : srv.serverFd ∉ s.poll.epoll)
    (haddr : ∀ i, ∀ node ∈ s.poll.serverList i, node.addr ≠ srv.addr) :
    PollInv ⟨{ s.poll with
      epoll := s.poll.epoll ++ [srv.serverFd]
      maxConn := s.poll.maxConn + 1
      serverList := (hashAdd POLL_HASH_SIZE (pollHashFd srv.serverFd) srv s.poll.serverList).2
      freed := freed }, s.registry.insert srv.serverFd srv⟩ := by
  have hget : s.registry.get srv.serverFd = none := by
    rw [h.epoll, not_not] at hnew
    exact hnew
  have hnone := (h.found srv.serverFd).trans hget
  have hlist : (hashAdd POLL_HASH_SIZE (pollHashFd srv.serverFd) srv s.poll.serverList).2 =
      ChainedHash.add fdBucket PollServer.serverFd s.poll.serverList srv := by
    have hlt := pollHashFd_lt srv.serverFd
    have hnn := pollHashFd_nonneg hfd
    rw [hashAdd, if_neg (by omega)]
    rfl
  rw [hlist]
  refine ⟨h.table.add hnone, fun fd => ?_, fun i node hnode => ?_, ?_, ?_, fun fd => ?_, ?_⟩
  · show ChainedHash.lookup _ _ (ChainedHash.add _ _ _ _) fd = (s.registry.insert _ _).get fd
    rw [h.table.lookup_add hnone, OrderedMap.get_insert hget, Function.update_apply,
      Function.update_apply, h.found]
  · rcases ChainedHash.mem_add.mp hnode with hold | ⟨rfl, -⟩
    · exact h.nonneg i node hold
    · exact hfd
  · -- no other server is at the address of the new one
    intro i a ha j b hb heq
    rcases ChainedHash.mem_add.mp ha with hold | ⟨rfl, -⟩
    · rcases ChainedHash.mem_add.mp hb with hold' | ⟨hb, -⟩
      · exact h.addrs i a hold j b hold' heq
      · exact absurd (hb ▸ heq) (haddr i a hold)
    · rcases ChainedHash.mem_add.mp hb with hold' | ⟨hb, -⟩
      · exact absurd heq.symm (haddr j b hold')
      · exact hb.symm
  · exact List.nodup_append.mpr ⟨h.epoll_nodup, List.nodup_singleton _, by
      intro fd hfd fd' hfd' heq
      rw [List.mem_singleton.mp hfd'] at heq
      exact hnew (heq ▸ hfd)⟩
  · show fd ∈ s.poll.epoll ++ [_] ↔ (s.registry.insert _ _).get fd ≠ none
    rw [List.mem_append, List.mem_singleton, h.epoll, OrderedMap.get_insert hget,
      Function.update_apply]
    split_ifs with heq
    · simp [heq]
    · simp [heq]
  · show s.poll.maxConn + 1 = ((s.registry.insert _ _).order.length : ℤ)
    rw [OrderedMap.order_insert hget, List.length_append, h.conn]
    rfl

/-- A server that is not added is freed again. -/
theorem free (h : PollInv s) (freed : List ℕ) :
    PollInv ⟨{ s.poll with freed := freed }, s.registry⟩ :=
  ⟨h.table, h.found, h.nonneg, h.addrs, h.epoll_nodup, h.epoll, h.conn⟩

/-- Both functions that add keep the invariant. -/
theorem add (h : PollInv s) {fd : ℤ} {pFunSrv : Option F} {a : AddAnswers}
    {fill : ℕ → F → PollServer F D} (hfresh : s.Fresh a)
    (hfill : ∀ addr f, (fill addr f).serverFd = fd ∧ (fill addr f).addr = addr) :
    PollInv (s.added (pollAdd s.poll fd pFunSrv a fill)) := by
  cases pFunSrv with
  | none => exact h
  | some f =>
    by_cases hneg : fd < 0
    · rw [pollAdd, if_pos hneg]
      exact h
    · rw [pollAdd, if_neg hneg]
      rcases halloc : a.alloc with _ | addr
      · exact h
      · obtain ⟨hfd, haddr⟩ := hfill addr f
        by_cases hepoll : a.epollAdd = false ∨ fd ∈ s.poll.epoll
        · dsimp only
          rw [if_pos hepoll]
          exact h.free _
        · dsimp only
          rw [if_neg hepoll]
          rw [not_or] at hepoll
          subst hfd
          refine h.insert (Int.not_lt.mp hneg) hepoll.2 fun i node hnode => ?_
          rw [haddr]
          exact hfresh addr halloc i node hnode

/-- A server that is registered is in the table, under its own descriptor. -/
theorem mem_table (h : PollInv s) {fd : ℤ} {srv : PollServer F D}
    (hget : s.registry.get fd = some srv) :
    srv ∈ s.poll.serverList (fdBucket srv.serverFd) ∧ srv.serverFd = fd := by
  rw [← h.found] at hget
  obtain ⟨hmem, rfl⟩ := h.table.lookup_eq_some_iff.mp hget
  exact ⟨hmem, rfl⟩

/-- A server that is taken out is the only one with its address. -/
theorem delete (h : PollInv s) {srv : PollServer F D}
    (hget : s.registry.get srv.serverFd = some srv)
    (hfd : 0 < srv.serverFd ∧ srv.serverFd < POLL_MAX_EVENT_NUM) :
    PollInv ⟨(pollDelServer s.poll (some srv)).2, s.registry.erase srv.serverFd⟩ ∧
      (pollDelServer s.poll (some srv)).1 = OK ∧
      (∀ i, ∀ node ∈ (pollDelServer s.poll (some srv)).2.serverList i, node.addr ≠ srv.addr) ∧
      (pollDelServer s.poll (some srv)).2.freed = s.poll.freed ++ [srv.addr] := by
  obtain ⟨hmem, -⟩ := h.mem_table hget
  have hlookup := (h.found srv.serverFd).trans hget
  have hlist : (fun i => (s.poll.serverList i).filter fun node => decide (node.addr ≠ srv.addr)) =
      ChainedHash.remove (fun node => decide (node.addr = srv.addr)) s.poll.serverList := by
    funext i
    simp [ChainedHash.remove]
  -- `poll_del_server` looks for the address, which no other server has
  have hp : ∀ i, ∀ b ∈ s.poll.serverList i, decide (b.addr = srv.addr) = true ↔ b = srv := by
    intro i b hb
    rw [decide_eq_true_eq]
    exact ⟨h.addrs i b hb _ srv hmem, fun heq => congrArg PollServer.addr heq⟩
  rw [pollDelServer, if_neg (by omega)]
  dsimp only
  rw [hlist]
  refine ⟨⟨h.table.remove _, fun fd => ?_, fun i node hnode => ?_, ?_, ?_, fun fd => ?_, ?_⟩, rfl,
    fun i node hnode heq => ?_, rfl⟩
  · show ChainedHash.lookup _ _ (ChainedHash.remove _ _) fd = (s.registry.erase _).get fd
    rw [h.table.lookup_remove hlookup hp, OrderedMap.get_erase, Function.update_apply,
      Function.update_apply, h.found]
  · exact h.nonneg i node (ChainedHash.mem_remove.mp hnode).1
  · intro i a ha j b hb
    exact h.addrs i a (ChainedHash.mem_remove.mp ha).1 j b (ChainedHash.mem_remove.mp hb).1
  · exact h.epoll_nodup.erase _
  · show fd ∈ s.poll.epoll.erase _ ↔ (s.registry.erase _).get fd ≠ none
    rw [h.epoll_nodup.mem_erase_iff, h.epoll, OrderedMap.get_erase, Function.update_apply]
    split_ifs with heq
    · simp [heq]
    · simp [heq]
  · have hin : srv.serverFd ∈ s.registry.order := by
      rw [s.registry.mem_order, hget]
      simp
    have hpos := List.length_pos_of_mem hin
    show s.poll.maxConn - 1 = ((s.registry.order.erase _).length : ℤ)
    rw [List.length_erase_of_mem hin, h.conn]
    omega
  · have hkept := (List.mem_filter.mp hnode).2
    exact of_decide_eq_true hkept heq

/-- A call keeps the invariant and does what it is to do, if `poll_del_server` takes the
descriptor. -/
theorem step (h : PollInv s) {label : PollLabel F D} (hvalid : s.Valid label)
    (hguard : deletable s label) : Deletes s label (s.next label) ∧ PollInv (s.next label) := by
  cases label with
  | addIdle =>
    exact ⟨fun srv hsrv => (by cases hsrv), h.add hvalid fun _ _ => ⟨rfl, rfl⟩⟩
  | addDelete =>
    exact ⟨fun srv hsrv => (by cases hsrv), h.add hvalid fun _ _ => ⟨rfl, rfl⟩⟩
  | del pSrv =>
    cases pSrv with
    | none => exact ⟨fun srv hsrv => (by cases hsrv), h⟩
    | some srv =>
      obtain ⟨hinv, hok, hlist, hfreed⟩ := h.delete (hvalid srv rfl) (hguard srv rfl)
      refine ⟨fun srv' hsrv => ?_, hinv⟩
      obtain rfl := Option.some.inj hsrv
      exact ⟨hok, hlist, hfreed⟩
  | delByFd fd =>
    have hserver := h.getServer fd
    rcases hget : s.registry.get fd with _ | srv
    · -- nothing is registered, and nothing happens
      refine ⟨fun srv hsrv => ?_, ?_⟩
      · cases hget.symm.trans hsrv
      · rw [hget] at hserver
        have hsame : s.next (.delByFd fd) = s := by
          rw [PollSystem.next, PollSystem.deleted, pollDelServerByFd, hserver,
            OrderedMap.erase_of_get hget]
          rfl
        rw [hsame]
        exact h
    · obtain ⟨-, rfl⟩ := h.mem_table hget
      rw [hget] at hserver
      obtain ⟨hinv, hok, hlist, hfreed⟩ := h.delete hget (hguard srv hget)
      have hnext : s.next (.delByFd srv.serverFd) =
          ⟨(pollDelServer s.poll (some srv)).2, s.registry.erase srv.serverFd⟩ := by
        rw [PollSystem.next, PollSystem.deleted, pollDelServerByFd, hserver]
      rw [hnext]
      refine ⟨fun srv' hsrv => ?_, hinv⟩
      obtain rfl := Option.some.inj (hget.symm.trans hsrv)
      refine ⟨?_, hlist, hfreed⟩
      rw [PollSystem.deleted, pollDelServerByFd, hserver]
      exact hok

/-- Otherwise it returns an error. -/
theorem deletable_of_deletes (h : PollInv s) {label : PollLabel F D}
    (hdel : Deletes s label (s.next label)) : deletable s label := by
  intro srv hsrv
  by_contra hnot
  have hrefused : (pollDelServer s.poll (some srv)).1 = ERROR := by
    rw [pollDelServer, if_pos (by omega)]
  have hok := (hdel srv hsrv).1
  cases label with
  | addIdle | addDelete => cases hsrv
  | del pSrv =>
    obtain rfl : pSrv = some srv := hsrv
    exact absurd (hrefused.symm.trans hok) (by decide)
  | delByFd fd =>
    have hserver : pollGetServerByFd s.poll fd = some srv := (h.getServer fd).trans hsrv
    rw [PollSystem.deleted, pollDelServerByFd, hserver, hrefused] at hok
    exact absurd hok (by decide)

end PollInv

/-- In every run of the calls, the reactor finds the servers that were added and not deleted and
has their number, and every deletion of a registered server takes it out and frees it, exactly if
no server is deleted whose descriptor is 0 or too large. -/
theorem pollRegistry_iff {r : List (PollLabel F D × PollSystem F D)}
    (hr : IsRun PollStep .init r) :
    Always PollOk .init r ∧ Along Deletes .init r ↔ Guarded deletable .init r := by
  have hguard : ∀ (s : PollSystem F D) label t, PollInv s → PollStep s label t →
      deletable s label → (PollOk t ∧ Deletes s label t) ∧ PollInv t := by
    rintro s label t h ⟨hvalid, rfl⟩ hdel
    obtain ⟨hdeletes, hinv⟩ := h.step hvalid hdel
    exact ⟨⟨hinv.ok, hdeletes⟩, hinv⟩
  have hback : ∀ (s : PollSystem F D) label t, PollInv s → PollStep s label t →
      PollOk t ∧ Deletes s label t → deletable s label := by
    rintro s label t h ⟨-, rfl⟩ ⟨-, hdel⟩
    exact h.deletable_of_deletes hdel
  rw [← along_iff_guarded hguard hback pollInv_init hr]
  constructor
  · rintro ⟨⟨-, hok⟩, hdel⟩
    exact hok.and hdel
  · intro h
    exact ⟨⟨pollInv_init.ok, h.imp fun _ _ _ h => h.1⟩, h.imp fun _ _ _ h => h.2⟩

/-- Descriptors 7 and 50007 share a list; the first is deleted. -/
def sharedListRun : List (PollLabel Unit ℕ × PollSystem Unit ℕ) :=
  runOf PollSystem.next .init
    [.addIdle 7 (some ()) 1 ⟨some 100, true⟩, .addDelete 50007 (some ()) (some 3) ⟨some 101, true⟩,
      .delByFd 7]

theorem isRun_sharedListRun : IsRun PollStep .init sharedListRun := by
  refine ⟨⟨fun _ _ _ _ h => absurd h List.not_mem_nil, rfl⟩, ⟨fun addr haddr i srv hsrv => ?_, rfl⟩,
    ⟨trivial, rfl⟩, trivial⟩
  obtain rfl := Option.some.inj haddr
  have hlist : srv ∈ Function.update (fun _ => []) 7 [⟨100, 7, (), none, 1⟩] i := hsrv
  rw [Function.update_apply] at hlist
  split_ifs at hlist
  · rw [List.mem_singleton.mp hlist]
    decide
  · exact absurd hlist List.not_mem_nil

theorem pollRegistry_sharedListRun :
    Always PollOk .init sharedListRun ∧ Along Deletes .init sharedListRun ↔
      Guarded deletable .init sharedListRun :=
  pollRegistry_iff isRun_sharedListRun

/-- Not every deletion deletes: not that of descriptor 0. -/
theorem not_pollRegistry_zero :
    ¬∀ r : List (PollLabel Unit ℕ × PollSystem Unit ℕ), IsRun PollStep .init r →
      Always PollOk .init r ∧ Along Deletes .init r := by
  intro h
  obtain ⟨-, hadd, hdel, -⟩ := h (runOf PollSystem.next .init
    [.addIdle 0 (some ()) 1 ⟨some 100, true⟩, .delByFd 0])
    ⟨⟨fun _ _ _ _ h => absurd h List.not_mem_nil, rfl⟩, ⟨trivial, rfl⟩, trivial⟩
  exact absurd (hdel ⟨100, 0, (), none, 1⟩ rfl).1 (by decide)

end Gendo
