import Gendo.Library.StepSystem
import Gendo.Server.MsgConsumer
import Gendo.Server.UserMsg
import Mathlib.Logic.Function.Basic
import Mathlib.Order.Bounds.Basic

/-!
# Where replies go

The server with all its clients. A connection is a number of its own, given when the client
connects; what the server knows of it is the descriptor that the kernel gave, the lowest free one.
The event loop receives frames and closes descriptors, workers handle queued messages, and the
steps of all of them interleave in any order.

A message remembers its client by the descriptor alone. If the descriptor was closed and given
to another client before the reply, the other client gets it. `repliesToRequester` shows that
nothing else goes wrong: as long as no descriptor is given out while a message received on it
waits or is handled, every reply goes to the connection its request came from.
-/

namespace Gendo

open StepSystem

/-- A queued message, and the connection it was received on. -/
structure Request where
  pmsg : QueuedMsg
  origin : ℕ
  deriving DecidableEq

/-- The clients, the kernel's descriptors, and the messages inside the server. -/
structure ServerState where
  /-- How many connections there were so far. -/
  next : ℕ
  /-- The connection that a descriptor belongs to. -/
  fds : ℤ → Option ℕ
  /-- The frames sent on a connection that were not received yet. -/
  inbox : ℕ → List MsgFrame
  /-- The messages in the queue of the message consumer. -/
  queue : List Request
  /-- The messages that workers have. -/
  busy : List Request
  /-- For each reply written, where its request came from and where the reply went. -/
  written : List (ℕ × ℕ)

/-- What happens. -/
inductive ServerLabel
  /-- A client connects, and gets this descriptor. -/
  | connect (fd : ℤ)
  /-- A client sends a frame. -/
  | send (c : ℕ) (frame : MsgFrame)
  /-- The event loop calls `ras_user_msg_recv` for a readable descriptor. -/
  | recv (fd : ℤ)
  /-- The event loop calls `libevt_clean`: an error, a close, or an idle timeout. -/
  | close (fd : ℤ)
  /-- The message consumer gives the first queued message to a worker. -/
  | dispatch
  /-- A worker runs `ras_user_msg_handle` for its message. -/
  | handle (r : Request)

namespace ServerState

/-- A server without clients. -/
def start : ServerState := ⟨0, fun _ => none, fun _ => [], [], [], []⟩

/-- The server after `ras_user_msg_recv` took a frame of connection `c` off its descriptor. -/
def received (s : ServerState) (fd : ℤ) (c : ℕ) (rest : List MsgFrame) :
    RecvOutcome → ServerState
  | .cleaned =>
    { s with inbox := Function.update s.inbox c rest, fds := Function.update s.fds fd none }
  | .discarded => { s with inbox := Function.update s.inbox c rest }
  | .copied pmsg =>
    { s with inbox := Function.update s.inbox c rest, queue := s.queue ++ [⟨pmsg, c⟩] }

/-- The server after a worker finished a message, and wrote its reply, if any, to whatever
connection the descriptor belongs to now. -/
def finished (s : ServerState) (r : Request) (sent : Option Sent) : ServerState :=
  { s with
    busy := s.busy.erase r
    written := s.written ++ ((sent.bind fun m => s.fds m.fd).map fun c => (r.origin, c)).toList }

end ServerState

/-- One step of a client, the event loop, the consumer or a worker. The descriptors in `reserved`
are taken by other files. -/
inductive ServerStep (reserved : Set ℤ) : ServerState → ServerLabel → ServerState → Prop
  | connect {s fd} : IsLeast {n | 0 ≤ n ∧ n ∉ reserved ∧ s.fds n = none} fd →
      ServerStep reserved s (.connect fd)
        { s with next := s.next + 1, fds := Function.update s.fds fd (some s.next) }
  | send {s c frame} : c < s.next →
      ServerStep reserved s (.send c frame)
        { s with inbox := Function.update s.inbox c (s.inbox c ++ [frame]) }
  | recv {s fd c frame rest mc answer} : s.fds fd = some c → s.inbox c = frame :: rest →
      ServerStep reserved s (.recv fd)
        (s.received fd c rest (rasUserMsgRecv fd .read [.data frame.encode] mc answer).1)
  | close {s fd c} : s.fds fd = some c →
      ServerStep reserved s (.close fd) { s with fds := Function.update s.fds fd none }
  | dispatch {s r rest} : s.queue = r :: rest →
      ServerStep reserved s .dispatch { s with queue := rest, busy := s.busy ++ [r] }
  | handle {s r db stale sent} (hpeer : 0 < r.pmsg.peer) : r ∈ s.busy →
      (rasUserMsgHandle db (.ofFrame ⟨r.pmsg.peer, hpeer⟩ r.pmsg.frame stale)).outcome =
        .finished sent →
      ServerStep reserved s (.handle r) (s.finished r sent)

/-- Every reply went to the connection its request was received on. -/
def RepliesToRequester (s : ServerState) : Prop := ∀ w ∈ s.written, w.1 = w.2

/-- The message is inside the server. -/
def Pending (s : ServerState) (r : Request) : Prop := r ∈ s.queue ∨ r ∈ s.busy

/-- A descriptor is given out only if no message that was received on it is pending. -/
def replyGuard (s : ServerState) : ServerLabel → Prop
  | .connect fd => ∀ r, Pending s r → r.pmsg.peer ≠ fd
  | _ => True

/-- The descriptor of a pending message still belongs to the connection it came from, or to
none. -/
structure PeersKept (s : ServerState) : Prop where
  peer : ∀ r, Pending s r → ∀ c, s.fds r.pmsg.peer = some c → c = r.origin
  written : RepliesToRequester s

theorem peersKept_start : PeersKept ServerState.start :=
  ⟨fun r h => by simp [Pending, ServerState.start] at h, fun w h => by
    simp [ServerState.start] at h⟩

/-- Closing a descriptor takes it from its messages, and gives it to no one else. -/
theorem PeersKept.close {s : ServerState} (hs : PeersKept s) (fd : ℤ) :
    PeersKept { s with fds := Function.update s.fds fd none } := by
  refine ⟨fun r hr c hc => ?_, hs.written⟩
  change Function.update s.fds fd none r.pmsg.peer = some c at hc
  by_cases hfd : r.pmsg.peer = fd
  · simp [hfd] at hc
  · rw [Function.update_of_ne hfd] at hc
    exact hs.peer r hr c hc

/-- Every guarded step keeps the descriptors of pending messages. -/
theorem peersKept_step {reserved : Set ℤ} {s t : ServerState} {a : ServerLabel}
    (hs : PeersKept s) (hg : replyGuard s a) (hstep : ServerStep reserved s a t) :
    PeersKept t := by
  cases hstep with
  | @connect fd hfree =>
    refine ⟨fun r hr c hc => ?_, hs.written⟩
    change Function.update s.fds fd (some s.next) r.pmsg.peer = some c at hc
    rw [Function.update_of_ne (hg r hr)] at hc
    exact hs.peer r hr c hc
  | send _ => exact ⟨hs.peer, hs.written⟩
  | @recv fd c frame rest mc answer hfd hinbox =>
    cases hout : (rasUserMsgRecv fd .read [.data frame.encode] mc answer).1 with
    | cleaned => exact ⟨(hs.close fd).peer, hs.written⟩
    | discarded => exact ⟨hs.peer, hs.written⟩
    | copied pmsg =>
      refine ⟨fun r hr c' hc' => ?_, hs.written⟩
      change s.fds r.pmsg.peer = some c' at hc'
      have hcases : Pending s r ∨ r = ⟨pmsg, c⟩ := by
        simp only [Pending, ServerState.received, List.mem_append, List.mem_singleton] at hr ⊢
        tauto
      rcases hcases with hold | rfl
      · exact hs.peer r hold c' hc'
      · -- the new message was received on the descriptor it remembers
        rw [peer_of_copied hout, hfd] at hc'
        exact (Option.some.inj hc').symm
  | close _ => exact hs.close _
  | @dispatch r rest hqueue =>
    refine ⟨fun r' hr' => hs.peer r' ?_, hs.written⟩
    simp only [Pending, List.mem_append, List.mem_singleton] at hr' ⊢
    rw [hqueue, List.mem_cons]
    tauto
  | @handle r db stale sent hpeer hbusy hout =>
    refine ⟨fun r' hr' => hs.peer r' (hr'.imp_right List.mem_of_mem_erase), fun w hw => ?_⟩
    simp only [ServerState.finished, List.mem_append, Option.mem_toList, Option.map_eq_some_iff,
      Option.bind_eq_some_iff] at hw
    rcases hw with hold | ⟨c, ⟨m, rfl, hc⟩, rfl⟩
    · exact hs.written w hold
    · rw [fd_of_finished hout] at hc
      exact (hs.peer r (.inr hbusy) c hc).symm

/-- In every run in which no descriptor is given out while a message received on it is pending,
every reply goes to its requester. -/
theorem repliesToRequester {reserved : Set ℤ} {r : List (ServerLabel × ServerState)}
    (hr : IsRun (ServerStep reserved) ServerState.start r)
    (hg : Guarded replyGuard ServerState.start r) :
    Always RepliesToRequester ServerState.start r := by
  have hkept : Always PeersKept ServerState.start r :=
    always_of_guarded (fun s a t hs hg hstep => peersKept_step hs hg hstep) peersKept_start hr hg
  exact ⟨hkept.1.written, hkept.2.imp fun _ _ _ h => h.written⟩

/-! ## Two clients and one descriptor -/

/-- The descriptors of a server that has its first four open. -/
def lowFds : Set ℤ := {n | n < 4}

/-- A consumer with one item in its cache. -/
def oneItemConsumer : MsgConsumer :=
  ⟨⟨.cache, 1, 1, MID_MSG_LEN, .linked [⟨1, 51200⟩]⟩, MsgPool.emptyQueue, true⟩

/-- A database that fails every query. -/
def downDb : DbEnv := ⟨true, true, ⟨1, [.idle]⟩, fun _ => .queryError⟩

/-- The request of connection 0 for the server list, received on descriptor 4. -/
def firstRequest : Request := ⟨⟨.item ⟨1, 51200⟩, 4, listRequest⟩, 0⟩

/-- Client 0 has connected. -/
def connectedState : ServerState :=
  { ServerState.start with next := 1, fds := Function.update (fun _ => none) 4 (some 0) }

/-- It has sent its request. -/
def sentState : ServerState :=
  { connectedState with inbox := Function.update (fun _ => []) 0 [listRequest] }

/-- The request is queued. -/
def queuedState : ServerState := sentState.received 4 0 [] (.copied firstRequest.pmsg)

/-- A worker has it, and the client is still there. -/
def busyState : ServerState := { queuedState with queue := [], busy := [firstRequest] }

/-- The client is gone, its request still queued. -/
def closedState : ServerState :=
  { queuedState with fds := Function.update queuedState.fds 4 none }

/-- Client 1 has connected, and got the same descriptor. -/
def reusedState : ServerState :=
  { closedState with next := 2, fds := Function.update closedState.fds 4 (some 1) }

/-- A worker has the request of client 0, and its descriptor belongs to client 1. -/
def reusedBusyState : ServerState := { reusedState with queue := [], busy := [firstRequest] }

theorem isLeast_four {s : ServerState} (h : s.fds 4 = none) :
    IsLeast {n | 0 ≤ n ∧ n ∉ lowFds ∧ s.fds n = none} 4 :=
  ⟨⟨by norm_num, by simp [lowFds], h⟩, fun n hn => not_lt.mp hn.2.1⟩

theorem recv_firstRequest :
    (rasUserMsgRecv 4 .read [.data listRequest.encode] oneItemConsumer none).1 =
      .copied firstRequest.pmsg := by
  have hframe : libRecvMsg 4 MAX_MSG_LEN.toUInt64 [.data listRequest.encode] = some listRequest :=
    rfl
  simp only [rasUserMsgRecv, hframe, ne_eq, not_true_eq_false, if_false]
  rfl

/-- A worker that has the request answers to whoever has the descriptor. -/
theorem handle_firstRequest {s : ServerState} (hbusy : firstRequest ∈ s.busy) :
    ServerStep lowFds s (.handle firstRequest)
      { s with
        busy := s.busy.erase firstRequest
        written := s.written ++ ((s.fds 4).map fun c => (0, c)).toList } := by
  have hpeer : (0 : ℤ) < firstRequest.pmsg.peer := by decide
  have hlen : listRequest.len ≤ MID_MSG_LEN := by decide
  have hout : (rasUserMsgHandle downDb
      (.ofFrame ⟨firstRequest.pmsg.peer, hpeer⟩ listRequest fun _ => 0)).outcome =
        serverListOut (.ofFrame ⟨firstRequest.pmsg.peer, hpeer⟩ listRequest fun _ => 0)
          ERR_GAS_SERVER_LIST_FAIL [] := by
    rw [rasUserMsgHandle_serverList _ rfl hlen]
    simp [gasServerList, gasDbServerInfo, downDb, dbGetHandle, OK, ERROR]
  rw [serverListOut_eq] at hout
  exact .handle hpeer hbusy hout

/-- The client waits for its reply. -/
def servedRequestRun : List (ServerLabel × ServerState) :=
  [(.connect 4, connectedState), (.send 0 listRequest, sentState), (.recv 4, queuedState),
    (.dispatch, busyState),
    (.handle firstRequest, { busyState with busy := [], written := [(0, 0)] })]

/-- The client is gone before its reply, and another one comes. -/
def reusedRun : List (ServerLabel × ServerState) :=
  [(.connect 4, connectedState), (.send 0 listRequest, sentState), (.recv 4, queuedState),
    (.close 4, closedState), (.connect 4, reusedState), (.dispatch, reusedBusyState),
    (.handle firstRequest, { reusedBusyState with busy := [], written := [(0, 1)] })]

theorem step_connect : ServerStep lowFds .start (.connect 4) connectedState :=
  .connect (isLeast_four rfl)

theorem step_send : ServerStep lowFds connectedState (.send 0 listRequest) sentState :=
  .send (by decide)

theorem step_recv : ServerStep lowFds sentState (.recv 4) queuedState := by
  have hstep : ServerStep lowFds sentState (.recv 4) (sentState.received 4 0 []
      (rasUserMsgRecv 4 .read [.data listRequest.encode] oneItemConsumer none).1) :=
    .recv rfl rfl
  rwa [recv_firstRequest] at hstep

theorem isRun_servedRequestRun :
    IsRun (ServerStep lowFds) ServerState.start servedRequestRun :=
  ⟨step_connect, step_send, step_recv, .dispatch rfl,
    handle_firstRequest List.mem_cons_self, trivial⟩

theorem isRun_reusedRun : IsRun (ServerStep lowFds) ServerState.start reusedRun :=
  ⟨step_connect, step_send, step_recv, .close rfl, .connect (isLeast_four rfl), .dispatch rfl,
    handle_firstRequest List.mem_cons_self, trivial⟩

/-- The run in which the client waits sends the reply to it. -/
theorem repliesToRequester_servedRequestRun :
    Always RepliesToRequester ServerState.start servedRequestRun :=
  repliesToRequester isRun_servedRequestRun
    ⟨fun r hr => by simp [Pending, ServerState.start] at hr, trivial, trivial, trivial, trivial,
      trivial⟩

/-- Not every run sends replies to their requesters: client 1 is sent the reply to client 0. -/
theorem not_repliesToRequester_reusedRun :
    ¬∀ (reserved : Set ℤ) (r : List (ServerLabel × ServerState)),
      IsRun (ServerStep reserved) ServerState.start r →
      Always RepliesToRequester ServerState.start r := by
  intro hall
  obtain ⟨-, -, -, -, -, -, -, hlast, -⟩ := hall lowFds reusedRun isRun_reusedRun
  exact absurd (hlast (0, 1) List.mem_cons_self) (by decide)

end Gendo
