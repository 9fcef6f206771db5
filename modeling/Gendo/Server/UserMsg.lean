import Gendo.Server.Frame
import Gendo.Server.UserDb

/-!
# User messages

The handlers of `gas-user-msg.c`. A handler gets a message item: the peer it came from, the head
of the frame, and the payload memory of the item, in which the received bytes lie before whatever
the item held earlier. It reads its request from that memory, writes its reply into the same
memory, and sends as much of it as the reply's structure is long. `rasUserMsgHandle` is the map
from message types to handlers.
-/

namespace Gendo

open ByteMemory

/-- `ERR_GAS_USER_LOGIN_AUTH_FAIL`. -/
def ERR_GAS_USER_LOGIN_AUTH_FAIL : UInt32 := 0xF0000

/-- `ERR_GAS_USER_LOGIN_NAME_SANITY`. -/
def ERR_GAS_USER_LOGIN_NAME_SANITY : UInt32 := 0xF0001

/-- `ERR_GAS_SERVER_LIST_FAIL`. -/
def ERR_GAS_SERVER_LIST_FAIL : UInt32 := 0xF0002

/-- The offset of `user` in a `user_login_ack_t`, behind `ret` and four bytes of padding. -/
def ACK_USER_OFF : ℕ := 8

/-- `sizeof(user_login_ack_t)`. -/
def ACK_LEN : UInt32 := 552

/-- `sizeof(server_list_t)`: the count and `MAX_SERVER_LIST` servers. -/
def SERVER_LIST_LEN : UInt32 := 19204

/-- A descriptor on which a frame was received: `lib_recv_msg` accepts none on others. -/
abbrev PeerFd : Type := { fd : ℤ // 0 < fd }

/-- A message item in a handler. -/
structure UserMsg where
  peer : PeerFd
  msg : UInt32
  len : UInt32
  payload : Mem

/-- The item into which `msg_copy` copied a frame; `stale` is what its payload held before. -/
def UserMsg.ofFrame (peer : PeerFd) (frame : MsgFrame) (stale : Mem) : UserMsg :=
  ⟨peer, frame.msg, frame.len, overlay frame.payload stale⟩

/-- A frame as it is written to a descriptor. -/
structure Sent where
  fd : ℤ
  frame : MsgFrame

/-- What a handler leaves behind. -/
inductive Outcome
  /-- An `assert` failed, or NULL was read. -/
  | died
  /-- It returned, and sent this frame if any. -/
  | finished (sent : Option Sent)

/-- The queries of a handler, and how it ended. -/
structure Handled where
  queries : List (List UInt8)
  outcome : Outcome

/-- `lib_send_msg` of the first `len` bytes of the payload. -/
def libSendMsg (fd : ℤ) (msg len : UInt32) (payload : Mem) : Option Sent :=
  if fd ≤ 0 then none else some ⟨fd, msg, len, read payload 0 len.toNat, by simp⟩

/-- All writes of `gas_user_login` to its reply: those of `gas_db_user_info`, then `ret`, and the
`memset` of the user after an error. -/
def ackWrites (ret : UInt32) (userWrites : List Patch) : List Patch :=
  userWrites ++ ⟨0, leBytes 4 ret.toNat⟩ ::
    if ret ≠ 0 then [⟨ACK_USER_OFF, List.replicate USER_LEN 0⟩] else []

/-- The end of `gas_user_login` from the label `out` on. -/
def loginOut (pmsg : UserMsg) (ret : UInt32) (userWrites : List Patch) : Outcome :=
  .finished (libSendMsg pmsg.peer pmsg.msg ACK_LEN
    (applyAll (ackWrites ret userWrites) pmsg.payload))

/-- `name` of `gas_user_login`: 32 bytes of the payload, the last one set to NUL. -/
def UserMsg.name (pmsg : UserMsg) : CString := CString.read pmsg.payload 0 31

/-- `pwd` of `gas_user_login`, likewise. -/
def UserMsg.pwd (pmsg : UserMsg) : CString := CString.read pmsg.payload 32 31

/-- `gas_user_login` up to the label `out`: `ret` there, and what was written to `ack->user`. -/
def loginChecks (db : DbEnv) (name pwd : CString) : DbCall (UInt32 × List Patch) :=
  if libNameSanity name ≠ 0 then ⟨[], some (ERR_GAS_USER_LOGIN_NAME_SANITY, [])⟩
  else
    let auth := gasDbUserAuth db name pwd
    match auth.result with
    | none => ⟨auth.queries, none⟩
    | some false => ⟨auth.queries, some (ERR_GAS_USER_LOGIN_AUTH_FAIL, [])⟩
    | some true =>
      let info := gasDbUserInfo db name ACK_USER_OFF
      match info.result with
      | none => ⟨auth.queries ++ info.queries, none⟩
      | some (ret, userWrites) =>
        if ret ≠ OK then
          ⟨auth.queries ++ info.queries, some (ERR_GAS_USER_LOGIN_AUTH_FAIL, userWrites)⟩
        else
          ⟨auth.queries ++ info.queries ++ gasDbUserUpdateLastlogin db name, some (0, userWrites)⟩

/-- `gas_user_login`. -/
def gasUserLogin (db : DbEnv) (pmsg : UserMsg) : Handled :=
  let checks := loginChecks db pmsg.name pmsg.pwd
  ⟨checks.queries,
    match checks.result with
    | none => .died
    | some (ret, userWrites) => loginOut pmsg ret userWrites⟩

/-- All writes of `gas_server_list` to its reply. -/
def listWrites (ret : UInt32) (serverWrites : List Patch) : List Patch :=
  serverWrites ++ if ret ≠ 0 then [⟨0, List.replicate SERVER_LIST_LEN.toNat 0⟩] else []

/-- The end of `gas_server_list` from the label `out` on. -/
def serverListOut (pmsg : UserMsg) (ret : UInt32) (serverWrites : List Patch) : Outcome :=
  .finished (libSendMsg pmsg.peer pmsg.msg SERVER_LIST_LEN
    (applyAll (listWrites ret serverWrites) pmsg.payload))

/-- `gas_server_list`. -/
def gasServerList (db : DbEnv) (pmsg : UserMsg) : Handled :=
  let info := gasDbServerInfo db TYPE_ALL
  ⟨info.queries,
    match info.result with
    | none => .died
    | some (ret, serverWrites) =>
      serverListOut pmsg (if ret ≠ OK then ERR_GAS_SERVER_LIST_FAIL else 0) serverWrites⟩

/-- `GAS_USER_MSG_CHECK`. -/
def gasUserMsgCheck (pmsg : UserMsg) : Bool :=
  pmsg.msg > MSG_GAS_USER_START && pmsg.msg < MSG_GAS_USER_END && pmsg.len ≤ MID_MSG_LEN

/-- `ras_user_msg_handle`. -/
def rasUserMsgHandle (db : DbEnv) (pmsg : UserMsg) : Handled :=
  if gasUserMsgCheck pmsg then
    if pmsg.msg = MSG_GAS_USER_LOGIN then gasUserLogin db pmsg
    else if pmsg.msg = MSG_GAS_SERVER_LIST then gasServerList db pmsg
    else ⟨[], .finished none⟩
  else ⟨[], .finished none⟩

theorem rasUserMsgHandle_login (db : DbEnv) {pmsg : UserMsg} (hmsg : pmsg.msg = MSG_GAS_USER_LOGIN)
    (hlen : pmsg.len ≤ MID_MSG_LEN) : rasUserMsgHandle db pmsg = gasUserLogin db pmsg := by
  have hcheck : gasUserMsgCheck pmsg = true := by
    simp [gasUserMsgCheck, hmsg, hlen]
    decide
  rw [rasUserMsgHandle, if_pos hcheck, if_pos hmsg]

theorem rasUserMsgHandle_serverList (db : DbEnv) {pmsg : UserMsg}
    (hmsg : pmsg.msg = MSG_GAS_SERVER_LIST) (hlen : pmsg.len ≤ MID_MSG_LEN) :
    rasUserMsgHandle db pmsg = gasServerList db pmsg := by
  have hcheck : gasUserMsgCheck pmsg = true := by
    simp [gasUserMsgCheck, hmsg, hlen]
    decide
  have hlogin : pmsg.msg ≠ MSG_GAS_USER_LOGIN := by
    rw [hmsg]
    decide
  rw [rasUserMsgHandle, if_pos hcheck, if_neg hlogin, if_pos hmsg]

/-- A message that is too long, or that no handler is mapped to, is ignored. -/
theorem rasUserMsgHandle_other (db : DbEnv) {pmsg : UserMsg} (h : pmsg.len ≤ MID_MSG_LEN →
    pmsg.msg ≠ MSG_GAS_USER_LOGIN ∧ pmsg.msg ≠ MSG_GAS_SERVER_LIST) :
    rasUserMsgHandle db pmsg = ⟨[], .finished none⟩ := by
  rw [rasUserMsgHandle]
  split
  · next hcheck =>
    have hlen : pmsg.len ≤ MID_MSG_LEN := by
      simp only [gasUserMsgCheck, Bool.and_eq_true, decide_eq_true_eq] at hcheck
      exact hcheck.2
    rw [if_neg (h hlen).1, if_neg (h hlen).2]
  · rfl

/-! ## What the handlers send -/

theorem libSendMsg_of_pos {fd : ℤ} (hfd : 0 < fd) (msg len : UInt32) (payload : Mem) :
    libSendMsg fd msg len payload = some ⟨fd, msg, len, read payload 0 len.toNat, by simp⟩ :=
  if_neg (not_le.mpr hfd)

/-- What the checks of a login decide: an error, with nothing written; or, for a sane name that
the database authenticates, `ret = 0` over what is stored of the user. -/
theorem loginChecks_result {db : DbEnv} {name pwd : CString} {ret : UInt32} {ps : List Patch}
    (h : (loginChecks db name pwd).result = some (ret, ps)) :
    (ret ≠ 0 ∧ ps = []) ∨ (ret = 0 ∧ libNameSanity name = 0 ∧ Authed db name pwd ∧
      StoredUser db name ACK_USER_OFF ps) := by
  have hsanity : ERR_GAS_USER_LOGIN_NAME_SANITY ≠ 0 := by decide
  have hfail : ERR_GAS_USER_LOGIN_AUTH_FAIL ≠ 0 := by decide
  rw [loginChecks] at h
  split at h
  · simp only [Option.some.injEq, Prod.mk.injEq] at h
    exact .inl ⟨h.1 ▸ hsanity, h.2.symm⟩
  · next hsane =>
    dsimp only at h
    split at h
    · cases h
    · simp only [Option.some.injEq, Prod.mk.injEq] at h
      exact .inl ⟨h.1 ▸ hfail, h.2.symm⟩
    · next hauth =>
      split at h
      · cases h
      · next ret' ps' hinfo =>
        split at h
        · next hret =>
          simp only [Option.some.injEq, Prod.mk.injEq] at h
          exact .inl ⟨h.1 ▸ hfail, h.2 ▸ gasDbUserInfo_error hinfo hret⟩
        · next hret =>
          simp only [Option.some.injEq, Prod.mk.injEq] at h
          obtain ⟨rfl, rfl⟩ := h
          rw [not_not.mp hret] at hinfo
          exact .inr ⟨rfl, not_not.mp hsane, gasDbUserAuth_eq_true_iff.mp hauth,
            gasDbUserInfo_ok_iff.mp hinfo⟩

/-- A sane name that the database authenticates gets `ret = 0` over what is stored of it. -/
theorem loginChecks_of_authed {db : DbEnv} {name pwd : CString} {ps : List Patch}
    (hsane : libNameSanity name = 0) (hauth : Authed db name pwd)
    (hps : StoredUser db name ACK_USER_OFF ps) :
    (loginChecks db name pwd).result = some (0, ps) := by
  simp [loginChecks, hsane, gasDbUserAuth_eq_true_iff.mpr hauth, gasDbUserInfo_ok_iff.mpr hps]

/-- A name that is not sane is rejected before the database is asked. -/
theorem loginChecks_of_insane {db : DbEnv} {name : CString} (hsane : libNameSanity name ≠ 0)
    (pwd : CString) :
    loginChecks db name pwd = ⟨[], some (ERR_GAS_USER_LOGIN_NAME_SANITY, [])⟩ := by
  simp [loginChecks, hsane]

/-- Without a connection, no sane name is authenticated, and no query made. -/
theorem loginChecks_of_no_handle {db : DbEnv} {name : CString} (hsane : libNameSanity name = 0)
    (hhandle : db.authHandle = false) (pwd : CString) :
    loginChecks db name pwd = ⟨[], some (ERR_GAS_USER_LOGIN_AUTH_FAIL, [])⟩ := by
  simp [loginChecks, hsane, gasDbUserAuth, hhandle]

/-- With a connection, the queries for a sane name begin with that of the authentication. -/
theorem loginChecks_queries {db : DbEnv} {name : CString} (hsane : libNameSanity name = 0)
    (hhandle : db.authHandle = true) (pwd : CString) :
    ∃ rest, (loginChecks db name pwd).queries =
      setNames :: setNames :: authSql name pwd :: rest := by
  have hauth : (gasDbUserAuth db name pwd).queries = [setNames, setNames, authSql name pwd] := by
    simp [gasDbUserAuth, hhandle]
  rw [loginChecks, if_neg (not_not.mpr hsane)]
  dsimp only
  split
  · exact ⟨[], hauth⟩
  · exact ⟨[], hauth⟩
  · split
    · exact ⟨_, by rw [hauth]; rfl⟩
    · split
      · exact ⟨_, by rw [hauth]; rfl⟩
      · exact ⟨_, by rw [hauth, List.append_assoc]; rfl⟩

/-- What `gas_server_list` decides. -/
theorem gasServerList_outcome (db : DbEnv) (pmsg : UserMsg) :
    (gasServerList db pmsg).outcome = .died ∨
    (gasServerList db pmsg).outcome = serverListOut pmsg ERR_GAS_SERVER_LIST_FAIL [] ∨
    ∃ ps, StoredServers db TYPE_ALL ps ∧
      (gasServerList db pmsg).outcome = serverListOut pmsg 0 ps := by
  rw [gasServerList]
  dsimp only
  split
  · exact .inl rfl
  · next ret ps hinfo =>
    by_cases hret : ret = OK
    · rw [hret] at hinfo
      exact .inr (.inr ⟨ps, gasDbServerInfo_ok_iff.mp hinfo, by rw [if_neg (not_not.mpr hret)]⟩)
    · exact .inr (.inl (by rw [if_pos hret, gasDbServerInfo_error hinfo hret]))

/-- The bytes of a login reply: `ret`, the padding behind it, and the user, which is cleared
when `ret` is an error. -/
def ackBytes (m : Mem) (ret : UInt32) (userWrites : List Patch) : List UInt8 :=
  leBytes 4 ret.toNat ++ (read (applyAll userWrites m) 4 4 ++
    if ret ≠ 0 then List.replicate USER_LEN 0
    else read (applyAll userWrites m) ACK_USER_OFF USER_LEN)

theorem length_ackBytes (m : Mem) (ret : UInt32) (userWrites : List Patch) :
    (ackBytes m ret userWrites).length = ACK_LEN.toNat := by
  have huser : (if ret ≠ 0 then List.replicate USER_LEN 0
      else read (applyAll userWrites m) ACK_USER_OFF USER_LEN).length = USER_LEN := by
    split
    · exact List.length_replicate
    · exact length_read _ _ _
  rw [ackBytes, List.length_append, List.length_append, length_leBytes, length_read, huser]
  rfl

/-- The result of a login reply is the one it was given. -/
theorem leNat_take_ackBytes (m : Mem) (ret : UInt32) (ps : List Patch) :
    leNat ((ackBytes m ret ps).take 4) = ret.toNat := by
  have hlt : ret.toNat < 256 ^ 4 := ret.toNat_lt
  rw [ackBytes, List.take_left' (length_leBytes 4 _), leNat_leBytes, Nat.mod_eq_of_lt hlt]

/-- The reply that lies in memory after the writes of `gas_user_login`. -/
theorem read_ackWrites (m : Mem) (ret : UInt32) (userWrites : List Patch) :
    read (applyAll (ackWrites ret userWrites) m) 0 ACK_LEN.toNat = ackBytes m ret userWrites := by
  have hlen : ACK_LEN.toNat = 4 + (4 + USER_LEN) := rfl
  rw [ackWrites, applyAll_append, applyAll_cons, hlen, read_add, read_add, ackBytes]
  -- `ret` and the zeroed user do not overlap each other or the padding
  have hret : read (Patch.apply ⟨0, leBytes 4 ret.toNat⟩ (applyAll userWrites m)) 0 4 =
      leBytes 4 ret.toNat := by
    simpa using read_apply_self ⟨0, leBytes 4 ret.toNat⟩ (applyAll userWrites m)
  have hrest : ∀ off n, 4 ≤ off →
      read (Patch.apply ⟨0, leBytes 4 ret.toNat⟩ (applyAll userWrites m)) off n =
        read (applyAll userWrites m) off n := fun off n hoff =>
    read_apply_of_disjoint (fun i _ h => by simp [Patch.Covers] at h; omega) _
  by_cases hzero : ret = 0
  · rw [if_neg (not_not.mpr hzero), if_neg (not_not.mpr hzero), applyAll_nil, hret,
      hrest _ _ (by decide), hrest _ _ (by decide)]
    rfl
  · rw [if_pos hzero, if_pos hzero, applyAll_cons, applyAll_nil]
    have huser : ∀ m, read (Patch.apply ⟨ACK_USER_OFF, List.replicate USER_LEN 0⟩ m) 8 USER_LEN =
        List.replicate USER_LEN 0 := fun m => by
      have h := read_apply_self ⟨ACK_USER_OFF, List.replicate USER_LEN 0⟩ m
      rwa [List.length_replicate] at h
    have hhead : ∀ m off n, off + n ≤ 8 →
        read (Patch.apply ⟨ACK_USER_OFF, List.replicate USER_LEN 0⟩ m) off n = read m off n :=
      fun m off n hoff => read_apply_of_disjoint
        (fun i hi h => absurd h.1 (by simp only [ACK_USER_OFF]; omega)) m
    rw [hhead _ _ _ (by decide), hhead _ _ _ (by decide), hret, hrest _ _ (by decide), huser]

/-- What `gas_user_login` sends for a result of its checks. -/
theorem loginOut_eq (pmsg : UserMsg) (ret : UInt32) (userWrites : List Patch) :
    loginOut pmsg ret userWrites = .finished (some ⟨pmsg.peer, pmsg.msg, ACK_LEN,
      ackBytes pmsg.payload ret userWrites, length_ackBytes _ _ _⟩) := by
  simp only [loginOut, libSendMsg_of_pos pmsg.peer.2, read_ackWrites]

/-- Logins that send the same have the same reply bytes. -/
theorem ackBytes_of_loginOut_eq {pmsg pmsg' : UserMsg} {ret ret' : UInt32} {ps ps' : List Patch}
    (h : loginOut pmsg ret ps = loginOut pmsg' ret' ps') :
    ackBytes pmsg.payload ret ps = ackBytes pmsg'.payload ret' ps' := by
  rw [loginOut_eq, loginOut_eq, Outcome.finished.injEq, Option.some.injEq, Sent.mk.injEq,
    MsgFrame.mk.injEq] at h
  exact h.2.2.2

/-- The bytes of a server list reply: the list, cleared when there was an error. -/
def listBytes (m : Mem) (ret : UInt32) (serverWrites : List Patch) : List UInt8 :=
  if ret ≠ 0 then List.replicate SERVER_LIST_LEN.toNat 0
  else read (applyAll serverWrites m) 0 SERVER_LIST_LEN.toNat

theorem listBytes_of_ne (m : Mem) {ret : UInt32} (hret : ret ≠ 0) (serverWrites : List Patch) :
    listBytes m ret serverWrites = List.replicate SERVER_LIST_LEN.toNat 0 := if_pos hret

theorem length_listBytes (m : Mem) (ret : UInt32) (serverWrites : List Patch) :
    (listBytes m ret serverWrites).length = SERVER_LIST_LEN.toNat := by
  rw [listBytes]
  split
  · exact List.length_replicate
  · exact length_read _ _ _

/-- The reply that lies in memory after the writes of `gas_server_list`. -/
theorem read_listWrites (m : Mem) (ret : UInt32) (serverWrites : List Patch) :
    read (applyAll (listWrites ret serverWrites) m) 0 SERVER_LIST_LEN.toNat =
      listBytes m ret serverWrites := by
  rw [listWrites, applyAll_append, listBytes]
  by_cases hzero : ret = 0
  · rw [if_neg (not_not.mpr hzero), if_neg (not_not.mpr hzero), applyAll_nil]
  · rw [if_pos hzero, if_pos hzero, applyAll_cons, applyAll_nil]
    have h := read_apply_self ⟨0, List.replicate SERVER_LIST_LEN.toNat 0⟩ (applyAll serverWrites m)
    rwa [List.length_replicate] at h

/-- What `gas_server_list` sends for a result of `gas_db_server_info`. -/
theorem serverListOut_eq (pmsg : UserMsg) (ret : UInt32) (serverWrites : List Patch) :
    serverListOut pmsg ret serverWrites = .finished (some ⟨pmsg.peer, pmsg.msg, SERVER_LIST_LEN,
      listBytes pmsg.payload ret serverWrites, length_listBytes _ _ _⟩) := by
  simp only [serverListOut, libSendMsg_of_pos pmsg.peer.2, read_listWrites]

/-- Whatever a message asks for, the reply goes to its peer. -/
theorem fd_of_finished {db : DbEnv} {pmsg : UserMsg} {sent : Sent}
    (h : (rasUserMsgHandle db pmsg).outcome = .finished (some sent)) : sent.fd = pmsg.peer := by
  have hlogin : (gasUserLogin db pmsg).outcome = .finished (some sent) →
      sent.fd = pmsg.peer := fun h => by
    rw [gasUserLogin] at h
    dsimp only at h
    split at h
    · cases h
    · rw [loginOut_eq, Outcome.finished.injEq, Option.some.injEq] at h
      rw [← h]
  have hlist : (gasServerList db pmsg).outcome = .finished (some sent) →
      sent.fd = pmsg.peer := fun h => by
    rw [gasServerList] at h
    dsimp only at h
    split at h
    · cases h
    · rw [serverListOut_eq, Outcome.finished.injEq, Option.some.injEq] at h
      rw [← h]
  unfold rasUserMsgHandle at h
  split_ifs at h
  · exact hlogin h
  · exact hlist h
  · cases h
  · cases h

end Gendo
