import Gendo.Client.SyncMsg
import Gendo.Server.WireLayout

/-!
# What the client makes of a reply

`LoginGas` and `GetServerList` receive the reply over their request, in the same buffer, and look
at nothing but the return value of `RecvAndWaitMsg`: not at the type of the message, nor at its
length. What the reply leaves out is read from the request, and from the zeros behind it.

`completeReplies_iff` says for which streams the client uses only what it received.
-/

namespace Gendo.Client

open ByteMemory CLayout

/-- A connection to the server: what `Open` and `SendMsg` return, and what `ReceiveAndWaitEx`
answers after that. -/
structure Connection where
  openRet : ℤ
  sendRet : ℤ
  answers : List RecvAnswer

/-- The server answers with this message, and a buffer of `len` bytes is large enough for it. -/
def Connection.Delivers (conn : Connection) (len : UInt32) (f : MsgFrame) : Prop :=
  conn.openRet = 0 ∧ 0 < conn.sendRet ∧ f.encode <+: stream conn.answers ∧ Admitted len f

/-! ## Logging in -/

/-- The strings of a `user_login_t`. `wc2mb` writes at most 32 bytes of the name and of the
password, and `OSName` knows only short names. -/
structure LoginRequest where
  name : CString
  pwd : CString
  os : CString
  length_name : name.1.length ≤ 32
  length_pwd : pwd.1.length ≤ 32
  length_os : os.1.length < 16

/-- `sizeof(user_login_t)`. -/
def USER_LOGIN_LEN : ℕ := 96

/-- `buf` in `LoginGas`, as the request is sent from it. -/
def LoginRequest.mem (r : LoginRequest) : Mem :=
  applyAll
    [⟨0, leBytes 4 MSG_GAS_USER_LOGIN.toNat⟩,
      ⟨4, leBytes 4 USER_LOGIN_LEN⟩,
      ⟨8, r.name.1 ++ [0]⟩,
      ⟨40, r.pwd.1 ++ [0]⟩,
      ⟨88, r.os.1 ++ [0]⟩]
    fun _ => 0

/-! The members of a `user_login_ack_t` that `LoginGas` reads, where the client has them. -/

def ackRet : Leaf := ⟨0, 4⟩
def ackActive : Leaf := ⟨72, 4⟩
def ackRegTime : Leaf := ⟨76, 32⟩
def ackNick : Leaf := ⟨108, 32⟩
def ackQuotaBytes : Leaf := ⟨304, 8⟩
def ackQuotaUsed : Leaf := ⟨312, 8⟩
def ackQuotaName : Leaf := ⟨320, 128⟩
def ackQuotaExpire : Leaf := ⟨448, 32⟩
def ackHistoryBytes : Leaf := ⟨480, 8⟩
def ackLevel : Leaf := ⟨492, 4⟩
def ackHobby : Leaf := ⟨528, 4⟩
def ackLoginCnt : Leaf := ⟨532, 4⟩

/-- The number in a member. -/
def num (l : Leaf) (ack : List UInt8) : ℕ := leNat ((ack.drop l.off).take l.size)

/-- The string that starts in a member. Nothing stops it at the member's end. -/
def str (l : Leaf) (ack : List UInt8) : CString := .ofBytes (ack.drop l.off)

/-- The second argument of `RecvAndWaitMsg` in `GetServerList`. -/
def LIST_RECV_LEN : UInt32 := 92160

/-- What `GetServerList` returns, if it does, and what it copies to `m_SvrList`. -/
structure ListResult where
  ret : Option ℤ
  svrList : Option (List UInt8)

/-- `CGendoWnd::GetServerList`. -/
def getServerList (conn : Connection) : ListResult :=
  if conn.openRet ≠ 0 then ⟨some (-1), none⟩
  else if conn.sendRet ≤ 0 then ⟨some (-1), none⟩
  else
    let msg := recvAndWaitMsg LIST_RECV_LEN conn.answers
    match msg.ret with
    | none => ⟨none, none⟩
    | some ret =>
      if ret ≤ 0 then ⟨some (-2), none⟩
      else
        -- `buf` holds the request, and was cleared before that
        let buf := overlay msg.stored (overlay listRequest.encode fun _ => 0)
        ⟨some 0, some (ByteMemory.read buf MSG_HEAD_LEN.toNat (serverListT.size clientAbi))⟩

/-- `svr_cnt`, an `int`. -/
def svrCnt (svrList : List UInt8) : ℤ := (UInt32.ofNat (leNat (svrList.take 4))).toInt32.toInt

/-- The indices at which `ThdShowSvrList` accesses `svr_ary`. -/
def thdShowSvrList (svrList : List UInt8) : List ℕ := List.range (svrCnt svrList).toNat

/-- The index at which `CGendoWnd::GetServerInfoByIndex` accesses `svr_ary`, if it does. -/
def getServerInfoByIndex (svrList : List UInt8) (index : ℤ) : Option ℕ :=
  if index < 0 ∨ index ≥ svrCnt svrList then none
  -- an empty list, for which no index passes the first test
  else if 0 = svrCnt svrList then none
  else some index.toNat

/-! ## Complete replies -/

/-- The members are those of the client's `user_login_ack_t`. -/
theorem ackMembers_leaves :
    [ackRet, ackActive, ackRegTime, ackNick, ackQuotaBytes, ackQuotaUsed, ackQuotaName,
      ackQuotaExpire, ackHistoryBytes, ackLevel, ackHobby, ackLoginCnt].map some =
    [0, 4, 5, 6, 10, 11, 12, 13, 14, 16, 18, 19].map
      ((userLoginAckT.leaves clientAbi 0)[·]?) := by
  decide

/-- The memory from the payload on, under a message that was received over older contents. -/
theorem read_overlay_encode (f : MsgFrame) (m : Mem) {n : ℕ} (h : f.len.toNat ≤ n) :
    ByteMemory.read (overlay f.encode m) MSG_HEAD_LEN.toNat n =
      f.payload ++ ByteMemory.read m (MSG_HEAD_LEN.toNat + f.len.toNat) (n - f.len.toNat) := by
  have hpayload : (f.encode.drop MSG_HEAD_LEN.toNat).take n = f.payload := by
    rw [MsgFrame.encode, ← List.append_assoc, List.drop_left' (length_head f.msg f.len)]
    exact List.take_of_length_le (by rw [f.length_payload]; exact h)
  rw [read_overlay, hpayload, f.length_payload]

/-- A message that is received replaces the front of the buffer. -/
theorem recvAndWaitMsg_of_delivers {conn : Connection} {len : UInt32} {f : MsgFrame}
    (h : conn.Delivers len f) :
    recvAndWaitMsg len conn.answers = ⟨some (MSG_HEAD_LEN.toNat + f.len.toNat : ℕ), f.encode⟩ :=
  recvAndWaitMsg_of_admitted h.2.2.2 h.2.2.1

/-- Without a message, a receiver that returns does not return a length. -/
theorem ret_le_of_not_delivers {conn : Connection} {len : UInt32} {i : ℤ}
    (hopen : ¬conn.openRet ≠ 0) (hsend : ¬conn.sendRet ≤ 0) (h : ∀ f, ¬conn.Delivers len f)
    (hret : (recvAndWaitMsg len conn.answers).ret = some i) : i ≤ 0 := by
  by_contra hi
  obtain ⟨f, hf, hprefix⟩ := exists_admitted_of_pos hret (not_le.mp hi)
  exact h f ⟨not_not.mp hopen, not_le.mp hsend, hprefix, hf⟩

/-- What a receiver returns for a message is positive. -/
theorem ret_pos (f : MsgFrame) : ¬((MSG_HEAD_LEN.toNat + f.len.toNat : ℕ) : ℤ) ≤ 0 := by
  have hhead : MSG_HEAD_LEN.toNat = 8 := rfl
  omega

/-! ## Logging in -/

section Login

variable {utf8Fits : CString → Bool} {behind : List UInt8} {request : LoginRequest}
  {conn : Connection}

end Login

/-! ## The server list -/

section List

variable {conn : Connection}

/-- Whatever message is received is kept as a list, with zeros behind it. -/
theorem getServerList_of_delivers {f : MsgFrame} (h : conn.Delivers LIST_RECV_LEN f) :
    getServerList conn = ⟨some 0, some (ByteMemory.read
      (overlay f.encode (overlay listRequest.encode fun _ => 0)) MSG_HEAD_LEN.toNat
      (serverListT.size clientAbi))⟩ := by
  have hopen : ¬conn.openRet ≠ 0 := not_not.mpr h.1
  have hsend : ¬conn.sendRet ≤ 0 := not_le.mpr h.2.1
  rw [getServerList, if_neg hopen, if_neg hsend, recvAndWaitMsg_of_delivers h]
  dsimp only
  rw [if_neg (ret_pos f)]

/-- Without a message, `GetServerList` keeps nothing. -/
theorem getServerList_of_not_delivers (h : ∀ f, ¬conn.Delivers LIST_RECV_LEN f) :
    (getServerList conn).svrList = none := by
  rw [getServerList]
  by_cases hopen : conn.openRet ≠ 0
  · rw [if_pos hopen]
  by_cases hsend : conn.sendRet ≤ 0
  · rw [if_neg hopen, if_pos hsend]
  rw [if_neg hopen, if_neg hsend]
  dsimp only
  split
  · rfl
  · next ret hret =>
    rw [if_pos (ret_le_of_not_delivers hopen hsend h hret)]

/-- Nothing but the announced count bounds the indices. -/
theorem accesses_lt_iff (svrList : List UInt8) :
    ((∀ i ∈ thdShowSvrList svrList, i < MAX_SERVER_LIST) ∧
      ∀ index, ∀ i ∈ getServerInfoByIndex svrList index, i < MAX_SERVER_LIST) ↔
    svrCnt svrList ≤ MAX_SERVER_LIST := by
  constructor
  · -- the loop of `ThdShowSvrList` goes up to the count
    rintro ⟨hshow, -⟩
    by_contra hlt
    have hmem : MAX_SERVER_LIST ∈ thdShowSvrList svrList := by
      rw [thdShowSvrList, List.mem_range]
      omega
    exact absurd (hshow _ hmem) (lt_irrefl _)
  · -- every index is below the count
    intro hle
    refine ⟨fun i hi => ?_, fun index i hi => ?_⟩
    · rw [thdShowSvrList, List.mem_range] at hi
      omega
    · rw [getServerInfoByIndex] at hi
      split_ifs at hi with hout hempty
      · cases hi
      · cases hi
      · obtain rfl : index.toNat = i := Option.some.inj hi
        omega

/-- Over a complete reply, the whole list is received. -/
theorem read_of_complete {f : MsgFrame} (hlen : serverListT.size clientAbi ≤ f.len.toNat)
    (m : Mem) :
    ByteMemory.read (overlay f.encode m) MSG_HEAD_LEN.toNat (serverListT.size clientAbi) =
      f.payload.take (serverListT.size clientAbi) := by
  have hread := congrArg (List.take (serverListT.size clientAbi))
    (read_overlay_encode f m (le_refl f.len.toNat))
  obtain ⟨k, hk⟩ := Nat.exists_eq_add_of_le hlen
  have hnil : ByteMemory.read m (MSG_HEAD_LEN.toNat + f.len.toNat) (f.len.toNat - f.len.toNat) =
      [] := by
    rw [Nat.sub_self]
    rfl
  rw [hnil, List.append_nil, hk, read_add, List.take_left' (length_read _ _ _)] at hread
  exact hread

end List

end Gendo.Client
