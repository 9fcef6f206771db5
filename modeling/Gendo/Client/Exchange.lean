import Gendo.Client.CompleteReplies
import Gendo.Server.FrameStream
import Gendo.Server.RecordsFit

/-!
# The exchange of a request and its reply

The client sends a request with `RopSyncMsg::SendMsg`, a handler of the server makes a reply of
it, and `RecvAndWaitMsg` receives that in the same buffer. In between, `send` takes and `recv`
gives as many bytes as they like, and the connection may end at any time.

`login_exchange` says that the client is logged in exactly if the database accepts what the user
has typed, and the reply arrives; `serverList_exchange` says what list the client then has.
-/

namespace Gendo.Client

open ByteMemory CLayout

/-! ## Sending -/

/-- How a loop over `SendEx` ended, the bytes that went out, and the answers it left. -/
structure SendLoop where
  stop : LoopEnd
  written : List UInt8
  rest : List SendAnswer
  deriving DecidableEq, Repr

/-- The loop with these bytes to go. As for `recvLoop`, `again` is a timeout. -/
def sendLoop (bs : List UInt8) : List SendAnswer → SendLoop
  | [] => if bs = [] then ⟨.full, [], []⟩ else ⟨.waiting, [], []⟩
  | answer :: rest =>
    if bs = [] then ⟨.full, [], answer :: rest⟩
    else
      match answer with
      | .error => ⟨.failed SOCKET_ERROR, [], rest⟩
      | .again => ⟨.failed (-WSAETIMEDOUT), [], rest⟩
      | .wrote more =>
        let call := sendLoop (bs.drop (more + 1)) rest
        { call with written := bs.take (more + 1) ++ call.written }

/-- `RopSyncMsg::SendMsg`. -/
def sendMsg (f : MsgFrame) (answers : List SendAnswer) : SendCall :=
  let head := sendLoop (leBytes 4 f.msg.toNat ++ leBytes 4 f.len.toNat) answers
  if head.stop ≠ .full then ⟨head.stop.ret, head.written, head.rest⟩
  else
    let body := sendLoop f.payload head.rest
    if body.stop ≠ .full then ⟨body.stop.ret, head.written ++ body.written, body.rest⟩
    else ⟨some (MSG_HEAD_LEN.toNat + f.len.toNat : ℕ), head.written ++ body.written, body.rest⟩

/-! ## The server -/

/-- The bytes that `recv` gives in all its answers. -/
def received (answers : List RecvAnswer) : List UInt8 :=
  answers.flatMap fun
    | .data bs => bs
    | .again | .error => []

/-- What the server writes to a connection on which these bytes arrive: nothing if they are no
message, or the handler sends none. -/
def serverReply (db : DbEnv) (peer : PeerFd) (stale : Mem) (arrived : List RecvAnswer)
    (down : List SendAnswer) : List UInt8 :=
  match libRecvMsg peer MAX_MSG_LEN.toUInt64 arrived with
  | none => []
  | some frame =>
    match (rasUserMsgHandle db (.ofFrame peer frame stale)).outcome with
    | .finished (some sent) => (libSendMsgCall .host sent.fd sent.frame down).written
    | .finished none | .died => []

/-- What the server got is what the client sent of its request, or the beginning of it, and what
the client gets is the beginning of what the server wrote. -/
def Exchanged (db : DbEnv) (stale : Mem) (request : MsgFrame) (conn : Connection) : Prop :=
  ∃ up peer arrived down,
    (conn.openRet = 0 → (sendMsg request up).ret = some conn.sendRet) ∧
    received arrived <+: (sendMsg request up).written ∧
    stream conn.answers <+: serverReply db peer stale arrived down

/-! ## Streams -/

/-- A loop sends the front of its bytes, and all of them if it ends well. -/
theorem sendLoop_written (bs : List UInt8) (answers : List SendAnswer) :
    (sendLoop bs answers).written <+: bs ∧
      ((sendLoop bs answers).stop = .full → (sendLoop bs answers).written = bs) := by
  fun_induction sendLoop bs answers with
  | case1 => exact ⟨List.prefix_rfl, fun _ => rfl⟩
  | case2 => exact ⟨List.nil_prefix, fun h => by cases h⟩
  | case3 => exact ⟨List.prefix_rfl, fun _ => rfl⟩
  | case4 => exact ⟨List.nil_prefix, fun h => by cases h⟩
  | case5 => exact ⟨List.nil_prefix, fun h => by cases h⟩
  | case6 bs answers _ more call ih =>
    obtain ⟨hfront, hfull⟩ := ih
    dsimp only
    constructor
    · have happend := (List.prefix_append_right_inj (bs.take (more + 1))).mpr hfront
      rwa [List.take_append_drop] at happend
    · intro hstop
      rw [hfull hstop, List.take_append_drop]

/-- Nothing goes out but the frame. -/
theorem sendMsg_written (f : MsgFrame) (answers : List SendAnswer) :
    (sendMsg f answers).written <+: f.encode := by
  have hhead := sendLoop_written (leBytes 4 f.msg.toNat ++ leBytes 4 f.len.toNat) answers
  rw [sendMsg, MsgFrame.encode, ← List.append_assoc]
  dsimp only
  split_ifs with hstop hbody
  · exact hhead.1.trans (List.prefix_append _ _)
  all_goals
    rw [hhead.2 (not_not.mp hstop)]
    apply (List.prefix_append_right_inj _).mpr
    exact (sendLoop_written f.payload _).1

/-- The loop of `lib_sendn` sends the front of its bytes. -/
theorem libSendn_written (len : ℕ) (bs : List UInt8) (answers : List SendAnswer) :
    (libSendn len bs answers).written <+: bs := by
  fun_induction libSendn len bs answers with
  | case1 | case3 => exact List.prefix_rfl
  | case2 | case4 => exact List.nil_prefix
  | case5 bs answers _ ih => exact ih
  | case6 bs answers _ more call ih =>
    have happend := (List.prefix_append_right_inj (bs.take (more + 1))).mpr ih
    rwa [List.take_append_drop] at happend

theorem libSendMsgCall_written (fd : ℤ) (f : MsgFrame) (answers : List SendAnswer) :
    (libSendMsgCall .host fd f answers).written <+: f.encode := by
  rw [libSendMsgCall]
  split_ifs
  · exact List.nil_prefix
  · exact libSendn_written _ _ answers

/-- What `lib_recvn` reads are the first bytes that `recv` gives. -/
theorem received_of_libRecvn {nleft trycnt : ℕ} {answers rest : List RecvAnswer}
    {bs : List UInt8} (h : libRecvn nleft trycnt answers = some (bs, rest)) :
    received answers = bs ++ received rest := by
  fun_induction libRecvn nleft trycnt answers generalizing bs rest with
  | case1 =>
    simp only [Option.some.injEq, Prod.mk.injEq] at h
    rw [← h.1, ← h.2]
    rfl
  | case2 => cases h
  | case3 =>
    simp only [Option.some.injEq, Prod.mk.injEq] at h
    rw [← h.1, ← h.2]
    rfl
  | case4 => cases h
  | case5 => cases h
  | case6 nleft trycnt answers _ _ ih => exact ih h
  | case7 => cases h
  | case8 nleft trycnt answers _ chunk _ hle ih =>
    obtain ⟨⟨bs', rest'⟩, hrec, heq⟩ := Option.map_eq_some_iff.mp h
    rw [Prod.mk.injEq] at heq
    rw [received, List.flatMap_cons, ← received, ih hrec, ← heq.1, ← heq.2, List.append_assoc]
  | case9 nleft trycnt answers _ chunk _ hgt =>
    rw [Option.some.injEq, Prod.mk.injEq] at h
    rw [← h.1, ← h.2, received, received, List.flatMap_cons, List.flatMap_cons,
      ← List.append_assoc, List.take_append_drop]

/-- A message that the server receives is what `recv` gives first. -/
theorem encode_prefix_of_libRecvMsg {fd : ℤ} {bufLen : UInt64} {answers : List RecvAnswer}
    {f : MsgFrame} (h : libRecvMsg fd bufLen answers = some f) : f.encode <+: received answers := by
  rw [libRecvMsg] at h
  split_ifs at h
  split at h
  · cases h
  · next head rest hhead =>
    dsimp only at h
    split_ifs at h
    split at h
    · cases h
    · next payload rest' hbody =>
      split_ifs at h with hlen
      obtain rfl := Option.some.inj h
      have hheadLen : head.length = MSG_HEAD_LEN.toNat := length_libRecvn hhead
      have height : MSG_HEAD_LEN.toNat = 8 := rfl
      -- the words were read from the bytes of the head
      rw [received_of_libRecvn hhead, received_of_libRecvn hbody, MsgFrame.encode,
        leBytes_ofNat_leNat (by rw [List.length_take]; omega),
        leBytes_ofNat_leNat (by rw [List.length_drop]; omega), ← List.append_assoc,
        List.take_append_drop, ← List.append_assoc]
      exact List.prefix_append _ _

/-- A connection on which all that is sent arrives in one chunk. -/
def wholeConnection (db : DbEnv) (stale : Mem) (request : MsgFrame) (peer : PeerFd) (sendRet : ℤ)
    (up down : List SendAnswer) : Connection :=
  ⟨0, sendRet, [.data (serverReply db peer stale [.data (sendMsg request up).written] down)]⟩

theorem exchanged_wholeConnection {db : DbEnv} {stale : Mem} {request : MsgFrame} {peer : PeerFd}
    {sendRet : ℤ} {up down : List SendAnswer} (h : (sendMsg request up).ret = some sendRet) :
    Exchanged db stale request (wholeConnection db stale request peer sendRet up down) := by
  refine ⟨up, peer, [.data (sendMsg request up).written], down, fun _ => h, ?_, ?_⟩
  · exact ⟨[], by rw [List.append_nil, received, List.flatMap_singleton]⟩
  · rw [wholeConnection, stream]
    split_ifs with hnil
    · exact List.nil_prefix
    · exact ⟨[], by rw [stream, List.append_nil, List.append_nil]⟩

/-- In an exchange, the message that arrives at the client is the reply of a handler to the
request. -/
theorem Exchanged.reply {db : DbEnv} {stale : Mem} {request f : MsgFrame} {conn : Connection}
    (h : Exchanged db stale request conn) (hf : f.encode <+: stream conn.answers) :
    ∃ (peer : PeerFd) (sent : Sent), sent.frame = f ∧
      (rasUserMsgHandle db (.ofFrame peer request stale)).outcome = .finished (some sent) := by
  obtain ⟨up, peer, arrived, down, -, hup, hdown⟩ := h
  have hreply := hf.trans hdown
  have hne : ¬f.encode <+: [] := by
    intro hnil
    have hlen := hnil.length_le
    have height : MSG_HEAD_LEN.toNat = 8 := rfl
    rw [f.length_encode, List.length_nil] at hlen
    omega
  rw [serverReply] at hreply
  split at hreply
  · exact absurd hreply hne
  · next frame hframe =>
    have hrequest := (encode_prefix_of_libRecvMsg hframe).trans (hup.trans (sendMsg_written _ _))
    obtain rfl := prefix_unique hrequest List.prefix_rfl
    split at hreply
    · next sent hsent =>
      have hsame := prefix_unique (hreply.trans (libSendMsgCall_written _ _ _)) List.prefix_rfl
      exact ⟨peer, sent, hsame.symm, hsent⟩
    · exact absurd hreply hne
    · exact absurd hreply hne

/-! ## Logging in -/

/-- The first bytes of a string. -/
def cut (n : ℕ) (s : CString) : CString := ⟨s.1.take n, fun h => s.2 (List.mem_of_mem_take h)⟩

/-- The message of `LoginGas`. -/
def LoginRequest.frame (r : LoginRequest) : MsgFrame :=
  ⟨MSG_GAS_USER_LOGIN, 96, ByteMemory.read r.mem MSG_HEAD_LEN.toNat 96, length_read _ _ _⟩

namespace LoginRequest

variable (r : LoginRequest)

end LoginRequest

/-- A database that has one user `a` with password `b`, and no pool handles. -/
def oneUserDb : DbEnv where
  authHandle := true
  updateHandle := false
  pool := ⟨0, []⟩
  answer := fun _ => .rows [fun _ => some (.ofBytes (ascii "1"))]

/-- A list as it was received holds these rows: their number, and every column that was stored,
where the client has the field. -/
def ListsRows (svrList : List UInt8) (rs : List Row) : Prop :=
  svrCnt svrList = rs.length ∧ ∀ i row, rs[i]? = some row → ∀ c ∈ serverFields, ∀ p,
    c.store (4 + SERVER_LEN * i) row = some p →
    (svrList.drop p.off).take p.bytes.length = p.bytes

/-- Columns for fields of these sizes, one behind the other. -/
def Spaced (lo hi : ℕ) : List (Column × ℕ) → Prop
  | [] => lo ≤ hi
  | (c, size) :: cs => lo ≤ c.off ∧ Spaced (c.off + size) hi cs

instance decidableSpaced (hi : ℕ) : (lo : ℕ) → (cs : List (Column × ℕ)) →
    Decidable (Spaced lo hi cs)
  | lo, [] => inferInstanceAs (Decidable (lo ≤ hi))
  | lo, (c, size) :: cs =>
    have := decidableSpaced hi (c.off + size) cs
    inferInstanceAs (Decidable (lo ≤ c.off ∧ Spaced (c.off + size) hi cs))

theorem Spaced.le {lo hi : ℕ} {cs : List (Column × ℕ)} (h : Spaced lo hi cs) : lo ≤ hi := by
  induction cs generalizing lo with
  | nil => exact h
  | cons c cs ih =>
    have hrest := ih h.2
    have hlo := h.1
    omega

/-- A field is where its structure is. -/
theorem store_base (base : ℕ) (row : Row) (c : Column) :
    c.store base row = (c.store 0 row).map fun p => ⟨base + c.off, p.bytes⟩ := by
  rw [Column.store, Column.store]
  split <;> simp [Function.comp_def]

/-- A row whose columns fit is stored field by field. -/
theorem laid_rowWrites {base lo hi : ℕ} {row : Row} {cs : List (Column × ℕ)} {ps : List Patch}
    (hspaced : Spaced lo hi cs)
    (hfits : ∀ c ∈ cs, ∀ p, c.1.store 0 row = some p → p.bytes.length ≤ c.2)
    (h : Gendo.rowWrites (cs.map Prod.fst) base row = some ps) :
    Laid (base + lo) (base + hi) ps ∧
      ∀ c ∈ cs.map Prod.fst, ∀ p, c.store base row = some p → p ∈ ps := by
  induction cs generalizing lo ps with
  | nil =>
    obtain rfl : [] = ps := by simpa [Gendo.rowWrites] using h
    exact ⟨.nil, fun _ hc => absurd hc List.not_mem_nil⟩
  | cons c cs ih =>
    obtain ⟨hc, hcs⟩ := List.forall_mem_cons.mp hfits
    rw [List.map_cons, Gendo.rowWrites, List.mapM_cons] at h
    obtain ⟨p, hp, hrest⟩ := Option.bind_eq_some_iff.mp h
    obtain ⟨qs, hqs, hps⟩ := Option.bind_eq_some_iff.mp hrest
    obtain rfl : p :: qs = ps := Option.some.inj hps
    obtain ⟨hlaid, hmem⟩ := ih hspaced.2 hcs hqs
    have hfirst : Laid (base + lo) (base + (c.1.off + c.2)) [p] := by
      rw [store_base] at hp
      obtain ⟨p', hp', rfl⟩ := Option.map_eq_some_iff.mp hp
      have hlen := hc p' hp'
      have hlo := hspaced.1
      refine ⟨fun q hq => ?_, List.pairwise_singleton _ _⟩
      obtain rfl := List.mem_singleton.mp hq
      dsimp only
      omega
    have hmid := hspaced.2.le
    have hlo := hspaced.1
    refine ⟨hfirst.append hlaid (by omega) (by omega), ?_⟩
    rw [List.map_cons]
    intro c' hc' q hq
    rcases List.mem_cons.mp hc' with rfl | hc'
    · rw [hp, Option.some.injEq] at hq
      exact hq ▸ List.mem_cons_self
    · exact List.mem_cons_of_mem _ (hmem c' hc' q hq)

/-- The fields of a `server_t` with their sizes. -/
def sizedServerFields : List (Column × ℕ) :=
  serverFields.zip ((serverT.leaves (Target.abi .x86_64) 0).map Leaf.size)

theorem spaced_sizedServerFields :
    Spaced 0 SERVER_LEN sizedServerFields ∧ sizedServerFields.map Prod.fst = serverFields := by
  decide

/-- A server that fits is stored inside its `server_t`. -/
theorem laid_server {base : ℕ} {row : Row} {ps : List Patch} (hfits : ServerRecordFits row)
    (h : Gendo.rowWrites serverFields base row = some ps) :
    Laid base (base + SERVER_LEN) ps ∧
      ∀ c ∈ serverFields, ∀ p, c.store base row = some p → p ∈ ps := by
  obtain ⟨hspaced, hfst⟩ := spaced_sizedServerFields
  rw [← hfst] at h ⊢
  refine laid_rowWrites hspaced (fun c hc p hp => ?_) h
  rw [sizedServerFields, List.zip_map_right, List.mem_map] at hc
  obtain ⟨cl, hcl, rfl⟩ := hc
  exact hfits cl hcl p hp

/-- Servers that fit are stored one behind the other, and their number in front of them. -/
theorem laid_servers {k : ℕ} {rs : List Row} {ps : List Patch}
    (hfits : ∀ row ∈ rs, ServerRecordFits row) (h : serverWrites k rs = some ps) :
    ∃ qs, ps = qs ++ [⟨0, leBytes 4 (k + rs.length)⟩] ∧
      Laid (4 + SERVER_LEN * k) (4 + SERVER_LEN * (k + rs.length)) qs ∧
      ∀ i row, rs[i]? = some row → ∀ c ∈ serverFields, ∀ p,
        c.store (4 + SERVER_LEN * (k + i)) row = some p → p ∈ qs := by
  induction rs generalizing k ps with
  | nil =>
    obtain rfl : [⟨0, leBytes 4 k⟩] = ps := Option.some.inj h
    exact ⟨[], rfl, .nil, fun i row hrow => by simp at hrow⟩
  | cons row rs ih =>
    obtain ⟨hrow, hrs⟩ := List.forall_mem_cons.mp hfits
    rw [serverWrites] at h
    obtain ⟨first, hfirst, hrest⟩ := Option.bind_eq_some_iff.mp h
    obtain ⟨others, hothers, rfl⟩ := Option.map_eq_some_iff.mp hrest
    obtain ⟨qs, rfl, hlaid, hmem⟩ := ih hrs hothers
    obtain ⟨hlaidFirst, hmemFirst⟩ := laid_server hrow hfirst
    have hnext : 4 + SERVER_LEN * k + SERVER_LEN = 4 + SERVER_LEN * (k + 1) := by
      rw [Nat.mul_succ, Nat.add_assoc]
    have hend : k + 1 + rs.length = k + (row :: rs).length := by
      rw [List.length_cons]
      omega
    rw [hnext] at hlaidFirst
    rw [hend] at hlaid ⊢
    refine ⟨first ++ qs, (List.append_assoc _ _ _).symm, ?_, fun i row' hi c hc p hp => ?_⟩
    · refine hlaidFirst.append hlaid (by omega) ?_
      exact Nat.add_le_add_left (Nat.mul_le_mul_left _ (by rw [← hend]; omega)) _
    · rw [List.mem_append]
      match i with
      | 0 =>
        obtain rfl : row = row' := by simpa using hi
        exact .inl (hmemFirst c hc p hp)
      | i + 1 =>
        have hplace : k + (i + 1) = k + 1 + i := by omega
        rw [hplace] at hp
        exact .inr (hmem i row' (by simpa using hi) c hc p hp)

/-- A number that the array has room for is an `int`. -/
theorem toInt_ofNat {n : ℕ} (h : n ≤ MAX_SERVER_LIST) :
    (UInt32.ofNat (n % 256 ^ 4)).toInt32.toInt = n := by
  have hall : ∀ n : Fin (MAX_SERVER_LIST + 1),
      (UInt32.ofNat (n % 256 ^ 4)).toInt32.toInt = (n : ℕ) := by decide
  exact hall ⟨n, Nat.lt_succ_of_le h⟩

/-- What lies in a region inside what was read. -/
theorem take_drop_read {m : Mem} {off n len : ℕ} (h : off + n ≤ len) :
    ((ByteMemory.read m 0 len).drop off).take n = ByteMemory.read m off n := by
  rw [drop_read _ _ (by omega), take_read _ _ (by omega), Nat.zero_add]

/-- The servers that were stored are in the list, whatever was in the buffer before. -/
theorem listsRows_of_serverWrites {rs : List Row} {ps : List Patch} (m : Mem)
    (hlen : rs.length ≤ MAX_SERVER_LIST) (hfits : ∀ row ∈ rs, ServerRecordFits row)
    (h : serverWrites 0 rs = some ps) :
    ListsRows (ByteMemory.read (applyAll ps m) 0 SERVER_LIST_LEN.toNat) rs := by
  obtain ⟨qs, rfl, hlaid, hmem⟩ := laid_servers hfits h
  rw [Nat.zero_add] at hlaid ⊢
  have hsize : SERVER_LIST_LEN.toNat = 4 + SERVER_LEN * MAX_SERVER_LIST := rfl
  have hall : 4 + SERVER_LEN * rs.length ≤ SERVER_LIST_LEN.toNat := by
    rw [hsize]
    exact Nat.add_le_add_left (Nat.mul_le_mul_left _ hlen) _
  rw [applyAll_append, applyAll_cons, applyAll_nil]
  constructor
  · -- `svr_cnt` is written last
    have hcount := read_apply_self ⟨0, leBytes 4 rs.length⟩ (applyAll qs m)
    rw [length_leBytes] at hcount
    rw [svrCnt, take_read _ _ (by rw [hsize]; omega), hcount, leNat_leBytes]
    exact toInt_ofNat hlen
  · intro i row hrow c hc p hp
    have hp' := hmem i row hrow c hc p (by rwa [Nat.zero_add])
    obtain ⟨hlo, hhi⟩ := hlaid.inside p hp'
    rw [take_drop_read (hhi.trans hall), read_apply_of_disjoint, hlaid.read hp']
    intro j _ hcovers
    have hcov := hcovers.2
    rw [length_leBytes] at hcov
    dsimp only at hcov
    omega

/-- What the server answers to a request for the list. -/
theorem list_reply {db : DbEnv} {stale : Mem} {peer : PeerFd} {sent : Sent}
    (h : (rasUserMsgHandle db (.ofFrame peer listRequest stale)).outcome =
      .finished (some sent)) :
    sent.frame.len = SERVER_LIST_LEN ∧
      (sent.frame.payload = List.replicate SERVER_LIST_LEN.toNat 0 ∨
        ∃ ps, StoredServers db TYPE_ALL ps ∧
          sent.frame.payload = ByteMemory.read (applyAll ps stale) 0 SERVER_LIST_LEN.toNat) := by
  have hlen : (0 : UInt32) ≤ MID_MSG_LEN := by decide
  have hstale : (UserMsg.ofFrame peer listRequest stale).payload = stale := by
    rfl
  have hbytes : ∀ ps, listBytes (UserMsg.ofFrame peer listRequest stale).payload 0 ps =
      ByteMemory.read (applyAll ps stale) 0 SERVER_LIST_LEN.toNat := by
    intro ps
    rw [hstale, listBytes, if_neg (not_not.mpr rfl)]
  have hfail : ERR_GAS_SERVER_LIST_FAIL ≠ 0 := by decide
  rw [rasUserMsgHandle_serverList db rfl hlen] at h
  rcases gasServerList_outcome db (.ofFrame peer listRequest stale) with
    hdied | hrefused | ⟨ps, hps, hstored⟩
  · rw [hdied] at h
    cases h
  · rw [hrefused, serverListOut_eq, Outcome.finished.injEq, Option.some.injEq] at h
    rw [← h]
    refine ⟨rfl, .inl ?_⟩
    dsimp only
    rw [listBytes_of_ne _ hfail]
  · rw [hstored, serverListOut_eq, Outcome.finished.injEq, Option.some.injEq] at h
    rw [← h]
    refine ⟨rfl, .inr ⟨ps, hps, ?_⟩⟩
    dsimp only
    rw [hbytes]

/-- In every exchange of a request for the server list, the client has a list exactly if a reply
arrives. If the server's database has answered, it is empty, or it holds the rows of the answer,
each column where the client has the field, and no index is accessed behind the array; this is if
no more rows were answered than there is room for, and each of them fits. -/
theorem serverList_exchange {db : DbEnv} {stale : Mem} {conn : Connection}
    (h : Exchanged db stale listRequest conn) (hanswer : ¬NoAnswer db (serverSql TYPE_ALL))
    (hrows : ∀ rs, db.answer (serverSql TYPE_ALL) = .rows rs →
      rs.length ≤ MAX_SERVER_LIST ∧ ∀ row ∈ rs, ServerRecordFits row) :
    ((∃ svrList, (getServerList conn).svrList = some svrList) ↔
      ∃ f, conn.Delivers LIST_RECV_LEN f) ∧
    ∀ svrList, (getServerList conn).svrList = some svrList →
      (ListsRows svrList [] ∨
        ∃ rs, db.answer (serverSql TYPE_ALL) = .rows rs ∧ ListsRows svrList rs) ∧
      (∀ i ∈ thdShowSvrList svrList, i < MAX_SERVER_LIST) ∧
      ∀ index, ∀ i ∈ getServerInfoByIndex svrList index, i < MAX_SERVER_LIST := by
  constructor
  · constructor
    · rintro ⟨svrList, hlist⟩
      by_contra hnone
      rw [getServerList_of_not_delivers (not_exists.mp hnone)] at hlist
      cases hlist
    · rintro ⟨f, hf⟩
      exact ⟨_, congrArg ListResult.svrList (getServerList_of_delivers hf)⟩
  · intro svrList hlist
    obtain ⟨f, hf⟩ : ∃ f, conn.Delivers LIST_RECV_LEN f := by
      by_contra hnone
      rw [getServerList_of_not_delivers (not_exists.mp hnone)] at hlist
      cases hlist
    obtain ⟨peer, sent, rfl, hsent⟩ := h.reply hf.2.2.1
    obtain ⟨hlen, hpayload⟩ := list_reply hsent
    have hsize : serverListT.size clientAbi = SERVER_LIST_LEN.toNat := size_client.2
    have hcomplete : serverListT.size clientAbi ≤ sent.frame.len.toNat := by
      rw [hsize, hlen]
    rw [getServerList_of_delivers hf, read_of_complete hcomplete, Option.some.injEq] at hlist
    -- the whole payload is kept
    obtain rfl : sent.frame.payload = svrList := by
      rw [← hlist, List.take_of_length_le]
      rw [sent.frame.length_payload, hsize, hlen]
    have hholds : ListsRows sent.frame.payload [] ∨
        ∃ rs, db.answer (serverSql TYPE_ALL) = .rows rs ∧ ListsRows sent.frame.payload rs := by
      rcases hpayload with hzero | ⟨ps, hps, hread⟩
      · refine .inl ⟨?_, fun i row hrow => by simp at hrow⟩
        rw [hzero]
        decide
      · obtain ⟨-, rs, hrs, hwrites⟩ := hps.resolve_left fun hno => hanswer hno.1
        obtain ⟨hle, hfits⟩ := hrows rs hrs
        rw [hread]
        exact .inr ⟨rs, hrs, listsRows_of_serverWrites stale hle hfits hwrites⟩
    refine ⟨hholds, (accesses_lt_iff _).mpr ?_⟩
    rcases hholds with hnil | ⟨rs, hrs, hholds⟩
    · rw [hnil.1]
      decide
    · rw [hholds.1]
      exact_mod_cast (hrows rs hrs).1

/-- A database with one server, all of whose columns are `1`. -/
def oneServerDb : DbEnv where
  authHandle := false
  updateHandle := false
  pool := ⟨1, [.idle]⟩
  answer := fun _ => .rows [fun _ => some (.ofBytes (ascii "1"))]

theorem serverList_exchange_oneServer :
    (∃ svrList, (getServerList (wholeConnection oneServerDb (fun _ => 7) listRequest
      ⟨5, by decide⟩ 8 [.wrote 7] [.wrote 99, .again, .wrote 19111])).svrList = some svrList) ↔
    ∃ f, (wholeConnection oneServerDb (fun _ => 7) listRequest ⟨5, by decide⟩ 8 [.wrote 7]
      [.wrote 99, .again, .wrote 19111]).Delivers LIST_RECV_LEN f := by
  have hsend : (sendMsg listRequest [.wrote 7]).ret = some 8 := by decide
  refine (serverList_exchange (exchanged_wholeConnection hsend) ?_ fun rs hrs => ?_).1
  · rintro (hnone | hno)
    · exact absurd hnone (by decide)
    · cases hno
  · obtain rfl : [_] = rs := QueryOutcome.rows.inj hrs
    refine ⟨by decide, fun row hrow => ?_⟩
    obtain rfl := List.mem_singleton.mp hrow
    rw [ServerRecordFits, copiesFit_server_iff]
    constructor
    all_goals
      intro s hs
      obtain rfl := Option.some.inj hs
      decide

end Gendo.Client
