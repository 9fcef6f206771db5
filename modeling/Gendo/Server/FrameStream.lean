import Gendo.Server.Frame

/-!
# Streams of frames

The sending end of `lib-socket.c`, and its receiving end with all it does: what a call returns,
what it stores in the buffer even where it fails, and what it leaves to the next call. A call
that waits for an answer that never comes does not return. `lib_send_msg_htonl` and
`lib_recv_msg_ntohl` are the same functions for a head in network byte order.

`frames_roundTrip` is about a whole list of messages: they arrive as they were sent, however
`send` and `recv` cut the bytes.
-/

namespace Gendo

open ByteMemory

/-- The byte order of a head on its way: that of `lib_send_msg`, or of `lib_send_msg_htonl`. -/
inductive ByteOrder
  | host
  | network
  deriving DecidableEq, Repr

/-- `htonl`, which is `ntohl` as well: the bytes the other way round. -/
def htonl (x : UInt32) : UInt32 := UInt32.ofNat (leNat (leBytes 4 x.toNat).reverse)

/-- What becomes of a word of the head on its way out, and on its way in. -/
def ByteOrder.convert : ByteOrder → UInt32 → UInt32
  | .host, x => x
  | .network, x => htonl x

/-- One answer of `send`. -/
inductive SendAnswer
  /-- It took one byte and this many more, as far as there are any. -/
  | wrote (more : ℕ)
  /-- Nothing was taken, and `IS_SOCKET_SHOULD_CONTINUE`. -/
  | again
  /-- Nothing was taken, for any other reason. -/
  | error
  deriving DecidableEq, Repr

/-- What a sending call did: its return value, if it returns, the bytes that went out, and the
answers left. -/
structure SendCall where
  ret : Option ℤ
  written : List UInt8
  rest : List SendAnswer

/-- The loop of `lib_sendn`, which was asked for `len` bytes and has these left. -/
def libSendn (len : ℕ) (bs : List UInt8) : List SendAnswer → SendCall
  | [] => if bs = [] then ⟨some len, [], []⟩ else ⟨none, [], []⟩
  | answer :: rest =>
    if bs = [] then ⟨some len, [], answer :: rest⟩
    else
      match answer with
      | .error => ⟨some (-1), [], rest⟩
      -- the same bytes once more, as often as it takes
      | .again => libSendn len bs rest
      | .wrote more =>
        let call := libSendn len (bs.drop (more + 1)) rest
        { call with written := bs.take (more + 1) ++ call.written }

/-- The bytes of a frame as it is sent. -/
def MsgFrame.wire (f : MsgFrame) (order : ByteOrder) : List UInt8 :=
  leBytes 4 (order.convert f.msg).toNat ++ (leBytes 4 (order.convert f.len).toNat ++ f.payload)

/-- `lib_send_msg` and `lib_send_msg_htonl`. -/
def libSendMsgCall (order : ByteOrder) (fd : ℤ) (f : MsgFrame) (answers : List SendAnswer) :
    SendCall :=
  if fd ≤ 0 then ⟨some (-1), [], answers⟩
  else
    let size := MSG_HEAD_LEN.toNat + f.len.toNat
    let call := libSendn size (f.wire order) answers
    -- anything but the whole frame is an error
    { call with ret := call.ret.map fun i => if i ≠ (size : ℤ) then -1 else (size : ℤ) }

/-- Successive calls, until one does not return: their return values, and all that went out. -/
def sendMsgs (order : ByteOrder) (fd : ℤ) :
    List MsgFrame → List SendAnswer → List (Option ℤ) × List UInt8
  | [], _ => ([], [])
  | f :: fs, answers =>
    let call := libSendMsgCall order fd f answers
    if call.ret = none then ([none], call.written)
    else
      let calls := sendMsgs order fd fs call.rest
      (call.ret :: calls.1, call.written ++ calls.2)

/-- What a receiving call did: its return value, if it returns, the bytes it stored, and the
answers left. -/
structure RecvCall where
  ret : Option ℤ
  stored : List UInt8
  rest : List RecvAnswer

/-- The loop of `lib_recvn`, which was asked for `len` bytes, with what it stores. -/
def libRecvnCall (len nleft trycnt : ℕ) : List RecvAnswer → RecvCall
  | [] => if nleft = 0 then ⟨some len, [], []⟩ else ⟨none, [], []⟩
  | answer :: rest =>
    if nleft = 0 then ⟨some len, [], answer :: rest⟩
    else
      match answer with
      | .error => ⟨some (-1), [], rest⟩
      | .again =>
        -- the second failed read is final, whatever was read in between
        if trycnt + 1 ≥ 2 then ⟨some (-1), [], rest⟩
        else libRecvnCall len nleft (trycnt + 1) rest
      | .data bs =>
        -- the peer closed the connection
        if bs = [] then ⟨some 0, [], rest⟩
        else if bs.length ≤ nleft then
          let call := libRecvnCall len (nleft - bs.length) trycnt rest
          { call with stored := bs ++ call.stored }
        else ⟨some len, bs.take nleft, .data (bs.drop nleft) :: rest⟩

/-- The second half of `lib_recv_msg`, with the head in the buffer: the check of the declared
length, and the payload. -/
def libRecvPayloadCall (msg len : UInt32) (bufLen : UInt64) (answers : List RecvAnswer) :
    RecvCall :=
  let head := leBytes 4 msg.toNat ++ leBytes 4 len.toNat
  -- `bufLen - MSG_HEAD_LEN` wraps around in a buffer that has no room for a head
  if len > MAX_MSG_LEN ∨ len.toUInt64 > bufLen - MSG_HEAD_LEN then ⟨some (-1), head, answers⟩
  else
    let body := libRecvnCall len.toNat len.toNat 0 answers
    ⟨body.ret.map fun i =>
        if i ≠ (len.toNat : ℤ) then -1 else ((MSG_HEAD_LEN.toNat + len.toNat : ℕ) : ℤ),
      head ++ body.stored, body.rest⟩

/-- `lib_recv_msg` and `lib_recv_msg_ntohl` into a buffer of `bufLen` bytes. The head is stored
as it is read, and converted in place. -/
def libRecvMsgCall (order : ByteOrder) (fd : ℤ) (bufLen : UInt64) (answers : List RecvAnswer) :
    RecvCall :=
  if fd ≤ 0 then ⟨some (-1), [], answers⟩
  else
    let head := libRecvnCall MSG_HEAD_LEN.toNat MSG_HEAD_LEN.toNat 0 answers
    if head.ret = none then head
    else if head.ret ≠ some (MSG_HEAD_LEN.toNat : ℤ) then { head with ret := some (-1) }
    else
      libRecvPayloadCall (order.convert (UInt32.ofNat (leNat (head.stored.take 4))))
        (order.convert (UInt32.ofNat (leNat (head.stored.drop 4)))) bufLen head.rest

/-- This many successive calls, until one does not return: what each returned and stored, and
the answers that are left. -/
def recvMsgs (order : ByteOrder) (fd : ℤ) (bufLen : UInt64) :
    ℕ → List RecvAnswer → List (Option ℤ × List UInt8) × List RecvAnswer
  | 0, answers => ([], answers)
  | n + 1, answers =>
    let call := libRecvMsgCall order fd bufLen answers
    if call.ret = none then ([(none, call.stored)], call.rest)
    else
      let calls := recvMsgs order fd bufLen n call.rest
      ((call.ret, call.stored) :: calls.1, calls.2)

/-! ## Byte order -/

/-- Two conversions undo each other. -/
theorem htonl_htonl (x : UInt32) : htonl (htonl x) = x := by
  have hrev : leBytes 4 (htonl x).toNat = (leBytes 4 x.toNat).reverse := by
    rw [htonl, leBytes_ofNat_leNat (by simp)]
  rw [htonl, hrev, List.reverse_reverse, ofNat_leNat_leBytes]

@[simp]
theorem ByteOrder.convert_convert (order : ByteOrder) (x : UInt32) :
    order.convert (order.convert x) = x := by
  cases order with
  | host => rfl
  | network => exact htonl_htonl x

/-! ## Sending -/

/-- However `send` cuts them, the bytes of a call that returns go out, and it returns unless
there were fewer answers than bytes. -/
theorem libSendn_wrote (len : ℕ) (bs : List UInt8) (ns : List ℕ) :
    (∃ ns' : List ℕ, libSendn len bs (ns.map .wrote) = ⟨some len, bs, ns'.map .wrote⟩ ∧
      ns.length ≤ ns'.length + bs.length) ∨
    ((libSendn len bs (ns.map .wrote)).ret = none ∧ ns.length < bs.length) := by
  induction ns generalizing bs with
  | nil =>
    by_cases hbs : bs = []
    · subst hbs
      exact .inl ⟨[], rfl, le_rfl⟩
    · rw [List.map_nil, libSendn, if_neg hbs]
      exact .inr ⟨rfl, List.length_pos_iff.mpr hbs⟩
  | cons n ns ih =>
    by_cases hbs : bs = []
    · subst hbs
      exact .inl ⟨n :: ns, rfl, le_rfl⟩
    · have hpos := List.length_pos_iff.mpr hbs
      have hdrop : (bs.drop (n + 1)).length + 1 ≤ bs.length := by
        rw [List.length_drop]
        omega
      rw [List.map_cons, libSendn, if_neg hbs]
      rcases ih (bs.drop (n + 1)) with ⟨ns', hcall, hlen⟩ | ⟨hret, hlen⟩
      · refine .inl ⟨ns', ?_, ?_⟩
        · simp only [hcall, List.take_append_drop]
        · rw [List.length_cons]
          omega
      · refine .inr ⟨hret, ?_⟩
        rw [List.length_cons]
        omega

/-- What a call returns for a frame that went out, or came in. -/
def MsgFrame.ret (f : MsgFrame) : Option ℤ := some (MSG_HEAD_LEN.toNat + f.len.toNat : ℕ)

/-- A frame is sent as a whole, unless there are fewer answers than bytes. -/
theorem libSendMsgCall_wrote (order : ByteOrder) {fd : ℤ} (hfd : 0 < fd) (f : MsgFrame)
    (ns : List ℕ) :
    (∃ ns' : List ℕ, libSendMsgCall order fd f (ns.map .wrote) =
      ⟨f.ret, f.wire order, ns'.map .wrote⟩ ∧
      ns.length ≤ ns'.length + (f.wire order).length) ∨
    ((libSendMsgCall order fd f (ns.map .wrote)).ret = none ∧
      ns.length < (f.wire order).length) := by
  rw [libSendMsgCall, if_neg (not_le.mpr hfd)]
  rcases libSendn_wrote (MSG_HEAD_LEN.toNat + f.len.toNat) (f.wire order) ns with
    ⟨ns', hcall, hlen⟩ | ⟨hret, hlen⟩
  · refine .inl ⟨ns', ?_, hlen⟩
    simp only [hcall, MsgFrame.ret, Option.map_some, ne_eq, not_true_eq_false, if_false]
  · refine .inr ⟨?_, hlen⟩
    simp only [hret, Option.map_none]

/-- The bytes of all frames. -/
def wires (order : ByteOrder) (fs : List MsgFrame) : List UInt8 := fs.flatMap (·.wire order)

/-- Enough answers make all calls return. -/
theorem sendMsgs_returns {order : ByteOrder} {fd : ℤ} (hfd : 0 < fd) {fs : List MsgFrame}
    {ns : List ℕ} (hlen : (wires order fs).length ≤ ns.length) :
    none ∉ (sendMsgs order fd fs (ns.map .wrote)).1 := by
  induction fs generalizing ns with
  | nil => simp [sendMsgs]
  | cons f fs ih =>
    have hsplit : (wires order (f :: fs)).length =
        (f.wire order).length + (wires order fs).length := by
      rw [wires, List.flatMap_cons, List.length_append]
      rfl
    -- the answers that the first frame leaves are enough for the others
    rcases libSendMsgCall_wrote order hfd f ns with ⟨ns', hcall, hrest⟩ | ⟨-, hlt⟩
    · have hnone : none ∉ (sendMsgs order fd fs (ns'.map .wrote)).1 := ih (by omega)
      simp only [sendMsgs, hcall]
      simpa [MsgFrame.ret] using hnone
    · omega

/-- Calls that all return wrote all frames. -/
theorem sendMsgs_wrote {order : ByteOrder} {fd : ℤ} (hfd : 0 < fd) {fs : List MsgFrame}
    {ns : List ℕ} (hret : none ∉ (sendMsgs order fd fs (ns.map .wrote)).1) :
    sendMsgs order fd fs (ns.map .wrote) = (fs.map MsgFrame.ret, wires order fs) := by
  induction fs generalizing ns with
  | nil => rfl
  | cons f fs ih =>
    rcases libSendMsgCall_wrote order hfd f ns with ⟨ns', hcall, -⟩ | ⟨hnone, -⟩
    · have hsome : f.ret ≠ none := by simp [MsgFrame.ret]
      simp only [sendMsgs, hcall, hsome, if_false, List.mem_cons, not_or] at hret ⊢
      rw [ih hret.2]
      rfl
    · simp [sendMsgs, hnone] at hret

/-! ## Receiving -/

/-- `libRecvn` is the loop as seen by a caller that gets what it asked for. -/
theorem libRecvnCall_of_some (len : ℕ) {nleft trycnt : ℕ} {answers rest : List RecvAnswer}
    {bs : List UInt8} (h : libRecvn nleft trycnt answers = some (bs, rest)) :
    libRecvnCall len nleft trycnt answers = ⟨some len, bs, rest⟩ := by
  fun_induction libRecvn nleft trycnt answers generalizing bs rest with
  | case1 => simp_all [libRecvnCall]
  | case2 => cases h
  | case3 => simp_all [libRecvnCall]
  | case4 => cases h
  | case5 => cases h
  | case6 nleft trycnt answers hpos htry ih =>
    rw [libRecvnCall, if_neg hpos, if_neg htry, ih h]
  | case7 => cases h
  | case8 nleft trycnt answers hpos chunk hne hle ih =>
    obtain ⟨⟨bs', rest'⟩, hrec, heq⟩ := Option.map_eq_some_iff.mp h
    obtain ⟨rfl, rfl⟩ := Prod.mk.inj heq
    rw [libRecvnCall, if_neg hpos]
    dsimp only
    rw [if_neg hne, if_pos hle, ih hrec]
  | case9 nleft trycnt answers hpos chunk hne hgt =>
    obtain ⟨rfl, rfl⟩ := Prod.mk.inj (Option.some.inj h)
    rw [libRecvnCall, if_neg hpos]
    dsimp only
    rw [if_neg hne, if_neg hgt]

/-- A loop never stores more than it has left to read. -/
theorem length_libRecvnCall_le (len nleft trycnt : ℕ) (answers : List RecvAnswer) :
    (libRecvnCall len nleft trycnt answers).stored.length ≤ nleft := by
  fun_induction libRecvnCall len nleft trycnt answers with
  | case1 => simp
  | case2 => simp
  | case3 => simp
  | case4 => simp
  | case5 => simp
  -- a failed read stores nothing
  | case6 nleft trycnt answers hpos htry ih => exact ih
  | case7 => simp
  | case8 nleft trycnt answers hpos chunk hne hle call ih =>
    have hrest : call.stored.length ≤ nleft - chunk.length := ih
    rw [List.length_append]
    omega
  | case9 nleft trycnt answers hpos chunk hne hgt =>
    rw [List.length_take]
    exact Nat.min_le_left _ _

/-- A payload that is let through fits behind the head. -/
theorem length_libRecvPayloadCall_le (msg len : UInt32) {bufLen : UInt64}
    (hbuf : MSG_HEAD_LEN ≤ bufLen) (answers : List RecvAnswer) :
    (libRecvPayloadCall msg len bufLen answers).stored.length ≤ bufLen.toNat := by
  have hhead : MSG_HEAD_LEN.toNat ≤ bufLen.toNat := UInt64.le_iff_toNat_le.mp hbuf
  rw [libRecvPayloadCall]
  dsimp only
  split_ifs with hlarge
  · rw [length_head]
    exact hhead
  · rw [not_or] at hlarge
    have hfits := UInt64.le_iff_toNat_le.mp (UInt64.not_lt.mp hlarge.2)
    rw [UInt64.toNat_sub_of_le _ _ hbuf, UInt32.toNat_toUInt64] at hfits
    have hbody := length_libRecvnCall_le len.toNat len.toNat 0 answers
    rw [List.length_append, length_head]
    omega

/-- Whatever comes, a call stores nothing behind the end of its buffer. -/
theorem length_libRecvMsgCall_le (order : ByteOrder) (fd : ℤ) {bufLen : UInt64}
    (hbuf : MSG_HEAD_LEN ≤ bufLen) (answers : List RecvAnswer) :
    (libRecvMsgCall order fd bufLen answers).stored.length ≤ bufLen.toNat := by
  have hhead := (length_libRecvnCall_le MSG_HEAD_LEN.toNat MSG_HEAD_LEN.toNat 0 answers).trans
    (UInt64.le_iff_toNat_le.mp hbuf)
  rw [libRecvMsgCall]
  dsimp only
  split_ifs with hfd hnone hshort
  · exact Nat.zero_le _
  · exact hhead
  · exact hhead
  · exact length_libRecvPayloadCall_le _ _ hbuf _

/-- A caller of the loop that does not get what it asked for sees another return value. -/
theorem libRecvnCall_of_none {len nleft trycnt : ℕ} {answers : List RecvAnswer} (hlen : 0 < len)
    (h : libRecvn nleft trycnt answers = none) :
    (libRecvnCall len nleft trycnt answers).ret ≠ some (len : ℤ) := by
  fun_induction libRecvn nleft trycnt answers with
  | case1 => cases h
  | case2 nleft trycnt hpos =>
    rw [libRecvnCall, if_neg hpos]
    simp
  | case3 => cases h
  | case4 nleft trycnt answers hpos =>
    rw [libRecvnCall, if_neg hpos]
    simp
  | case5 nleft trycnt answers hpos htry =>
    rw [libRecvnCall, if_neg hpos, if_pos htry]
    simp
  | case6 nleft trycnt answers hpos htry ih =>
    rw [libRecvnCall, if_neg hpos, if_neg htry]
    exact ih h
  | case7 nleft trycnt answers hpos =>
    rw [libRecvnCall, if_neg hpos]
    -- the peer closed the connection, and 0 is not what was asked for
    have hne : (0 : ℤ) ≠ len := by omega
    simpa using hne
  | case8 nleft trycnt answers hpos chunk hne hle ih =>
    rw [libRecvnCall, if_neg hpos]
    dsimp only
    rw [if_neg hne, if_pos hle]
    exact ih (Option.map_eq_none_iff.mp h)
  | case9 => cases h

/-- No frame is announced by a call that fails, or does not return. -/
theorem MsgFrame.ret_ne (f : MsgFrame) : f.ret ≠ none ∧ f.ret ≠ some (-1) := by
  constructor
  · simp [MsgFrame.ret]
  · rw [MsgFrame.ret, ne_eq, Option.some.injEq]
    omega

/-- A payload that does not come is announced by no frame. -/
theorem libRecvPayloadCall_of_none {msg len : UInt32} {bufLen : UInt64}
    {answers : List RecvAnswer} (h : libRecvn len.toNat 0 answers = none) (f : MsgFrame) :
    (libRecvPayloadCall msg len bufLen answers).ret ≠ f.ret := by
  have hpos : 0 < len.toNat := by
    by_contra hzero
    rw [Nat.eq_zero_of_not_pos hzero] at h
    cases answers with
    | nil => simp [libRecvn] at h
    | cons => simp [libRecvn] at h
  have hret := libRecvnCall_of_none hpos h
  rw [libRecvPayloadCall]
  split_ifs with hlarge
  · exact f.ret_ne.2.symm
  · dsimp only
    rcases hcall : (libRecvnCall len.toNat len.toNat 0 answers).ret with _ | i
    · exact f.ret_ne.1.symm
    · rw [hcall, ne_eq, Option.some.injEq] at hret
      rw [Option.map_some, if_pos hret]
      exact f.ret_ne.2.symm

/-- `libRecvMsg` is what `lib_recv_msg` means to a caller: a frame in the buffer where it returns
the length of one, and nothing otherwise. -/
theorem libRecvMsgCall_host (fd : ℤ) (bufLen : UInt64) (answers : List RecvAnswer) :
    match libRecvMsg fd bufLen answers with
    | some f => (libRecvMsgCall .host fd bufLen answers).ret = f.ret ∧
        (libRecvMsgCall .host fd bufLen answers).stored = f.encode
    | none => ∀ f : MsgFrame, (libRecvMsgCall .host fd bufLen answers).ret ≠ f.ret := by
  rw [libRecvMsg, libRecvMsgCall]
  by_cases hfd : fd ≤ 0
  · rw [if_pos hfd, if_pos hfd]
    exact fun f => f.ret_ne.2.symm
  rw [if_neg hfd, if_neg hfd]
  rcases hhead : libRecvn MSG_HEAD_LEN.toNat 0 answers with _ | ⟨head, rest⟩
  · -- the head does not come
    have hpos : 0 < MSG_HEAD_LEN.toNat := by decide
    have hret := libRecvnCall_of_none hpos hhead
    intro f
    dsimp only
    split_ifs with hnone
    · rw [hnone]
      exact f.ret_ne.1.symm
    · exact f.ret_ne.2.symm
  · -- it comes, and decides on the payload
    rw [libRecvnCall_of_some _ hhead]
    simp only [reduceCtorEq, if_false, ne_eq, not_true_eq_false, ByteOrder.convert]
    generalize UInt32.ofNat (leNat (head.take 4)) = msg
    generalize UInt32.ofNat (leNat (head.drop 4)) = len
    by_cases hlarge : len > MAX_MSG_LEN ∨ len.toUInt64 > bufLen - MSG_HEAD_LEN
    · rw [if_pos hlarge, libRecvPayloadCall, if_pos hlarge]
      exact fun f => f.ret_ne.2.symm
    rw [if_neg hlarge]
    rcases hbody : libRecvn len.toNat 0 rest with _ | ⟨payload, rest'⟩
    · -- the payload does not come
      exact libRecvPayloadCall_of_none hbody
    · have hlen := length_libRecvn hbody
      rw [libRecvPayloadCall, if_neg hlarge, libRecvnCall_of_some _ hbody]
      simp only [hlen, dite_true, Option.map_some, ne_eq, not_true_eq_false, if_false,
        MsgFrame.ret, MsgFrame.encode, List.append_assoc, and_self]

/-- A frame whose bytes come first is received as it was sent, and the bytes behind it are left
to the next call. -/
theorem libRecvMsgCall_wire (order : ByteOrder) {fd : ℤ} (hfd : 0 < fd) {bufLen : UInt64}
    {f : MsgFrame} (hmax : f.len ≤ MAX_MSG_LEN) (hbuf : f.len.toUInt64 ≤ bufLen - MSG_HEAD_LEN)
    {chunks : List (List UInt8)} (hne : ∀ c ∈ chunks, c ≠ []) {more : List UInt8}
    (hbytes : chunks.flatten = f.wire order ++ more) :
    ∃ chunks' : List (List UInt8), (∀ c ∈ chunks', c ≠ []) ∧ chunks'.flatten = more ∧
      libRecvMsgCall order fd bufLen (chunks.map .data) =
        ⟨f.ret, f.encode, chunks'.map .data⟩ := by
  rw [MsgFrame.wire, ← List.append_assoc, List.append_assoc] at hbytes
  have hlen := length_head (order.convert f.msg) (order.convert f.len)
  have hhead : MSG_HEAD_LEN.toNat ≤ chunks.flatten.length := by
    rw [hbytes, List.length_append, hlen]
    exact Nat.le_add_right _ _
  -- the head
  obtain ⟨chunks₁, hne₁, hflat₁, hrecv₁⟩ := libRecvn_data 0 hne hhead
  rw [hbytes, List.drop_left' hlen] at hflat₁
  rw [hbytes, List.take_left' hlen] at hrecv₁
  obtain ⟨hmsg, hdeclared⟩ := words_of_head (order.convert f.msg) (order.convert f.len)
  -- the payload
  have hall : f.len.toNat ≤ chunks₁.flatten.length := by
    rw [hflat₁, List.length_append, f.length_payload]
    exact Nat.le_add_right _ _
  obtain ⟨chunks₂, hne₂, hflat₂, hrecv₂⟩ := libRecvn_data 0 hne₁ hall
  rw [hflat₁, List.drop_left' f.length_payload] at hflat₂
  rw [hflat₁, List.take_left' f.length_payload] at hrecv₂
  refine ⟨chunks₂, hne₂, hflat₂, ?_⟩
  have hfits := not_tooLong hmax hbuf
  have hcall₁ := libRecvnCall_of_some MSG_HEAD_LEN.toNat hrecv₁
  have hcall₂ := libRecvnCall_of_some f.len.toNat hrecv₂
  rw [libRecvMsgCall, if_neg (not_le.mpr hfd)]
  simp only [hcall₁, hmsg, hdeclared, ByteOrder.convert_convert, reduceCtorEq, if_false, ne_eq,
    not_true_eq_false]
  rw [libRecvPayloadCall]
  simp only [hfits, hcall₂, if_false, Option.map_some, ne_eq, not_true_eq_false, MsgFrame.encode,
    MsgFrame.ret, List.append_assoc]

/-- Frames are received one after the other, and nothing is left over. -/
theorem recvMsgs_wires (order : ByteOrder) {fd : ℤ} (hfd : 0 < fd) {bufLen : UInt64}
    {fs : List MsgFrame}
    (hfits : ∀ f ∈ fs, f.len ≤ MAX_MSG_LEN ∧ f.len.toUInt64 ≤ bufLen - MSG_HEAD_LEN)
    {chunks : List (List UInt8)} (hne : ∀ c ∈ chunks, c ≠ [])
    (hbytes : chunks.flatten = wires order fs) :
    recvMsgs order fd bufLen fs.length (chunks.map .data) =
      (fs.map fun f => (f.ret, f.encode), []) := by
  induction fs generalizing chunks with
  | nil =>
    -- no chunk is empty, so there is none
    have hnil : chunks = [] := by
      refine List.eq_nil_iff_forall_not_mem.mpr fun c hc => hne c hc ?_
      exact List.flatten_eq_nil_iff.mp hbytes c hc
    rw [hnil]
    rfl
  | cons f fs ih =>
    obtain ⟨hf, hfs⟩ := List.forall_mem_cons.mp hfits
    have hsplit : chunks.flatten = f.wire order ++ wires order fs := by
      rw [hbytes, wires, List.flatMap_cons]
      rfl
    obtain ⟨chunks', hne', hflat, hcall⟩ := libRecvMsgCall_wire order hfd hf.1 hf.2 hne hsplit
    have hsome : f.ret ≠ none := by simp [MsgFrame.ret]
    have hrest := ih hfs hne' hflat
    simp only [List.length_cons, recvMsgs, hcall, hsome, if_false, hrest, List.map_cons]

/-- Messages that fit arrive as they were sent, in order and with nothing left over, however
`send` and `recv` cut the stream; and a receiving call never writes behind the end of its buffer,
whatever comes. -/
theorem frames_roundTrip (order : ByteOrder) {fd fd' : ℤ} (hfd : 0 < fd) (hfd' : 0 < fd')
    {bufLen : UInt64} (hbuf : MSG_HEAD_LEN ≤ bufLen) :
    (∀ (fs : List MsgFrame) (ns : List ℕ),
      (∀ f ∈ fs, f.len ≤ MAX_MSG_LEN ∧ f.len.toUInt64 ≤ bufLen - MSG_HEAD_LEN) →
      ((wires order fs).length ≤ ns.length →
        none ∉ (sendMsgs order fd fs (ns.map .wrote)).1) ∧
      (none ∉ (sendMsgs order fd fs (ns.map .wrote)).1 →
        (sendMsgs order fd fs (ns.map .wrote)).1 = fs.map MsgFrame.ret ∧
        ∀ chunks : List (List UInt8), (∀ c ∈ chunks, c ≠ []) →
          chunks.flatten = (sendMsgs order fd fs (ns.map .wrote)).2 →
          recvMsgs order fd' bufLen fs.length (chunks.map .data) =
            (fs.map fun f => (f.ret, f.encode), []))) ∧
    ∀ answers, (libRecvMsgCall order fd' bufLen answers).stored.length ≤ bufLen.toNat := by
  refine ⟨fun fs ns hfits => ⟨sendMsgs_returns hfd, fun hret => ?_⟩,
    length_libRecvMsgCall_le order fd' hbuf⟩
  have hsent := sendMsgs_wrote hfd hret
  rw [hsent]
  exact ⟨rfl, fun chunks hne hbytes => recvMsgs_wires order hfd' hfits hne hbytes⟩

/-- A message with two bytes of payload, sent twice byte by byte and received in two chunks. -/
theorem frames_roundTrip_twoMessages :
    let f : MsgFrame := ⟨MSG_GAS_SERVER_LIST, 2, [7, 8], rfl⟩
    recvMsgs .network 4 1024 2 ([[0, 1, 0], [5, 0, 0, 0, 2, 7, 8, 0, 1, 0, 5, 0, 0, 0, 2, 7, 8]].map
      .data) = ([f, f].map fun f => (f.ret, f.encode), []) :=
  have h := (@frames_roundTrip .network 3 4 (by decide) (by decide) 1024 (by decide)).1
    [⟨MSG_GAS_SERVER_LIST, 2, [7, 8], rfl⟩, ⟨MSG_GAS_SERVER_LIST, 2, [7, 8], rfl⟩]
    (List.replicate 20 0) (by decide)
  (h.2 (h.1 (by decide))).2 [[0, 1, 0], [5, 0, 0, 0, 2, 7, 8, 0, 1, 0, 5, 0, 0, 0, 2, 7, 8]]
    (by decide) (by decide)

end Gendo
