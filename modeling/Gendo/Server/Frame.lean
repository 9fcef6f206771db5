import Gendo.Library.ByteMemory

/-!
# Message frames

The framing of `lib-msg.h` and its receiving end in `lib-socket.c`. A frame is a head of two
32-bit words, the type and the payload length, followed by that many bytes. `lib_recv_msg` reads
the head, checks the declared length and reads the payload; both reads go through `lib_recvn`,
which loops over the partial answers of `recv`.

`libRecvMsg_encode` is the round trip: what `MsgFrame.encode` lays out in memory is received as
the same frame whenever its length is let through, however the bytes arrive.
-/

namespace Gendo

open ByteMemory

/-- `sizeof(msg_head_t)`. -/
def MSG_HEAD_LEN : UInt64 := 8

/-- `MID_MSG_LEN`. -/
def MID_MSG_LEN : UInt32 := 51200

/-- `MAX_MSG_LEN`. -/
def MAX_MSG_LEN : UInt32 := 1048576

/-- `MSG_GAS_USER_START`. -/
def MSG_GAS_USER_START : UInt32 := 0x10000

/-- `MSG_GAS_USER_LOGIN`. -/
def MSG_GAS_USER_LOGIN : UInt32 := 0x10001

/-- `MSG_GAS_SERVER_LIST`. -/
def MSG_GAS_SERVER_LIST : UInt32 := 0x10005

/-- `MSG_GAS_USER_END`. -/
def MSG_GAS_USER_END : UInt32 := 0x10006

/-- `msg_head_t` with the payload behind it. The length field is the number of payload bytes. -/
structure MsgFrame where
  msg : UInt32
  len : UInt32
  payload : List UInt8
  length_payload : payload.length = len.toNat
  deriving DecidableEq

/-- The frame as it lies in memory and is sent. -/
def MsgFrame.encode (f : MsgFrame) : List UInt8 :=
  leBytes 4 f.msg.toNat ++ (leBytes 4 f.len.toNat ++ f.payload)

/-- A request for the server list, without payload. -/
def listRequest : MsgFrame := ⟨MSG_GAS_SERVER_LIST, 0, [], rfl⟩

/-- One answer of `recv`. -/
inductive RecvAnswer
  /-- These bytes are there, and a `recv` takes as many of them as it asked for. None means that
  the peer closed the connection. -/
  | data (bs : List UInt8)
  /-- `EINTR` or another error on which `IS_SOCKET_SHOULD_CONTINUE`. -/
  | again
  /-- Any other error. -/
  | error
  deriving DecidableEq, Repr

/-- The loop of `lib_recvn` with `nleft` bytes to go, over the answers of the socket: the bytes
read and the answers left, or `none` when it returns with less than it was asked for. -/
def libRecvn (nleft trycnt : ℕ) : List RecvAnswer → Option (List UInt8 × List RecvAnswer)
  | [] => if nleft = 0 then some ([], []) else none
  | answer :: rest =>
    if nleft = 0 then some ([], answer :: rest)
    else
      match answer with
      | .error => none
      | .again => if trycnt + 1 ≥ 2 then none else libRecvn nleft (trycnt + 1) rest
      | .data bs =>
        if bs = [] then none
        else if bs.length ≤ nleft then
          (libRecvn (nleft - bs.length) trycnt rest).map fun r => (bs ++ r.1, r.2)
        else some (bs.take nleft, .data (bs.drop nleft) :: rest)

/-- `lib_recvn` returns as many bytes as it was asked for, or fails. -/
theorem length_libRecvn {nleft trycnt : ℕ} {answers : List RecvAnswer} {bs : List UInt8}
    {rest : List RecvAnswer} (h : libRecvn nleft trycnt answers = some (bs, rest)) :
    bs.length = nleft := by
  fun_induction libRecvn nleft trycnt answers generalizing bs rest with
  | case1 => simp_all
  | case2 => cases h
  | case3 => simp_all
  | case4 => cases h
  | case5 => cases h
  | case6 nleft trycnt answers _ _ ih => exact ih h
  | case7 => cases h
  | case8 nleft trycnt answers _ chunk _ hle ih =>
    obtain ⟨⟨bs', rest'⟩, hrec, heq⟩ := Option.map_eq_some_iff.mp h
    have hlen := ih hrec
    rw [Prod.mk.injEq] at heq
    rw [← heq.1, List.length_append, hlen]
    exact Nat.add_sub_cancel' hle
  | case9 nleft trycnt answers _ chunk _ hgt =>
    rw [Option.some.injEq, Prod.mk.injEq] at h
    rw [← h.1, List.length_take]
    omega

/-- From chunks that hold enough bytes, `lib_recvn` reads exactly the first ones, and leaves the
others to the next read. -/
theorem libRecvn_data {nleft : ℕ} (trycnt : ℕ) {chunks : List (List UInt8)}
    (hne : ∀ c ∈ chunks, c ≠ []) (hlen : nleft ≤ chunks.flatten.length) :
    ∃ chunks' : List (List UInt8), (∀ c ∈ chunks', c ≠ []) ∧
      chunks'.flatten = chunks.flatten.drop nleft ∧
      libRecvn nleft trycnt (chunks.map .data) =
        some (chunks.flatten.take nleft, chunks'.map .data) := by
  induction chunks generalizing nleft with
  | nil =>
    obtain rfl : nleft = 0 := by simpa using hlen
    exact ⟨[], by simp, rfl, rfl⟩
  | cons chunk chunks ih =>
    rcases Nat.eq_zero_or_pos nleft with rfl | hpos
    · exact ⟨chunk :: chunks, hne, by simp, by simp [libRecvn]⟩
    have hchunk : chunk ≠ [] := hne chunk List.mem_cons_self
    rcases Nat.lt_or_ge nleft chunk.length with hlt | hle
    · -- the first chunk is more than what is asked for
      refine ⟨chunk.drop nleft :: chunks, ?_, ?_, ?_⟩
      · intro c hc
        rcases List.mem_cons.mp hc with rfl | hc
        · simpa using hlt
        · exact hne c (List.mem_cons_of_mem _ hc)
      · simp [List.drop_append_of_le_length hlt.le]
      · simp [libRecvn, hpos.ne', hchunk, hlt, List.take_append_of_le_length hlt.le]
    · have hrest : nleft - chunk.length ≤ chunks.flatten.length := by
        rw [List.flatten_cons, List.length_append] at hlen
        omega
      obtain ⟨chunks', hne', hflat, hrecv⟩ := ih (fun c hc => hne c (List.mem_cons_of_mem _ hc))
        hrest
      refine ⟨chunks', hne', ?_, ?_⟩
      · rw [hflat, List.flatten_cons, List.drop_append, List.drop_eq_nil_of_le hle,
          List.nil_append]
      · rw [List.flatten_cons, List.take_append, List.take_of_length_le hle]
        simp [libRecvn, hpos.ne', hchunk, hle, hrecv]

/-- `lib_recv_msg` into a buffer of `bufLen` bytes: the frame it accepts, or `none` when it
returns -1. -/
def libRecvMsg (fd : ℤ) (bufLen : UInt64) (answers : List RecvAnswer) : Option MsgFrame :=
  if fd ≤ 0 then none
  else
    match libRecvn MSG_HEAD_LEN.toNat 0 answers with
    | none => none
    | some (head, rest) =>
      let msg := UInt32.ofNat (leNat (head.take 4))
      let len := UInt32.ofNat (leNat (head.drop 4))
      if len > MAX_MSG_LEN ∨ len.toUInt64 > bufLen - MSG_HEAD_LEN then none
      else
        match libRecvn len.toNat 0 rest with
        | none => none
        | some (payload, _) =>
          if h : payload.length = len.toNat then some ⟨msg, len, payload, h⟩ else none

/-- A word is what its four bytes stand for. -/
theorem ofNat_leNat_leBytes (x : UInt32) : UInt32.ofNat (leNat (leBytes 4 x.toNat)) = x := by
  have hlt : x.toNat < 256 ^ 4 := x.toNat_lt
  rw [leNat_leBytes, Nat.mod_eq_of_lt hlt, UInt32.ofNat_toNat]

/-- Four bytes are those of the word that they stand for. -/
theorem leBytes_ofNat_leNat {bs : List UInt8} (h : bs.length = 4) :
    leBytes 4 (UInt32.ofNat (leNat bs)).toNat = bs := by
  have hlt : leNat bs < 2 ^ 32 := by
    have hbs := leNat_lt bs
    rwa [h] at hbs
  rw [UInt32.toNat_ofNat_of_lt' hlt, ← h, leBytes_leNat]

/-- The head takes its eight bytes. -/
theorem length_head (msg len : UInt32) :
    (leBytes 4 msg.toNat ++ leBytes 4 len.toNat).length = MSG_HEAD_LEN.toNat := by
  rw [List.length_append, length_leBytes, length_leBytes]
  rfl

/-- The head gives back its two words. -/
theorem words_of_head (msg len : UInt32) :
    UInt32.ofNat (leNat ((leBytes 4 msg.toNat ++ leBytes 4 len.toNat).take 4)) = msg ∧
      UInt32.ofNat (leNat ((leBytes 4 msg.toNat ++ leBytes 4 len.toNat).drop 4)) = len := by
  constructor
  · rw [List.take_left' (by simp), ofNat_leNat_leBytes]
  · rw [List.drop_left' (by simp), ofNat_leNat_leBytes]

/-- A frame takes its head and its payload. -/
theorem MsgFrame.length_encode (f : MsgFrame) :
    f.encode.length = MSG_HEAD_LEN.toNat + f.len.toNat := by
  rw [MsgFrame.encode, ← List.append_assoc, List.length_append, length_head, f.length_payload]

/-- A length that is allowed, and fits the buffer, passes the check. -/
theorem not_tooLong {len : UInt32} {bufLen : UInt64} (hmax : len ≤ MAX_MSG_LEN)
    (hbuf : len.toUInt64 ≤ bufLen - MSG_HEAD_LEN) :
    ¬(len > MAX_MSG_LEN ∨ len.toUInt64 > bufLen - MSG_HEAD_LEN) := by
  rw [not_or]
  exact ⟨UInt32.not_lt.mpr hmax, UInt64.not_lt.mpr hbuf⟩

/-- A frame that fits the buffer is received as it was encoded, in whatever chunks its bytes
arrive. -/
theorem libRecvMsg_encode {fd : ℤ} {bufLen : UInt64} {f : MsgFrame} {chunks : List (List UInt8)}
    (hfd : 0 < fd) (hmax : f.len ≤ MAX_MSG_LEN) (hbuf : f.len.toUInt64 ≤ bufLen - MSG_HEAD_LEN)
    (hne : ∀ c ∈ chunks, c ≠ []) (hbytes : chunks.flatten = f.encode) :
    libRecvMsg fd bufLen (chunks.map .data) = some f := by
  have hhead : MSG_HEAD_LEN.toNat ≤ chunks.flatten.length := by
    rw [hbytes, f.length_encode]
    exact Nat.le_add_right _ _
  obtain ⟨chunks₁, hne₁, hflat₁, hrecv₁⟩ := libRecvn_data 0 hne hhead
  have htake : chunks.flatten.take MSG_HEAD_LEN.toNat =
      leBytes 4 f.msg.toNat ++ leBytes 4 f.len.toNat := by
    rw [hbytes, MsgFrame.encode, ← List.append_assoc]
    exact List.take_left' (length_head f.msg f.len)
  have hpayload : chunks₁.flatten = f.payload := by
    rw [hflat₁, hbytes, MsgFrame.encode, ← List.append_assoc]
    exact List.drop_left' (length_head f.msg f.len)
  have hall : f.len.toNat ≤ chunks₁.flatten.length := by
    rw [hpayload, f.length_payload]
  obtain ⟨chunks₂, -, -, hrecv₂⟩ := libRecvn_data 0 hne₁ hall
  rw [hpayload, ← f.length_payload, List.take_length, f.length_payload] at hrecv₂
  rw [htake] at hrecv₁
  obtain ⟨hmsg, hlen⟩ := words_of_head f.msg f.len
  have hfits := not_tooLong hmax hbuf
  rw [libRecvMsg, if_neg (not_le.mpr hfd), hrecv₁]
  simp only [hmsg, hlen, hfits, hrecv₂, f.length_payload, if_false, dite_true]

end Gendo
