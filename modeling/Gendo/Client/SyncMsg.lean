import Gendo.Server.Frame

/-!
# Receiving in the client

`RopSyncMsg::RecvAndWaitMsg` reads a head and a payload over the answers of a blocking socket. It
stores every byte as it comes, into the buffer from which the request was sent.

`recvAndWaitMsg_of_admitted` and `exists_admitted_of_pos` say what it lets through: the message
that the stream starts with, if its head passes the two checks and all of it arrives.
-/

namespace Gendo.Client

open ByteMemory

/-- `SOCKET_ERROR`. -/
def SOCKET_ERROR : ℤ := -1

/-- `WSAETIMEDOUT`. -/
def WSAETIMEDOUT : ℤ := 10060

/-- How a loop over `ReceiveAndWaitEx` ends. -/
inductive LoopEnd
  /-- With all the bytes it was to read. -/
  | full
  /-- With `iRet <= 0`, which is returned. -/
  | failed (iRet : ℤ)
  /-- Not at all: nothing comes any more. -/
  | waiting
  deriving DecidableEq, Repr

/-- How a loop ended, the bytes it stored, and the answers it left. -/
structure LoopCall where
  stop : LoopEnd
  stored : List UInt8
  rest : List RecvAnswer
  deriving DecidableEq, Repr

/-- The loop with `nleft` bytes to go. The socket is a blocking one, so that `again` is a read
that timed out. -/
def recvLoop (nleft : ℕ) : List RecvAnswer → LoopCall
  | [] => if nleft = 0 then ⟨.full, [], []⟩ else ⟨.waiting, [], []⟩
  | answer :: rest =>
    if nleft = 0 then ⟨.full, [], answer :: rest⟩
    else
      match answer with
      | .error => ⟨.failed SOCKET_ERROR, [], rest⟩
      | .again => ⟨.failed (-WSAETIMEDOUT), [], rest⟩
      | .data bs =>
        if bs = [] then ⟨.failed 0, [], rest⟩
        else if bs.length ≤ nleft then
          let call := recvLoop (nleft - bs.length) rest
          { call with stored := bs ++ call.stored }
        else ⟨.full, bs.take nleft, .data (bs.drop nleft) :: rest⟩

/-- What `RecvAndWaitMsg` returns, if it does, and what it stored in the buffer. -/
structure RecvMsg where
  ret : Option ℤ
  stored : List UInt8
  deriving DecidableEq, Repr

/-- The return value of a loop that did not end with all its bytes. -/
def LoopEnd.ret : LoopEnd → Option ℤ
  | .full => none
  | .failed iRet => some iRet
  | .waiting => none

/-- `MSG_HEAD_SANITY`. -/
def MSG_HEAD_SANITY (msg len : UInt32) : Bool := len < MAX_MSG_LEN && msg ≠ 0

/-- `RopSyncMsg::RecvAndWaitMsg` into a buffer of `len` bytes. -/
def recvAndWaitMsg (len : UInt32) (answers : List RecvAnswer) : RecvMsg :=
  let head := recvLoop MSG_HEAD_LEN.toNat answers
  if head.stop ≠ .full then ⟨head.stop.ret, head.stored⟩
  else
    let msg := UInt32.ofNat (leNat (head.stored.take 4))
    let msgLen := UInt32.ofNat (leNat (head.stored.drop 4))
    if ¬MSG_HEAD_SANITY msg msgLen then ⟨some (-1), head.stored⟩
    else if msgLen > len - MSG_HEAD_LEN.toUInt32 then ⟨some (-1), head.stored⟩
    else
      let body := recvLoop msgLen.toNat head.rest
      if body.stop ≠ .full then ⟨body.stop.ret, head.stored ++ body.stored⟩
      else ⟨some (MSG_HEAD_LEN.toNat + msgLen.toNat : ℕ), head.stored ++ body.stored⟩

/-- The bytes that arrive, until the peer closes the connection or a read fails. -/
def stream : List RecvAnswer → List UInt8
  | [] => []
  | .error :: _ => []
  | .again :: _ => []
  | .data bs :: rest => if bs = [] then [] else bs ++ stream rest

/-- A message that a receiver with a buffer of `len` bytes lets through. -/
def Admitted (len : UInt32) (f : MsgFrame) : Prop :=
  f.msg ≠ 0 ∧ f.len < MAX_MSG_LEN ∧ f.len ≤ len - MSG_HEAD_LEN.toUInt32

instance (len : UInt32) (f : MsgFrame) : Decidable (Admitted len f) :=
  inferInstanceAs (Decidable (_ ∧ _ ∧ _))

/-! ## One loop -/

/-- A loop reads its bytes from the front of the stream, and leaves the others. -/
theorem recvLoop_of_le {nleft : ℕ} {answers : List RecvAnswer}
    (h : nleft ≤ (stream answers).length) :
    ∃ rest, recvLoop nleft answers = ⟨.full, (stream answers).take nleft, rest⟩ ∧
      stream rest = (stream answers).drop nleft := by
  induction answers generalizing nleft with
  | nil =>
    obtain rfl : nleft = 0 := by simpa [stream] using h
    exact ⟨[], rfl, rfl⟩
  | cons answer answers ih =>
    by_cases hzero : nleft = 0
    · subst hzero
      exact ⟨answer :: answers, by simp [recvLoop], rfl⟩
    · cases answer with
      | error => exact absurd (Nat.le_zero.mp h) hzero
      | again => exact absurd (Nat.le_zero.mp h) hzero
      | data bs =>
        have hbs : bs ≠ [] := by
          rintro rfl
          exact hzero (Nat.le_zero.mp h)
        rw [recvLoop, if_neg hzero]
        simp only [stream, hbs, if_false, List.length_append] at h ⊢
        by_cases hle : bs.length ≤ nleft
        · have hrest : nleft - bs.length ≤ (stream answers).length := by omega
          obtain ⟨rest, hcall, hrest⟩ := ih hrest
          refine ⟨rest, ?_, ?_⟩
          · rw [if_pos hle, hcall, List.take_append, List.take_of_length_le hle]
          · rw [hrest, List.drop_append, List.drop_eq_nil_of_le hle, List.nil_append]
        · -- the chunk is more than what is left to read
          have hlt : nleft ≤ bs.length := (not_le.mp hle).le
          have hdrop : bs.drop nleft ≠ [] := by
            rw [ne_eq, List.drop_eq_nil_iff]
            exact hle
          refine ⟨.data (bs.drop nleft) :: answers, ?_, ?_⟩
          · rw [if_neg hle, List.take_append_of_le_length hlt]
          · rw [stream, if_neg hdrop, List.drop_append_of_le_length hlt]

/-- A loop does not end with its bytes if too few of them arrive, and returns no success. -/
theorem recvLoop_of_lt {nleft : ℕ} {answers : List RecvAnswer}
    (h : (stream answers).length < nleft) :
    (recvLoop nleft answers).stop ≠ .full ∧ ∀ i ∈ (recvLoop nleft answers).stop.ret, i ≤ 0 := by
  have hpos : nleft ≠ 0 := by omega
  induction answers generalizing nleft with
  | nil => simp [recvLoop, hpos, LoopEnd.ret]
  | cons answer answers ih =>
    cases answer with
    | error => simp [recvLoop, hpos, LoopEnd.ret, SOCKET_ERROR]
    | again => simp [recvLoop, hpos, LoopEnd.ret, WSAETIMEDOUT]
    | data bs =>
      rw [recvLoop, if_neg hpos]
      by_cases hbs : bs = []
      · simp [hbs, LoopEnd.ret]
      · simp only [stream, hbs, if_false, List.length_append] at h ⊢
        -- what arrives in all is too little, so this chunk is
        rw [if_pos (by omega : bs.length ≤ nleft)]
        have hlt : (stream answers).length < nleft - bs.length := by omega
        exact ih hlt (by omega)

/-! ## One message -/

/-- The head of a message, and what follows it. -/
theorem head_of_prefix {f : MsgFrame} {bs : List UInt8} (h : f.encode <+: bs) :
    bs.take MSG_HEAD_LEN.toNat = leBytes 4 f.msg.toNat ++ leBytes 4 f.len.toNat ∧
      (bs.drop MSG_HEAD_LEN.toNat).take f.len.toNat = f.payload := by
  obtain ⟨more, rfl⟩ := h
  have hhead := length_head f.msg f.len
  rw [MsgFrame.encode, ← List.append_assoc, List.append_assoc]
  refine ⟨List.take_left' hhead, ?_⟩
  rw [List.drop_left' hhead, List.take_left' f.length_payload]

/-- A stream starts with at most one message. -/
theorem prefix_unique {f f' : MsgFrame} {bs : List UInt8} (h : f.encode <+: bs)
    (h' : f'.encode <+: bs) : f = f' := by
  obtain ⟨hhead, hpayload⟩ := head_of_prefix h
  obtain ⟨hhead', hpayload'⟩ := head_of_prefix h'
  rw [hhead] at hhead'
  -- the head gives type and length, and the length the payload
  obtain ⟨hmsg, hlen⟩ := words_of_head f.msg f.len
  obtain ⟨hmsg', hlen'⟩ := words_of_head f'.msg f'.len
  have hmsgs : f.msg = f'.msg := by
    rw [← hmsg, hhead', hmsg']
  have hlens : f.len = f'.len := by
    rw [← hlen, hhead', hlen']
  rw [hlens, hpayload'] at hpayload
  cases f
  cases f'
  simp_all

/-- A message is received as a whole if it passes the checks. -/
theorem recvAndWaitMsg_of_admitted {len : UInt32} {f : MsgFrame} {answers : List RecvAnswer}
    (hf : Admitted len f) (h : f.encode <+: stream answers) :
    recvAndWaitMsg len answers = ⟨some (MSG_HEAD_LEN.toNat + f.len.toNat : ℕ), f.encode⟩ := by
  have hlen := h.length_le
  rw [f.length_encode] at hlen
  obtain ⟨hhead, hpayload⟩ := head_of_prefix h
  have hwhole : MSG_HEAD_LEN.toNat ≤ (stream answers).length := by omega
  obtain ⟨rest, hcall, hrest⟩ := recvLoop_of_le hwhole
  have hbody : f.len.toNat ≤ (stream rest).length := by
    rw [hrest, List.length_drop]
    omega
  obtain ⟨rest', hcall', -⟩ := recvLoop_of_le hbody
  rw [hhead] at hcall
  rw [hrest, hpayload] at hcall'
  obtain ⟨hmsg, hdeclared⟩ := words_of_head f.msg f.len
  have hsane : MSG_HEAD_SANITY f.msg f.len = true := by
    simp [MSG_HEAD_SANITY, hf.1, hf.2.1]
  have hfits : ¬f.len > len - MSG_HEAD_LEN.toUInt32 := UInt32.not_lt.mpr hf.2.2
  rw [recvAndWaitMsg]
  simp only [hcall, hmsg, hdeclared, hsane, hfits, hcall', ne_eq, not_true_eq_false, if_false,
    MsgFrame.encode, List.append_assoc]

/-- A frame of the words and the payload that a stream starts with is what it starts with. -/
theorem encode_prefix_of_words {bytes : List UInt8} {f : MsgFrame}
    (hge : MSG_HEAD_LEN.toNat ≤ bytes.length)
    (hmsg : UInt32.ofNat (leNat ((bytes.take MSG_HEAD_LEN.toNat).take 4)) = f.msg)
    (hlen : UInt32.ofNat (leNat ((bytes.take MSG_HEAD_LEN.toNat).drop 4)) = f.len)
    (hpayload : f.payload = (bytes.drop MSG_HEAD_LEN.toNat).take f.len.toNat) :
    f.encode <+: bytes := by
  have height : (bytes.take MSG_HEAD_LEN.toNat).length = 8 := by
    rw [List.length_take, Nat.min_eq_left hge]
    rfl
  have hbytes : leBytes 4 f.msg.toNat ++ leBytes 4 f.len.toNat =
      bytes.take MSG_HEAD_LEN.toNat := by
    rw [← hmsg, ← hlen, leBytes_ofNat_leNat (by simp [height]),
      leBytes_ofNat_leNat (by simp [height]), List.take_append_drop]
  rw [MsgFrame.encode, ← List.append_assoc, hbytes, hpayload, ← List.take_add]
  exact List.take_prefix _ _

/-- Only a whole message that passes the checks makes a receiver succeed. -/
theorem exists_admitted_of_pos {len : UInt32} {answers : List RecvAnswer} {i : ℤ}
    (hret : (recvAndWaitMsg len answers).ret = some i) (hi : 0 < i) :
    ∃ f : MsgFrame, Admitted len f ∧ f.encode <+: stream answers := by
  rcases Nat.lt_or_ge (stream answers).length MSG_HEAD_LEN.toNat with hlt | hge
  · -- not even a head arrives
    obtain ⟨hstop, hle⟩ := recvLoop_of_lt hlt
    rw [recvAndWaitMsg] at hret
    simp only [hstop, ne_eq, not_false_eq_true, if_true] at hret
    exact absurd hi (not_lt.mpr (hle i hret))
  obtain ⟨rest, hcall, hrest⟩ := recvLoop_of_le hge
  rw [recvAndWaitMsg] at hret
  simp only [hcall, ne_eq, not_true_eq_false, if_false] at hret
  generalize hhead : (stream answers).take MSG_HEAD_LEN.toNat = head at hret hcall
  generalize hmsg : UInt32.ofNat (leNat (head.take 4)) = msg at hret
  generalize hdeclared : UInt32.ofNat (leNat (head.drop 4)) = msgLen at hret
  have hfail : ¬some (-1 : ℤ) = some i := by
    intro heq
    obtain rfl := Option.some.inj heq
    exact absurd hi (by decide)
  by_cases hsane : MSG_HEAD_SANITY msg msgLen = true
  swap
  · rw [if_pos hsane] at hret
    exact absurd hret hfail
  rw [if_neg (not_not.mpr hsane)] at hret
  by_cases hlarge : msgLen > len - MSG_HEAD_LEN.toUInt32
  · rw [if_pos hlarge] at hret
    exact absurd hret hfail
  rw [if_neg hlarge] at hret
  -- the payload arrives, or the second loop fails
  have hall : msgLen.toNat ≤ (stream rest).length := by
    by_contra hlt
    obtain ⟨hstop, hle⟩ := recvLoop_of_lt (not_le.mp hlt)
    rw [if_pos hstop] at hret
    exact absurd hi (not_lt.mpr (hle i hret))
  rw [hrest] at hall
  have hpayload : (((stream answers).drop MSG_HEAD_LEN.toNat).take msgLen.toNat).length =
      msgLen.toNat := by
    rw [List.length_take, Nat.min_eq_left hall]
  refine ⟨⟨msg, msgLen, _, hpayload⟩, ?_, ?_⟩
  · -- the checks that it passed
    have hboth : msgLen < MAX_MSG_LEN ∧ msg ≠ 0 := by
      simpa [MSG_HEAD_SANITY] using hsane
    exact ⟨hboth.2, hboth.1, UInt32.not_lt.mp hlarge⟩
  · exact encode_prefix_of_words hge (hhead ▸ hmsg) (hhead ▸ hdeclared) rfl

end Gendo.Client
