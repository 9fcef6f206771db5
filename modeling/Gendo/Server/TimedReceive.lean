import Gendo.Server.FrameStream

/-!
# Receiving with a timeout

`lib_recv_msg_timeout` is `lib_recv_msg` with a `select` before the head is read. It differs from
its sibling in two more places: it tests the length that stands in the buffer before anything has
been received, and it passes on what `lib_recvn` returned for a head that was cut short.

`receiveAgrees_iff` says when neither shows.
-/

namespace Gendo

open ByteMemory

/-- `pmsg->len` of a buffer: what it declares before or after a head was received into it. -/
def pmsgLen (buf : List UInt8) : UInt32 := UInt32.ofNat (leNat ((buf.drop 4).take 4))

/-- The descriptors that `FD_SET` has a bit for. -/
def FD_SETSIZE : ℤ := 1024

/-- `lib_recvn_timeout`, where `selected` is what `select` returned for the one descriptor, which
is below `FD_SETSIZE`: `FD_SET` writes behind the set for others. -/
def libRecvnTimeoutCall (selected : ℤ) (len : ℕ) (answers : List RecvAnswer) : RecvCall :=
  if selected < 0 then ⟨some selected, [], answers⟩
  else if selected = 0 then ⟨some selected, [], answers⟩
  else libRecvnCall len len 0 answers

/-- `lib_recv_msg_timeout` into a buffer of `bufLen` bytes that holds `buf`. -/
def libRecvMsgTimeoutCall (fd : ℤ) (buf : List UInt8) (bufLen : UInt64) (selected : ℤ)
    (answers : List RecvAnswer) : RecvCall :=
  if fd ≤ 0 then ⟨some (-1), [], answers⟩
  -- nothing has been received yet
  else if (pmsgLen buf).toUInt64 + MSG_HEAD_LEN > bufLen then ⟨some (-1), [], answers⟩
  else
    let head := libRecvnTimeoutCall selected MSG_HEAD_LEN.toNat answers
    if head.ret ≠ some (MSG_HEAD_LEN.toNat : ℤ) then head
    else
      libRecvPayloadCall (UInt32.ofNat (leNat (head.stored.take 4)))
        (UInt32.ofNat (leNat (head.stored.drop 4))) bufLen head.rest

/-- What a buffer holds after a call. -/
def RecvCall.buffer (call : RecvCall) (buf : List UInt8) : List UInt8 :=
  call.stored ++ buf.drop call.stored.length

/-- Both functions return the same value, or neither returns, and they leave the same in the
buffer. -/
def ReceiveAgrees (fd : ℤ) (buf : List UInt8) (bufLen : UInt64) (selected : ℤ)
    (answers : List RecvAnswer) : Prop :=
  (libRecvMsgTimeoutCall fd buf bufLen selected answers).ret =
      (libRecvMsgCall .host fd bufLen answers).ret ∧
    (libRecvMsgTimeoutCall fd buf bufLen selected answers).buffer buf =
      (libRecvMsgCall .host fd bufLen answers).buffer buf

/-- A stream that arrives without error: these chunks, and then its end if the peer closes the
connection. -/
def arriving (chunks : List (List UInt8)) (closed : Bool) : List RecvAnswer :=
  chunks.map .data ++ if closed then [.data []] else []

/-- What the buffer declares before anything has been received fits into it. -/
def StaleFits (buf : List UInt8) (bufLen : UInt64) : Prop :=
  (pmsgLen buf).toUInt64 + MSG_HEAD_LEN ≤ bufLen

instance (buf : List UInt8) (bufLen : UInt64) : Decidable (StaleFits buf bufLen) :=
  inferInstanceAs (Decidable (_ ≤ _))

variable {fd : ℤ} {buf : List UInt8} {bufLen : UInt64} {selected : ℤ} {answers : List RecvAnswer}

/-- A call leaves the buffer alone if it stores what was there. -/
theorem buffer_eq_iff (call : RecvCall) (buf : List UInt8) :
    call.buffer buf = buf ↔ call.stored <+: buf :=
  List.prefix_iff_eq_append.symm

theorem not_staleFits :
    ¬ StaleFits buf bufLen ↔ (pmsgLen buf).toUInt64 + MSG_HEAD_LEN > bufLen :=
  UInt64.not_le

/-- A length that does not fit is refused again once a head has declared it. -/
theorem pmsgLen_gt (hlen : MSG_HEAD_LEN ≤ bufLen) (hstale : ¬ StaleFits buf bufLen) :
    (pmsgLen buf).toUInt64 > bufLen - MSG_HEAD_LEN := by
  have hword := (pmsgLen buf).toNat_lt
  have hhead : MSG_HEAD_LEN.toNat = 8 := rfl
  have hle := UInt64.le_iff_toNat_le.mp hlen
  rw [not_staleFits, gt_iff_lt, UInt64.lt_iff_toNat_lt, UInt64.toNat_add,
    UInt32.toNat_toUInt64] at hstale
  rw [gt_iff_lt, UInt64.lt_iff_toNat_lt, UInt64.toNat_sub_of_le _ _ hlen, UInt32.toNat_toUInt64]
  omega

/-- The loop of `lib_recvn` over a stream that arrives stores its first bytes; if there are not
enough, it sees the end, or waits. -/
theorem libRecvnCall_arriving (len nleft trycnt : ℕ) {chunks : List (List UInt8)}
    (hne : ∀ c ∈ chunks, c ≠ []) (closed : Bool) :
    (libRecvnCall len nleft trycnt (arriving chunks closed)).stored =
        chunks.flatten.take nleft ∧
      (libRecvnCall len nleft trycnt (arriving chunks closed)).ret =
        if nleft ≤ chunks.flatten.length then some (len : ℤ)
        else if closed then some 0 else none := by
  induction chunks generalizing nleft with
  | nil =>
    rcases Nat.eq_zero_or_pos nleft with rfl | hpos
    · cases closed <;> exact ⟨rfl, rfl⟩
    · cases closed <;> simp [arriving, libRecvnCall, hpos.ne']
  | cons chunk chunks ih =>
    rcases Nat.eq_zero_or_pos nleft with rfl | hpos
    · simp [arriving, libRecvnCall]
    have hchunk : chunk ≠ [] := hne chunk List.mem_cons_self
    have hcons : arriving (chunk :: chunks) closed = .data chunk :: arriving chunks closed := rfl
    rw [hcons, libRecvnCall, if_neg hpos.ne']
    dsimp only
    rw [if_neg hchunk, List.flatten_cons, List.length_append]
    rcases Nat.lt_or_ge nleft chunk.length with hlt | hle
    · -- the first chunk is more than what is asked for
      rw [if_neg (not_le.mpr hlt), if_pos (by omega), List.take_append_of_le_length hlt.le]
      exact ⟨rfl, rfl⟩
    · obtain ⟨hstored, hret⟩ := ih (nleft - chunk.length)
        fun c hc => hne c (List.mem_cons_of_mem _ hc)
      have hiff : nleft - chunk.length ≤ chunks.flatten.length ↔
          nleft ≤ chunk.length + chunks.flatten.length := by omega
      rw [if_pos hle]
      dsimp only
      rw [hstored, hret, List.take_append, List.take_of_length_le hle]
      simp only [hiff, and_self]

/-- While the stale length fits, both calls get the same head, and go on in the same way if it is
whole. A call that returns something else for the head shows it only if it is not -1. -/
theorem receiveAgrees_of_fits (hfd : 0 < fd) (hfits : StaleFits buf bufLen)
    (hsel : 0 < selected) :
    ReceiveAgrees fd buf bufLen selected answers ↔
      ∀ i, (libRecvnCall MSG_HEAD_LEN.toNat MSG_HEAD_LEN.toNat 0 answers).ret = some i →
        i = MSG_HEAD_LEN.toNat ∨ i = -1 := by
  have hnot : ¬ (pmsgLen buf).toUInt64 + MSG_HEAD_LEN > bufLen :=
    not_staleFits.not.mp (not_not.mpr hfits)
  rw [ReceiveAgrees, libRecvMsgTimeoutCall, libRecvMsgCall, if_neg (not_le.mpr hfd),
    if_neg (not_le.mpr hfd), if_neg hnot, libRecvnTimeoutCall, if_neg hsel.not_gt,
    if_neg hsel.ne']
  generalize libRecvnCall MSG_HEAD_LEN.toNat MSG_HEAD_LEN.toNat 0 answers = head
  dsimp only
  rcases hret : head.ret with _ | i
  · simp [hret]
  · by_cases hwhole : i = MSG_HEAD_LEN.toNat
    · simp [hwhole, ByteOrder.convert]
    · simp [hwhole, hret, RecvCall.buffer]

/-- Where the stale length does not fit, nothing is received; `lib_recv_msg` shows the same only
if it fails as well, and what it stores was there before. -/
theorem receiveAgrees_of_not_fits (hfd : 0 < fd) (hstale : ¬ StaleFits buf bufLen) :
    ReceiveAgrees fd buf bufLen selected answers ↔
      (libRecvMsgCall .host fd bufLen answers).ret = some (-1) ∧
        (libRecvMsgCall .host fd bufLen answers).stored <+: buf := by
  rw [ReceiveAgrees, libRecvMsgTimeoutCall, if_neg (not_le.mpr hfd),
    if_pos (not_staleFits.mp hstale), ← buffer_eq_iff]
  constructor
  · rintro ⟨hret, hbuf⟩
    exact ⟨hret.symm, hbuf.symm⟩
  · rintro ⟨hret, hbuf⟩
    exact ⟨hret.symm, hbuf.symm⟩

/-- The words of a head that a buffer begins with are those of the buffer. -/
theorem pmsgLen_of_prefix {head : List UInt8} (hlen : head.length = MSG_HEAD_LEN.toNat)
    (h : head <+: buf) : UInt32.ofNat (leNat (head.drop 4)) = pmsgLen buf := by
  obtain ⟨more, rfl⟩ := h
  have hhead : MSG_HEAD_LEN.toNat = 8 := rfl
  have hdrop : (head.drop 4).length = 4 := by
    rw [List.length_drop]
    omega
  rw [pmsgLen, List.drop_append_of_le_length (by omega), List.take_left' hdrop]

/-- A whole head is stored again when its words have been read. -/
theorem head_of_words {head : List UInt8} (hlen : head.length = MSG_HEAD_LEN.toNat) :
    leBytes 4 (UInt32.ofNat (leNat (head.take 4))).toNat ++
      leBytes 4 (UInt32.ofNat (leNat (head.drop 4))).toNat = head := by
  have hhead : MSG_HEAD_LEN.toNat = 8 := rfl
  rw [leBytes_ofNat_leNat (by rw [List.length_take]; omega),
    leBytes_ofNat_leNat (by rw [List.length_drop]; omega), List.take_append_drop]

/-- What `lib_recv_msg` does after a whole head: its bytes come first in the buffer. -/
theorem libRecvPayloadCall_head {head : List UInt8} (hlen : head.length = MSG_HEAD_LEN.toNat) :
    head <+: (libRecvPayloadCall (UInt32.ofNat (leNat (head.take 4)))
      (UInt32.ofNat (leNat (head.drop 4))) bufLen answers).stored := by
  rw [libRecvPayloadCall]
  dsimp only
  rw [head_of_words hlen]
  split_ifs with hlarge
  · exact List.prefix_rfl
  · exact List.prefix_append _ _

/-- A stream is received with a timeout as it is without one in these cases and no others: the
descriptor is refused by both; the length that stands in the buffer beforehand fits, and the
stream does not end in the head; or it does not fit, but the head that arrives, or what comes of
it before the end, is what stands there. The descriptor is one that `FD_SET` takes. -/
theorem receiveAgrees_iff (fd : ℤ) (_hset : fd < FD_SETSIZE) (hlen : MSG_HEAD_LEN ≤ bufLen)
    (hsel : 0 < selected) {chunks : List (List UInt8)} (hne : ∀ c ∈ chunks, c ≠ [])
    (closed : Bool) :
    ReceiveAgrees fd buf bufLen selected (arriving chunks closed) ↔
      fd ≤ 0 ∨
      (StaleFits buf bufLen ∧ (MSG_HEAD_LEN.toNat ≤ chunks.flatten.length ∨ closed = false)) ∨
      (¬ StaleFits buf bufLen ∧ chunks.flatten.take MSG_HEAD_LEN.toNat <+: buf ∧
        (MSG_HEAD_LEN.toNat ≤ chunks.flatten.length ∨ closed = true)) := by
  rcases le_or_gt fd 0 with hfd | hfd
  · simp [ReceiveAgrees, libRecvMsgTimeoutCall, libRecvMsgCall, hfd]
  obtain ⟨hstored, hret⟩ :=
    libRecvnCall_arriving MSG_HEAD_LEN.toNat MSG_HEAD_LEN.toNat 0 hne closed
  have hnfd : ¬ fd ≤ 0 := not_le.mpr hfd
  generalize chunks.flatten = bytes at hstored hret ⊢
  by_cases hfits : StaleFits buf bufLen
  · rw [receiveAgrees_of_fits hfd hfits hsel, hret]
    rcases le_or_gt MSG_HEAD_LEN.toNat bytes.length with hwhole | hshort
    · simp [hfits, hwhole]
    · have hzero : ¬ (0 : ℤ) = MSG_HEAD_LEN.toNat := by decide
      cases closed with
      | false => simp [hfits, not_le.mpr hshort]
      | true => simp [hfits, hnfd, not_le.mpr hshort, hzero]
  · rw [receiveAgrees_of_not_fits hfd hfits, libRecvMsgCall, if_neg hnfd]
    rcases hcall : libRecvnCall MSG_HEAD_LEN.toNat MSG_HEAD_LEN.toNat 0 (arriving chunks closed)
      with ⟨ret, stored, rest⟩
    rw [hcall] at hstored hret
    obtain rfl : stored = bytes.take MSG_HEAD_LEN.toNat := hstored
    subst hret
    dsimp only
    rcases le_or_gt MSG_HEAD_LEN.toNat bytes.length with hwhole | hshort
    · have hhead : (bytes.take MSG_HEAD_LEN.toNat).length = MSG_HEAD_LEN.toNat := by
        rw [List.length_take]
        exact Nat.min_eq_left hwhole
      simp only [hwhole, hfits, hnfd, if_true, reduceCtorEq, ne_eq, not_true_eq_false, if_false,
        ByteOrder.convert, false_or, not_false_eq_true, true_and, true_or, and_true]
      refine ⟨fun h => (libRecvPayloadCall_head hhead).trans h.2, fun hpre => ?_⟩
      -- the head declares what the buffer did, and is refused for it
      have hlarge := pmsgLen_gt hlen hfits
      rw [libRecvPayloadCall, pmsgLen_of_prefix hhead hpre, if_pos (.inr hlarge),
        ← pmsgLen_of_prefix hhead hpre, head_of_words hhead]
      exact ⟨rfl, hpre⟩
    · have hzero : ¬ (0 : ℤ) = MSG_HEAD_LEN.toNat := by decide
      cases closed with
      | false => simp [hfits, hnfd, not_le.mpr hshort]
      | true => simp [hfits, hnfd, not_le.mpr hshort, hzero]

/-- A frame with two bytes of payload, received into a buffer of zeros. -/
theorem receiveAgrees_zeros : ReceiveAgrees 4 (List.replicate 16 0) 16 1
    (arriving [[5, 0, 1], [0, 2, 0, 0, 0, 7], [8]] false) :=
  (receiveAgrees_iff 4 (by decide) (by decide) (by decide) (by decide) false).2 (by decide)

/-- Nothing is received into a buffer whose old length does not fit; and a peer that closes the
connection within the head is reported as 0. -/
theorem not_receiveAgrees :
    ¬ ReceiveAgrees 4 (List.replicate 16 255) 16 1
      (arriving [[5, 0, 1, 0, 2, 0, 0, 0, 7, 8]] false) ∧
    ¬ ReceiveAgrees 4 (List.replicate 16 0) 16 1 (arriving [[5, 0, 1]] true) := by
  constructor
  · exact fun h => absurd h.1 (by decide)
  · exact fun h => absurd h.1 (by decide)

end Gendo
