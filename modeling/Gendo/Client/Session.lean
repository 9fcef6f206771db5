import Gendo.Library.ByteMemory
import Gendo.Library.StepSystem
import Mathlib.Data.List.Infix

/-!
# Reassembling messages

`RopSession` collects the bytes of an asynchronous socket, and finds the messages in them:
`InputData` puts a chunk behind the bytes that are there, `PeekMsg` shows the message that they
start with, and `DiscardData` moves the others to the front.

`delivered_iff` is about a sender that keeps to the format. `peekOk_iff` is about any bytes at
all: the tag is looked at after the length, and the sum of length and head wraps around.
-/

namespace Gendo.Client

open ByteMemory StepSystem

/-- `MAGIC_TAG`. -/
def MAGIC_TAG : UInt32 := 0x09182736

/-- `sizeof(ModMsg)`. -/
def MOD_MSG_LEN : UInt32 := 16

/-- `ModMsg` with the payload behind it. -/
@[ext]
structure ModMsg where
  tag : UInt32
  sModule : UInt32
  dModule : UInt32
  len : UInt32
  payload : List UInt8
  length_payload : payload.length = len.toNat

instance : DecidableEq ModMsg := fun a b =>
  decidable_of_iff (a.tag = b.tag ∧ a.sModule = b.sModule ∧ a.dModule = b.dModule ∧
    a.len = b.len ∧ a.payload = b.payload) ModMsg.ext_iff.symm

/-- Bytes that are handed to `InputData`, and their number. -/
structure Chunk where
  bytes : List UInt8
  len : UInt32
  length_bytes : bytes.length = len.toNat
  deriving DecidableEq

namespace ModMsg

/-- The message as it lies in memory and is sent. -/
def encode (msg : ModMsg) : List UInt8 :=
  leBytes 4 msg.tag.toNat ++ (leBytes 4 msg.sModule.toNat ++ (leBytes 4 msg.dModule.toNat ++
    (leBytes 4 msg.len.toNat ++ msg.payload)))

/-- The word that four bytes are. -/
def word (bytes : List UInt8) : UInt32 := UInt32.ofNat (leNat bytes)

/-- The memory at `off` as a message: the cast to `PModMsg`. -/
def cast (m : Mem) (off : ℕ) : ModMsg where
  tag := word (read m off 4)
  sModule := word (read m (off + 4) 4)
  dModule := word (read m (off + 8) 4)
  len := word (read m (off + 12) 4)
  payload := read m (off + 16) (word (read m (off + 12) 4)).toNat
  length_payload := length_read ..

/-- Header and payload. -/
def size (msg : ModMsg) : ℕ := MOD_MSG_LEN.toNat + msg.len.toNat

end ModMsg

/-- `RopSession`. -/
structure RopSession where
  bufLen : UInt32
  tailPos : UInt32
  headPos : UInt32
  data : Mem

namespace RopSession

/-- The constructor, with what is in the memory that `new` returns. -/
def new (bufLen : UInt32) (data : Mem) : RopSession := ⟨bufLen, 0, 0, data⟩

/-- `GetDataCount`. -/
def getDataCount (s : RopSession) : UInt32 := s.tailPos - s.headPos

/-- `Reset`. -/
def reset (s : RopSession) : RopSession := { s with tailPos := 0, headPos := 0 }

/-- `InputData`. -/
def inputData (s : RopSession) (buf : Chunk) : UInt32 × RopSession :=
  let iUsed := s.tailPos - s.headPos
  let iAvailable := s.bufLen - iUsed
  if buf.len > iAvailable then (0, s)
  else
    (buf.len, { s with
      data := Patch.apply ⟨s.tailPos.toNat, buf.bytes⟩ s.data
      tailPos := s.tailPos + buf.len })

/-- `PeekMsg`. -/
def peekMsg (s : RopSession) : Option ModMsg × RopSession :=
  let iUsed := s.tailPos - s.headPos
  if iUsed < MOD_MSG_LEN then (none, s)
  else
    let msg := ModMsg.cast s.data s.headPos.toNat
    if iUsed < msg.len + MOD_MSG_LEN then (none, s)
    else if msg.tag ≠ MAGIC_TAG then (none, s.reset)
    else (some msg, s)

/-- `DiscardData`. -/
def discardData (s : RopSession) (len : UInt32) : UInt32 × RopSession :=
  let iUsed := s.tailPos - s.headPos
  if iUsed < len then (0, s)
  else
    let s := { s with tailPos := s.tailPos - len }
    let iUsed := s.tailPos - s.headPos
    if 0 < iUsed then
      (len, { s with
        data := Patch.apply ⟨s.headPos.toNat,
          read s.data (s.headPos + len).toNat iUsed.toNat⟩ s.data })
    else (len, s)

/-- All complete messages are taken, each with `PeekMsg` and `DiscardData`; `fuel` is more than
there can be. -/
def takeMsgs : ℕ → RopSession → List ModMsg × RopSession
  | 0, s => ([], s)
  | fuel + 1, s =>
    match s.peekMsg with
    | (none, s) => ([], s)
    | (some msg, s) =>
      let more := takeMsgs fuel (s.discardData (MOD_MSG_LEN + msg.len)).2
      (msg :: more.1, more.2)

end RopSession

/-- A caller that feeds chunks to a session, with the messages it got so far. -/
structure Caller where
  session : RopSession
  pending : List Chunk
  obtained : List ModMsg

namespace Caller

/-- Before the first chunk. -/
def start (bufLen : UInt32) (data : Mem) (chunks : List Chunk) : Caller :=
  ⟨.new bufLen data, chunks, []⟩

/-- The next chunk is offered, and what is complete is taken; a chunk that was refused is offered
again the next time. -/
def feed (c : Caller) : Caller :=
  match c.pending with
  | [] => c
  | buf :: pending =>
    let offer := c.session.inputData buf
    let taken := offer.2.takeMsgs offer.2.getDataCount.toNat
    ⟨taken.2, if offer.1 = buf.len then pending else c.pending, c.obtained ++ taken.1⟩

end Caller

/-- From some time on the caller has these messages, and keeps them. -/
def Delivered (bufLen : UInt32) (data : Mem) (chunks : List Chunk) (msgs : List ModMsg) : Prop :=
  ∃ n, ∀ k ≥ n, (Caller.feed^[k] (.start bufLen data chunks)).obtained = msgs

/-- How many of `n` bytes are left when the complete messages are taken. -/
def leftOver : List ModMsg → ℕ → ℕ
  | [], n => n
  | msg :: msgs, n => if msg.size ≤ n then leftOver msgs (n - msg.size) else n

/-- Every chunk fits beside the part of a message that the chunks before it leave. -/
def ChunksFit (bufLen : UInt32) (msgs : List ModMsg) (chunks : List Chunk) : Prop :=
  ∀ before buf, before ++ [buf] <+: chunks →
    leftOver msgs (before.flatMap Chunk.bytes).length + buf.bytes.length ≤ bufLen.toNat

/-- A call of the session. -/
inductive SessionCall
  | inputData (buf : Chunk)
  | peekMsg
  | discardData (len : UInt32)
  | reset

/-- The session after the call. -/
def RopSession.next (s : RopSession) : SessionCall → RopSession
  | .inputData buf => (s.inputData buf).2
  | .peekMsg => s.peekMsg.2
  | .discardData len => (s.discardData len).2
  | .reset => s.reset

/-- A message that `PeekMsg` returns has arrived, and a head that is no good resets the
session. -/
def PeekOk (s : RopSession) : SessionCall → RopSession → Prop
  | .peekMsg, t =>
    let msg := ModMsg.cast s.data s.headPos.toNat
    (∀ peeked, s.peekMsg.1 = some peeked → peeked.size ≤ s.getDataCount.toNat) ∧
      (MOD_MSG_LEN ≤ s.getDataCount → msg.tag ≠ MAGIC_TAG ∨ s.bufLen.toNat < msg.size →
        s.peekMsg.1 = none ∧ t = s.reset)
  | _, _ => True

/-- The head that `PeekMsg` finds is a good one, or its tag is wrong and the length does not make
`PeekMsg` wait: as many bytes are there, or the sum with the head wraps around. -/
def peekGuard (s : RopSession) : SessionCall → Prop
  | .peekMsg =>
    let msg := ModMsg.cast s.data s.headPos.toNat
    MOD_MSG_LEN ≤ s.getDataCount →
      if msg.tag = MAGIC_TAG then msg.size ≤ s.bufLen.toNat
      else msg.size ≤ s.getDataCount.toNat ∨ UInt32.size ≤ msg.size
  | _ => True

/-- The bytes are at the front of the buffer. -/
structure RopSession.Sound (s : RopSession) : Prop where
  headPos : s.headPos = 0
  tailPos : s.tailPos ≤ s.bufLen

/-- The bytes that were put in and not taken out. -/
def RopSession.buffered (s : RopSession) : List UInt8 :=
  read s.data s.headPos.toNat s.getDataCount.toNat

namespace RopSession

variable {s : RopSession}

/-! ## The functions -/

@[simp]
theorem length_buffered (s : RopSession) : s.buffered.length = s.getDataCount.toNat :=
  length_read ..

theorem sound_new (bufLen : UInt32) (data : Mem) : (new bufLen data).Sound :=
  ⟨rfl, UInt32.zero_le⟩

theorem Sound.getDataCount (h : s.Sound) : s.getDataCount = s.tailPos := by
  rw [RopSession.getDataCount, h.headPos, UInt32.sub_zero]

theorem Sound.buffered (h : s.Sound) : s.buffered = read s.data 0 s.tailPos.toNat := by
  rw [RopSession.buffered, h.getDataCount, h.headPos]
  rfl

theorem buffered_new (bufLen : UInt32) (data : Mem) : (new bufLen data).buffered = [] := by
  rw [(sound_new bufLen data).buffered]
  rfl

theorem sound_reset (s : RopSession) : s.reset.Sound := ⟨rfl, UInt32.zero_le⟩

theorem Sound.length_buffered_le (h : s.Sound) : s.buffered.length ≤ s.bufLen.toNat := by
  rw [length_buffered, h.getDataCount]
  exact UInt32.le_iff_toNat_le.mp h.tailPos

/-- A chunk that fits beside the bytes that are there is put behind them. -/
theorem Sound.inputData_of_le (h : s.Sound) {buf : Chunk}
    (hfit : s.buffered.length + buf.bytes.length ≤ s.bufLen.toNat) :
    (s.inputData buf).1 = buf.len ∧ (s.inputData buf).2.Sound ∧
      (s.inputData buf).2.bufLen = s.bufLen ∧
      (s.inputData buf).2.buffered = s.buffered ++ buf.bytes := by
  rw [length_buffered, h.getDataCount, buf.length_bytes] at hfit
  have hle := UInt32.le_iff_toNat_le.mp h.tailPos
  have hroom : ¬buf.len > s.bufLen - (s.tailPos - s.headPos) := by
    rw [h.headPos, UInt32.sub_zero, gt_iff_lt, UInt32.lt_iff_toNat_lt,
      UInt32.toNat_sub_of_le _ _ h.tailPos]
    omega
  have hsum : (s.tailPos + buf.len).toNat = s.tailPos.toNat + buf.bytes.length := by
    rw [UInt32.toNat_add, buf.length_bytes]
    exact Nat.mod_eq_of_lt (hfit.trans_lt s.bufLen.toNat_lt)
  have hsound : (s.inputData buf).2.Sound := by
    rw [inputData, if_neg hroom]
    refine ⟨h.headPos, UInt32.le_iff_toNat_le.mpr ?_⟩
    rw [hsum, buf.length_bytes]
    exact hfit
  refine ⟨by rw [inputData, if_neg hroom], hsound, by rw [inputData, if_neg hroom], ?_⟩
  rw [hsound.buffered, h.buffered, inputData, if_neg hroom]
  dsimp only
  rw [hsum, read_add, Nat.zero_add]
  congr 1
  · refine read_apply_of_disjoint (fun i hi hcov => ?_) _
    have := hcov.1
    dsimp only at this
    omega
  · exact read_apply_self ⟨s.tailPos.toNat, buf.bytes⟩ s.data

/-- Any other is refused. -/
theorem Sound.inputData_of_lt (h : s.Sound) {buf : Chunk}
    (hfit : s.bufLen.toNat < s.buffered.length + buf.bytes.length) :
    s.inputData buf = (0, s) := by
  rw [length_buffered, h.getDataCount, buf.length_bytes] at hfit
  have hle := UInt32.le_iff_toNat_le.mp h.tailPos
  rw [inputData, if_pos]
  rw [h.headPos, UInt32.sub_zero, gt_iff_lt, UInt32.lt_iff_toNat_lt,
    UInt32.toNat_sub_of_le _ _ h.tailPos]
  omega

/-- Bytes that are there are taken out at the front. -/
theorem Sound.discardData_of_le (h : s.Sound) {len : UInt32}
    (hlen : len.toNat ≤ s.buffered.length) :
    (s.discardData len).2.Sound ∧ (s.discardData len).2.bufLen = s.bufLen ∧
      (s.discardData len).2.buffered = s.buffered.drop len.toNat := by
  rw [length_buffered, h.getDataCount] at hlen
  have hle : len ≤ s.tailPos := UInt32.le_iff_toNat_le.mpr hlen
  have hused : ¬s.tailPos - s.headPos < len := by
    rw [h.headPos, UInt32.sub_zero, UInt32.not_lt]
    exact hle
  have hsub := UInt32.toNat_sub_of_le _ _ hle
  have htail : s.tailPos - len ≤ s.bufLen :=
    UInt32.le_iff_toNat_le.mpr (by
      have := UInt32.le_iff_toNat_le.mp h.tailPos
      omega)
  rw [h.buffered, drop_read _ _ hlen, Nat.zero_add, discardData, if_neg hused]
  dsimp only
  split_ifs with hpos
  · -- the rest is moved to the front, where the head is
    have hsound : Sound { s with
        data := Patch.apply ⟨s.headPos.toNat, read s.data (s.headPos + len).toNat
          (s.tailPos - len - s.headPos).toNat⟩ s.data
        tailPos := s.tailPos - len } := ⟨h.headPos, htail⟩
    refine ⟨hsound, rfl, ?_⟩
    rw [hsound.buffered]
    dsimp only
    rw [h.headPos, UInt32.sub_zero, UInt32.zero_add, ← hsub]
    have hself := read_apply_self ⟨0, read s.data len.toNat (s.tailPos - len).toNat⟩ s.data
    rwa [length_read] at hself
  · have hsound : Sound { s with tailPos := s.tailPos - len } := ⟨h.headPos, htail⟩
    refine ⟨hsound, rfl, ?_⟩
    have hzero : (s.tailPos - len).toNat = 0 := by
      rw [h.headPos, UInt32.sub_zero, UInt32.lt_iff_toNat_lt] at hpos
      simpa using hpos
    rw [hsound.buffered]
    dsimp only
    rw [← hsub, hzero]
    rfl

end RopSession

/-! ## One message -/

namespace ModMsg

/-- The header of a message. -/
def head (msg : ModMsg) : List UInt8 :=
  leBytes 4 msg.tag.toNat ++ (leBytes 4 msg.sModule.toNat ++ (leBytes 4 msg.dModule.toNat ++
    leBytes 4 msg.len.toNat))

theorem encode_eq (msg : ModMsg) : msg.encode = msg.head ++ msg.payload := by
  simp only [encode, head, List.append_assoc]

theorem length_head (msg : ModMsg) : msg.head.length = MOD_MSG_LEN.toNat := by
  simp only [head, List.length_append, length_leBytes]
  rfl

theorem length_encode (msg : ModMsg) : msg.encode.length = msg.size := by
  rw [encode_eq, List.length_append, length_head, msg.length_payload, size]

theorem size_pos (msg : ModMsg) : 0 < msg.size := Nat.add_pos_left (by decide) _

/-- Bytes that a message stream starts with are a message and the front of the stream behind it,
if they are enough. -/
theorem exists_rest {msg : ModMsg} {bytes more : List UInt8} (hlen : msg.size ≤ bytes.length)
    (h : bytes <+: msg.encode ++ more) : ∃ rest, bytes = msg.encode ++ rest ∧ rest <+: more := by
  obtain ⟨behind, heq⟩ := h
  rcases List.append_eq_append_iff.mp heq with ⟨as, henc, hbehind⟩ | ⟨rest, hbytes, hmore⟩
  · have hnil : as = [] := by
      rw [← List.length_eq_zero_iff]
      have := congrArg List.length henc
      rw [List.length_append, length_encode] at this
      omega
    refine ⟨[], ?_, List.nil_prefix⟩
    rw [henc, hnil, List.append_nil, List.append_nil]
  · exact ⟨rest, hbytes, behind, hmore.symm⟩

/-- A word that was stored is read back. -/
theorem word_leBytes (x : UInt32) : word (leBytes 4 x.toNat) = x := by
  have hlt : x.toNat < 256 ^ 4 := x.toNat_lt
  rw [word, leNat_leBytes, Nat.mod_eq_of_lt hlt, UInt32.ofNat_toNat]

/-- Where the memory holds a header, the words of the message are found. -/
theorem cast_of_head {msg : ModMsg} {m : Mem} {off : ℕ} (h : read m off 16 = msg.head) :
    (cast m off).tag = msg.tag ∧ (cast m off).sModule = msg.sModule ∧
      (cast m off).dModule = msg.dModule ∧ (cast m off).len = msg.len := by
  have hread : read m off 16 = read m off 4 ++ (read m (off + 4) 4 ++ (read m (off + 8) 4 ++
      read m (off + 12) 4)) := by
    rw [← read_add m (off + 8) 4 4, ← read_add m (off + 4) 4 8, ← read_add m off 4 12]
  rw [hread, head] at h
  obtain ⟨htag, h⟩ := List.append_inj h (by simp)
  obtain ⟨hsrc, h⟩ := List.append_inj h (by simp)
  obtain ⟨hdst, hlen⟩ := List.append_inj h (by simp)
  exact ⟨(congrArg word htag).trans (word_leBytes _), (congrArg word hsrc).trans (word_leBytes _),
    (congrArg word hdst).trans (word_leBytes _), (congrArg word hlen).trans (word_leBytes _)⟩

/-- Where it holds all of a message, that message is found. -/
theorem cast_of_encode {msg : ModMsg} {m : Mem} {off : ℕ}
    (h : read m off msg.size = msg.encode) : cast m off = msg := by
  rw [size, read_add, encode_eq] at h
  obtain ⟨hhead, hpayload⟩ := List.append_inj h (by rw [length_read, length_head])
  obtain ⟨htag, hsrc, hdst, hlen⟩ := cast_of_head hhead
  have hpay : (cast m off).payload = read m (off + 16) (cast m off).len.toNat := rfl
  ext1
  · exact htag
  · exact hsrc
  · exact hdst
  · exact hlen
  · rw [hpay, hlen]
    exact hpayload

end ModMsg

namespace RopSession

variable {s : RopSession} {msg : ModMsg} {msgs : List ModMsg}

/-- In front of a message that the buffer has room for, `PeekMsg` waits until all of it has
arrived. -/
theorem peekMsg_of_prefix (htag : msg.tag = MAGIC_TAG)
    (hsize : msg.size ≤ s.bufLen.toNat) {more : List UInt8}
    (hpre : s.buffered <+: msg.encode ++ more) :
    s.peekMsg = if msg.size ≤ s.buffered.length then (some msg, s) else (none, s) := by
  have hused : (s.tailPos - s.headPos).toNat = s.buffered.length := (length_buffered s).symm
  have hfront : ∀ n ≤ s.buffered.length, n ≤ msg.size →
      read s.data s.headPos.toNat n = msg.encode.take n := by
    intro n hn hmsg
    obtain ⟨rest, heq⟩ := hpre
    have htake := congrArg (List.take n) heq
    rw [List.take_append_of_le_length hn,
      List.take_append_of_le_length (by rwa [ModMsg.length_encode]), RopSession.buffered,
      take_read _ _ (by rwa [← length_buffered])] at htake
    exact htake
  rw [peekMsg]
  simp only [UInt32.lt_iff_toNat_lt, hused]
  have hhead : MOD_MSG_LEN.toNat ≤ msg.size := Nat.le_add_right _ _
  by_cases hshort : s.buffered.length < MOD_MSG_LEN.toNat
  · rw [if_pos hshort, if_neg (by omega)]
  rw [if_neg hshort]
  -- the header is there, and says how long the message is
  have hcast : read s.data s.headPos.toNat 16 = msg.head := by
    rw [hfront 16 (Nat.not_lt.mp hshort) hhead, ModMsg.encode_eq]
    exact List.take_left' (ModMsg.length_head msg)
  obtain ⟨htag', -, -, hlen'⟩ := ModMsg.cast_of_head hcast
  have hsum : ((ModMsg.cast s.data s.headPos.toNat).len + MOD_MSG_LEN).toNat = msg.size := by
    rw [hlen', UInt32.toNat_add, Nat.mod_eq_of_lt, Nat.add_comm, ModMsg.size]
    rw [Nat.add_comm, ← ModMsg.size]
    exact hsize.trans_lt s.bufLen.toNat_lt
  rw [hsum, htag', htag]
  by_cases hall : msg.size ≤ s.buffered.length
  · rw [if_neg (Nat.not_lt.mpr hall), if_neg (by simp), if_pos hall]
    have henc := hfront msg.size hall le_rfl
    rw [← ModMsg.length_encode, List.take_length, ModMsg.length_encode] at henc
    rw [ModMsg.cast_of_encode henc]
  · rw [if_pos (Nat.not_le.mp hall), if_neg hall]

/-- Nothing is taken while `PeekMsg` waits. -/
theorem takeMsgs_of_none (h : s.peekMsg = (none, s)) (fuel : ℕ) : s.takeMsgs fuel = ([], s) := by
  cases fuel with
  | zero => rfl
  | succ fuel => rw [takeMsgs, h]

/-- `PeekMsg` waits for bytes. -/
theorem peekMsg_of_nil (h : s.buffered = []) : s.peekMsg = (none, s) := by
  rw [← List.length_eq_zero_iff, length_buffered, getDataCount] at h
  rw [peekMsg, if_pos (by rw [UInt32.lt_iff_toNat_lt, h]; decide)]

/-- From the front of a stream of messages the complete ones are taken. -/
theorem Sound.takeMsgs_of_prefix {fuel : ℕ} (h : s.Sound)
    (hmsgs : ∀ msg ∈ msgs, msg.tag = MAGIC_TAG ∧ msg.size ≤ s.bufLen.toNat)
    (hpre : s.buffered <+: msgs.flatMap ModMsg.encode) (hfuel : s.buffered.length ≤ fuel) :
    ∃ todo, msgs = (s.takeMsgs fuel).1 ++ todo ∧ (s.takeMsgs fuel).2.Sound ∧
      (s.takeMsgs fuel).2.bufLen = s.bufLen ∧
      s.buffered = (s.takeMsgs fuel).1.flatMap ModMsg.encode ++ (s.takeMsgs fuel).2.buffered ∧
      ∀ msg ∈ todo.head?, (s.takeMsgs fuel).2.buffered.length < msg.size := by
  induction msgs generalizing s fuel with
  | nil =>
    rw [takeMsgs_of_none (peekMsg_of_nil (List.prefix_nil.mp hpre))]
    exact ⟨[], rfl, h, rfl, rfl, by simp⟩
  | cons msg msgs ih =>
    obtain ⟨⟨htag, hsize⟩, hmsgs⟩ := List.forall_mem_cons.mp hmsgs
    rw [List.flatMap_cons] at hpre
    have hpeek := peekMsg_of_prefix htag hsize hpre
    by_cases hall : msg.size ≤ s.buffered.length
    · rw [if_pos hall] at hpeek
      obtain ⟨fuel, rfl⟩ : ∃ k, fuel = k + 1 :=
        Nat.exists_eq_succ_of_ne_zero (by have := msg.size_pos; omega)
      rw [takeMsgs, hpeek]
      dsimp only
      have hlen : (MOD_MSG_LEN + msg.len).toNat = msg.size := by
        rw [UInt32.toNat_add, ModMsg.size]
        exact Nat.mod_eq_of_lt (hsize.trans_lt s.bufLen.toNat_lt)
      have hle : (MOD_MSG_LEN + msg.len).toNat ≤ s.buffered.length := by rwa [hlen]
      obtain ⟨hsound, hbuf, hrest⟩ := h.discardData_of_le hle
      -- what is left is the front of the messages behind this one
      obtain ⟨rest, hbuffered, hpre'⟩ := ModMsg.exists_rest hall hpre
      rw [hbuffered, hlen, ← ModMsg.length_encode, List.drop_left] at hrest
      rw [← hrest] at hpre' hbuffered
      have hfuel' : (s.discardData (MOD_MSG_LEN + msg.len)).2.buffered.length ≤ fuel := by
        have hlen := congrArg List.length hbuffered
        rw [List.length_append, ModMsg.length_encode] at hlen
        have := msg.size_pos
        omega
      obtain ⟨todo, htodo, hsound', hbuf', hrest', hhead⟩ :=
        ih hsound (by rwa [hbuf]) hpre' hfuel'
      refine ⟨todo, ?_, hsound', hbuf'.trans hbuf, ?_, hhead⟩
      · rw [List.cons_append, ← htodo]
      · rw [List.flatMap_cons, List.append_assoc, ← hrest', hbuffered]
    · rw [if_neg hall] at hpeek
      rw [takeMsgs_of_none hpeek]
      exact ⟨msg :: msgs, rfl, h, rfl, rfl, by simpa using hall⟩

end RopSession

/-! ## A stream of messages -/

/-- The messages that are complete leave nothing over. -/
theorem leftOver_append {done todo : List ModMsg} {n : ℕ}
    (h : ∀ msg ∈ todo.head?, n < msg.size) :
    leftOver (done ++ todo) ((done.flatMap ModMsg.encode).length + n) = n := by
  induction done with
  | nil =>
    cases todo with
    | nil => simp [leftOver]
    | cons msg todo =>
      have hlt : n < msg.size := h msg rfl
      simp [leftOver, hlt]
  | cons msg done ih =>
    rw [List.cons_append, leftOver, List.flatMap_cons, List.length_append, ModMsg.length_encode,
      if_pos (by omega), Nat.add_assoc, Nat.add_sub_cancel_left, ih]

/-- The caller after the chunks `before`, all of which were accepted: it has the messages that are
complete, and the front of the next one is in the buffer. -/
structure Caller.Midway (bufLen : UInt32) (msgs : List ModMsg) (before : List Chunk) (c : Caller) :
    Prop where
  sound : c.session.Sound
  bufLen : c.session.bufLen = bufLen
  bytes : before.flatMap Chunk.bytes =
    c.obtained.flatMap ModMsg.encode ++ c.session.buffered
  todo : ∃ todo, msgs = c.obtained ++ todo ∧
    ∀ msg ∈ todo.head?, c.session.buffered.length < msg.size

/-- What the sender sends: messages that the buffer has room for. -/
def Sendable (bufLen : UInt32) (msgs : List ModMsg) : Prop :=
  ∀ msg ∈ msgs, msg.tag = MAGIC_TAG ∧ msg.size ≤ bufLen.toNat

namespace Caller

variable {bufLen : UInt32} {msgs : List ModMsg} {before : List Chunk} {c : Caller}

theorem midway_start (data : Mem) (chunks : List Chunk) (msgs : List ModMsg) :
    Midway bufLen msgs [] (start bufLen data chunks) where
  sound := RopSession.sound_new bufLen data
  bufLen := rfl
  bytes := (RopSession.buffered_new bufLen data).symm
  todo := by
    refine ⟨msgs, rfl, fun msg _ => ?_⟩
    rw [start, RopSession.buffered_new]
    exact msg.size_pos

/-- What is buffered is what the complete messages leave over. -/
theorem Midway.leftOver_eq (h : Midway bufLen msgs before c) :
    leftOver msgs (before.flatMap Chunk.bytes).length = c.session.buffered.length := by
  obtain ⟨todo, hmsgs, hhead⟩ := h.todo
  rw [h.bytes, List.length_append, hmsgs]
  exact leftOver_append hhead

/-- Between chunks `PeekMsg` waits. -/
theorem Midway.peekMsg (h : Midway bufLen msgs before c) (hmsgs : Sendable bufLen msgs)
    (hpre : before.flatMap Chunk.bytes <+: msgs.flatMap ModMsg.encode) :
    c.session.peekMsg = (none, c.session) := by
  obtain ⟨todo, rfl, hhead⟩ := h.todo
  rw [h.bytes, List.flatMap_append, List.prefix_append_right_inj] at hpre
  cases todo with
  | nil => exact RopSession.peekMsg_of_nil (List.prefix_nil.mp hpre)
  | cons msg todo =>
    obtain ⟨htag, hsize⟩ := hmsgs msg (List.mem_append_right _ (List.mem_cons_self ..))
    rw [List.flatMap_cons] at hpre
    rw [RopSession.peekMsg_of_prefix htag (by rwa [h.bufLen]) hpre,
      if_neg (Nat.not_le.mpr (hhead msg rfl))]

/-- A chunk that fits is accepted, and the messages that it completes are taken. -/
theorem Midway.feed_of_le (h : Midway bufLen msgs before c) (hmsgs : Sendable bufLen msgs)
    {buf : Chunk} {pending : List Chunk} (hpending : c.pending = buf :: pending)
    (hpre : (before ++ [buf]).flatMap Chunk.bytes <+: msgs.flatMap ModMsg.encode)
    (hfit : c.session.buffered.length + buf.bytes.length ≤ bufLen.toNat) :
    Midway bufLen msgs (before ++ [buf]) c.feed ∧ c.feed.pending = pending := by
  obtain ⟨hret, hsound, hbuf, hbuffered⟩ := h.sound.inputData_of_le (h.bufLen ▸ hfit)
  obtain ⟨todo, rfl, -⟩ := h.todo
  have hbytes : (before ++ [buf]).flatMap Chunk.bytes =
      c.obtained.flatMap ModMsg.encode ++ (c.session.inputData buf).2.buffered := by
    rw [List.flatMap_append, h.bytes, hbuffered, List.flatMap_singleton, List.append_assoc]
  rw [hbytes, List.flatMap_append, List.prefix_append_right_inj] at hpre
  have hroom : ∀ msg ∈ todo, msg.tag = MAGIC_TAG ∧
      msg.size ≤ (c.session.inputData buf).2.bufLen.toNat := fun msg hmsg => by
    rw [hbuf, h.bufLen]
    exact hmsgs msg (List.mem_append_right _ hmsg)
  obtain ⟨todo', htodo, hsound', hbuf', hrest, hhead⟩ := hsound.takeMsgs_of_prefix hroom hpre
    (RopSession.length_buffered _).le
  have hfeed : c.feed = ⟨((c.session.inputData buf).2.takeMsgs
      (c.session.inputData buf).2.getDataCount.toNat).2, pending, c.obtained ++
      ((c.session.inputData buf).2.takeMsgs (c.session.inputData buf).2.getDataCount.toNat).1⟩ := by
    rw [feed, hpending]
    dsimp only
    rw [if_pos hret]
  rw [hfeed]
  refine ⟨⟨hsound', hbuf'.trans (hbuf.trans h.bufLen), ?_, todo', ?_, hhead⟩, rfl⟩
  · rw [hbytes, List.flatMap_append, List.append_assoc, ← hrest]
  · rw [List.append_assoc, ← htodo]

/-- Any other is refused, and will be the next time. -/
theorem Midway.feed_of_lt (h : Midway bufLen msgs before c) (hmsgs : Sendable bufLen msgs)
    {buf : Chunk} {pending : List Chunk} (hpending : c.pending = buf :: pending)
    (hpre : before.flatMap Chunk.bytes <+: msgs.flatMap ModMsg.encode)
    (hfit : bufLen.toNat < c.session.buffered.length + buf.bytes.length) : c.feed = c := by
  have hrefused := h.sound.inputData_of_lt (h.bufLen ▸ hfit)
  have hne : (0 : UInt32) ≠ buf.len := by
    have hle := h.sound.length_buffered_le
    rw [h.bufLen] at hle
    rw [buf.length_bytes] at hfit
    intro hzero
    rw [← hzero] at hfit
    exact absurd hle (Nat.not_le.mpr hfit)
  rw [feed, hpending]
  dsimp only
  rw [hrefused, RopSession.takeMsgs_of_none (h.peekMsg hmsgs hpre), if_neg hne, List.append_nil,
    ← hpending]

/-- As long as the chunks fit they are accepted one by one. -/
theorem midway_iterate (data : Mem) {chunks : List Chunk} (hmsgs : Sendable bufLen msgs)
    (hbytes : chunks.flatMap Chunk.bytes = msgs.flatMap ModMsg.encode) (k : ℕ)
    (hfit : ∀ before buf, before.length < k → before ++ [buf] <+: chunks →
      leftOver msgs (before.flatMap Chunk.bytes).length + buf.bytes.length ≤ bufLen.toNat) :
    Midway bufLen msgs (chunks.take k) (feed^[k] (start bufLen data chunks)) ∧
      (feed^[k] (start bufLen data chunks)).pending = chunks.drop k := by
  induction k with
  | zero => exact ⟨midway_start data chunks msgs, rfl⟩
  | succ k ih =>
    obtain ⟨hmid, hpending⟩ := ih fun before buf hlt => hfit before buf (Nat.lt_succ_of_lt hlt)
    rw [Function.iterate_succ_apply']
    rcases Nat.lt_or_ge k chunks.length with hlt | hge
    · rw [← List.getElem_cons_drop hlt] at hpending
      have hpre : chunks.take k ++ [chunks[k]] <+: chunks := by
        rw [List.take_append_getElem hlt]
        exact List.take_prefix _ _
      have hone := hfit _ _ (by rw [List.length_take]; omega) hpre
      rw [hmid.leftOver_eq] at hone
      rw [← List.take_append_getElem hlt]
      exact hmid.feed_of_le hmsgs hpending (hbytes ▸ hpre.flatMap _) hone
    · rw [List.drop_of_length_le hge] at hpending
      rw [List.drop_of_length_le (by omega), List.take_of_length_le (by omega)]
      rw [List.take_of_length_le hge] at hmid
      have hfeed : ∀ c : Caller, c.pending = [] → c.feed = c := fun c hc => by rw [feed, hc]
      rw [hfeed _ hpending]
      exact ⟨hmid, hpending⟩

/-- When all bytes of the messages have been accepted, the caller has all messages. -/
theorem Midway.obtained_eq (h : Midway bufLen msgs before c)
    (hbytes : before.flatMap Chunk.bytes = msgs.flatMap ModMsg.encode) : c.obtained = msgs := by
  obtain ⟨todo, rfl, hhead⟩ := h.todo
  rw [h.bytes, List.flatMap_append, List.append_cancel_left_eq] at hbytes
  cases todo with
  | nil => exact (List.append_nil _).symm
  | cons msg todo =>
    have hlt := hhead msg rfl
    rw [hbytes, List.flatMap_cons, List.length_append, ModMsg.length_encode] at hlt
    omega

/-- When the caller has all messages, nothing is left that could be refused. -/
theorem Midway.fits_of_obtained (h : Midway bufLen msgs before c) (hobtained : c.obtained = msgs)
    {buf : Chunk} (hpre : (before ++ [buf]).flatMap Chunk.bytes <+: msgs.flatMap ModMsg.encode) :
    leftOver msgs (before.flatMap Chunk.bytes).length + buf.bytes.length ≤ bufLen.toNat := by
  have hlen := hpre.length_le
  rw [List.flatMap_append, List.length_append, List.flatMap_singleton, h.bytes,
    List.length_append, hobtained] at hlen
  rw [h.leftOver_eq]
  omega

end Caller

/-- A sender that keeps to the format gets its messages through exactly if every chunk fits beside
what the complete messages before it leave over. -/
theorem delivered_iff {bufLen : UInt32} {data : Mem} {chunks : List Chunk} {msgs : List ModMsg}
    (hmsgs : Sendable bufLen msgs)
    (hbytes : chunks.flatMap Chunk.bytes = msgs.flatMap ModMsg.encode) :
    Delivered bufLen data chunks msgs ↔ ChunksFit bufLen msgs chunks := by
  constructor
  · rintro ⟨n, hn⟩
    have hall : ∀ k before buf, before.length < k → before ++ [buf] <+: chunks →
        leftOver msgs (before.flatMap Chunk.bytes).length + buf.bytes.length ≤ bufLen.toNat := by
      intro k
      induction k with
      | zero => exact fun before buf hlt => absurd hlt (Nat.not_lt_zero _)
      | succ k ih =>
        intro before buf hlt hpre
        rcases Nat.lt_or_ge before.length k with hlt' | hge
        · exact ih before buf hlt' hpre
        -- the caller comes to this chunk, and cannot go on if it does not fit
        obtain rfl : before.length = k := by omega
        obtain ⟨rest, hrest⟩ := hpre
        obtain ⟨hmid, hpending⟩ :=
          Caller.midway_iterate data hmsgs hbytes before.length ih
        have hdrop : chunks.drop before.length = buf :: rest := by
          rw [← hrest, List.append_assoc, List.drop_left, List.singleton_append]
        rw [hdrop] at hpending
        have htake : chunks.take before.length = before := by
          rw [← hrest, List.append_assoc, List.take_left]
        rw [htake] at hmid
        have hpre : (before ++ [buf]).flatMap Chunk.bytes <+: msgs.flatMap ModMsg.encode := by
          rw [← hbytes, ← hrest]
          exact (List.prefix_append _ _).flatMap _
        by_contra hnot
        have hfixed := hmid.feed_of_lt hmsgs hpending
          (((List.prefix_append before [buf]).flatMap _).trans hpre)
          (by rw [← hmid.leftOver_eq]; exact Nat.not_le.mp hnot)
        have hobtained := hn (n + before.length) (Nat.le_add_right _ _)
        rw [Function.iterate_add_apply, Function.iterate_fixed hfixed] at hobtained
        exact hnot (hmid.fits_of_obtained hobtained hpre)
    exact fun before buf hpre => hall _ before buf (Nat.lt_succ_self _) hpre
  · intro hfit
    refine ⟨chunks.length, fun k hk => ?_⟩
    obtain ⟨hmid, -⟩ := Caller.midway_iterate data hmsgs hbytes k
      fun before buf _ => hfit before buf
    rw [List.take_of_length_le hk] at hmid
    exact hmid.obtained_eq hbytes

/-! ## Any bytes -/

namespace RopSession

variable {s : RopSession}

/-- `PeekMsg` with the sums of the numbers that it compares. -/
theorem peekMsg_eq (s : RopSession) :
    s.peekMsg =
      if s.getDataCount.toNat < MOD_MSG_LEN.toNat then (none, s)
      else if s.getDataCount.toNat <
          (ModMsg.cast s.data s.headPos.toNat).size % UInt32.size then (none, s)
      else if (ModMsg.cast s.data s.headPos.toNat).tag ≠ MAGIC_TAG then (none, s.reset)
      else (some (ModMsg.cast s.data s.headPos.toNat), s) := by
  simp only [peekMsg, UInt32.lt_iff_toNat_lt, UInt32.toNat_add, getDataCount, ModMsg.size,
    Nat.add_comm MOD_MSG_LEN.toNat]

/-- A session with bytes in it has not been reset. -/
theorem Sound.ne_reset (h : s.Sound) (hpos : s.getDataCount ≠ 0) : s ≠ s.reset := by
  intro heq
  rw [h.getDataCount] at hpos
  exact hpos (congrArg RopSession.tailPos heq)

theorem MOD_MSG_LEN_toNat : MOD_MSG_LEN.toNat = 16 := rfl

/-- A peek is a good one exactly where the guard allows it. -/
theorem Sound.peekOk_iff (h : s.Sound) :
    PeekOk s .peekMsg s.peekMsg.2 ↔ peekGuard s .peekMsg := by
  have hle := h.length_buffered_le
  rw [length_buffered] at hle
  have hlt := s.bufLen.toNat_lt
  have hpeek := peekMsg_eq s
  rw [PeekOk, peekGuard]
  have hsize := (ModMsg.cast s.data s.headPos.toNat).len.toNat_lt
  generalize hcast : ModMsg.cast s.data s.headPos.toNat = msg at hpeek hsize ⊢
  rw [UInt32.le_iff_toNat_le, MOD_MSG_LEN_toNat]
  rw [ MOD_MSG_LEN_toNat] at hpeek
  have hmsg : msg.size = 16 + msg.len.toNat := rfl
  rcases Nat.lt_or_ge s.getDataCount.toNat 16 with hshort | hhead
  · rw [if_pos hshort] at hpeek
    rw [hpeek]
    refine iff_of_true ⟨nofun, fun hge => absurd hge (Nat.not_le.mpr hshort)⟩ fun hge => ?_
    exact absurd hge (Nat.not_le.mpr hshort)
  have hne := h.ne_reset fun hzero => by rw [hzero] at hhead; exact absurd hhead (by decide)
  rw [if_neg (Nat.not_lt.mpr hhead)] at hpeek
  simp only [hhead, forall_const]
  by_cases htag : msg.tag = MAGIC_TAG
  · rw [if_pos htag]
    by_cases hfit : msg.size ≤ s.bufLen.toNat
    · -- a message that will be returned when all of it is there
      have hmod : msg.size % UInt32.size = msg.size := Nat.mod_eq_of_lt (hfit.trans_lt hlt)
      refine iff_of_true ⟨fun peeked hpeeked => ?_, ?_⟩ hfit
      · rw [hpeek, hmod, if_neg (not_not.mpr htag)] at hpeeked
        split_ifs at hpeeked with hwait
        obtain rfl := Option.some.inj hpeeked
        exact Nat.not_lt.mp hwait
      · rintro (hne | hgt)
        · exact absurd htag hne
        · exact absurd hfit (Nat.not_le.mpr hgt)
    · -- one that never fits is waited for, or returned where the sum wraps around
      refine iff_of_false (fun hok => ?_) hfit
      obtain ⟨hnone, hreset⟩ := hok.2 (.inr (Nat.not_le.mp hfit))
      rw [hpeek, if_neg (not_not.mpr htag)] at hnone hreset
      split_ifs at hnone hreset
      exact hne hreset
  · rw [if_neg htag]
    rw [if_pos htag] at hpeek
    split_ifs at hpeek with hwait
    · -- the length is looked at first
      refine iff_of_false (fun hok => ?_) fun hguard => ?_
      · obtain ⟨-, hreset⟩ := hok.2 (.inl htag)
        rw [hpeek] at hreset
        exact hne hreset
      · simp only [UInt32.size] at hwait hguard hlt
        omega
    · refine iff_of_true ⟨?_, fun _ => ?_⟩ ?_
      · rw [hpeek]
        exact nofun
      · rw [hpeek]
        exact ⟨rfl, rfl⟩
      · simp only [UInt32.size] at hwait hlt ⊢
        omega

/-- A call leaves the bytes at the front of the buffer. -/
theorem Sound.next (h : s.Sound) (call : SessionCall) : (s.next call).Sound := by
  cases call with
  | inputData buf =>
    rcases Nat.lt_or_ge s.bufLen.toNat (s.buffered.length + buf.bytes.length) with hlt | hge
    · rw [RopSession.next, h.inputData_of_lt hlt]
      exact h
    · exact (h.inputData_of_le hge).2.1
  | peekMsg =>
    rw [RopSession.next, RopSession.peekMsg]
    dsimp only
    split_ifs
    · exact h
    · exact h
    · exact sound_reset s
    · exact h
  | discardData len =>
    rcases Nat.lt_or_ge s.buffered.length len.toNat with hlt | hge
    · rw [length_buffered, ← UInt32.lt_iff_toNat_lt, RopSession.getDataCount] at hlt
      rw [RopSession.next, discardData, if_pos hlt]
      exact h
    · exact (h.discardData_of_le hge).1
  | reset => exact sound_reset s

/-- A call is a good one exactly where the guard allows it. -/
theorem Sound.callOk_iff (h : s.Sound) (call : SessionCall) :
    PeekOk s call (s.next call) ↔ peekGuard s call := by
  cases call with
  | peekMsg => exact h.peekOk_iff
  | inputData buf => exact Iff.rfl
  | discardData len => exact Iff.rfl
  | reset => exact Iff.rfl

end RopSession

/-- A session reassembles the messages of a sender that keeps to the format exactly if every chunk
fits beside what the complete messages before it leave over; and whatever is put into it, its
peeks are good ones exactly where the guard allows them. -/
theorem reassembles_iff (bufLen : UInt32) (data : Mem) :
    (∀ msgs chunks, Sendable bufLen msgs →
      chunks.flatMap Chunk.bytes = msgs.flatMap ModMsg.encode →
      (Delivered bufLen data chunks msgs ↔ ChunksFit bufLen msgs chunks)) ∧
    ∀ calls, Along PeekOk (.new bufLen data) (runOf RopSession.next (.new bufLen data) calls) ↔
      Guarded peekGuard (.new bufLen data) (runOf RopSession.next (.new bufLen data) calls) := by
  refine ⟨fun msgs chunks hmsgs hbytes => delivered_iff hmsgs hbytes, fun calls => ?_⟩
  have hguard : ∀ (s : RopSession) (call : SessionCall) (s' : RopSession), s.Sound →
      s' = s.next call → peekGuard s call → PeekOk s call s' ∧ s'.Sound := by
    rintro s call _ h rfl hguard
    exact ⟨(h.callOk_iff call).mpr hguard, h.next call⟩
  refine along_iff_guarded hguard ?_ (RopSession.sound_new bufLen data)
    (isRun_runOf RopSession.next _ calls)
  rintro s call _ h rfl hok
  exact (h.callOk_iff call).mp hok

/-! ## A good sender and a bad one -/

/-- A message with one byte of payload. -/
def shortMsg : ModMsg := ⟨MAGIC_TAG, 2, 4, 1, [7], rfl⟩

/-- It comes in two chunks. -/
def shortChunks : List Chunk :=
  [⟨shortMsg.encode.take 10, 10, rfl⟩, ⟨shortMsg.encode.drop 10, 7, rfl⟩]

theorem reassembles_shortMsg :
    Delivered 32 (fun _ => 0) shortChunks [shortMsg] ∧
      Along PeekOk (.new 32 fun _ => 0) (runOf RopSession.next (.new 32 fun _ => 0)
        [.peekMsg, .reset]) := by
  obtain ⟨hdelivered, hpeeks⟩ := reassembles_iff 32 fun _ => 0
  refine ⟨(hdelivered [shortMsg] shortChunks ?_ rfl).mpr ?_,
    (hpeeks _).mpr ⟨nofun, trivial, trivial⟩⟩
  · intro msg hmsg
    rw [List.mem_singleton.mp hmsg]
    decide
  · intro before buf hpre
    have hlen := hpre.length_le
    match before with
    | [] =>
      obtain ⟨rfl, -⟩ := List.cons_prefix_cons.mp hpre
      decide
    | [first] =>
      obtain ⟨rfl, hrest⟩ := List.cons_prefix_cons.mp hpre
      obtain ⟨rfl, -⟩ := List.cons_prefix_cons.mp hrest
      decide
    | _ :: _ :: rest =>
      simp [shortChunks] at hlen

/-- A header that announces all of the memory but its last 16 bytes. -/
def hugeHead : Chunk :=
  ⟨leBytes 4 MAGIC_TAG.toNat ++ (leBytes 4 2 ++ (leBytes 4 4 ++ leBytes 4 0xFFFFFFF0)), 16, rfl⟩

/-- A header without the tag. -/
def wrongHead : Chunk :=
  ⟨leBytes 4 0 ++ (leBytes 4 2 ++ (leBytes 4 4 ++ leBytes 4 1000)), 16, rfl⟩

/-- The first header is returned as a message, the second is waited for, and the second of two
chunks is refused again and again. -/
theorem not_reassembles :
    ¬Along PeekOk (.new 64 fun _ => 0) (runOf RopSession.next (.new 64 fun _ => 0)
        [.inputData hugeHead, .peekMsg]) ∧
    ¬Along PeekOk (.new 64 fun _ => 0) (runOf RopSession.next (.new 64 fun _ => 0)
        [.inputData wrongHead, .peekMsg]) ∧
    ¬∀ msgs chunks, Sendable 20 msgs →
      chunks.flatMap Chunk.bytes = msgs.flatMap ModMsg.encode →
      Delivered 20 (fun _ => 0) chunks msgs := by
  refine ⟨fun h => ?_, fun h => ?_, fun h => ?_⟩
  · have hguard := ((RopSession.sound_new 64 fun _ => 0).next (.inputData hugeHead)).peekOk_iff.mp
      h.2.1 (by decide)
    rw [if_pos (by decide)] at hguard
    exact absurd hguard (by decide)
  · have hguard := ((RopSession.sound_new 64 fun _ => 0).next (.inputData wrongHead)).peekOk_iff.mp
      h.2.1 (by decide)
    rw [if_neg (by decide)] at hguard
    exact absurd hguard (by decide)
  · let chunks : List Chunk := [⟨shortMsg.encode.take 16, 16, rfl⟩,
      ⟨shortMsg.encode.drop 16 ++ shortMsg.encode, 18, rfl⟩]
    have hsend : Sendable 20 [shortMsg, shortMsg] := by
      intro msg hmsg
      obtain rfl : msg = shortMsg := by simpa using hmsg
      decide
    have hdelivered : Delivered 20 (fun _ => 0) chunks [shortMsg, shortMsg] := h _ _ hsend rfl
    have hfit := (delivered_iff hsend rfl).mp hdelivered
    exact absurd (hfit [chunks[0]] chunks[1] (List.prefix_refl _)) (by decide)

end Gendo.Client
