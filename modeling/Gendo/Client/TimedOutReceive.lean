import Gendo.Client.Session
import Gendo.Client.SyncMsg

/-!
# Receiving with time-outs

`RopSyncMsg::RecvAndWaitMsg` has two overloads, for two heads. Both count the bytes they have in a
local variable and return when a read times out, so the bytes of a message that has arrived in part
are lost to the next call.

`receivesAll_iff` says which schedules of chunks and time-outs give all messages to a caller who
calls again after a time-out: those where each time-out comes between two messages.
-/

namespace Gendo.Client

open ByteMemory

/-- The overloads, by the type of `buf`. -/
inductive RecvOverload
  /-- `PModMsg` -/
  | modMsg
  /-- `pmsg_head_t` -/
  | msgHead
  deriving DecidableEq, Repr

/-- The word at an offset of a head. -/
def headWord (head : List UInt8) (off : ℕ) : UInt32 := .ofNat (leNat ((head.drop off).take 4))

namespace RecvOverload

/-- `sizeof(ModMsg)` or `sizeof(msg_head_t)`. -/
def headLen : RecvOverload → ℕ
  | modMsg => 16
  | msgHead => 8

/-- `pMsg->len` -/
def len : RecvOverload → List UInt8 → UInt32
  | modMsg, head => headWord head 12
  | msgHead, head => headWord head 4

/-- `MOD_HEAD_SANITY` or `MSG_HEAD_SANITY`. -/
def headSanity : RecvOverload → List UInt8 → Bool
  | modMsg, head => headWord head 12 < MAX_MSG_LEN && headWord head 0 = MAGIC_TAG
  | msgHead, head => MSG_HEAD_SANITY (headWord head 0) (headWord head 4)

theorem headLen_pos (o : RecvOverload) : 0 < o.headLen := by cases o <;> decide

end RecvOverload

/-- What `RecvAndWaitMsg` returns, if it does, what it stored in the buffer, and the answers that
it left. -/
structure RecvMsgCall where
  ret : Option ℤ
  stored : List UInt8
  rest : List RecvAnswer
  deriving DecidableEq, Repr

/-- `RopSyncMsg::RecvAndWaitMsg` into a buffer of `len` bytes. -/
def RecvOverload.recvAndWaitMsg (o : RecvOverload) (len : UInt32) (answers : List RecvAnswer) :
    RecvMsgCall :=
  let head := recvLoop o.headLen answers
  if head.stop ≠ .full then ⟨head.stop.ret, head.stored, head.rest⟩
  else if ¬o.headSanity head.stored then ⟨some (-1), head.stored, head.rest⟩
  else if o.len head.stored > len - .ofNat o.headLen then ⟨some (-1), head.stored, head.rest⟩
  else
    let body := recvLoop (o.len head.stored).toNat head.rest
    if body.stop ≠ .full then ⟨body.stop.ret, head.stored ++ body.stored, body.rest⟩
    else ⟨some (o.headLen + (o.len head.stored).toNat : ℕ), head.stored ++ body.stored, body.rest⟩

theorem length_stored_of_full {nleft : ℕ} {answers : List RecvAnswer}
    (h : (recvLoop nleft answers).stop = .full) :
    (recvLoop nleft answers).stored.length = nleft := by
  fun_induction recvLoop nleft answers with
  | case1 => rfl
  | case2 | case4 | case5 | case6 => cases h
  | case3 => rfl
  | case7 nleft hzero rest bs hbs hfit call ih =>
    rw [List.length_append, ih h]
    omega
  | case8 nleft hzero rest bs hbs hfit => exact List.length_take_of_le (by omega)

/-- The overload for `pmsg_head_t` is the one that logs in. -/
theorem recvAndWaitMsg_msgHead (len : UInt32) (answers : List RecvAnswer) :
    recvAndWaitMsg len answers = ⟨(RecvOverload.msgHead.recvAndWaitMsg len answers).ret,
      (RecvOverload.msgHead.recvAndWaitMsg len answers).stored⟩ := by
  have hheadLen : RecvOverload.msgHead.headLen = MSG_HEAD_LEN.toNat := rfl
  have hroom : UInt32.ofNat MSG_HEAD_LEN.toNat = MSG_HEAD_LEN.toUInt32 := rfl
  rw [recvAndWaitMsg, RecvOverload.recvAndWaitMsg, hheadLen, hroom]
  dsimp only
  by_cases hstop : (recvLoop MSG_HEAD_LEN.toNat answers).stop = .full
  · have hlen : (recvLoop MSG_HEAD_LEN.toNat answers).stored.length = 8 :=
      length_stored_of_full hstop
    have hsecond : (List.drop 4 (recvLoop MSG_HEAD_LEN.toNat answers).stored).length ≤ 4 := by
      rw [List.length_drop, hlen]
    simp only [RecvOverload.headSanity, RecvOverload.len, headWord, hstop, List.drop_zero,
      List.take_of_length_le hsecond]
    split_ifs <;> rfl
  · simp only [hstop, ne_eq, not_false_eq_true, if_true]

/-! ## The caller -/

/-- What is still to come, in bytes and answers. -/
def answersLeft : List RecvAnswer → ℕ
  | [] => 0
  | .data bs :: rest => bs.length + 1 + answersLeft rest
  | _ :: rest => 1 + answersLeft rest

theorem answersLeft_recvLoop_le (nleft : ℕ) (answers : List RecvAnswer) :
    answersLeft (recvLoop nleft answers).rest ≤ answersLeft answers ∧
      (0 < nleft → (recvLoop nleft answers).stop ≠ .waiting →
        answersLeft (recvLoop nleft answers).rest < answersLeft answers) := by
  induction answers generalizing nleft with
  | nil =>
    rw [recvLoop]
    split_ifs with hzero
    · exact ⟨Nat.le_refl _, fun hpos => absurd hzero hpos.ne'⟩
    · exact ⟨Nat.le_refl _, fun _ hne => absurd rfl hne⟩
  | cons answer answers ih =>
    by_cases hzero : nleft = 0
    · subst hzero
      refine ⟨?_, fun hpos => absurd rfl hpos.ne'⟩
      simp [recvLoop]
    · cases answer with
      | error | again =>
        rw [recvLoop, if_neg hzero]
        simp only [answersLeft]
        omega
      | data bs =>
        rw [recvLoop, if_neg hzero]
        have hle := (ih (nleft - bs.length)).1
        by_cases hbs : bs = []
        · simp only [hbs, if_true, answersLeft, List.length_nil]
          omega
        · have hpos := List.length_pos_iff.mpr hbs
          by_cases hfit : bs.length ≤ nleft
          · simp only [hbs, hfit, if_true, if_false, answersLeft]
            omega
          · simp only [hbs, hfit, if_false, answersLeft, List.length_drop]
            omega

theorem answersLeft_recvAndWaitMsg_lt {o : RecvOverload} {len : UInt32}
    {answers : List RecvAnswer} (h : (o.recvAndWaitMsg len answers).ret ≠ none) :
    answersLeft (o.recvAndWaitMsg len answers).rest < answersLeft answers := by
  have hhead := (answersLeft_recvLoop_le o.headLen answers).2 o.headLen_pos
  have hbody := fun n => (answersLeft_recvLoop_le n (recvLoop o.headLen answers).rest).1
  rw [RecvOverload.recvAndWaitMsg] at h ⊢
  dsimp only at h ⊢
  split_ifs at h ⊢ with hstop
  · refine hhead fun hwait => h ?_
    rw [hwait]
    rfl
  all_goals
    have hfull := hhead (by rw [not_not.mp hstop]; simp)
    first
    | exact hfull
    | exact Nat.lt_of_le_of_lt (hbody _) hfull

/-- The messages that a caller obtains who calls again after each message and each time-out, and
stops at any other error. -/
def RecvOverload.receiveAll (o : RecvOverload) (len : UInt32) (answers : List RecvAnswer) :
    List (List UInt8) :=
  match _h : (o.recvAndWaitMsg len answers).ret with
  | none => []
  | some i =>
    if i = -WSAETIMEDOUT then o.receiveAll len (o.recvAndWaitMsg len answers).rest
    else if 0 < i then
      (o.recvAndWaitMsg len answers).stored :: o.receiveAll len (o.recvAndWaitMsg len answers).rest
    else []
termination_by answersLeft answers
decreasing_by
  all_goals exact answersLeft_recvAndWaitMsg_lt (by simp [_h])

/-- A message that the overload lets through, and that fits a buffer of `len` bytes. -/
structure RecvOverload.ValidMsg (o : RecvOverload) (len : UInt32) (m : List UInt8) : Prop where
  length : m.length = o.headLen + (o.len (m.take o.headLen)).toNat
  sane : o.headSanity (m.take o.headLen) = true
  fits : m.length ≤ len.toNat

/-! ## Schedules -/

/-- The bytes that the socket delivers. -/
def delivered : List RecvAnswer → List UInt8
  | [] => []
  | .data bs :: rest => bs ++ delivered rest
  | _ :: rest => delivered rest

/-- How many bytes come before each time-out. -/
def timeouts : List RecvAnswer → List ℕ
  | [] => []
  | .again :: rest => 0 :: timeouts rest
  | .data bs :: rest => (timeouts rest).map (bs.length + ·)
  | .error :: rest => timeouts rest

/-- The socket delivers bytes and times out, and nothing else. -/
def Schedule (answers : List RecvAnswer) : Prop :=
  ∀ a ∈ answers, a = .again ∨ ∃ bs, bs ≠ [] ∧ a = .data bs

/-- So many bytes are some of the messages, from the first on. -/
def Boundary (ms : List (List UInt8)) (n : ℕ) : Prop := ∃ k, n = (ms.take k).flatten.length

/-! ## One call -/

/-- From the answers the bytes `stored` were taken, and the time-outs after the bytes `now`; the
others are left. -/
structure Takes (answers : List RecvAnswer) (stored : List UInt8) (now : List ℕ)
    (rest : List RecvAnswer) : Prop where
  schedule : Schedule rest
  delivered : delivered answers = stored ++ delivered rest
  timeouts : timeouts answers = now ++ (timeouts rest).map (stored.length + ·)

section Takes

variable {answers rest rest' : List RecvAnswer} {stored stored' : List UInt8} {now : List ℕ}

theorem takes_nil (h : Schedule answers) : Takes answers [] [] answers :=
  ⟨h, rfl, by simp⟩

theorem Takes.trans (h : Takes answers stored [] rest) (h' : Takes rest stored' now rest') :
    Takes answers (stored ++ stored') (now.map (stored.length + ·)) rest' where
  schedule := h'.schedule
  delivered := by rw [h.delivered, h'.delivered, List.append_assoc]
  timeouts := by
    rw [h.timeouts, h'.timeouts, List.nil_append, List.map_append, List.map_map,
      List.length_append]
    simp only [Function.comp_def, Nat.add_assoc]

/-- A loop over a schedule takes its bytes, or ends with a time-out, or waits for more. -/
theorem recvLoop_takes (h : Schedule answers) (nleft : ℕ) :
    (recvLoop nleft answers).stop = .full ∧ (recvLoop nleft answers).stored.length = nleft ∧
        Takes answers (recvLoop nleft answers).stored [] (recvLoop nleft answers).rest ∨
      (recvLoop nleft answers).stop = .failed (-WSAETIMEDOUT) ∧
        (recvLoop nleft answers).stored.length < nleft ∧
        Takes answers (recvLoop nleft answers).stored [(recvLoop nleft answers).stored.length]
          (recvLoop nleft answers).rest ∨
      (recvLoop nleft answers).stop = .waiting ∧ (recvLoop nleft answers).stored.length < nleft ∧
        Takes answers (recvLoop nleft answers).stored [] (recvLoop nleft answers).rest ∧
        (recvLoop nleft answers).rest = [] := by
  induction answers generalizing nleft with
  | nil =>
    rw [recvLoop]
    split_ifs with hzero
    · exact .inl ⟨rfl, hzero.symm, takes_nil h⟩
    · exact .inr (.inr ⟨rfl, Nat.pos_of_ne_zero hzero, takes_nil h, rfl⟩)
  | cons answer answers ih =>
    by_cases hzero : nleft = 0
    · subst hzero
      have hcall : recvLoop 0 (answer :: answers) = ⟨.full, [], answer :: answers⟩ := by
        simp [recvLoop]
      rw [hcall]
      exact .inl ⟨rfl, rfl, takes_nil h⟩
    · obtain ⟨hanswer, hrest⟩ := List.forall_mem_cons.mp h
      rcases hanswer with rfl | ⟨bs, hbs, rfl⟩
      · rw [recvLoop, if_neg hzero]
        refine .inr (.inl ⟨rfl, Nat.pos_of_ne_zero hzero, hrest, rfl, ?_⟩)
        simp [timeouts]
      · rw [recvLoop, if_neg hzero]
        simp only [hbs, if_false]
        by_cases hfit : bs.length ≤ nleft
        · have hchunk : Takes (.data bs :: answers) bs [] answers := ⟨hrest, rfl, rfl⟩
          rw [if_pos hfit]
          simp only [List.length_append]
          rcases ih hrest (nleft - bs.length) with ⟨hstop, hlen, htakes⟩ | ⟨hstop, hlen, htakes⟩ |
            ⟨hstop, hlen, htakes, hend⟩
          · exact .inl ⟨hstop, by omega, hchunk.trans htakes⟩
          · exact .inr (.inl ⟨hstop, by omega, hchunk.trans htakes⟩)
          · exact .inr (.inr ⟨hstop, by omega, hchunk.trans htakes, hend⟩)
        · -- the chunk is more than what is left to read
          have hlen : (bs.take nleft).length = nleft := List.length_take_of_le (by omega)
          rw [if_neg hfit]
          refine .inl ⟨rfl, hlen, ?_, ?_, ?_⟩
          · intro a ha
            rcases List.mem_cons.mp ha with rfl | ha
            · exact .inr ⟨_, by rw [ne_eq, List.drop_eq_nil_iff]; omega, rfl⟩
            · exact hrest a ha
          · rw [delivered, delivered, ← List.append_assoc, List.take_append_drop]
          · rw [timeouts, timeouts, List.nil_append, List.map_map, hlen, List.length_drop]
            refine List.map_congr_left fun n _ => ?_
            show bs.length + n = nleft + (bs.length - nleft + n)
            omega

end Takes

namespace RecvOverload

/-- How long the message is that the bytes start, or the head while it is not there. -/
def wanted (o : RecvOverload) (stored : List UInt8) : ℕ :=
  if stored.length < o.headLen then o.headLen
  else o.headLen + (o.len (stored.take o.headLen)).toNat

/-- How a call ends. -/
inductive Ends (o : RecvOverload) (len : UInt32) (answers : List RecvAnswer) :
    RecvMsgCall → Prop
  | waits {stored} : stored.length < o.wanted stored → Takes answers stored [] [] →
      Ends o len answers ⟨none, stored, []⟩
  | timesOut {stored rest} : stored.length < o.wanted stored →
      Takes answers stored [stored.length] rest →
      Ends o len answers ⟨some (-WSAETIMEDOUT), stored, rest⟩
  | returns {stored rest} {i : ℕ} : 0 < i → stored.length = o.wanted stored →
      o.headLen ≤ stored.length → Takes answers stored [] rest →
      Ends o len answers ⟨some i, stored, rest⟩
  | refuses {stored rest} : stored.length = o.headLen → Takes answers stored [] rest →
      (o.headSanity stored = false ∨ o.len stored > len - .ofNat o.headLen) →
      Ends o len answers ⟨some (-1), stored, rest⟩

/-- A call over a schedule waits for more, times out, returns a message or refuses a head. -/
theorem ends (o : RecvOverload) (len : UInt32) {answers : List RecvAnswer}
    (h : Schedule answers) : o.Ends len answers (o.recvAndWaitMsg len answers) := by
  have hpos := o.headLen_pos
  rw [recvAndWaitMsg]
  dsimp only
  rcases recvLoop_takes h o.headLen with ⟨hstop, hlen, htakes⟩ | ⟨hstop, hlen, htakes⟩ |
    ⟨hstop, hlen, htakes, hend⟩
  · rw [if_neg (not_not_intro hstop)]
    generalize recvLoop o.headLen answers = head at hlen htakes
    by_cases hsane : o.headSanity head.stored = true
    swap
    · rw [if_pos hsane]
      exact .refuses hlen htakes (.inl (Bool.eq_false_of_not_eq_true hsane))
    rw [if_neg (not_not_intro hsane)]
    by_cases hlarge : o.len head.stored > len - .ofNat o.headLen
    · rw [if_pos hlarge]
      exact .refuses hlen htakes (.inr hlarge)
    rw [if_neg hlarge]
    -- behind a head that is accepted, its length tells what is wanted
    have hwanted : ∀ more, o.wanted (head.stored ++ more) =
        o.headLen + (o.len head.stored).toNat := by
      intro more
      rw [wanted, List.take_left' hlen, if_neg (by rw [List.length_append]; omega)]
    have hloop := recvLoop_takes htakes.schedule (o.len head.stored).toNat
    generalize recvLoop (o.len head.stored).toNat head.rest = body at hloop
    obtain ⟨stop, stored, rest⟩ := body
    rcases hloop with ⟨rfl, hlen', htakes'⟩ | ⟨rfl, hlen', htakes'⟩ | ⟨rfl, hlen', htakes', rfl⟩
    · exact .returns (by omega) (by rw [hwanted, List.length_append]; omega)
        (by rw [List.length_append]; omega) (htakes.trans htakes')
    · refine .timesOut (by rw [hwanted, List.length_append]; omega) ?_
      rw [List.length_append]
      exact htakes.trans htakes'
    · exact .waits (by rw [hwanted, List.length_append]; omega) (htakes.trans htakes')
  all_goals
    have hwanted : o.wanted (recvLoop o.headLen answers).stored = o.headLen := by
      rw [wanted, if_pos hlen]
    rw [if_pos (by rw [hstop]; simp), hstop]
  · exact .timesOut (by omega) htakes
  · rw [hend] at htakes ⊢
    exact .waits (by omega) htakes

/-! ## All calls -/

variable {o : RecvOverload} {len : UInt32} {answers rest : List RecvAnswer}
  {stored m : List UInt8} {ms : List (List UInt8)}

theorem receiveAll_eq (o : RecvOverload) (len : UInt32) (answers : List RecvAnswer) :
    o.receiveAll len answers = match (o.recvAndWaitMsg len answers).ret with
      | none => []
      | some i =>
        if i = -WSAETIMEDOUT then o.receiveAll len (o.recvAndWaitMsg len answers).rest
        else if 0 < i then (o.recvAndWaitMsg len answers).stored ::
          o.receiveAll len (o.recvAndWaitMsg len answers).rest
        else [] := by
  rw [receiveAll]
  split <;> simp_all

theorem receiveAll_of_timesOut
    (h : o.recvAndWaitMsg len answers = ⟨some (-WSAETIMEDOUT), stored, rest⟩) :
    o.receiveAll len answers = o.receiveAll len rest := by
  rw [receiveAll_eq, h]
  exact if_pos rfl

theorem receiveAll_of_returns {i : ℕ} (hi : 0 < i)
    (h : o.recvAndWaitMsg len answers = ⟨some i, stored, rest⟩) :
    o.receiveAll len answers = stored :: o.receiveAll len rest := by
  have hne : ¬(i : ℤ) = -WSAETIMEDOUT := by
    rw [WSAETIMEDOUT]
    omega
  rw [receiveAll_eq, h]
  simp only [hne, if_false]
  exact if_pos (by omega)

theorem receiveAll_of_refuses (h : o.recvAndWaitMsg len answers = ⟨some (-1), stored, rest⟩) :
    o.receiveAll len answers = [] := by
  rw [receiveAll_eq, h]
  rfl

theorem boundary_zero : Boundary ms 0 := ⟨0, rfl⟩

/-- Behind the first message, the boundaries are those of the others. -/
theorem boundary_cons (hm : m ≠ []) {n : ℕ} :
    Boundary (m :: ms) (m.length + n) ↔ Boundary ms n := by
  constructor
  · rintro ⟨k, hk⟩
    cases k with
    | zero =>
      have hpos := List.length_pos_iff.mpr hm
      rw [List.take_zero, List.flatten_nil, List.length_nil] at hk
      omega
    | succ k =>
      rw [List.take_succ_cons, List.flatten_cons, List.length_append] at hk
      exact ⟨k, by omega⟩
  · rintro ⟨k, rfl⟩
    exact ⟨k + 1, by rw [List.take_succ_cons, List.flatten_cons, List.length_append]⟩

/-- Within the first message there is none but its beginning. -/
theorem eq_zero_of_boundary {n : ℕ} (h : Boundary (m :: ms) n) (hlt : n < m.length) : n = 0 := by
  obtain ⟨k, rfl⟩ := h
  cases k with
  | zero => rfl
  | succ k =>
    rw [List.take_succ_cons, List.flatten_cons, List.length_append] at hlt
    omega

/-- A call that takes bytes of a valid message wants no more than these. -/
theorem ValidMsg.wanted_le (h : o.ValidMsg len m) {more more' : List UInt8}
    (heq : stored ++ more = m ++ more') :
    o.wanted stored ≤ m.length ∧ (o.headLen ≤ stored.length → o.wanted stored = m.length) := by
  have hlen := h.length
  rw [wanted]
  split_ifs with hshort
  · omega
  · have htake : stored.take o.headLen = m.take o.headLen := by
      rw [← List.take_append_of_le_length (by omega : o.headLen ≤ stored.length), heq,
        List.take_append_of_le_length (by omega)]
    rw [htake, ← hlen]
    exact ⟨Nat.le_refl _, fun _ => rfl⟩

/-- What is obtained is not more than what is delivered, and if it is as much, no time-out came
inside a message. -/
theorem length_receiveAll_le (len : UInt32) (answers : List RecvAnswer) (h : Schedule answers) :
    (o.receiveAll len answers).flatten.length ≤ (delivered answers).length ∧
      ((o.receiveAll len answers).flatten.length = (delivered answers).length →
        ∀ n ∈ timeouts answers, Boundary (o.receiveAll len answers) n) := by
  have hpos := o.headLen_pos
  have hlt : (o.recvAndWaitMsg len answers).ret ≠ none → _ := answersLeft_recvAndWaitMsg_lt
  have hends := o.ends len h
  generalize hcall : o.recvAndWaitMsg len answers = call at hends hlt
  cases hends with
  | @waits stored hshort htakes =>
    refine ⟨by rw [receiveAll_eq, hcall]; exact Nat.zero_le _, fun _ n hn => ?_⟩
    rw [htakes.timeouts] at hn
    exact absurd hn List.not_mem_nil
  | @timesOut stored rest hshort htakes =>
    have hless := hlt (by simp)
    obtain ⟨hle, hall⟩ := length_receiveAll_le len rest htakes.schedule
    rw [receiveAll_of_timesOut hcall, htakes.delivered, List.length_append]
    refine ⟨Nat.le_trans hle (Nat.le_add_left _ _), fun heq n hn => ?_⟩
    -- the bytes that were stored are lost, so there are none
    have hnone : stored.length = 0 := by omega
    rw [htakes.timeouts, hnone] at hn
    rcases List.mem_append.mp hn with hnow | hlater
    · rw [List.mem_singleton.mp hnow]
      exact boundary_zero
    · obtain ⟨n, hrest, rfl⟩ := List.mem_map.mp hlater
      rw [Nat.zero_add]
      exact hall (by omega) n hrest
  | @returns stored rest i hi hwhole hhead htakes =>
    have hless := hlt (by simp)
    obtain ⟨hle, hall⟩ := length_receiveAll_le len rest htakes.schedule
    rw [receiveAll_of_returns hi hcall, htakes.delivered, List.length_append, List.flatten_cons,
      List.length_append]
    refine ⟨Nat.add_le_add_left hle _, fun heq n hn => ?_⟩
    rw [htakes.timeouts, List.nil_append] at hn
    obtain ⟨n, hrest, rfl⟩ := List.mem_map.mp hn
    have hne : stored ≠ [] := List.length_pos_iff.mp (by omega)
    exact (boundary_cons hne).mpr (hall (by omega) n hrest)
  | @refuses stored rest hhead htakes hbad =>
    rw [receiveAll_of_refuses hcall, htakes.delivered, List.length_append]
    refine ⟨Nat.zero_le _, fun heq => ?_⟩
    rw [List.flatten_nil, List.length_nil] at heq
    omega
termination_by answersLeft answers
decreasing_by
  all_goals exact hless

/-- A message that fits is not too large for the check. -/
theorem ValidMsg.not_gt (h : o.ValidMsg len m) :
    ¬o.len (m.take o.headLen) > len - .ofNat o.headLen := by
  have hlen := h.length
  have hfits := h.fits
  have hsize : (UInt32.ofNat o.headLen).toNat = o.headLen := by cases o <;> rfl
  have hle : UInt32.ofNat o.headLen ≤ len := by
    rw [UInt32.le_iff_toNat_le, hsize]
    omega
  rw [gt_iff_lt, UInt32.lt_iff_toNat_lt, UInt32.toNat_sub_of_le _ _ hle, hsize]
  omega

/-- With time-outs only between messages, all messages are obtained. -/
theorem receiveAll_of_boundary (ms : List (List UInt8)) (hms : ∀ m ∈ ms, o.ValidMsg len m)
    (answers : List RecvAnswer) (h : Schedule answers) (hbytes : delivered answers = ms.flatten)
    (hall : ∀ n ∈ timeouts answers, Boundary ms n) : o.receiveAll len answers = ms := by
  have hpos := o.headLen_pos
  have hlt : (o.recvAndWaitMsg len answers).ret ≠ none → _ := answersLeft_recvAndWaitMsg_lt
  have hends := o.ends len h
  generalize hcall : o.recvAndWaitMsg len answers = call at hends hlt
  -- the bytes that the call took are those of the first message
  have hfirst : ∀ {stored now rest m ms'}, Takes answers stored now rest → ms = m :: ms' →
      stored ++ delivered rest = m ++ ms'.flatten := by
    rintro stored now rest m ms' htakes rfl
    rw [← htakes.delivered, hbytes, List.flatten_cons]
  have hnone : ∀ {stored now rest}, Takes answers stored now rest → ms = [] →
      stored = [] ∧ delivered rest = [] := by
    rintro stored now rest htakes rfl
    rw [htakes.delivered] at hbytes
    exact List.append_eq_nil_iff.mp hbytes
  cases hends with
  | @waits stored hshort htakes =>
    rw [receiveAll_eq, hcall]
    cases ms with
    | nil => rfl
    | cons m ms =>
      have heq := hfirst htakes rfl
      have hwanted := ((hms m (List.mem_cons_self ..)).wanted_le heq).1
      have hlen := congrArg List.length heq
      rw [delivered, List.append_nil, List.length_append] at hlen
      omega
  | @timesOut stored rest hshort htakes =>
    have hless := hlt (by simp)
    have hstored : stored = [] := by
      cases ms with
      | nil => exact (hnone htakes rfl).1
      | cons m ms =>
        have hwanted := ((hms m (List.mem_cons_self ..)).wanted_le (hfirst htakes rfl)).1
        have hnow := hall stored.length (by rw [htakes.timeouts]; exact List.mem_cons_self ..)
        exact List.length_eq_zero_iff.mp (eq_zero_of_boundary hnow (by omega))
    subst hstored
    rw [receiveAll_of_timesOut hcall]
    refine receiveAll_of_boundary ms hms rest htakes.schedule
      (htakes.delivered.symm.trans hbytes) ?_
    intro n hn
    refine hall n ?_
    rw [htakes.timeouts]
    exact List.mem_cons_of_mem _ (List.mem_map.mpr ⟨n, hn, Nat.zero_add n⟩)
  | @returns stored rest i hi hwhole hhead htakes =>
    have hless := hlt (by simp)
    cases ms with
    | nil =>
      have hlen := congrArg List.length (hnone htakes rfl).1
      rw [List.length_nil] at hlen
      omega
    | cons m ms =>
      obtain ⟨hm, hothers⟩ := List.forall_mem_cons.mp hms
      have heq := hfirst htakes rfl
      obtain ⟨rfl, hrest⟩ := List.append_inj heq (hwhole.trans ((hm.wanted_le heq).2 hhead))
      have hne : stored ≠ [] := List.length_pos_iff.mp (by omega)
      rw [receiveAll_of_returns hi hcall]
      congr 1
      refine receiveAll_of_boundary ms hothers rest htakes.schedule hrest fun n hn => ?_
      refine (boundary_cons hne).mp (hall _ ?_)
      rw [htakes.timeouts]
      exact List.mem_map.mpr ⟨n, hn, rfl⟩
  | @refuses stored rest hhead htakes hbad =>
    cases ms with
    | nil =>
      have hlen := congrArg List.length (hnone htakes rfl).1
      rw [List.length_nil] at hlen
      omega
    | cons m ms =>
      have hm := hms m (List.mem_cons_self ..)
      have hlen := hm.length
      have hstored : stored = m.take o.headLen := by
        rw [← List.take_append_of_le_length (by omega : o.headLen ≤ m.length),
          ← hfirst htakes rfl, List.take_left' hhead]
      rw [hstored] at hbad
      rcases hbad with hbad | hbad
      · exact absurd (hm.sane.symm.trans hbad) (by simp)
      · exact absurd hbad hm.not_gt
termination_by answersLeft answers
decreasing_by
  all_goals exact hless

end RecvOverload

/-- All messages are obtained, in order, exactly if no time-out comes after a part of one. -/
theorem receivesAll_iff (o : RecvOverload) (len : UInt32) (ms : List (List UInt8))
    (hms : ∀ m ∈ ms, o.ValidMsg len m) (answers : List RecvAnswer) (h : Schedule answers)
    (hbytes : delivered answers = ms.flatten) :
    o.receiveAll len answers = ms ↔ ∀ n ∈ timeouts answers, Boundary ms n := by
  constructor
  · intro heq
    have hall := (o.length_receiveAll_le len answers h).2
    rw [heq] at hall
    exact hall (congrArg List.length hbytes.symm)
  · exact o.receiveAll_of_boundary ms hms answers h hbytes

theorem validMsg_listRequest : RecvOverload.msgHead.ValidMsg 1024 listRequest.encode :=
  ⟨by decide, by decide, by decide⟩

/-- A message in two pieces, a time-out, and another message. -/
theorem receivesAll_twoPieces :
    RecvOverload.msgHead.receiveAll 1024 [.data (listRequest.encode.take 3),
        .data (listRequest.encode.drop 3), .again, .data listRequest.encode] =
      [listRequest.encode, listRequest.encode] ↔
    ∀ n ∈ timeouts [.data (listRequest.encode.take 3), .data (listRequest.encode.drop 3), .again,
        .data listRequest.encode], Boundary [listRequest.encode, listRequest.encode] n :=
  receivesAll_iff .msgHead 1024 _ (by simp [validMsg_listRequest]) _
    (by simp [Schedule, listRequest, MsgFrame.encode, leBytes]) (by decide)

/-- A time-out after three bytes of a head. -/
theorem not_receivesAll_inHead :
    ¬∀ (o : RecvOverload) (len : UInt32) (ms : List (List UInt8)) (answers : List RecvAnswer),
      (∀ m ∈ ms, o.ValidMsg len m) → Schedule answers → delivered answers = ms.flatten →
        o.receiveAll len answers = ms := by
  intro h
  have hschedule : Schedule [.data (listRequest.encode.take 3), .again,
      .data (listRequest.encode.drop 3)] := by
    simp [Schedule, listRequest, MsgFrame.encode, leBytes]
  have heq := h .msgHead 1024 [listRequest.encode] _ (by simp [validMsg_listRequest]) hschedule
    (by decide)
  have hall := (RecvOverload.msgHead.length_receiveAll_le 1024 _ hschedule).2
  rw [heq] at hall
  have hthree := hall (by decide) 3 (by decide)
  exact absurd (RecvOverload.eq_zero_of_boundary hthree (by decide)) (by decide)

end Gendo.Client
