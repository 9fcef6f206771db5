import Gendo.Library.StepSystem
import Gendo.Library.Tally
import Gendo.Server.Replies
import Mathlib.Algebra.Order.Group.Multiset

/-!
# Whole reply frames

Every request becomes a job of the thread pool, and the handler of a job sends its reply with
`lib_send_msg`: one `send` after the other, each of which takes some of the bytes that are left.
The jobs of one connection run side by side, and there is no lock for a connection.

`wholeFrames_run` says what is sent as long as no job begins its frame while another one is in
the middle of its own on the same connection: whole frames, each the reply of one job, and
perhaps the beginning of the next one.
-/

namespace Gendo

open ByteMemory StepSystem Tally

/-- Where a job is in the handler. -/
inductive ReplyPhase
  /-- `ras_user_msg_handle` did not run yet. -/
  | queued
  /-- In `lib_sendn` for this frame, with so many bytes sent. -/
  | sending (frame : MsgFrame) (sent : ℕ)
  /-- This frame was sent. -/
  | replied (frame : MsgFrame)
  /-- The handler ended without a reply. -/
  | silent
  deriving DecidableEq

/-- A request on its way, with the descriptor it was received on. -/
structure ReplyJob where
  peer : PeerFd
  request : MsgFrame
  phase : ReplyPhase

/-- The jobs, and the bytes that were written to each descriptor. -/
structure WireState where
  jobs : List ReplyJob
  wire : ℤ → List UInt8

/-- What happens. -/
inductive WireLabel
  /-- A request was received, and becomes a job. -/
  | request (peer : PeerFd) (frame : MsgFrame)
  /-- A job runs its handler up to the first `send`. -/
  | handle (j : ℕ)
  /-- A `send` of the job takes one byte and this many more, as far as there are any. -/
  | write (j : ℕ) (more : ℕ)

/-- No request, and nothing written. -/
def WireState.start : WireState := ⟨[], fun _ => []⟩

/-- The bytes that a `send` takes when so many went before. -/
def MsgFrame.sendBytes (frame : MsgFrame) (sent more : ℕ) : List UInt8 :=
  (frame.encode.drop sent).take (more + 1)

/-- A job in `lib_sendn` after so many bytes: the loop ends when none is left. -/
def ReplyPhase.afterSend (frame : MsgFrame) (sent : ℕ) : ReplyPhase :=
  if frame.encode.length ≤ sent then .replied frame else .sending frame sent

/-- One step of a client or a job. -/
inductive WireStep : WireState → WireLabel → WireState → Prop
  | request {s peer frame} :
      WireStep s (.request peer frame) { s with jobs := s.jobs ++ [⟨peer, frame, .queued⟩] }
  -- what the database answers to the handler, and what its buffer held before, is arbitrary
  | reply {s j job db stale m} : s.jobs[j]? = some job → job.phase = .queued →
      (rasUserMsgHandle db (.ofFrame job.peer job.request stale)).outcome = .finished (some m) →
      WireStep s (.handle j)
        { s with jobs := s.jobs.set j { job with phase := .sending m.frame 0 } }
  | silent {s j job db stale} : s.jobs[j]? = some job → job.phase = .queued →
      (rasUserMsgHandle db (.ofFrame job.peer job.request stale)).outcome = .finished none →
      WireStep s (.handle j) { s with jobs := s.jobs.set j { job with phase := .silent } }
  -- `lib_sendn`: one `send`, and the next one if something is left
  | write {s j job frame sent more} : s.jobs[j]? = some job → job.phase = .sending frame sent →
      WireStep s (.write j more)
        { jobs := s.jobs.set j { job with
            phase := .afterSend frame (sent + (frame.sendBytes sent more).length) }
          wire := Function.update s.wire job.peer
            (s.wire job.peer ++ frame.sendBytes sent more) }

/-- The job is in the middle of this frame: some of it was sent to the descriptor, not all. -/
def Midway (s : WireState) (fd : ℤ) (j : ℕ) (frame : MsgFrame) (sent : ℕ) : Prop :=
  ∃ job, s.jobs[j]? = some job ∧ (job.peer : ℤ) = fd ∧ job.phase = .sending frame sent ∧ 0 < sent

/-- No job begins its frame while another one is in the middle of its own on the descriptor. -/
def wireGuard (s : WireState) : WireLabel → Prop
  -- a job that goes on is free to: it is the one in the middle
  | .write j _ => ∀ job frame, s.jobs[j]? = some job → job.phase = .sending frame 0 →
      ∀ j' frame' sent', ¬Midway s job.peer j' frame' sent'
  | _ => True

/-- The frame that the job sent to the descriptor. -/
def ReplyJob.repliedOn (fd : ℤ) (job : ReplyJob) : Multiset MsgFrame :=
  match job.phase with
  | .replied frame => if (job.peer : ℤ) = fd then {frame} else 0
  | .queued | .sending .. | .silent => 0

/-- What was written to the descriptor is whole frames, one for each job that replied, and the
beginning of another one if a job is in the middle of it. -/
def WholeFrames (s : WireState) (fd : ℤ) : Prop :=
  ∃ frames : List MsgFrame, (frames : Multiset MsgFrame) = total (ReplyJob.repliedOn fd) s.jobs ∧
    (((∀ j frame sent, ¬Midway s fd j frame sent) ∧ s.wire fd = frames.flatMap MsgFrame.encode) ∨
      ∃ j frame sent, Midway s fd j frame sent ∧
        s.wire fd = frames.flatMap MsgFrame.encode ++ frame.encode.take sent)

/-- At most one job is in the middle of a frame on the descriptor. -/
def OneMidway (s : WireState) (fd : ℤ) : Prop :=
  ∀ j frame sent, Midway s fd j frame sent →
    ∀ j' frame' sent', Midway s fd j' frame' sent' → j' = j

/-- Whole frames, one at a time. -/
def OneAtATime (s : WireState) (fd : ℤ) : Prop := WholeFrames s fd ∧ OneMidway s fd

/-- The invariant. -/
def WireInv (s : WireState) : Prop := ∀ fd, OneAtATime s fd

theorem wireInv_start : WireInv .start := by
  intro fd
  have hnone : ∀ j frame sent, ¬Midway .start fd j frame sent := by
    rintro j frame sent ⟨job, hj, -⟩
    cases hj
  refine ⟨⟨[], rfl, .inl ⟨hnone, rfl⟩⟩, fun j frame sent h => ?_⟩
  exact absurd h (hnone j frame sent)

/-- Who is in the middle of a frame, after a job changed. -/
theorem midway_set {s : WireState} {j : ℕ} {job job' : ReplyJob} (hj : s.jobs[j]? = some job)
    {wire : ℤ → List UInt8} {fd : ℤ} {i : ℕ} {frame : MsgFrame} {sent : ℕ} :
    Midway ⟨s.jobs.set j job', wire⟩ fd i frame sent ↔
      if i = j then (job'.peer : ℤ) = fd ∧ job'.phase = .sending frame sent ∧ 0 < sent
      else Midway s fd i frame sent := by
  unfold Midway
  by_cases hij : i = j
  · subst hij
    simp only [getElem?_set_of_some hj, if_true, Option.some.injEq, exists_eq_left']
  · simp only [getElem?_set_of_some hj, if_neg (Ne.symm hij), if_neg hij]

/-- A step that changes nothing for the descriptor. -/
theorem OneAtATime.congr {s s' : WireState} {fd : ℤ} (h : OneAtATime s fd)
    (hmid : ∀ j frame sent, Midway s' fd j frame sent ↔ Midway s fd j frame sent)
    (hwire : s'.wire fd = s.wire fd)
    (htotal : total (ReplyJob.repliedOn fd) s'.jobs = total (ReplyJob.repliedOn fd) s.jobs) :
    OneAtATime s' fd := by
  simp only [OneAtATime, WholeFrames, OneMidway, hmid, hwire, htotal] at h ⊢
  exact h

/-- A job that sends nothing, before and after it changed. -/
theorem WireInv.quiet {s : WireState} (h : WireInv s) {j : ℕ} {job job' : ReplyJob}
    (hj : s.jobs[j]? = some job) (hold : job.phase = .queued)
    (hnew : (∃ frame, job'.phase = .sending frame 0) ∨ job'.phase = .silent) :
    WireInv { s with jobs := s.jobs.set j job' } := by
  intro fd
  refine (h fd).congr (fun i frame sent => ?_) rfl ?_
  · rw [midway_set hj]
    split_ifs with hij
    · constructor
      · rintro ⟨-, hphase, hpos⟩
        rcases hnew with ⟨frame', hnew⟩ | hnew
        · -- nothing of the reply was sent yet
          obtain ⟨-, rfl⟩ := ReplyPhase.sending.inj (hphase.symm.trans hnew)
          exact absurd hpos (lt_irrefl 0)
        · rw [hnew] at hphase
          cases hphase
      · rintro ⟨job₂, hj₂, -, hphase, -⟩
        obtain rfl : job = job₂ := Option.some.inj (hj.symm.trans (hij ▸ hj₂))
        rw [hold] at hphase
        cases hphase
    · exact Iff.rfl
  · refine total_set_of_eq _ hj ?_
    rcases hnew with ⟨frame', hnew⟩ | hnew
    · rw [ReplyJob.repliedOn, ReplyJob.repliedOn, hold, hnew]
    · rw [ReplyJob.repliedOn, ReplyJob.repliedOn, hold, hnew]

/-- A new job sends nothing. -/
theorem WireInv.request {s : WireState} (h : WireInv s) (peer : PeerFd) (frame : MsgFrame) :
    WireInv { s with jobs := s.jobs ++ [⟨peer, frame, .queued⟩] } := by
  intro fd
  refine (h fd).congr (fun i frame' sent => ?_) rfl ?_
  · unfold Midway
    constructor
    · rintro ⟨job, hi, hpeer, hphase, hpos⟩
      rw [List.getElem?_append] at hi
      split at hi
      · exact ⟨job, hi, hpeer, hphase, hpos⟩
      · obtain rfl := List.mem_singleton.mp (List.mem_of_getElem? hi)
        cases hphase
    · rintro ⟨job, hi, hrest⟩
      obtain ⟨hlt, -⟩ := List.getElem?_eq_some_iff.mp hi
      exact ⟨job, (List.getElem?_append_left hlt).trans hi, hrest⟩
  · rw [total_append, total_cons, total_nil, ReplyJob.repliedOn, add_zero, add_zero]

/-- What one `send` takes is the next part of the frame. -/
theorem MsgFrame.take_append_sendBytes (frame : MsgFrame) (sent more : ℕ) :
    frame.encode.take sent ++ frame.sendBytes sent more =
      frame.encode.take (sent + (frame.sendBytes sent more).length) := by
  rw [List.take_add, MsgFrame.sendBytes, List.length_take, ← List.take_eq_take_min]

/-- Where the bytes of a job go when it is the only one on its way: behind whole frames, and
behind what it sent before. -/
theorem WireInv.before_write {s : WireState} (h : WireInv s) {j more : ℕ} {job : ReplyJob}
    {frame : MsgFrame} {sent : ℕ} (hguard : wireGuard s (.write j more))
    (hj : s.jobs[j]? = some job) (hphase : job.phase = .sending frame sent) :
    (∀ j' frame' sent', Midway s job.peer j' frame' sent' → j' = j) ∧
      ∃ frames : List MsgFrame,
        (frames : Multiset MsgFrame) = total (ReplyJob.repliedOn job.peer) s.jobs ∧
        s.wire job.peer = frames.flatMap MsgFrame.encode ++ frame.encode.take sent := by
  obtain ⟨⟨frames, hframes, hwire⟩, hone⟩ := h job.peer
  rcases Nat.eq_zero_or_pos sent with rfl | hpos
  · -- it begins, so nobody is in the middle
    have hnone := hguard job frame hj hphase
    refine ⟨fun j' frame' sent' hmid => absurd hmid (hnone j' frame' sent'), frames, hframes, ?_⟩
    rcases hwire with ⟨-, hwire⟩ | ⟨j', frame', sent', hmid, -⟩
    · rw [hwire, List.take_zero, List.append_nil]
    · exact absurd hmid (hnone j' frame' sent')
  · -- it goes on, so it is the one in the middle
    have hself : Midway s job.peer j frame sent := ⟨job, hj, rfl, hphase, hpos⟩
    refine ⟨hone j frame sent hself, frames, hframes, ?_⟩
    rcases hwire with ⟨hnone, -⟩ | ⟨j', frame', sent', hmid, hwire⟩
    · exact absurd hself (hnone j frame sent)
    · obtain rfl := hone j frame sent hself j' frame' sent' hmid
      obtain ⟨job', hj', -, hphase', -⟩ := hmid
      obtain rfl : job = job' := Option.some.inj (hj.symm.trans hj')
      obtain ⟨rfl, rfl⟩ := ReplyPhase.sending.inj (hphase.symm.trans hphase')
      exact hwire

/-- A `send` that leaves something of the frame takes something. -/
theorem MsgFrame.sendBytes_pos {frame : MsgFrame} {sent more : ℕ}
    (h : ¬frame.encode.length ≤ sent + (frame.sendBytes sent more).length) :
    0 < sent + (frame.sendBytes sent more).length := by
  rw [MsgFrame.sendBytes, List.length_take, List.length_drop] at h ⊢
  omega

section write

variable {s : WireState} {j : ℕ} {job : ReplyJob} {frame : MsgFrame} {frames : List MsgFrame}
  {wire : ℤ → List UInt8}

/-- A job that sent the rest of its frame, with no other in the middle of one. -/
theorem oneAtATime_replied (hj : s.jobs[j]? = some job) (hzero : job.repliedOn job.peer = 0)
    (hone : ∀ i f k, Midway s job.peer i f k → i = j)
    (hframes : (frames : Multiset MsgFrame) = total (ReplyJob.repliedOn job.peer) s.jobs)
    (hwire : wire job.peer = frames.flatMap MsgFrame.encode ++ frame.encode) :
    OneAtATime ⟨s.jobs.set j { job with phase := .replied frame }, wire⟩ job.peer := by
  have hnone : ∀ i f k,
      ¬Midway ⟨s.jobs.set j { job with phase := .replied frame }, wire⟩ job.peer i f k := by
    intro i f k hmid
    rw [midway_set hj] at hmid
    split_ifs at hmid with hij
    · cases hmid.2.1
    · exact hij (hone i f k hmid)
  refine ⟨⟨frames ++ [frame], ?_, .inl ⟨hnone, ?_⟩⟩, fun i f k hmid => ?_⟩
  · have hset := total_set (ReplyJob.repliedOn job.peer) hj { job with phase := .replied frame }
    rw [hzero, add_zero, ← hframes] at hset
    rw [hset, ← Multiset.coe_add, Multiset.coe_singleton, ReplyJob.repliedOn]
    dsimp only
    rw [if_pos rfl]
  · show wire job.peer = _
    rw [hwire, List.flatMap_append]
    simp
  · exact absurd hmid (hnone i f k)

/-- A job that sent a part of its frame, with no other in the middle of one. -/
theorem oneAtATime_sending {k : ℕ} (hj : s.jobs[j]? = some job)
    (hzero : job.repliedOn job.peer = 0) (hone : ∀ i f k, Midway s job.peer i f k → i = j)
    (hframes : (frames : Multiset MsgFrame) = total (ReplyJob.repliedOn job.peer) s.jobs)
    (hk : 0 < k)
    (hwire : wire job.peer = frames.flatMap MsgFrame.encode ++ frame.encode.take k) :
    OneAtATime ⟨s.jobs.set j { job with phase := .sending frame k }, wire⟩ job.peer := by
  have hsame : ∀ i f k', Midway ⟨s.jobs.set j { job with phase := .sending frame k }, wire⟩
      job.peer i f k' → i = j := by
    intro i f k' hmid
    rw [midway_set hj] at hmid
    split_ifs at hmid with hij
    · exact hij
    · exact hone i f k' hmid
  refine ⟨⟨frames, ?_, .inr ⟨j, frame, k, ?_, hwire⟩⟩, fun i f k' hmid i' f' k'' hmid' => ?_⟩
  · rw [hframes]
    exact (total_set_of_eq _ hj (by rw [hzero, ReplyJob.repliedOn])).symm
  · rw [midway_set hj, if_pos rfl]
    exact ⟨rfl, rfl, hk⟩
  · rw [hsame i f k' hmid, hsame i' f' k'' hmid']

end write

/-- Other descriptors see nothing of a job that sends. -/
theorem OneAtATime.other {s : WireState} {fd : ℤ} (h : OneAtATime s fd) {j : ℕ} {job : ReplyJob}
    (hj : s.jobs[j]? = some job) (hfd : (job.peer : ℤ) ≠ fd) (phase : ReplyPhase)
    {wire : ℤ → List UInt8} (hwire : wire fd = s.wire fd) :
    OneAtATime ⟨s.jobs.set j { job with phase := phase }, wire⟩ fd := by
  have hnone : ∀ phase, ReplyJob.repliedOn fd { job with phase := phase } = 0 := by
    intro phase
    cases phase with
    | replied frame => exact if_neg hfd
    | queued => rfl
    | sending => rfl
    | silent => rfl
  refine h.congr (fun i f k => ?_) hwire ?_
  · rw [midway_set hj]
    split_ifs with hij
    · constructor
      · rintro ⟨hpeer, -⟩
        exact absurd hpeer hfd
      · rintro ⟨job', hj', hpeer, -⟩
        obtain rfl : job = job' := Option.some.inj (hj.symm.trans (hij ▸ hj'))
        exact absurd hpeer hfd
    · exact Iff.rfl
  · exact total_set_of_eq _ hj ((hnone phase).trans (hnone job.phase).symm)

/-- A job sends some of its frame. -/
theorem WireInv.write {s : WireState} (h : WireInv s) {j more : ℕ} {job : ReplyJob}
    {frame : MsgFrame} {sent : ℕ} (hguard : wireGuard s (.write j more))
    (hj : s.jobs[j]? = some job) (hphase : job.phase = .sending frame sent) :
    WireInv
      { jobs := s.jobs.set j { job with
          phase := .afterSend frame (sent + (frame.sendBytes sent more).length) }
        wire := Function.update s.wire job.peer
          (s.wire job.peer ++ frame.sendBytes sent more) } := by
  obtain ⟨hone, frames, hframes, hwire⟩ := h.before_write hguard hj hphase
  have hzero : job.repliedOn job.peer = 0 := by rw [ReplyJob.repliedOn, hphase]
  have hnow := frame.take_append_sendBytes sent more
  intro fd
  by_cases hfd : (job.peer : ℤ) = fd
  · subst hfd
    rw [ReplyPhase.afterSend]
    split_ifs with hend
    · -- the last part of the frame went out
      refine oneAtATime_replied hj hzero hone hframes ?_
      rw [Function.update_self, hwire, List.append_assoc, hnow, List.take_of_length_le hend]
    · -- there is more to send
      refine oneAtATime_sending hj hzero hone hframes (MsgFrame.sendBytes_pos hend) ?_
      rw [Function.update_self, hwire, List.append_assoc, hnow]
  · exact (h fd).other hj hfd _ (Function.update_of_ne (Ne.symm hfd) _ _)

/-- A step that the guard allows keeps the frames whole. -/
theorem WireInv.step {s s' : WireState} {label : WireLabel} (h : WireInv s)
    (hguard : wireGuard s label) (hstep : WireStep s label s') : WireInv s' := by
  cases hstep with
  | request => exact h.request _ _
  | reply hj hphase => exact h.quiet hj hphase (.inl ⟨_, rfl⟩)
  | silent hj hphase => exact h.quiet hj hphase (.inr rfl)
  | write hj hphase => exact h.write hguard hj hphase

/-- Every connection gets whole reply frames, in every run in which no job begins its frame while
another one is in the middle of its own. -/
theorem wholeFrames_run {r : List (WireLabel × WireState)} (hr : IsRun WireStep .start r)
    (hg : Guarded wireGuard .start r) : Always (fun s => ∀ fd, WholeFrames s fd) .start r := by
  have hinv : Always WireInv .start r :=
    always_of_guarded (fun _ _ _ h hguard hst => h.step hguard hst) wireInv_start hr hg
  exact ⟨fun fd => (hinv.1 fd).1, Along.imp (fun _ _ _ h fd => (h fd).1) hinv.2⟩

/-! ## Two requests of one client -/

/-- The client is on descriptor 5. -/
def peer5 : PeerFd := ⟨5, by decide⟩

/-- The reply of a server whose database fails. -/
def failedList : MsgFrame :=
  ⟨MSG_GAS_SERVER_LIST, SERVER_LIST_LEN, List.replicate SERVER_LIST_LEN.toNat 0,
    List.length_replicate⟩

theorem handle_listRequest : (rasUserMsgHandle downDb
    (.ofFrame peer5 listRequest fun _ => 0)).outcome = .finished (some ⟨5, failedList⟩) := by
  have hlen : listRequest.len ≤ MID_MSG_LEN := by decide
  have hfail : ERR_GAS_SERVER_LIST_FAIL ≠ 0 := by decide
  have hout : (rasUserMsgHandle downDb (.ofFrame peer5 listRequest fun _ => 0)).outcome =
      serverListOut (.ofFrame peer5 listRequest fun _ => 0) ERR_GAS_SERVER_LIST_FAIL [] := by
    rw [rasUserMsgHandle_serverList _ rfl hlen]
    simp [gasServerList, gasDbServerInfo, downDb, dbGetHandle, OK, ERROR]
  rw [hout, serverListOut_eq]
  simp only [listBytes_of_ne _ hfail]
  rfl

/-- The two jobs of the client, in these phases, and what was written to it. -/
def twoJobs (first second : ReplyPhase) (bs : List UInt8) : WireState :=
  ⟨[⟨peer5, listRequest, first⟩, ⟨peer5, listRequest, second⟩],
    Function.update (fun _ => []) 5 bs⟩

theorem sendBytes_failedList : failedList.sendBytes 0 0 = [5] := rfl

/-- A byte is not the whole frame. -/
theorem afterSend_failedList : ReplyPhase.afterSend failedList 1 = .sending failedList 1 := by
  refine if_neg ?_
  have hhead : MSG_HEAD_LEN.toNat = 8 := rfl
  rw [failedList.length_encode]
  omega

/-- Both jobs handle their requests, and the first one sends a byte. -/
def firstByteRun : List (WireLabel × WireState) :=
  [(.request peer5 listRequest, ⟨[⟨peer5, listRequest, .queued⟩], fun _ => []⟩),
    (.request peer5 listRequest, twoJobs .queued .queued []),
    (.handle 0, twoJobs (.sending failedList 0) .queued []),
    (.handle 1, twoJobs (.sending failedList 0) (.sending failedList 0) []),
    (.write 0 0, twoJobs (.sending failedList 1) (.sending failedList 0) [5])]

theorem step_requests : WireStep ⟨[⟨peer5, listRequest, .queued⟩], fun _ => []⟩
    (.request peer5 listRequest) (twoJobs .queued .queued []) := by
  have hempty : Function.update (fun _ : ℤ => ([] : List UInt8)) 5 [] = fun _ => [] :=
    Function.update_eq_self 5 _
  rw [twoJobs, hempty]
  exact .request

/-- The first job sends its first byte behind what is there. -/
theorem step_write_zero (second : ReplyPhase) :
    WireStep (twoJobs (.sending failedList 0) second []) (.write 0 0)
      (twoJobs (.sending failedList 1) second [5]) := by
  have hstep := @WireStep.write (twoJobs (.sending failedList 0) second []) 0
    ⟨peer5, listRequest, .sending failedList 0⟩ failedList 0 0 rfl rfl
  simpa [sendBytes_failedList, afterSend_failedList, twoJobs, peer5] using hstep

theorem step_write_one (first : ReplyPhase) (bs : List UInt8) :
    WireStep (twoJobs first (.sending failedList 0) bs) (.write 1 0)
      (twoJobs first (.sending failedList 1) (bs ++ [5])) := by
  have hstep := @WireStep.write (twoJobs first (.sending failedList 0) bs) 1
    ⟨peer5, listRequest, .sending failedList 0⟩ failedList 0 0 rfl rfl
  simpa [sendBytes_failedList, afterSend_failedList, twoJobs, peer5] using hstep

theorem isRun_firstByteRun : IsRun WireStep .start firstByteRun :=
  ⟨.request, step_requests,
    @WireStep.reply (twoJobs .queued .queued []) 0 ⟨peer5, listRequest, .queued⟩ downDb _
      ⟨5, failedList⟩ rfl rfl handle_listRequest,
    @WireStep.reply (twoJobs (.sending failedList 0) .queued []) 1 ⟨peer5, listRequest, .queued⟩
      downDb _ ⟨5, failedList⟩ rfl rfl handle_listRequest,
    step_write_zero _, trivial⟩

theorem wholeFrames_firstByteRun :
    Always (fun s => ∀ fd, WholeFrames s fd) .start firstByteRun := by
  refine wholeFrames_run isRun_firstByteRun ⟨trivial, trivial, trivial, trivial, ?_, trivial⟩
  -- neither job has sent anything yet
  rintro job frame - - j frame' sent ⟨job', hj', -, hphase, hpos⟩
  have hzero : ∀ job ∈ (twoJobs (.sending failedList 0) (.sending failedList 0) []).jobs,
      job.phase = .sending failedList 0 := by
    simp [twoJobs]
  obtain ⟨-, rfl⟩ := ReplyPhase.sending.inj
    (hphase.symm.trans (hzero job' (List.mem_of_getElem? hj')))
  exact absurd hpos (lt_irrefl 0)

/-- The second job sends a byte after the first byte of the first one. -/
def mixedRun : List (WireLabel × WireState) :=
  firstByteRun ++ [(.write 1 0, twoJobs (.sending failedList 1) (.sending failedList 1) [5, 5])]

theorem isRun_mixedRun : IsRun WireStep .start mixedRun := by
  obtain ⟨h₁, h₂, h₃, h₄, h₅, -⟩ := isRun_firstByteRun
  exact ⟨h₁, h₂, h₃, h₄, h₅, step_write_one _ [5], trivial⟩

/-- Two jobs of one client cut each other's frame. -/
theorem not_wholeFrames_mixedRun :
    ¬∀ r, IsRun WireStep .start r → Always (fun s => ∀ fd, WholeFrames s fd) .start r := by
  intro hall
  obtain ⟨frames, hframes, hwire⟩ := (hall mixedRun isRun_mixedRun).last 5
  -- no frame is complete
  obtain rfl : frames = [] := by
    rw [← Multiset.coe_eq_zero, hframes]
    rfl
  have hbytes : (final WireState.start mixedRun).wire 5 = [5, 5] := rfl
  rw [hbytes] at hwire
  rcases hwire with ⟨-, hnil⟩ | ⟨j, frame, sent, ⟨job, hj, -, hphase, -⟩, hpart⟩
  · cases hnil
  · have hone : ∀ job ∈ (final WireState.start mixedRun).jobs,
        job.phase = .sending failedList 1 := by
      simp [final, mixedRun, firstByteRun, twoJobs]
    obtain ⟨rfl, rfl⟩ := ReplyPhase.sending.inj
      (hphase.symm.trans (hone job (List.mem_of_getElem? hj)))
    cases hpart

end Gendo
