import Gendo.Library.StepSystem
import Gendo.Library.WorkSplit
import Mathlib.Algebra.BigOperators.Group.Finset.Basic
import Mathlib.Data.List.Sort

/-!
# The segmented download

`HttpDownload.cpp`: `thread_Task` cuts a file into segments and keeps up to ten tasks running,
each of which asks the server for its range and writes the bytes to their places. Every task adds
what it wrote to a cell of `nDownloadCount_`, and `thread_Task` leaves its loop once
`get_DownloadCount` says that the whole file is there. A task that fails is repaired by a task for
the rest of its range, and `thread_SecurityCloseTask` saves the unfinished ranges to a file, from
which a new object goes on.

A step of the system is one pass of the loop of `thread_Task` or of `detect_vtThread_Task`, one
read of a task, or a part of `thread_SecurityCloseTask`. The server answers as the header
`Range` asks.
-/

namespace Gendo.Client

open StepSystem WorkSplit

/-- `n64ThreadDownloadCnt_` as `Init` sets it, which `thread_Task` keeps in `n64CopyCount`. -/
def segment : ℤ := 204800

/-- `dwThreadCnt_`. -/
def dwThreadCnt : ℕ := 10

/-- What a C++ `int` keeps of a number. -/
def toInt (z : ℤ) : ℤ := z.bmod (2 ^ 32)

/-! ## Requests and answers -/

/-- The header `Range:bytes=first-last`, or `Range:bytes=first-`. -/
structure ByteRange where
  first : ℤ
  last : Option ℤ
  deriving DecidableEq, Repr

namespace ByteRange

/-- A position is not negative, and the last one is not before the first. -/
def Valid (r : ByteRange) : Prop := 0 ≤ r.first ∧ ∀ last ∈ r.last, r.first ≤ last

instance (r : ByteRange) : Decidable r.Valid := inferInstanceAs (Decidable (_ ∧ _))

/-- The first position after those asked for, in a file of `size` bytes. -/
def stop (size : ℤ) (r : ByteRange) : ℤ :=
  match r.last with
  | none => size
  | some last => last + 1

/-- The positions that the header asks for. A server does not look at a header that is not valid,
and sends the whole file. -/
def Asks (size : ℤ) (r : ByteRange) (p : ℤ) : Prop :=
  if r.Valid then r.first ≤ p ∧ p < r.stop size else 0 ≤ p ∧ p < size

instance (size : ℤ) (r : ByteRange) (p : ℤ) : Decidable (r.Asks size p) :=
  inferInstanceAs
    (Decidable (if r.Valid then r.first ≤ p ∧ p < r.stop size else 0 ≤ p ∧ p < size))

/-- The status of the answer: 416 where no byte of the range is in the file. -/
def status (size : ℤ) (r : ByteRange) : ℕ :=
  if ¬r.Valid then 200 else if size ≤ r.first then 416 else 206

end ByteRange

/-- `NvHttpAddRequestHeaders`. -/
def nvHttpAddRequestHeaders (n64DownloadSize n64MinPos n64MaxPos : ℤ) : ByteRange :=
  if n64DownloadSize = 0 then ⟨n64MinPos, none⟩
  else
    let n64MaxPos := if n64MaxPos = 0 then n64MinPos else n64MaxPos
    ⟨n64MinPos, some (n64MaxPos + n64DownloadSize)⟩

/-! ## Tasks -/

/-- `_Nv_Tag_Download_Data`. -/
structure TagDownloadData where
  n64X : ℤ
  n64DownloadCnt : ℤ
  n64TaskCnt : ℤ
  deriving DecidableEq, Repr

/-- What is left of the range. -/
def TagDownloadData.span (r : TagDownloadData) : Span :=
  ⟨r.n64X + r.n64DownloadCnt, r.n64X + r.n64TaskCnt⟩

/-- What became of a task: its thread was not started, it runs, it ended with `Thread_ON` or
`Thread_OK`, or it was stopped and its range saved. -/
inductive TaskPhase
  | notStarted
  | running
  | threadOn
  | threadOk
  | stopped
  deriving DecidableEq, Repr

/-- `_Nv_Download_Task`. The pointer `nCallByteCnt_` is the index of a cell of
`nDownloadCount_`. -/
structure DownloadTask where
  n64X : ℤ
  n64DownloadSize : ℤ
  n64DownloadByteCnt : ℤ
  nCallByteCnt : ℤ
  bStopDownload : Bool
  phase : TaskPhase
  deriving DecidableEq, Repr

namespace DownloadTask

/-- What the task asks for, `n64Y_` being 0. -/
def request (t : DownloadTask) : ByteRange := nvHttpAddRequestHeaders t.n64DownloadSize t.n64X 0

/-- The constructor of `_Nv_Download_Task`. `Thread_Task` starts the thread only if the server
answers 206. -/
def new (fileSize n64X n64Size nCallCnt : ℤ) : DownloadTask :=
  let t : DownloadTask := ⟨n64X, n64Size, 0, nCallCnt, false, .notStarted⟩
  if t.request.status fileSize = 206 then { t with phase := .running } else t

/-- How many bytes the answer to the task's request has. -/
def answer (fileSize : ℤ) (t : DownloadTask) : ℤ :=
  min (t.request.stop fileSize) fileSize - t.request.first

/-- The range as `detect_vtThread_Task` and `get_ThreadTaskData` note it. -/
def tag (t : DownloadTask) : TagDownloadData :=
  ⟨t.n64X, t.n64DownloadByteCnt, t.n64DownloadSize + 1⟩

/-- The task has ended, and `detect_vtThread_Task` takes it out. -/
def ended (t : DownloadTask) : Bool := t.phase = .threadOn || t.phase = .threadOk

/-- The thread has an exit code, which `stop_Task` waits for. One that was not started never has:
`GetExitCodeThread` fails for it, and the variable for the code stays uninitialised. -/
def Exited (t : DownloadTask) : Prop := t.phase ≠ .running ∧ t.phase ≠ .notStarted

instance (t : DownloadTask) : Decidable t.Exited := inferInstanceAs (Decidable (_ ∧ _))

/-- What the task still has to write, or what has to be written for it. -/
def spans (t : DownloadTask) : Multiset Span :=
  match t.phase with
  | .running | .threadOn => {t.tag.span}
  | .notStarted | .threadOk | .stopped => 0

end DownloadTask

/-! ## The download -/

/-- How far `thread_SecurityCloseTask` is: not called, `vtTagTaskData` cleared, the event set for
`thread_Task`, and `thread_Task` returned. -/
inductive Closing
  | notCalled
  | cleared
  | signalled
  | returned
  deriving DecidableEq, Repr

/-- `_Nv_Download`, and the file that it writes. -/
structure Download where
  n64FileSize : ℤ
  n64ThreadTaskSion : ℤ
  n64ThreadDownloadCnt : ℤ
  vtThreadTask : List DownloadTask
  vtDownloadNo : List TagDownloadData
  vtTagTaskData : List TagDownloadData
  dwDownloadVectorSize : ℤ
  nDataCount : ℤ
  /-- The cells, until `thread_Task` has left its loop and deleted them. -/
  nDownloadCount : Option (ℤ → ℤ)
  n64DownloadCount : ℤ
  n64JiDonwloadCnt : ℤ
  closing : Closing
  file : ℤ → Option UInt8
  /-- The ranges that were assigned after `call_AssignTasks`. -/
  assigned : List Span

/-- The file that `create_DwonloadFile` writes. -/
structure DwonloadFile where
  n64DownloadCount : ℤ
  vtTagTaskData : List TagDownloadData
  deriving DecidableEq, Repr

namespace Download

/-- `thread_Task` has left its loop. -/
def Left (d : Download) : Prop := d.nDownloadCount = none

instance (d : Download) : Decidable d.Left :=
  match h : d.nDownloadCount with
  | none => isTrue h
  | some _ => isFalse fun hnone => by rw [Left, h] at hnone; cases hnone

/-- `get_DownloadCount`. -/
def getDownloadCount (d : Download) : ℤ :=
  match d.nDownloadCount with
  | none => d.n64DownloadCount
  | some cells => d.n64JiDonwloadCnt + ∑ i ∈ Finset.range d.nDataCount.toNat, cells i

/-- `dwDownloadVectorSize_`, as `Download` computes it. -/
def downloadVectorSize (n64FileSize : ℤ) : ℤ :=
  if n64FileSize < segment * 5 then 100 else (n64FileSize / segment * 2) % 2 ^ 32

/-- `read_DwonloadFile`: the saved ranges, sorted. -/
def readDwonloadFile (saved : DwonloadFile) : List TagDownloadData :=
  saved.vtTagTaskData.insertionSort fun r r' => r.n64X ≤ r'.n64X

/-- A new object: `Init`, then `Download`. -/
def start (n64FileSize : ℤ) (saved : DwonloadFile) (file : ℤ → Option UInt8) : Download where
  n64FileSize := n64FileSize
  n64ThreadTaskSion := 0 - segment
  n64ThreadDownloadCnt := segment
  vtThreadTask := []
  vtDownloadNo := []
  vtTagTaskData := readDwonloadFile saved
  dwDownloadVectorSize := downloadVectorSize n64FileSize
  nDataCount := 0
  nDownloadCount := some fun _ => 0
  n64DownloadCount := 0
  n64JiDonwloadCnt := saved.n64DownloadCount
  closing := .notCalled
  file := file
  assigned := []

/-- A new object where nothing was downloaded before. -/
def fresh (n64FileSize : ℤ) : Download := start n64FileSize ⟨0, []⟩ fun _ => none

/-- `call_AssignTasks`, with what it leaves in `n641` and `n642`. -/
def callAssignTasks (n641 n642 n643 : ℤ) : Bool × ℤ × ℤ :=
  if n641 + n642 = n643 then (false, n641, n642)
  else if n641 + n642 < n643 - n642 then (true, n641 + n642, n642)
  else if n641 + n642 < n643 ∧ n641 + n642 + n642 > n643 then
    (true, n641 + n642, n643 - (n641 + n642))
  else (true, n641, n642)

/-- A task is made with the next cell, and kept in `vtThread_Task_`. -/
def addTask (d : Download) (n64X n64Size : ℤ) : Download :=
  { d with
    nDownloadCount := d.nDownloadCount.map fun cells => Function.update cells d.nDataCount 0
    nDataCount := toInt (d.nDataCount + 1)
    vtThreadTask := d.vtThreadTask ++ [.new d.n64FileSize n64X n64Size d.nDataCount] }

/-- `decete_TaskFailure`: the first failed range, where there is one, is repaired. -/
def deceteTaskFailure (d : Download) : Option Download :=
  match d.vtDownloadNo with
  | [] => none
  | r :: rest =>
    some ({ d with vtDownloadNo := rest }.addTask (r.n64X + r.n64DownloadCnt)
      (r.n64TaskCnt - r.n64DownloadCnt - 1))

/-- `T_X`. -/
def T_X : ℤ := 1

/-- `T_Z`. -/
def T_Z : ℤ := 3

/-- `set_ThreadTaskData`: what it returns, and the start and the length of the first saved
range. -/
def setThreadTaskData (d : Download) : ℤ × Download :=
  match d.vtTagTaskData with
  | [] => (T_X, d)
  | r :: rest =>
    let n64X := r.n64X + r.n64DownloadCnt
    let d := { d with
      n64ThreadTaskSion := n64X
      n64ThreadDownloadCnt := r.n64TaskCnt - r.n64DownloadCnt
      vtTagTaskData := rest }
    if rest = [] then (n64X, d) else (T_Z, d)

/-- The part of the loop that assigns segments. What `call_AssignTasks` returns is not looked
at. -/
def assignTasks (d : Download) : Download :=
  let (_, n641, n642) :=
    callAssignTasks d.n64ThreadTaskSion d.n64ThreadDownloadCnt d.n64FileSize
  { d with
    n64ThreadTaskSion := n641
    n64ThreadDownloadCnt := n642
    assigned := d.assigned ++ [⟨n641, n641 + n642⟩] }

/-- The part of the loop that makes a task for a saved range or for a segment. -/
def startTask (d : Download) : Download :=
  let (n64RetCode, d) := d.setThreadTaskData
  let d := d.addTask d.n64ThreadTaskSion (d.n64ThreadDownloadCnt - 1)
  if n64RetCode ≠ T_X ∧ n64RetCode ≠ T_Z then
    { d with
      n64ThreadTaskSion := (n64RetCode - segment) + d.n64ThreadDownloadCnt
      n64ThreadDownloadCnt := segment }
  else d

/-- The loop of `thread_Task` is left: the cells are deleted. -/
def leave (d : Download) : Download :=
  { d with n64DownloadCount := d.getDownloadCount, nDownloadCount := none }

/-- The end of the loop is awaited: nothing is left to be assigned. -/
def Waits (d : Download) : Prop := d.vtTagTaskData = [] ∧ d.n64ThreadDownloadCnt ≠ segment

instance (d : Download) : Decidable d.Waits := inferInstanceAs (Decidable (_ ∧ _))

/-- One pass of the loop of `thread_Task` that is not told to stop. -/
def pass (d : Download) : Download :=
  match d.deceteTaskFailure with
  | some d => d
  | none =>
    if d.Waits then (if d.getDownloadCount = d.n64FileSize then d.leave else d)
    else if d.vtTagTaskData = [] then d.assignTasks.startTask
    else d.startTask

/-- One pass of the loop of `thread_Task`. A thread that has left its loop, or that sees its event
with fewer than ten tasks, returns. -/
def threadTask (d : Download) : Download :=
  match d.closing with
  | .notCalled | .cleared =>
    if d.Left then d
    else if d.vtThreadTask.length < dwThreadCnt then d.pass
    else d
  | .signalled =>
    if d.Left ∨ d.vtThreadTask.length < dwThreadCnt then { d with closing := .returned } else d
  | .returned => d

/-- `detect_vtThread_Task`: the first task that has ended is taken out, and what failed is
noted. -/
def detectVtThreadTask (d : Download) : Download :=
  match d.vtThreadTask.find? DownloadTask.ended with
  | none => d
  | some t =>
    { d with
      vtDownloadNo := if t.phase = .threadOn then d.vtDownloadNo ++ [t.tag] else d.vtDownloadNo
      vtThreadTask := d.vtThreadTask.eraseP DownloadTask.ended }

/-- A task is replaced by what became of it. -/
def setTask (d : Download) (i : ℕ) (t : DownloadTask) : Download :=
  { d with vtThreadTask := d.vtThreadTask.set i t }

/-- `get_ThreadTaskData`, and the task ends. -/
def stopped (d : Download) (i : ℕ) (t : DownloadTask) : Download :=
  { d.setTask i { t with phase := .stopped } with
    vtTagTaskData := d.vtTagTaskData ++ [t.tag] }

/-- What `NvDownload_Task` does after it wrote `n` bytes: it counts them, and where it was told to
stop, it notes its range. -/
def counted (d : Download) (i : ℕ) (t : DownloadTask) (n : ℕ) : Download :=
  let d := { d with
    nDownloadCount := d.nDownloadCount.map fun cells =>
      Function.update cells t.nCallByteCnt (toInt (cells t.nCallByteCnt + n)) }
  let t := { t with n64DownloadByteCnt := t.n64DownloadByteCnt + n }
  if t.bStopDownload then d.stopped i t else d.setTask i t

/-- `n` bytes of the answer are written, at the place of the file where the task is. -/
def written (content : ℤ → UInt8) (d : Download) (t : DownloadTask) (n : ℕ) :
    ℤ → Option UInt8 := fun p =>
  let pos := t.n64X + t.n64DownloadByteCnt
  if pos ≤ p ∧ p < pos + n then
    some (content (t.request.first + t.n64DownloadByteCnt + (p - pos)))
  else d.file p

/-- `InternetReadFile` reads `n` bytes of the answer. -/
def received (content : ℤ → UInt8) (d : Download) (i : ℕ) (t : DownloadTask) (n : ℕ) :
    Download :=
  { d with file := d.written content t n }.counted i t n

/-- `InternetReadFile` reads no more bytes: the task has failed where it wants more, and ends
otherwise. -/
def finished (d : Download) (i : ℕ) (t : DownloadTask) : Download :=
  if t.n64DownloadByteCnt - 1 ≠ t.n64DownloadSize then d.setTask i { t with phase := .threadOn }
  else if t.bStopDownload then d.counted i t 0
  else d.setTask i { t with phase := .threadOk }

/-- `create_DwonloadFile`. -/
def createDwonloadFile (d : Download) : DwonloadFile := ⟨d.getDownloadCount, d.vtTagTaskData⟩

end Download

/-- What happens. A task is named by its place in `vtThread_Task_`. -/
inductive DownloadEvent
  | threadTask
  | detectVtThreadTask
  /-- A task reads and writes bytes of its answer. -/
  | receive (i n : ℕ)
  /-- A task comes to the end of its answer. -/
  | finish (i : ℕ)
  /-- A task gives up: its connection ends early, it cannot read for the 20th time, or it cannot
  write. -/
  | fail (i : ℕ)
  /-- `thread_SecurityCloseTask` is called, and clears `vtTagTaskData`. -/
  | close
  /-- It sets the event of `thread_Task`. -/
  | stopThreadTask
  /-- Once `thread_Task` has returned, it tells a task to stop. -/
  | stopTask (i : ℕ)
  /-- Once the threads of the tasks have ended, it saves the ranges, and a new object goes on. -/
  | resume
  deriving DecidableEq, Repr

namespace Download

/-- What a running task does. -/
def ofRunning (d : Download) (i : ℕ) (f : DownloadTask → Download) : Download :=
  match d.vtThreadTask[i]? with
  | some t => if t.phase = .running then f t else d
  | none => d

/-- What follows. An event that cannot happen changes nothing. -/
def next (content : ℤ → UInt8) (d : Download) : DownloadEvent → Download
  | .threadTask => d.threadTask
  | .detectVtThreadTask =>
    -- `thread_Task` stops the thread of `detect_vtThread_Task` when it ends
    if d.closing = .returned ∨ d.Left then d else d.detectVtThreadTask
  | .receive i n => d.ofRunning i fun t =>
    -- the buffer is read with 2047 bytes
    if 0 < n ∧ n ≤ 2047 ∧ t.n64DownloadByteCnt + n ≤ t.answer d.n64FileSize then
      d.received content i t n
    else d
  | .finish i => d.ofRunning i fun t =>
    if t.n64DownloadByteCnt = t.answer d.n64FileSize then d.finished i t else d
  | .fail i => d.ofRunning i fun t => d.setTask i { t with phase := .threadOn }
  | .close =>
    if d.closing = .notCalled then { d with vtTagTaskData := [], closing := .cleared } else d
  | .stopThreadTask => if d.closing = .cleared then { d with closing := .signalled } else d
  | .stopTask i => d.ofRunning i fun t =>
    if d.closing = .returned then d.setTask i { t with bStopDownload := true } else d
  | .resume =>
    if d.closing = .returned ∧ ∀ t ∈ d.vtThreadTask, t.Exited then
      start d.n64FileSize d.createDwonloadFile d.file
    else d

end Download

/-! ## The functions -/

/-- A number that fits into an `int` is kept. -/
theorem toInt_of_lt {z : ℤ} (h : 0 ≤ z) (hlt : z < 2 ^ 31) : toInt z = z := by
  rw [toInt, Int.bmod_def]
  omega

theorem toInt_lt (z : ℤ) : toInt z < 2 ^ 31 := by
  rw [toInt, Int.bmod_def]
  omega

namespace DownloadTask

/-- The task is for bytes of the file, and its length is not mistaken for "to the end of the
file". -/
structure Whole (size : ℤ) (t : DownloadTask) : Prop where
  nonneg : 0 ≤ t.n64X
  size_nonneg : 0 ≤ t.n64DownloadSize
  inside : t.n64X + t.n64DownloadSize + 1 ≤ size
  one : t.n64DownloadSize = 0 → t.n64X + 1 = size

variable {size : ℤ} {t : DownloadTask}

@[simp]
theorem request_first (t : DownloadTask) : t.request.first = t.n64X := by
  rw [request, nvHttpAddRequestHeaders]
  split
  · rfl
  · rfl

/-- The header of a request for a length that is not 0. -/
theorem request_of_ne (h : t.n64DownloadSize ≠ 0) :
    t.request = ⟨t.n64X, some (t.n64X + t.n64DownloadSize)⟩ := by
  rw [request, nvHttpAddRequestHeaders, if_neg h]
  rfl

/-- The header of a request for the length 0. -/
theorem request_of_eq (h : t.n64DownloadSize = 0) : t.request = ⟨t.n64X, none⟩ := by
  rw [request, nvHttpAddRequestHeaders, if_pos h]

theorem Whole.request_valid (h : t.Whole size) : t.request.Valid := by
  refine ⟨by simpa using h.nonneg, ?_⟩
  intro last hlast
  by_cases hzero : t.n64DownloadSize = 0
  · simp [request_of_eq hzero] at hlast
  · have hnonneg := h.size_nonneg
    obtain rfl : t.n64X + t.n64DownloadSize = last := by
      simpa [request_of_ne hzero] using hlast
    rw [request_first]
    omega

theorem Whole.request_stop (h : t.Whole size) :
    t.request.stop size = t.n64X + t.n64DownloadSize + 1 := by
  by_cases hzero : t.n64DownloadSize = 0
  · have hone := h.one hzero
    rw [request_of_eq hzero]
    simp only [ByteRange.stop]
    omega
  · rw [request_of_ne hzero]
    rfl

/-- The header asks for the bytes of the task. -/
theorem Whole.asks_iff (h : t.Whole size) (p : ℤ) :
    t.request.Asks size p ↔ t.n64X ≤ p ∧ p < t.n64X + t.n64DownloadSize + 1 := by
  rw [ByteRange.Asks, if_pos h.request_valid, h.request_stop, request_first]

/-- The answer has as many bytes as the task is for. -/
theorem Whole.answer (h : t.Whole size) : t.answer size = t.n64DownloadSize + 1 := by
  have hinside := h.inside
  rw [DownloadTask.answer, h.request_stop, request_first]
  omega

@[simp]
theorem tag_n64X (t : DownloadTask) : t.tag.n64X = t.n64X := rfl

@[simp]
theorem tag_n64DownloadCnt (t : DownloadTask) : t.tag.n64DownloadCnt = t.n64DownloadByteCnt := rfl

@[simp]
theorem tag_n64TaskCnt (t : DownloadTask) : t.tag.n64TaskCnt = t.n64DownloadSize + 1 := rfl

/-- The constructor sets everything but the phase. -/
theorem new_eq (size n64X n64Size nCallCnt : ℤ) :
    ∃ phase, new size n64X n64Size nCallCnt = ⟨n64X, n64Size, 0, nCallCnt, false, phase⟩ ∧
      (phase = .running ∨ phase = .notStarted) := by
  rw [new]
  split
  · exact ⟨.running, rfl, .inl rfl⟩
  · exact ⟨.notStarted, rfl, .inr rfl⟩

/-- A task for bytes of the file is started. -/
theorem new_of_whole {n64X n64Size nCallCnt : ℤ}
    (h : Whole size ⟨n64X, n64Size, 0, nCallCnt, false, .notStarted⟩) :
    new size n64X n64Size nCallCnt = ⟨n64X, n64Size, 0, nCallCnt, false, .running⟩ := by
  have hinside := h.inside
  have hnonneg := h.size_nonneg
  simp only at hinside hnonneg
  have hstatus : ByteRange.status size
      (request ⟨n64X, n64Size, 0, nCallCnt, false, .notStarted⟩) = 206 := by
    rw [ByteRange.status, if_neg (not_not.2 h.request_valid), request_first,
      if_neg (by simp only; omega)]
  rw [new]
  simp only [hstatus, if_true]

/-- A task for no bytes is not started: the last position that it asks for is before the first. -/
theorem new_of_empty (size n64X nCallCnt : ℤ) :
    new size n64X (-1) nCallCnt = ⟨n64X, -1, 0, nCallCnt, false, .notStarted⟩ := by
  have hrequest : request ⟨n64X, -1, 0, nCallCnt, false, .notStarted⟩ =
      ⟨n64X, some (n64X + -1)⟩ := request_of_ne (by simp)
  have hinvalid : ¬ByteRange.Valid ⟨n64X, some (n64X + -1)⟩ := by
    intro hvalid
    have := hvalid.2 _ rfl
    simp only at this
    omega
  rw [new]
  simp only [hrequest, ByteRange.status, if_pos hinvalid]
  rfl

end DownloadTask

namespace Download

variable {f N S C : ℤ}

/-- A segment that is followed by more. -/
theorem callAssignTasks_of_lt (hC : C = segment) (hlt : S + C + segment < N) :
    callAssignTasks S C N = (true, S + C, C) := by
  have hpos : 0 < segment := by decide
  rw [callAssignTasks, if_neg (by omega), if_pos (by omega)]

/-- The last segment. -/
theorem callAssignTasks_of_gt (hC : C = segment) (hlt : S + C < N) (hgt : N < S + C + segment) :
    callAssignTasks S C N = (true, S + C, N - (S + C)) := by
  rw [callAssignTasks, if_neg (by omega), if_neg (by omega), if_pos (by omega)]

/-- A file that ends with a full segment: the last one is never assigned. -/
theorem callAssignTasks_of_eq (hC : C = segment) (heq : S + C + segment = N) :
    callAssignTasks S C N = (true, S, C) := by
  have hpos : 0 < segment := by decide
  rw [callAssignTasks, if_neg (by omega), if_neg (by omega), if_neg (by omega)]

/-- What the cells add up to when one of them is set. -/
theorem sum_update (cells : ℤ → ℤ) {m : ℕ} {k : ℤ} (hk : 0 ≤ k) (hm : k < m) (v : ℤ) :
    ∑ i ∈ Finset.range m, Function.update cells k v i =
      ∑ i ∈ Finset.range m, cells i + (v - cells k) := by
  have hpoint : ∀ i ∈ Finset.range m, Function.update cells k v (i : ℤ) =
      cells i + if i = k.toNat then v - cells k else 0 := by
    intro i _
    by_cases hik : i = k.toNat
    · obtain rfl : (i : ℤ) = k := by omega
      simp
    · have hne : (i : ℤ) ≠ k := by omega
      simp [Function.update_of_ne hne, hik]
  have hmem : k.toNat ∈ Finset.range m := by
    rw [Finset.mem_range]
    omega
  rw [Finset.sum_congr rfl hpoint, Finset.sum_add_distrib, Finset.sum_ite_eq', if_pos hmem]

variable {d : Download} {cells : ℤ → ℤ}

theorem getDownloadCount_of_some (h : d.nDownloadCount = some cells) :
    d.getDownloadCount =
      d.n64JiDonwloadCnt + ∑ i ∈ Finset.range d.nDataCount.toNat, cells i := by
  simp [getDownloadCount, h]

/-- A new task has a cell of its own, with nothing in it. -/
theorem getDownloadCount_addTask (h0 : 0 ≤ d.nDataCount) (hlt : d.nDataCount + 1 < 2 ^ 31)
    (n64X n64Size : ℤ) : (d.addTask n64X n64Size).getDownloadCount = d.getDownloadCount := by
  cases hcells : d.nDownloadCount with
  | none => simp [getDownloadCount, addTask, hcells]
  | some cells =>
    have hnat : (d.nDataCount + 1).toNat = d.nDataCount.toNat + 1 := by omega
    have hcast : ((d.nDataCount.toNat : ℕ) : ℤ) = d.nDataCount := by omega
    have hold : ∀ i ∈ Finset.range d.nDataCount.toNat,
        Function.update cells d.nDataCount 0 (i : ℤ) = cells i := by
      intro i hi
      rw [Finset.mem_range] at hi
      exact Function.update_of_ne (by omega) _ _
    simp only [getDownloadCount, addTask, hcells, Option.map_some, toInt_of_lt (by omega) hlt,
      hnat, Finset.sum_range_succ, Finset.sum_congr rfl hold, hcast, Function.update_self, add_zero]

/-- The bytes that a task wrote are counted. -/
theorem getDownloadCount_counted {t : DownloadTask} {i n : ℕ}
    (hcells : d.nDownloadCount = some cells) (h0 : 0 ≤ t.nCallByteCnt)
    (hlt : t.nCallByteCnt < d.nDataCount) (hnonneg : 0 ≤ cells t.nCallByteCnt)
    (hint : cells t.nCallByteCnt + n < 2 ^ 31) :
    (d.counted i t n).getDownloadCount = d.getDownloadCount + n := by
  have hval : toInt (cells t.nCallByteCnt + n) = cells t.nCallByteCnt + n :=
    toInt_of_lt (by omega) hint
  have hcount : (d.counted i t n).getDownloadCount =
      d.n64JiDonwloadCnt + ∑ i ∈ Finset.range d.nDataCount.toNat,
        Function.update cells t.nCallByteCnt (cells t.nCallByteCnt + n) i := by
    rw [← hval, counted]
    split
    · simp [getDownloadCount, stopped, setTask, hcells]
    · simp [getDownloadCount, setTask, hcells]
  rw [hcount, sum_update cells h0 (by omega), getDownloadCount_of_some hcells]
  omega

end Download

end Gendo.Client
