import Gendo.Client.Download
import Gendo.Library.Tally
import Mathlib.Tactic.Abel

/-!
# The bytes of a download

At any time a byte of the file is written, or in the rest of exactly one range that a task, a
failed task or a saved range stands for, or at or after the position up to which ranges were
assigned. The download does the steps of `WorkSplit`, as long as its steps are `Allowed`: a range
that fails does not have one byte left before the end of the file or none, there is a cell for
each new task, and what is saved at a stop is enough to go on from.
-/

namespace Gendo.Client

open StepSystem WorkSplit

/-! ## When a step goes right -/

namespace TagDownloadData

/-- The rest of the range can be asked for: it has two bytes or more, or is the last byte of the
file. -/
def Repairable (size : ℤ) (r : TagDownloadData) : Prop :=
  r.n64DownloadCnt + 2 ≤ r.n64TaskCnt ∨
    (r.n64DownloadCnt + 1 = r.n64TaskCnt ∧ r.n64X + r.n64TaskCnt = size)

instance (size : ℤ) (r : TagDownloadData) : Decidable (r.Repairable size) :=
  inferInstanceAs (Decidable (_ ∨ _))

/-- Nothing is left of the range. -/
def spent (r : TagDownloadData) : Bool := r.n64DownloadCnt = r.n64TaskCnt

end TagDownloadData

namespace Download

/-- The next pass of the loop of `thread_Task` makes a task. -/
def MakesTask (d : Download) : Prop :=
  (d.closing = .notCalled ∨ d.closing = .cleared) ∧ ¬d.Left ∧
    d.vtThreadTask.length < dwThreadCnt ∧ (d.vtDownloadNo ≠ [] ∨ ¬d.Waits)

instance (d : Download) : Decidable d.MakesTask := inferInstanceAs (Decidable (_ ∧ _))

/-- There is a cell for one more task, and `nDataCount_` can count it. -/
def HasCell (d : Download) : Prop :=
  d.nDataCount < d.dwDownloadVectorSize ∧ d.nDataCount + 1 < 2 ^ 31

instance (d : Download) : Decidable d.HasCell := inferInstanceAs (Decidable (_ ∧ _))

/-- The range tells where to go on: it ends where the assigning was, which is before the end of
the file, and then its position is not mistaken for `T_X` or `T_Z`. -/
def FoundBy (d : Download) : Option TagDownloadData → Prop
  | none => d.n64ThreadTaskSion + d.n64ThreadDownloadCnt = 0
  | some r =>
    r.n64X + r.n64TaskCnt = d.n64ThreadTaskSion + d.n64ThreadDownloadCnt ∧
      (r.n64X + r.n64TaskCnt = d.n64FileSize ↔
        r.n64X + r.n64DownloadCnt = T_X ∨ r.n64X + r.n64DownloadCnt = T_Z)

instance (d : Download) : DecidablePred d.FoundBy
  | none => inferInstanceAs (Decidable (_ = _))
  | some _ => inferInstanceAs (Decidable (_ ∧ _))

/-- The range that starts last of those that are saved. -/
def lastSaved (d : Download) : Option TagDownloadData :=
  (readDwonloadFile d.createDwonloadFile).getLast?

/-- A new object can go on from what is saved: no range has failed, the rest of each saved one can
be asked for or is empty, which fewer than ten are, and the last one tells where to go on. -/
def Resumable (d : Download) : Prop :=
  d.vtDownloadNo = [] ∧ (∀ t ∈ d.vtThreadTask, t.phase ≠ .threadOn) ∧
    (∀ r ∈ d.vtTagTaskData, r.Repairable d.n64FileSize ∨ r.spent = true) ∧
    Tally.count TagDownloadData.spent d.vtTagTaskData < dwThreadCnt ∧ d.FoundBy d.lastSaved

instance (d : Download) : Decidable d.Resumable := inferInstanceAs (Decidable (_ ∧ _))

/-- The threads of the tasks have ended, and `thread_SecurityCloseTask` saves the ranges. -/
def Saves (d : Download) : Prop := d.closing = .returned ∧ ∀ t ∈ d.vtThreadTask, t.Exited

instance (d : Download) : Decidable d.Saves := inferInstanceAs (Decidable (_ ∧ _))

/-- When a step goes right. -/
def Allowed (d : Download) : DownloadEvent → Prop
  | .threadTask => d.MakesTask → d.HasCell
  | .fail i =>
    match d.vtThreadTask[i]? with
    | some t => t.phase = .running → t.tag.Repairable d.n64FileSize
    | none => True
  | .close => d.closing = .notCalled → d.vtTagTaskData = []
  | .resume => d.Saves → d.Resumable
  | .detectVtThreadTask | .receive _ _ | .finish _ | .stopThreadTask | .stopTask _ => True

instance (d : Download) : DecidablePred d.Allowed
  | .threadTask => inferInstanceAs (Decidable (_ → _))
  | .fail i =>
    match h : d.vtThreadTask[i]? with
    | some t => decidable_of_iff (t.phase = .running → t.tag.Repairable d.n64FileSize)
        (by simp [Allowed, h])
    | none => isTrue (by simp [Allowed, h])
  | .close => inferInstanceAs (Decidable (_ → _))
  | .resume => inferInstanceAs (Decidable (_ → _))
  | .detectVtThreadTask | .receive _ _ | .finish _ | .stopThreadTask | .stopTask _ =>
    isTrue trivial

end Download

/-! ## What is kept -/

/-- The range lies in the file and in one segment, and what it counts is written. -/
structure TagDownloadData.Fits (size : ℤ) (file : ℤ → Option UInt8) (r : TagDownloadData) :
    Prop where
  nonneg : 0 ≤ r.n64X
  cnt_nonneg : 0 ≤ r.n64DownloadCnt
  cnt_le : r.n64DownloadCnt ≤ r.n64TaskCnt
  inside : r.n64X + r.n64TaskCnt ≤ size
  segment : r.n64X % segment + r.n64TaskCnt ≤ segment
  written : ∀ p, r.n64X ≤ p → p < r.n64X + r.n64DownloadCnt → (file p).isSome

/-- The server did not answer 206. -/
def DownloadTask.unstarted (t : DownloadTask) : Bool := t.phase = .notStarted

/-- The threads of all tasks were started. -/
def Download.Started (d : Download) : Prop := ∀ t ∈ d.vtThreadTask, t.phase ≠ .notStarted

instance (d : Download) : Decidable d.Started := inferInstanceAs (Decidable (∀ t ∈ _, _))

/-- A task that was started is for a range, and what failed of it can be asked for again. -/
structure DownloadTask.Fits (size : ℤ) (file : ℤ → Option UInt8) (t : DownloadTask) : Prop where
  tag : t.tag.Fits size file
  whole : t.Whole size
  failed : t.phase = .threadOn → t.tag.Repairable size

namespace Download

/-- What the tasks, the failed ranges and the saved ranges still have to write. -/
def spans (d : Download) : Multiset Span :=
  Tally.total DownloadTask.spans d.vtThreadTask +
    Tally.total (fun r => {r.span}) d.vtDownloadNo +
    Tally.total (fun r => {r.span}) d.vtTagTaskData

/-- The last of the saved ranges that wait to be handed out again. The ranges that a stop saves
do not. -/
def lastTag (d : Download) : Option TagDownloadData :=
  if d.closing = .returned then none else d.vtTagTaskData.getLast?

/-- Where assigning goes on: after the last saved range, once all are handed out. -/
def frontier (d : Download) : ℤ :=
  match d.lastTag with
  | none => d.n64ThreadTaskSion + d.n64ThreadDownloadCnt
  | some r => r.n64X + r.n64TaskCnt

/-- The download as positions split among pieces of work. -/
def split (d : Download) : WorkSplit.State := ⟨{p | (d.file p).isSome}, d.spans, d.frontier⟩

/-- Where `thread_Task` is: at the start of a segment, or all is assigned. -/
structure Position (d : Download) : Prop where
  none : d.lastTag = none →
    (d.n64ThreadDownloadCnt = segment ∧ segment ∣ d.frontier ∧ 0 ≤ d.frontier ∧
      d.frontier < d.n64FileSize) ∨
    (d.n64ThreadDownloadCnt ≠ segment ∧ d.frontier = d.n64FileSize)
  some : ∀ r, d.lastTag = some r →
    (segment ∣ d.frontier ∧ 0 ≤ d.frontier ∧ d.frontier < d.n64FileSize ∧
      r.n64X + r.n64DownloadCnt ≠ T_X ∧ r.n64X + r.n64DownloadCnt ≠ T_Z) ∨
    (d.frontier = d.n64FileSize ∧
      (r.n64X + r.n64DownloadCnt = T_X ∨ r.n64X + r.n64DownloadCnt = T_Z))

/-- Every task has a cell of its own in the array. -/
structure Cells (d : Download) : Prop where
  nonneg : 0 ≤ d.nDataCount
  slot : ∀ t ∈ d.vtThreadTask, 0 ≤ t.nCallByteCnt ∧ t.nCallByteCnt < d.nDataCount ∧
    t.nCallByteCnt < d.dwDownloadVectorSize
  distinct : d.vtThreadTask.Pairwise fun t t' => t.nCallByteCnt ≠ t'.nCallByteCnt
  eq : ∀ cells, d.nDownloadCount = some cells →
    ∀ t ∈ d.vtThreadTask, cells t.nCallByteCnt = t.n64DownloadByteCnt

/-- What holds as long as the steps are allowed. -/
structure Inv (content : ℤ → UInt8) (d : Download) : Prop where
  size_mod : d.n64FileSize % segment ≠ 0
  sound : d.split.Sound
  content_eq : ∀ p b, d.file p = some b → b = content p
  count : d.getDownloadCount = d.split.done.ncard
  left : d.Left → d.getDownloadCount = d.n64FileSize
  tasks : ∀ t ∈ d.vtThreadTask, t.phase ≠ .notStarted → t.Fits d.n64FileSize d.file
  failed : ∀ r ∈ d.vtDownloadNo, r.Fits d.n64FileSize d.file ∧ r.Repairable d.n64FileSize
  saved : ∀ r ∈ d.vtTagTaskData, r.Fits d.n64FileSize d.file ∧
    (d.closing ≠ .returned → r.Repairable d.n64FileSize ∨ r.spent = true)
  position : d.Position
  cells : d.Cells
  stop : ∀ t ∈ d.vtThreadTask, t.bStopDownload = true ∨ t.phase = .stopped →
    d.closing = .returned
  closing : d.closing = .cleared ∨ d.closing = .signalled → d.vtTagTaskData = []
  spent : d.closing ≠ .returned →
    Tally.count DownloadTask.unstarted d.vtThreadTask +
      Tally.count TagDownloadData.spent d.vtTagTaskData < dwThreadCnt

end Download

/-! ## Ranges -/

theorem TagDownloadData.Fits.mono {size : ℤ} {file file' : ℤ → Option UInt8}
    {r : TagDownloadData} (h : r.Fits size file)
    (hfile : ∀ p, (file p).isSome → (file' p).isSome) : r.Fits size file' :=
  { h with written := fun p hp hlt => hfile p (h.written p hp hlt) }

theorem DownloadTask.Fits.mono {size : ℤ} {file file' : ℤ → Option UInt8} {t : DownloadTask}
    (h : t.Fits size file) (hfile : ∀ p, (file p).isSome → (file' p).isSome) :
    t.Fits size file' :=
  { h with tag := h.tag.mono hfile }

namespace TagDownloadData

variable {size : ℤ} {file : ℤ → Option UInt8} {r : TagDownloadData}

/-- A task for the rest of a range that can be asked for. -/
theorem Fits.whole_rest (h : r.Fits size file) (hrest : r.Repairable size) (slot : ℤ)
    (phase : TaskPhase) :
    DownloadTask.Whole size ⟨r.n64X + r.n64DownloadCnt, r.n64TaskCnt - r.n64DownloadCnt - 1, 0,
      slot, false, phase⟩ := by
  have hnonneg := h.nonneg
  have hcnt := h.cnt_nonneg
  have hinside := h.inside
  rw [Repairable] at hrest
  constructor
  · simp only
    omega
  · simp only
    omega
  · simp only
    omega
  · simp only
    omega

/-- The rest of a range, as the range of a new task. -/
theorem Fits.rest (h : r.Fits size file) :
    Fits size file ⟨r.n64X + r.n64DownloadCnt, 0, r.n64TaskCnt - r.n64DownloadCnt⟩ := by
  have hnonneg := h.nonneg
  have hcnt := h.cnt_nonneg
  have hle := h.cnt_le
  have hinside := h.inside
  have hsegment := h.segment
  constructor
  · simp only
    omega
  · simp only
    omega
  · simp only
    omega
  · simp only
    omega
  · simp only [Gendo.Client.segment] at hsegment ⊢
    omega
  · intro p hp hlt
    simp only at hp hlt
    omega

end TagDownloadData

/-- A new task for a segment, or for the rest of a range. -/
theorem DownloadTask.new_fits {size n64X n64Size slot : ℤ} {file : ℤ → Option UInt8}
    (htag : TagDownloadData.Fits size file ⟨n64X, 0, n64Size + 1⟩)
    (hwhole : Whole size ⟨n64X, n64Size, 0, slot, false, .notStarted⟩) :
    (new size n64X n64Size slot).Fits size file := by
  rw [new_of_whole hwhole]
  exact ⟨htag, { hwhole with }, by simp⟩

namespace Download

variable {content : ℤ → UInt8} {d : Download} {i : ℕ} {t t' : DownloadTask}

/-! ## A task is replaced -/

/-- The pieces that do not belong to the task. -/
theorem exists_spans_eq (ht : d.vtThreadTask[i]? = some t) :
    ∃ rest, d.spans = t.spans + rest ∧ ∀ t', (d.setTask i t').spans = t'.spans + rest := by
  obtain ⟨l₁, l₂, hl, hset⟩ := Tally.exists_append_of_getElem? ht
  refine ⟨Tally.total DownloadTask.spans l₁ + Tally.total DownloadTask.spans l₂ +
    Tally.total (fun r => {r.span}) d.vtDownloadNo +
    Tally.total (fun r => {r.span}) d.vtTagTaskData, ?_, ?_⟩
  · rw [spans, hl, Tally.total_append, Tally.total_cons]
    abel
  · intro t'
    simp only [spans, setTask, hset, Tally.total_append, Tally.total_cons]
    abel

/-- A task that is replaced keeps its cell. -/
theorem Cells.setTask (h : d.Cells) (ht : d.vtThreadTask[i]? = some t)
    (hslot : t'.nCallByteCnt = t.nCallByteCnt)
    (hgot : t'.n64DownloadByteCnt = t.n64DownloadByteCnt) : (d.setTask i t').Cells := by
  obtain ⟨l₁, l₂, hl, hset⟩ := Tally.exists_append_of_getElem? ht
  obtain ⟨hnonneg, hslots, hdistinct, heq⟩ := h
  simp only [hl, List.forall_mem_append, List.forall_mem_cons, List.pairwise_append,
    List.pairwise_cons] at hslots hdistinct heq
  constructor
  · exact hnonneg
  · simp only [Download.setTask, hset, List.forall_mem_append, List.forall_mem_cons, hslot]
    exact hslots
  · simp only [Download.setTask, hset, List.pairwise_append, List.pairwise_cons,
      List.forall_mem_cons, hslot]
    exact hdistinct
  · intro cells hcells
    simp only [Download.setTask, hset, List.forall_mem_append, List.forall_mem_cons, hslot, hgot]
    exact heq cells hcells

/-- The new task holds the same piece as the old one, or the old one had nothing left. -/
def SameSpan (t t' : DownloadTask) : Prop :=
  t'.spans = t.spans ∨ (t'.spans = 0 ∧ ∃ lo, t.spans = {⟨lo, lo⟩})

/-- Replacing a task this way is a step. -/
theorem step_setTask (ht : d.vtThreadTask[i]? = some t) (hspan : SameSpan t t') :
    Step d.split 0 (d.setTask i t').split := by
  obtain ⟨rest, hrest, hset⟩ := exists_spans_eq ht
  have hsplit : (d.setTask i t').split =
      ⟨{p | (d.file p).isSome}, t'.spans + rest, d.frontier⟩ := by
    rw [← hset t']
    rfl
  rw [hsplit, split, hrest]
  obtain heq | ⟨hzero, lo, hlo⟩ := hspan
  · rw [heq]
    exact .keep _
  · rw [hzero, hlo, zero_add, Multiset.singleton_add]
    exact .drop rfl

/-- What follows for the invariant. -/
theorem Inv.setTask (h : d.Inv content) (ht : d.vtThreadTask[i]? = some t)
    (hslot : t'.nCallByteCnt = t.nCallByteCnt)
    (hgot : t'.n64DownloadByteCnt = t.n64DownloadByteCnt) (hspan : SameSpan t t')
    (hphase : t'.phase ≠ .notStarted) (hfits : t'.Fits d.n64FileSize d.file)
    (hstop : t'.bStopDownload = true ∨ t'.phase = .stopped → d.closing = .returned) :
    (d.setTask i t').Inv content := by
  have hmem : ∀ u ∈ (d.setTask i t').vtThreadTask, u ∈ d.vtThreadTask ∨ u = t' :=
    fun u hu => List.mem_or_eq_of_mem_set hu
  have hstep := step_setTask ht hspan
  exact
    { h with
      sound := (hstep.sound h.sound).1
      position := ⟨h.position.none, h.position.some⟩
      tasks := by
        intro u hu hne
        obtain hu | rfl := hmem u hu
        · exact h.tasks u hu hne
        · exact hfits
      cells := h.cells.setTask ht hslot hgot
      stop := by
        intro u hu hu'
        obtain hu | rfl := hmem u hu
        · exact h.stop u hu hu'
        · exact hstop hu'
      spent := by
        intro hclosing
        have hold := h.spent hclosing
        have hcount := Tally.count_set DownloadTask.unstarted ht t'
        have hstarted : t'.unstarted = false := decide_eq_false hphase
        rw [hstarted, Bool.toNat_false, add_zero] at hcount
        change Tally.count _ (d.vtThreadTask.set i t') + Tally.count _ d.vtTagTaskData < _
        omega }

/-! ## Bytes are written -/

theorem Position.frontier_le (h : d.Position) : d.frontier ≤ d.n64FileSize := by
  cases hlast : d.lastTag with
  | none =>
    obtain ⟨-, -, -, hlt⟩ | ⟨-, heq⟩ := h.none hlast
    · exact hlt.le
    · exact heq.le
  | some r =>
    obtain ⟨-, -, hlt, -⟩ | ⟨heq, -⟩ := h.some r hlast
    · exact hlt.le
    · exact heq.le

/-- Once the loop is left, nothing is left to be written. -/
theorem Inv.spent_of_left (h : d.Inv content) (hleft : d.Left) {r : Span} (hr : r ∈ d.spans) :
    r.hi = r.lo := by
  have hcount := h.left hleft
  have hcard := h.count
  have hle := h.position.frontier_le
  have hncard : d.split.done.ncard ≤ d.frontier := h.sound.ncard_le
  have heq : (d.split.done.ncard : ℤ) = d.split.next := by
    change (d.split.done.ncard : ℤ) = d.frontier
    omega
  exact h.sound.spent heq hr

/-- The piece of a running task. -/
theorem mem_spans_of_running (ht : d.vtThreadTask[i]? = some t) (hrun : t.phase = .running) :
    t.tag.span ∈ d.spans := by
  obtain ⟨rest, hrest, -⟩ := exists_spans_eq ht
  rw [hrest, DownloadTask.spans, hrun]
  simp

/-- What a running task is after it wrote `n` bytes. -/
def wrote (t : DownloadTask) (n : ℕ) : DownloadTask :=
  { t with n64DownloadByteCnt := t.n64DownloadByteCnt + n }

/-- The bytes are written and counted, and the task goes on. -/
def progress (content : ℤ → UInt8) (d : Download) (i : ℕ) (t : DownloadTask) (n : ℕ) : Download :=
  { d with
    file := d.written content t n
    nDownloadCount := d.nDownloadCount.map fun cells =>
      Function.update cells t.nCallByteCnt (toInt (cells t.nCallByteCnt + n))
    vtThreadTask := d.vtThreadTask.set i (wrote t n) }

/-- A task that was told to stop notes its range after it has written. -/
theorem received_eq (content : ℤ → UInt8) (d : Download) (i : ℕ) (t : DownloadTask) (n : ℕ) :
    d.received content i t n =
      if t.bStopDownload then (d.progress content i t n).stopped i (wrote t n)
      else d.progress content i t n := by
  by_cases hstop : t.bStopDownload = true
  · simp only [received, counted, if_pos hstop]
    simp only [stopped, setTask, progress, wrote, List.set_set]
  · simp only [received, counted, if_neg hstop]
    rfl

/-- Which bytes are written then. -/
theorem isSome_written (content : ℤ → UInt8) (d : Download) (t : DownloadTask) (n : ℕ) :
    {p | (d.written content t n p).isSome} = {p | (d.file p).isSome} ∪
      Set.Ico (t.n64X + t.n64DownloadByteCnt) (t.n64X + t.n64DownloadByteCnt + n) := by
  ext p
  simp only [written, Set.mem_ofPred_eq, Set.mem_union, Set.mem_Ico]
  split_ifs with hp
  · simp [hp]
  · simp [hp]

/-- The bytes come from the same place of the file on the server. -/
theorem written_eq (h : ∀ p b, d.file p = some b → b = content p) (t : DownloadTask) (n : ℕ)
    (p : ℤ) (b : UInt8) (hp : d.written content t n p = some b) : b = content p := by
  simp only [written, DownloadTask.request_first] at hp
  split_ifs at hp with hpos
  · obtain rfl := Option.some.inj hp
    congr 1
    omega
  · exact h p b hp

/-- Writing bytes is a step. -/
theorem step_progress (content : ℤ → UInt8) (ht : d.vtThreadTask[i]? = some t)
    (hrun : t.phase = .running) {n : ℕ} (hn : t.n64DownloadByteCnt + n ≤ t.n64DownloadSize + 1) :
    Step d.split n (d.progress content i t n).split := by
  obtain ⟨rest, hrest, hset⟩ := exists_spans_eq ht
  have hold : t.spans = {⟨t.n64X + t.n64DownloadByteCnt, t.n64X + (t.n64DownloadSize + 1)⟩} := by
    rw [DownloadTask.spans, hrun]
    rfl
  have hnew : (wrote t n).spans =
      {⟨t.n64X + t.n64DownloadByteCnt + n, t.n64X + (t.n64DownloadSize + 1)⟩} := by
    simp [DownloadTask.spans, wrote, hrun, TagDownloadData.span, add_assoc]
  have hsplit : (d.progress content i t n).split =
      ⟨{p | (d.written content t n p).isSome}, (wrote t n).spans + rest, d.frontier⟩ := by
    rw [← hset (wrote t n)]
    rfl
  rw [hsplit, split, hrest, hold, hnew, isSome_written, Multiset.singleton_add,
    Multiset.singleton_add]
  exact .work n (by omega)

/-- The cell of the task has what the task counts. -/
theorem Cells.progress (h : d.Cells) (ht : d.vtThreadTask[i]? = some t) {n : ℕ}
    (h0 : 0 ≤ t.n64DownloadByteCnt) (hn : t.n64DownloadByteCnt + n < 2 ^ 31) :
    (d.progress content i t n).Cells := by
  obtain ⟨l₁, l₂, hl, hset⟩ := Tally.exists_append_of_getElem? ht
  obtain ⟨hnonneg, hslots, hdistinct, heq⟩ := h
  simp only [hl, List.forall_mem_append, List.forall_mem_cons, List.pairwise_append,
    List.pairwise_cons] at hslots hdistinct heq
  constructor
  · exact hnonneg
  · simp only [Download.progress, hset, List.forall_mem_append, List.forall_mem_cons, wrote]
    exact hslots
  · simp only [Download.progress, hset, List.pairwise_append, List.pairwise_cons,
      List.forall_mem_cons, wrote]
    exact hdistinct
  · intro cells' hcells'
    obtain ⟨cells, hcells, rfl⟩ := Option.map_eq_some_iff.1 hcells'
    obtain ⟨heq₁, heqt, heq₂⟩ := heq cells hcells
    obtain ⟨-, ⟨hne₂, -⟩, hne₁⟩ := hdistinct
    simp only [Download.progress, hset, List.forall_mem_append, List.forall_mem_cons, wrote]
    refine ⟨?_, ?_, ?_⟩
    · intro u hu
      rw [Function.update_of_ne (hne₁ u hu).1]
      exact heq₁ u hu
    · rw [Function.update_self, heqt]
      exact toInt_of_lt (by omega) hn
    · intro u hu
      rw [Function.update_of_ne (hne₂ u hu).symm]
      exact heq₂ u hu

/-- The range of the task goes on where it wrote. -/
theorem fits_wrote (h : t.Fits d.n64FileSize d.file) {n : ℕ}
    (hn : t.n64DownloadByteCnt + n ≤ t.n64DownloadSize + 1) (hrun : t.phase = .running) :
    (wrote t n).Fits d.n64FileSize (d.written content t n) := by
  have htag := h.tag
  have hcnt : 0 ≤ t.n64DownloadByteCnt := htag.cnt_nonneg
  refine ⟨⟨htag.nonneg, ?_, hn, htag.inside, htag.segment, ?_⟩, { h.whole with }, ?_⟩
  · simp only [wrote, DownloadTask.tag_n64DownloadCnt]
    omega
  · intro p hp hlt
    have hmem : p ∈ {p | (d.written content t n p).isSome} := by
      rw [isSome_written]
      by_cases hold : p < t.n64X + t.n64DownloadByteCnt
      · exact Or.inl (htag.written p hp hold)
      · simp only [wrote, DownloadTask.tag_n64X, DownloadTask.tag_n64DownloadCnt] at hlt
        exact Or.inr ⟨by omega, by omega⟩
    exact hmem
  · simp [wrote, hrun]

/-- What follows for the invariant. -/
theorem Inv.progress (h : d.Inv content) (ht : d.vtThreadTask[i]? = some t)
    (hrun : t.phase = .running) {n : ℕ} (hpos : 0 < n)
    (hn : t.n64DownloadByteCnt + n ≤ t.answer d.n64FileSize) :
    (d.progress content i t n).Inv content ∧
      (d.progress content i t n).getDownloadCount = d.getDownloadCount + n := by
  have htmem := List.mem_of_getElem? ht
  have hfits := h.tasks t htmem (by simp [hrun])
  rw [hfits.whole.answer] at hn
  have hcnt : 0 ≤ t.n64DownloadByteCnt := hfits.tag.cnt_nonneg
  have hbound : t.n64DownloadByteCnt + n < 2 ^ 31 := by
    have hsegment := hfits.tag.segment
    simp only [DownloadTask.tag_n64X, DownloadTask.tag_n64TaskCnt, segment] at hsegment
    omega
  -- the loop was not left, or the task would have nothing to write
  have hleft : ¬d.Left := by
    intro hleft
    have hspent := h.spent_of_left hleft (mem_spans_of_running ht hrun)
    simp only [TagDownloadData.span, DownloadTask.tag_n64X, DownloadTask.tag_n64TaskCnt,
      DownloadTask.tag_n64DownloadCnt] at hspent
    omega
  obtain ⟨cells, hcells⟩ := Option.ne_none_iff_exists'.1 hleft
  have hslot := h.cells.slot t htmem
  have hcell := h.cells.eq cells hcells t htmem
  have hcount : (d.progress content i t n).getDownloadCount = d.getDownloadCount + n := by
    have hval := getDownloadCount_counted (i := i) (n := n) hcells hslot.1 hslot.2.1 (by omega)
      (by omega)
    rw [← hval, counted]
    split
    · rfl
    · rfl
  have hmono : ∀ p, (d.file p).isSome → (d.written content t n p).isSome := by
    intro p hp
    have hmem : p ∈ {p | (d.written content t n p).isSome} := by
      rw [isSome_written]
      exact Or.inl hp
    exact hmem
  have hstep := step_progress content ht hrun hn
  obtain ⟨hsound, hncard⟩ := hstep.sound h.sound
  have hmem : ∀ u ∈ (d.progress content i t n).vtThreadTask, u ∈ d.vtThreadTask ∨ u = wrote t n :=
    fun u hu => List.mem_or_eq_of_mem_set hu
  refine ⟨⟨h.size_mod, hsound, written_eq h.content_eq t n, ?_, ?_, ?_, ?_, ?_,
    ⟨h.position.none, h.position.some⟩, h.cells.progress ht hcnt hbound, ?_, h.closing, ?_⟩,
    hcount⟩
  · rw [hcount, hncard, h.count]
    push_cast
    rfl
  · intro hleft'
    simp [Left, Download.progress, hcells] at hleft'
  · intro u hu hne
    obtain hu | rfl := hmem u hu
    · exact (h.tasks u hu hne).mono hmono
    · exact fits_wrote hfits hn hrun
  · exact fun r hr => ⟨(h.failed r hr).1.mono hmono, (h.failed r hr).2⟩
  · exact fun r hr => ⟨(h.saved r hr).1.mono hmono, (h.saved r hr).2⟩
  · intro u hu hstop
    obtain hu | rfl := hmem u hu
    · exact h.stop u hu hstop
    · exact h.stop t htmem hstop
  · intro hclosing
    have hold := h.spent hclosing
    have hset := Tally.count_set DownloadTask.unstarted ht (wrote t n)
    have hphase : (wrote t n).unstarted = t.unstarted := rfl
    rw [hphase] at hset
    change Tally.count _ (d.vtThreadTask.set i (wrote t n)) +
      Tally.count _ d.vtTagTaskData < _
    omega

/-! ## Tasks end -/

/-- A task that was told to stop leaves its range to `vtTagTaskData`. -/
theorem Inv.stopped (h : d.Inv content) (ht : d.vtThreadTask[i]? = some t)
    (hrun : t.phase = .running) (hclosing : d.closing = .returned) :
    (d.stopped i t).Inv content := by
  have htmem := List.mem_of_getElem? ht
  have hfits := h.tasks t htmem (by simp [hrun])
  have hmem : ∀ u ∈ (d.stopped i t).vtThreadTask,
      u ∈ d.vtThreadTask ∨ u = { t with phase := .stopped } :=
    fun u hu => List.mem_or_eq_of_mem_set hu
  obtain ⟨rest, hrest, hset⟩ := exists_spans_eq ht
  -- the piece of the task becomes that of a saved range
  have hspans : (d.stopped i t).spans = d.spans := by
    have hnew : (d.stopped i t).spans =
        (d.setTask i { t with phase := .stopped }).spans + {t.tag.span} := by
      simp only [spans, Download.stopped, Tally.total_append, Tally.total_cons, Tally.total_nil,
        add_zero]
      rw [← add_assoc]
      rfl
    rw [hnew, hset, hrest, DownloadTask.spans, DownloadTask.spans, hrun]
    simp only [zero_add]
    rw [add_comm]
  have hlast : (d.stopped i t).lastTag = none := if_pos hclosing
  have hlast' : d.lastTag = none := if_pos hclosing
  have hfrontier : (d.stopped i t).frontier = d.frontier := by
    rw [frontier, hlast, frontier, hlast']
    rfl
  have hsplit : (d.stopped i t).split = d.split := by
    rw [split, split, hspans, hfrontier]
    rfl
  have hcells : (d.setTask i { t with phase := .stopped }).Cells := h.cells.setTask ht rfl rfl
  refine ⟨h.size_mod, hsplit ▸ h.sound, h.content_eq, ?_, h.left, ?_, h.failed, ?_, ?_,
    ⟨hcells.nonneg, hcells.slot, hcells.distinct, hcells.eq⟩, ?_, ?_, ?_⟩
  · rw [hsplit]
    exact h.count
  · intro u hu hne
    obtain hu | rfl := hmem u hu
    · exact h.tasks u hu hne
    · exact ⟨hfits.tag, { hfits.whole with }, by simp⟩
  · intro r hr
    obtain hr | hr := List.mem_append.1 hr
    · exact ⟨(h.saved r hr).1, fun hne => absurd hclosing hne⟩
    · obtain rfl := List.mem_singleton.1 hr
      exact ⟨hfits.tag, fun hne => absurd hclosing hne⟩
  · have hpos := h.position.none hlast'
    refine ⟨fun _ => ?_, fun r hr => ?_⟩
    · rw [hfrontier]
      exact hpos
    · rw [hlast] at hr
      cases hr
  · exact fun _ _ _ => hclosing
  · intro hcl
    change d.closing = .cleared ∨ d.closing = .signalled at hcl
    rw [hclosing] at hcl
    obtain hcl | hcl := hcl
    · cases hcl
    · cases hcl
  · exact fun hne => absurd hclosing hne

/-- What `detect_vtThread_Task` does: nothing, or it takes out a task that has ended. -/
theorem detectVtThreadTask_cases (d : Download) :
    (d.detectVtThreadTask = d ∧ ∀ t ∈ d.vtThreadTask, t.ended = false) ∨
      ∃ t l₁ l₂, d.vtThreadTask = l₁ ++ t :: l₂ ∧ (t.phase = .threadOn ∨ t.phase = .threadOk) ∧
        d.detectVtThreadTask = { d with
          vtThreadTask := l₁ ++ l₂
          vtDownloadNo := if t.phase = .threadOn then d.vtDownloadNo ++ [t.tag]
            else d.vtDownloadNo } := by
  rw [detectVtThreadTask]
  cases hfind : d.vtThreadTask.find? DownloadTask.ended with
  | none =>
    left
    exact ⟨rfl, fun t ht => by simpa using List.find?_eq_none.1 hfind t ht⟩
  | some t =>
    right
    obtain ⟨hended, l₁, l₂, hl, herase⟩ := Tally.exists_append_of_find? hfind
    refine ⟨t, l₁, l₂, hl, by simpa [DownloadTask.ended] using hended, ?_⟩
    simp only [herase]

/-- `detect_vtThread_Task` keeps the ranges. -/
theorem Inv.detectVtThreadTask (h : d.Inv content) : d.detectVtThreadTask.Inv content := by
  obtain ⟨heq, -⟩ | ⟨t, l₁, l₂, hl, hphase, heq⟩ := d.detectVtThreadTask_cases
  · rw [heq]
    exact h
  rw [heq]
  have htmem : t ∈ d.vtThreadTask := by simp [hl]
  have hsub : ∀ u ∈ l₁ ++ l₂, u ∈ d.vtThreadTask := by
    rw [hl]
    exact ((List.sublist_cons_self t l₂).append_left l₁).subset
  have hfits := h.tasks t htmem (by obtain hp | hp := hphase <;> simp [hp])
  have hsplit : Download.split { d with
      vtThreadTask := l₁ ++ l₂
      vtDownloadNo := if t.phase = .threadOn then d.vtDownloadNo ++ [t.tag]
        else d.vtDownloadNo } = d.split := by
    -- a failed task leaves its piece to `vtDownloadNo`, a finished one has none
    have hspans : Download.spans { d with
        vtThreadTask := l₁ ++ l₂
        vtDownloadNo := if t.phase = .threadOn then d.vtDownloadNo ++ [t.tag]
          else d.vtDownloadNo } = d.spans := by
      obtain hp | hp := hphase
      · simp only [spans, hl, hp, if_true, Tally.total_append, Tally.total_cons, Tally.total_nil,
          DownloadTask.spans]
        abel
      · simp [spans, hl, hp, DownloadTask.spans]
    rw [split, split, hspans]
    rfl
  refine ⟨h.size_mod, hsplit ▸ h.sound, h.content_eq, ?_, h.left, fun u hu => h.tasks u (hsub u hu),
    ?_, h.saved, ⟨h.position.none, h.position.some⟩, ?_, fun u hu => h.stop u (hsub u hu),
    h.closing, ?_⟩
  · rw [hsplit]
    exact h.count
  · intro r hr
    obtain hp | hp := hphase
    · simp only [hp, if_true] at hr
      obtain hr | hr := List.mem_append.1 hr
      · exact h.failed r hr
      · obtain rfl := List.mem_singleton.1 hr
        exact ⟨hfits.tag, hfits.failed hp⟩
    · simp only [hp] at hr
      exact h.failed r hr
  · have hdistinct := h.cells.distinct
    rw [hl] at hdistinct
    exact ⟨h.cells.nonneg, fun u hu => h.cells.slot u (hsub u hu),
      hdistinct.sublist (List.Sublist.append_left (List.sublist_cons_self _ _) _),
      fun cells hcells u hu => h.cells.eq cells hcells u (hsub u hu)⟩
  · intro hclosing
    have hold := h.spent hclosing
    rw [hl] at hold
    simp only [Tally.count_append, Tally.count_cons] at hold ⊢
    omega

/-! ## A task is made -/

/-- What a pass of `thread_Task` changes besides the task that it makes. -/
def retarget (d : Download) (S C : ℤ) (no tags : List TagDownloadData) (assigned : List Span) :
    Download :=
  { d with
    n64ThreadTaskSion := S
    n64ThreadDownloadCnt := C
    vtDownloadNo := no
    vtTagTaskData := tags
    assigned := assigned }

/-- The next `k` bytes are assigned. -/
def assignNext (d : Download) (k : ℤ) : Download :=
  d.retarget d.frontier k d.vtDownloadNo [] (d.assigned ++ [⟨d.frontier, d.frontier + k⟩])

section AddTask

variable {S C x size : ℤ} {no tags : List TagDownloadData} {assigned : List Span}

theorem spans_addTask (d : Download) (x size : ℤ) :
    (d.addTask x size).spans = (DownloadTask.new d.n64FileSize x size d.nDataCount).spans +
      d.spans := by
  simp only [spans, addTask, Tally.total_append, Tally.total_cons, Tally.total_nil, add_zero]
  abel

/-- The new task gets the next cell. -/
theorem Cells.addTask (h : d.Cells) (hcell : d.HasCell) (x size : ℤ) :
    (d.addTask x size).Cells := by
  obtain ⟨phase, hnew, -⟩ :=
    DownloadTask.new_eq d.n64FileSize x size d.nDataCount
  obtain ⟨hnonneg, hslot, hdistinct, heq⟩ := h
  have hcount : (d.addTask x size).nDataCount = d.nDataCount + 1 :=
    toInt_of_lt (by omega) hcell.2
  have htasks : (d.addTask x size).vtThreadTask =
      d.vtThreadTask ++ [⟨x, size, 0, d.nDataCount, false, phase⟩] := by
    rw [← hnew]
    rfl
  constructor
  · omega
  · rw [htasks, List.forall_mem_append]
    refine ⟨fun u hu => ?_, ?_⟩
    · obtain ⟨h0, hlt, hvec⟩ := hslot u hu
      exact ⟨h0, by omega, hvec⟩
    · have hvec := hcell.1
      rw [List.forall_mem_singleton]
      exact ⟨hnonneg, by simp only; omega, hvec⟩
  · -- the cells that are used so far are below the next one
    rw [htasks, List.pairwise_append]
    refine ⟨hdistinct, List.pairwise_singleton _ _, fun u hu => ?_⟩
    rw [List.forall_mem_singleton]
    have hlt := (hslot u hu).2.1
    simp only
    omega
  · intro cells' hcells'
    obtain ⟨cells, hcells, rfl⟩ := Option.map_eq_some_iff.1 hcells'
    rw [htasks, List.forall_mem_append, List.forall_mem_singleton]
    refine ⟨fun u hu => ?_, Function.update_self _ _ _⟩
    have hlt := (hslot u hu).2.1
    rw [Function.update_of_ne (by omega)]
    exact heq cells hcells u hu

/-- What follows for the invariant when a task is made, for whatever it is made. -/
theorem Inv.addTask (h : d.Inv content) (hleft : ¬d.Left) (hcell : d.HasCell)
    (hstep : Step d.split 0 ((d.retarget S C no tags assigned).addTask x size).split)
    (hfits : (DownloadTask.new d.n64FileSize x size d.nDataCount).phase ≠ .notStarted →
      (DownloadTask.new d.n64FileSize x size d.nDataCount).Fits d.n64FileSize d.file)
    (hno : no ⊆ d.vtDownloadNo) (htags : tags ⊆ d.vtTagTaskData)
    (hposition : ((d.retarget S C no tags assigned).addTask x size).Position)
    (hspent : (DownloadTask.new d.n64FileSize x size d.nDataCount).unstarted.toNat +
      Tally.count TagDownloadData.spent tags ≤ Tally.count TagDownloadData.spent d.vtTagTaskData) :
    ((d.retarget S C no tags assigned).addTask x size).Inv content := by
  obtain ⟨phase, hnew, hnewPhase⟩ := DownloadTask.new_eq d.n64FileSize x size d.nDataCount
  have hmem : ∀ u ∈ ((d.retarget S C no tags assigned).addTask x size).vtThreadTask,
      u ∈ d.vtThreadTask ∨ u = DownloadTask.new d.n64FileSize x size d.nDataCount := by
    intro u hu
    obtain hu | hu := List.mem_append.1 hu
    · exact .inl hu
    · exact .inr (List.mem_singleton.1 hu)
  have hcells : ((d.retarget S C no tags assigned).addTask x size).Cells :=
    Cells.addTask (d := d.retarget S C no tags assigned)
      ⟨h.cells.nonneg, h.cells.slot, h.cells.distinct, h.cells.eq⟩ hcell x size
  have hcount : ((d.retarget S C no tags assigned).addTask x size).getDownloadCount =
      d.getDownloadCount :=
    getDownloadCount_addTask (d := d.retarget S C no tags assigned) h.cells.nonneg hcell.2 x size
  obtain ⟨hsound, hncard⟩ := hstep.sound h.sound
  refine ⟨h.size_mod, hsound, h.content_eq, ?_, ?_, ?_, fun r hr => h.failed r (hno hr),
    fun r hr => h.saved r (htags hr), hposition, hcells, ?_, ?_, ?_⟩
  · rw [hcount, hncard, h.count, Nat.add_zero]
  · intro hleft'
    exact absurd (Option.map_eq_none_iff.1 hleft') hleft
  · intro u hu hne
    obtain hu | rfl := hmem u hu
    · exact h.tasks u hu hne
    · exact hfits hne
  · intro u hu hstop
    obtain hu | rfl := hmem u hu
    · exact h.stop u hu hstop
    · -- a new task was not told to stop
      rw [hnew] at hstop
      obtain rfl | rfl := hnewPhase
      · simp at hstop
      · simp at hstop
  · intro hcl
    have hnil := h.closing hcl
    exact List.eq_nil_of_subset_nil (hnil ▸ htags)
  · -- a saved range with nothing left makes a task that is not started, and is counted as one
    intro hne
    have hold := h.spent hne
    change Tally.count _ (d.vtThreadTask ++ [_]) + Tally.count _ tags < _
    rw [Tally.count_append, Tally.count_cons, Tally.count_nil, add_zero]
    exact lt_of_le_of_lt (by rw [add_assoc]; exact Nat.add_le_add_left hspent _) hold

end AddTask

/-! ## The passes of `thread_Task` -/

variable {r : TagDownloadData} {rest : List TagDownloadData}

/-- The task for the rest of a range stands for the same piece. -/
theorem new_rest {size : ℤ} {file : ℤ → Option UInt8} (hfits : r.Fits size file)
    (hrepairable : r.Repairable size) (slot : ℤ) {u : DownloadTask}
    (hu : u = .new size (r.n64X + r.n64DownloadCnt) (r.n64TaskCnt - r.n64DownloadCnt - 1) slot) :
    u.phase = .running ∧ u.spans = {r.span} ∧ u.Fits size file := by
  have hwhole := hfits.whole_rest hrepairable slot .notStarted
  have hnew := DownloadTask.new_of_whole hwhole
  have htask : r.n64TaskCnt - r.n64DownloadCnt - 1 + 1 = r.n64TaskCnt - r.n64DownloadCnt := by
    omega
  refine ⟨?_, ?_, ?_⟩
  · rw [hu, hnew]
  · have hend : r.n64X + r.n64DownloadCnt + (r.n64TaskCnt - r.n64DownloadCnt) =
        r.n64X + r.n64TaskCnt := by omega
    rw [hu, hnew]
    simp only [DownloadTask.spans, DownloadTask.tag, TagDownloadData.span, htask, hend, add_zero]
  · rw [hu]
    apply DownloadTask.new_fits _ hwhole
    rw [htask]
    exact hfits.rest

/-- What `thread_Task` does with the first failed range. -/
theorem Inv.repair (h : d.Inv content) (hleft : ¬d.Left) (hcell : d.HasCell)
    (hno : d.vtDownloadNo = r :: rest) :
    (Download.addTask { d with vtDownloadNo := rest } (r.n64X + r.n64DownloadCnt)
      (r.n64TaskCnt - r.n64DownloadCnt - 1)).Inv content := by
  obtain ⟨hfits, hrepairable⟩ := h.failed r (by simp [hno])
  obtain ⟨hphase, hspan, hnew⟩ := new_rest hfits hrepairable d.nDataCount rfl
  change ((d.retarget d.n64ThreadTaskSion d.n64ThreadDownloadCnt rest d.vtTagTaskData
    d.assigned).addTask (r.n64X + r.n64DownloadCnt)
      (r.n64TaskCnt - r.n64DownloadCnt - 1)).Inv content
  refine h.addTask hleft hcell ?_ (fun _ => hnew) ?_ (List.Subset.refl _)
    ⟨h.position.none, h.position.some⟩ ?_
  · -- the piece goes from the failed range to the new task
    have hspans : (Download.addTask { d with vtDownloadNo := rest } (r.n64X + r.n64DownloadCnt)
        (r.n64TaskCnt - r.n64DownloadCnt - 1)).spans = d.spans := by
      rw [spans_addTask, hspan]
      simp only [spans, hno, Tally.total_cons]
      abel
    have hsplit : (Download.addTask { d with vtDownloadNo := rest } (r.n64X + r.n64DownloadCnt)
        (r.n64TaskCnt - r.n64DownloadCnt - 1)).split = d.split := by
      rw [split, split, hspans]
      rfl
    have hkeep := Step.keep d.split
    rw [← hsplit] at hkeep
    rwa [← hsplit]
  · rw [hno]
    exact List.subset_cons_self _ _
  · simp [DownloadTask.unstarted, hphase]

/-- What `thread_Task` does with the first saved range. Where it is the last one, assigning goes on
after it, if its position is not mistaken for `T_X` or `T_Z`. -/
theorem startTask_cons (htags : d.vtTagTaskData = r :: rest) :
    ∃ S C, d.startTask =
        (d.retarget S C d.vtDownloadNo rest d.assigned).addTask (r.n64X + r.n64DownloadCnt)
          (r.n64TaskCnt - r.n64DownloadCnt - 1) ∧
      (rest = [] → S + C = r.n64X + r.n64TaskCnt ∧
        C = if r.n64X + r.n64DownloadCnt = T_X ∨ r.n64X + r.n64DownloadCnt = T_Z then
          r.n64TaskCnt - r.n64DownloadCnt else segment) := by
  by_cases hrest : rest = []
  · -- the position stands for itself, or for one of the two values without one
    by_cases hcode : r.n64X + r.n64DownloadCnt = T_X ∨ r.n64X + r.n64DownloadCnt = T_Z
    · refine ⟨r.n64X + r.n64DownloadCnt, r.n64TaskCnt - r.n64DownloadCnt, ?_, fun _ => ⟨?_, ?_⟩⟩
      · have hret : ¬(r.n64X + r.n64DownloadCnt ≠ T_X ∧ r.n64X + r.n64DownloadCnt ≠ T_Z) := by
          tauto
        simp only [startTask, setThreadTaskData, htags, if_pos hrest, if_neg hret]
        rfl
      · omega
      · rw [if_pos hcode]
    · refine ⟨r.n64X + r.n64DownloadCnt - segment + (r.n64TaskCnt - r.n64DownloadCnt), segment, ?_,
        fun _ => ⟨?_, ?_⟩⟩
      · have hret : r.n64X + r.n64DownloadCnt ≠ T_X ∧ r.n64X + r.n64DownloadCnt ≠ T_Z := by
          tauto
        simp only [startTask, setThreadTaskData, htags, if_pos hrest, if_pos hret]
        rfl
      · omega
      · rw [if_neg hcode]
  · refine ⟨r.n64X + r.n64DownloadCnt, r.n64TaskCnt - r.n64DownloadCnt, ?_,
      fun hnil => absurd hnil hrest⟩
    have hret : ¬(T_Z ≠ T_X ∧ T_Z ≠ T_Z) := by simp
    simp only [startTask, setThreadTaskData, htags, if_neg hrest, if_neg hret]
    rfl

/-- Where nothing is saved, the task is for what was assigned. -/
theorem startTask_nil (htags : d.vtTagTaskData = []) :
    d.startTask = d.addTask d.n64ThreadTaskSion (d.n64ThreadDownloadCnt - 1) := by
  have hret : ¬(T_X ≠ T_X ∧ T_X ≠ T_Z) := by simp
  simp only [startTask, setThreadTaskData, htags, if_neg hret]

/-- What was saved last stays last. -/
theorem lastTag_of_ne {d : Download} (h : d.closing ≠ .returned) :
    d.lastTag = d.vtTagTaskData.getLast? := if_neg h

theorem frontier_of_none (h : d.lastTag = none) :
    d.frontier = d.n64ThreadTaskSion + d.n64ThreadDownloadCnt := by
  rw [frontier, h]

theorem frontier_of_some (h : d.lastTag = some r) : d.frontier = r.n64X + r.n64TaskCnt := by
  rw [frontier, h]

section HandOut

variable (hclosing : d.closing ≠ .returned) (htags : d.vtTagTaskData = r :: rest)

include hclosing htags

theorem lastTag_startTask : d.startTask.lastTag = rest.getLast? := by
  obtain ⟨S, C, hstart, -⟩ := startTask_cons htags
  rw [hstart]
  exact lastTag_of_ne hclosing

theorem lastTag_cons : d.lastTag = (r :: rest).getLast? := by
  rw [lastTag_of_ne hclosing, htags]

/-- Where assigning goes on does not change when a saved range is handed out. -/
theorem frontier_startTask : d.startTask.frontier = d.frontier := by
  have hnew := lastTag_startTask hclosing htags
  have hold := lastTag_cons hclosing htags
  cases rest with
  | nil =>
    obtain ⟨S, C, hstart, hlast⟩ := startTask_cons htags
    rw [frontier_of_none hnew, frontier_of_some hold, hstart]
    exact (hlast rfl).1
  | cons r' rest =>
    rw [List.getLast?_cons_cons] at hold
    have hsome := List.getLast?_eq_some_getLast (List.cons_ne_nil r' rest)
    rw [frontier_of_some (hnew.trans hsome), frontier_of_some (hold.trans hsome)]

/-- After the last saved range `thread_Task` is at the start of a segment, or all is assigned. -/
theorem Position.handOut (h : d.Position) {file : ℤ → Option UInt8}
    (hfits : r.Fits d.n64FileSize file) : d.startTask.Position := by
  have hfrontier := frontier_startTask hclosing htags
  have hnew := lastTag_startTask hclosing htags
  have hold := lastTag_cons hclosing htags
  obtain ⟨S, C, hstart, hlast⟩ := startTask_cons htags
  have hsize : d.startTask.n64FileSize = d.n64FileSize := by
    rw [hstart]
    rfl
  cases rest with
  | nil =>
    obtain ⟨-, hC⟩ := hlast rfl
    have hCnt : d.startTask.n64ThreadDownloadCnt = C := by
      rw [hstart]
      rfl
    refine ⟨fun _ => ?_, fun r' hr' => ?_⟩
    · rw [hfrontier, hCnt, hC, hsize]
      obtain ⟨hdvd, h0, hlt, hX, hZ⟩ | ⟨hend, hcode⟩ := h.some r hold
      · rw [if_neg (by tauto)]
        exact .inl ⟨rfl, hdvd, h0, hlt⟩
      · rw [if_pos hcode]
        refine .inr ⟨?_, hend⟩
        -- a range of a whole segment does not start at 1 or 3
        have hnonneg := hfits.nonneg
        have hcnt := hfits.cnt_nonneg
        have hsegment := hfits.segment
        simp only [segment, T_X, T_Z] at hsegment hcode ⊢
        omega
    · rw [hnew] at hr'
      cases hr'
  | cons r' rest =>
    rw [List.getLast?_cons_cons] at hold
    refine ⟨fun hnone => ?_, fun r'' hr'' => ?_⟩
    · rw [hnew, List.getLast?_eq_none_iff] at hnone
      cases hnone
    · rw [hfrontier, hsize]
      exact h.some r'' (hold.trans (hnew.symm.trans hr''))

/-- The first saved range is handed out: its task stands for the same piece, or the piece is empty
and the task is not started. -/
theorem Inv.handOut (h : d.Inv content) (hleft : ¬d.Left) (hcell : d.HasCell) :
    d.startTask.Inv content := by
  have hfrontier := frontier_startTask hclosing htags
  obtain ⟨hfits, hrest⟩ := h.saved r (by simp [htags])
  have hposition := h.position.handOut hclosing htags hfits
  obtain ⟨S, C, hstart, -⟩ := startTask_cons htags
  have hsub : rest ⊆ d.vtTagTaskData := by
    rw [htags]
    exact List.subset_cons_self _ _
  -- the saved range is replaced by that of the task, and nothing else changes
  have hold : d.spans = r.span ::ₘ (d.retarget S C d.vtDownloadNo rest d.assigned).spans := by
    simp only [spans, retarget, htags, Tally.total_cons, ← Multiset.singleton_add]
    abel
  have hnew : d.startTask.spans = (DownloadTask.new d.n64FileSize (r.n64X + r.n64DownloadCnt)
      (r.n64TaskCnt - r.n64DownloadCnt - 1) d.nDataCount).spans +
        (d.retarget S C d.vtDownloadNo rest d.assigned).spans := by
    rw [hstart]
    exact spans_addTask _ _ _
  have hsplit : d.startTask.split = ⟨d.split.done, d.startTask.spans, d.frontier⟩ := by
    rw [split, hfrontier, hstart]
    rfl
  obtain hrepairable | hspent := hrest hclosing
  · obtain ⟨hphase, hspan, htask⟩ := new_rest hfits hrepairable d.nDataCount rfl
    have hstep : Step d.split 0 d.startTask.split := by
      rw [hsplit, hnew, hspan, Multiset.singleton_add, ← hold]
      exact .keep d.split
    rw [hstart] at hstep hposition ⊢
    refine h.addTask hleft hcell hstep (fun _ => htask) (List.Subset.refl _) hsub hposition ?_
    rw [DownloadTask.unstarted, hphase, htags, Tally.count_cons]
    simp
  · have hempty : r.n64DownloadCnt = r.n64TaskCnt := by
      simpa [TagDownloadData.spent] using hspent
    have htask : DownloadTask.new d.n64FileSize (r.n64X + r.n64DownloadCnt)
        (r.n64TaskCnt - r.n64DownloadCnt - 1) d.nDataCount =
        ⟨r.n64X + r.n64DownloadCnt, -1, 0, d.nDataCount, false, .notStarted⟩ := by
      rw [show r.n64TaskCnt - r.n64DownloadCnt - 1 = -1 by omega]
      exact DownloadTask.new_of_empty _ _ _
    have hstep : Step d.split 0 d.startTask.split := by
      rw [hsplit, hnew, htask, DownloadTask.spans, zero_add, split, hold]
      exact .drop (by simp [hempty])
    rw [hstart] at hstep hposition ⊢
    refine h.addTask hleft hcell hstep (fun hne => ?_) (List.Subset.refl _) hsub hposition ?_
    · rw [htask] at hne
      exact absurd rfl hne
    · rw [htask, htags, Tally.count_cons, hspent]
      exact le_rfl

end HandOut

/-- The next segment, in a file that does not end with a full one. -/
theorem exists_callAssignTasks {S C N : ℤ} (hN : N % segment ≠ 0) (hC : C = segment)
    (hdvd : segment ∣ S + C) (hlt : S + C < N) :
    ∃ k, callAssignTasks S C N = (true, S + C, k) ∧ 0 < k ∧ k ≤ segment ∧
      ((k = segment ∧ S + C + k < N) ∨ (k ≠ segment ∧ S + C + k = N)) := by
  have hpos : 0 < segment := by decide
  obtain hmore | heq | hlast := lt_trichotomy (S + C + segment) N
  · exact ⟨C, callAssignTasks_of_lt hC hmore, by omega, by omega, .inl ⟨hC, by omega⟩⟩
  · have hmod : segment ∣ N := heq ▸ Int.dvd_add hdvd (Int.dvd_refl segment)
    exact absurd (Int.emod_eq_zero_of_dvd hmod) hN
  · exact ⟨N - (S + C), callAssignTasks_of_gt hC hlt hlast, by omega, by omega,
      .inr ⟨by omega, by omega⟩⟩

/-- What a pass does that assigns a segment. -/
theorem exists_assignTasks (hmod : d.n64FileSize % segment ≠ 0) (hposition : d.Position)
    (hclosing : d.closing ≠ .returned) (htags : d.vtTagTaskData = [])
    (hC : d.n64ThreadDownloadCnt = segment) :
    ∃ k, d.assignTasks.startTask = (d.assignNext k).addTask d.frontier (k - 1) ∧
      0 < k ∧ k ≤ segment ∧ segment ∣ d.frontier ∧ 0 ≤ d.frontier ∧
      ((k = segment ∧ d.frontier + k < d.n64FileSize) ∨
        (k ≠ segment ∧ d.frontier + k = d.n64FileSize)) := by
  have hlast : d.lastTag = none := by
    rw [lastTag_of_ne hclosing, htags]
    rfl
  have hfrontier := frontier_of_none hlast
  obtain ⟨-, hdvd, h0, hlt⟩ | ⟨hne, -⟩ := hposition.none hlast
  · rw [hfrontier] at hdvd h0 hlt
    obtain ⟨k, hcall, hk, hle, hcases⟩ := exists_callAssignTasks hmod hC hdvd hlt
    rw [← hfrontier] at hdvd h0 hcall hcases
    refine ⟨k, ?_, hk, hle, hdvd, h0, hcases⟩
    have hassign : d.assignTasks = d.assignNext k := by
      simp only [assignTasks, hcall, assignNext, retarget, ← htags]
    rw [hassign, startTask_nil rfl]
    rfl
  · exact absurd hC hne

/-- A task for the next segment. -/
theorem whole_assigned {f k N : ℤ} (h0 : 0 ≤ f) (hpos : 0 < k)
    (hcases : (k = segment ∧ f + k < N) ∨ (k ≠ segment ∧ f + k = N)) (slot : ℤ)
    (phase : TaskPhase) : DownloadTask.Whole N ⟨f, k - 1, 0, slot, false, phase⟩ := by
  have hone : (1 : ℤ) ≠ segment := by decide
  constructor
  · exact h0
  · simp only
    omega
  · simp only
    omega
  · simp only
    omega

/-- A segment is assigned. -/
theorem Inv.assign (h : d.Inv content) (hleft : ¬d.Left) (hcell : d.HasCell)
    (hclosing : d.closing ≠ .returned) (htags : d.vtTagTaskData = [])
    (hC : d.n64ThreadDownloadCnt = segment) : d.assignTasks.startTask.Inv content := by
  obtain ⟨k, hstart, hk, hle, hdvd, h0, hcases⟩ :=
    exists_assignTasks h.size_mod h.position hclosing htags hC
  have htag : TagDownloadData.Fits d.n64FileSize d.file ⟨d.frontier, 0, k - 1 + 1⟩ := by
    have hmod := Int.emod_eq_zero_of_dvd hdvd
    constructor
    · exact h0
    · exact le_rfl
    · simp only
      omega
    · simp only
      omega
    · simp only
      omega
    · intro p hp hlt
      simp only at hp hlt
      omega
  have hwhole := whole_assigned h0 hk hcases d.nDataCount .notStarted
  have hnew := DownloadTask.new_of_whole hwhole
  have hlast : d.assignTasks.startTask.lastTag = none := by
    rw [hstart]
    exact lastTag_of_ne hclosing
  have hfrontier : d.assignTasks.startTask.frontier = d.frontier + k := by
    rw [frontier_of_none hlast, hstart]
    rfl
  -- a piece is taken from the frontier on
  have hstep : Step d.split 0 d.assignTasks.startTask.split := by
    have hspans : d.assignTasks.startTask.spans =
        ⟨d.frontier, d.frontier + k⟩ ::ₘ d.spans := by
      have hsame : (d.assignNext k).spans = d.spans := by
        simp only [spans, assignNext, retarget, htags]
      have htask : (DownloadTask.new d.n64FileSize d.frontier (k - 1) d.nDataCount).spans =
          {⟨d.frontier, d.frontier + k⟩} := by
        rw [hnew]
        simp only [DownloadTask.spans, DownloadTask.tag, TagDownloadData.span, add_zero,
          sub_add_cancel]
      have hadd := spans_addTask (d.assignNext k) d.frontier (k - 1)
      rw [hstart, hadd, hsame]
      change (DownloadTask.new d.n64FileSize _ _ d.nDataCount).spans + _ = _
      rw [htask, Multiset.singleton_add]
    have hfile : d.assignTasks.startTask.file = d.file := by
      rw [hstart]
      rfl
    rw [split, split, hspans, hfrontier, hfile]
    exact .take k hk.le
  rw [hstart] at hstep hfrontier hlast ⊢
  have hposition : ((d.assignNext k).addTask d.frontier (k - 1)).Position := by
    refine ⟨fun _ => ?_, fun r hr => ?_⟩
    · rw [hfrontier]
      obtain ⟨hk', hlt⟩ | ⟨hk', hend⟩ := hcases
      · exact .inl ⟨hk', Int.dvd_add hdvd (hk' ▸ Int.dvd_refl _), by omega, hlt⟩
      · exact .inr ⟨hk', hend⟩
    · rw [hlast] at hr
      cases hr
  refine h.addTask hleft hcell hstep (fun _ => DownloadTask.new_fits htag hwhole)
    (List.Subset.refl _) (List.nil_subset _) hposition ?_
  rw [hnew, htags]
  exact le_rfl

/-- The loop is left. -/
theorem Inv.leave (h : d.Inv content) (hcount : d.getDownloadCount = d.n64FileSize) :
    d.leave.Inv content := by
  have hleave : d.leave.getDownloadCount = d.getDownloadCount := rfl
  exact
    { h with
      count := hleave.trans h.count
      left := fun _ => hleave.trans hcount
      position := ⟨h.position.none, h.position.some⟩
      cells := ⟨h.cells.nonneg, h.cells.slot, h.cells.distinct, fun _ hcells => nomatch hcells⟩ }

/-- What a pass of the loop does: it makes a task, or leaves the loop, or waits. -/
theorem pass_cases (d : Download) :
    (∃ r rest, d.vtDownloadNo = r :: rest ∧
      d.pass = addTask { d with vtDownloadNo := rest } (r.n64X + r.n64DownloadCnt)
        (r.n64TaskCnt - r.n64DownloadCnt - 1)) ∨
    (d.vtDownloadNo = [] ∧ d.Waits ∧ d.getDownloadCount = d.n64FileSize ∧ d.pass = d.leave) ∨
    (d.vtDownloadNo = [] ∧ d.Waits ∧ d.getDownloadCount ≠ d.n64FileSize ∧ d.pass = d) ∨
    (d.vtDownloadNo = [] ∧ d.vtTagTaskData = [] ∧ d.n64ThreadDownloadCnt = segment ∧
      d.pass = d.assignTasks.startTask) ∨
    (d.vtDownloadNo = [] ∧ (∃ r rest, d.vtTagTaskData = r :: rest) ∧ d.pass = d.startTask) := by
  cases hno : d.vtDownloadNo with
  | cons r rest =>
    refine .inl ⟨r, rest, rfl, ?_⟩
    simp only [pass, deceteTaskFailure, hno]
  | nil =>
    right
    simp only [pass, deceteTaskFailure, hno]
    by_cases hwaits : d.Waits
    · by_cases hcount : d.getDownloadCount = d.n64FileSize
      · exact .inl ⟨trivial, hwaits, hcount, by rw [if_pos hwaits, if_pos hcount]⟩
      · exact .inr (.inl ⟨trivial, hwaits, hcount, by rw [if_pos hwaits, if_neg hcount]⟩)
    · right
      right
      cases htags : d.vtTagTaskData with
      | nil =>
        have hC : d.n64ThreadDownloadCnt = segment := by
          by_contra hne
          exact hwaits ⟨htags, hne⟩
        exact .inl ⟨trivial, rfl, hC, by rw [if_neg hwaits, if_pos rfl]⟩
      | cons r rest =>
        exact .inr ⟨trivial, ⟨r, rest, rfl⟩, by rw [if_neg hwaits, if_neg (List.cons_ne_nil _ _)]⟩

/-- A pass that may make a task keeps the ranges. -/
theorem Inv.pass (h : d.Inv content) (hleft : ¬d.Left) (hclosing : d.closing ≠ .returned)
    (hcell : d.vtDownloadNo ≠ [] ∨ ¬d.Waits → d.HasCell) : d.pass.Inv content := by
  obtain ⟨r, rest, hno, hpass⟩ | ⟨hno, hwaits, hcount, hpass⟩ | ⟨hno, hwaits, hcount, hpass⟩ |
    ⟨hno, htags, hC, hpass⟩ | ⟨hno, ⟨r, rest, htags⟩, hpass⟩ := d.pass_cases
  · rw [hpass]
    exact h.repair hleft (hcell (.inl (by simp [hno]))) hno
  · rw [hpass]
    exact h.leave hcount
  · rw [hpass]
    exact h
  · rw [hpass]
    exact h.assign hleft (hcell (.inr fun hwaits => hwaits.2 hC)) hclosing htags hC
  · rw [hpass]
    have hwaits : ¬d.Waits := by
      rintro ⟨hnil, -⟩
      rw [htags] at hnil
      cases hnil
    exact h.handOut hclosing htags hleft (hcell (.inr hwaits))

/-- Before it is told to stop, `thread_Task` does a pass if there are fewer than ten tasks. -/
theorem threadTask_of_open (hopen : d.closing = .notCalled ∨ d.closing = .cleared) :
    d.threadTask =
      if d.Left then d else if d.vtThreadTask.length < dwThreadCnt then d.pass else d := by
  obtain hclosing | hclosing := hopen
  · rw [threadTask, hclosing]
  · rw [threadTask, hclosing]

theorem threadTask_of_makesTask (h : d.MakesTask) : d.threadTask = d.pass := by
  rw [threadTask_of_open h.1, if_neg h.2.1, if_pos h.2.2.1]

/-- Once it is told to stop, it returns if there are fewer than ten tasks. -/
theorem threadTask_of_signalled (h : d.closing = .signalled) :
    d.threadTask = if d.Left ∨ d.vtThreadTask.length < dwThreadCnt then
      { d with closing := .returned } else d := by
  rw [threadTask, h]

theorem threadTask_of_returned (h : d.closing = .returned) : d.threadTask = d := by
  rw [threadTask, h]

/-- Where nothing is saved, `thread_SecurityCloseTask` does not change where assigning goes on. -/
theorem frontier_setClosing (hne : d.closing ≠ .returned) (htags : d.vtTagTaskData = [])
    (closing : Closing) : frontier { d with closing := closing } = d.frontier := by
  have hlast : d.lastTag = none := by
    rw [lastTag_of_ne hne, htags]
    rfl
  have hlast' : lastTag { d with closing := closing } = none := by
    simp [lastTag, htags]
  exact (frontier_of_none hlast').trans (frontier_of_none hlast).symm

/-- Where nothing is saved, `thread_SecurityCloseTask` may go on. -/
theorem Inv.setClosing (h : d.Inv content) (hne : d.closing ≠ .returned)
    (htags : d.vtTagTaskData = []) (closing : Closing) :
    Inv content { d with closing := closing } := by
  have hlast : d.lastTag = none := by
    rw [lastTag_of_ne hne, htags]
    rfl
  have hfrontier := frontier_setClosing hne htags closing
  have hsplit : split { d with closing := closing } = d.split := by
    rw [split, hfrontier]
    rfl
  refine ⟨h.size_mod, hsplit ▸ h.sound, h.content_eq, hsplit ▸ h.count, h.left, h.tasks,
    h.failed, fun r hr => ?_, ⟨fun _ => ?_, fun r hr => ?_⟩,
    ⟨h.cells.nonneg, h.cells.slot, h.cells.distinct, h.cells.eq⟩,
    fun t ht hstop => absurd (h.stop t ht hstop) hne, fun _ => htags, fun _ => h.spent hne⟩
  · rw [htags] at hr
    cases hr
  · rw [hfrontier]
    exact h.position.none hlast
  · have hlast' : lastTag { d with closing := closing } = none := by
      simp [lastTag, htags]
    rw [hlast'] at hr
    cases hr

/-- A pass of `thread_Task` keeps the ranges, if there is a cell for the task that it makes. -/
theorem Inv.threadTask (h : d.Inv content) (hcell : d.MakesTask → d.HasCell) :
    d.threadTask.Inv content := by
  by_cases hopen : d.closing = .notCalled ∨ d.closing = .cleared
  · rw [threadTask_of_open hopen]
    split_ifs with hleft hlen
    · exact h
    · refine h.pass hleft ?_ fun hmake => hcell ⟨hopen, hleft, hlen, hmake⟩
      obtain hclosing | hclosing := hopen
      · simp [hclosing]
      · simp [hclosing]
    · exact h
  · cases hclosing : d.closing with
    | notCalled => exact absurd (.inl hclosing) hopen
    | cleared => exact absurd (.inr hclosing) hopen
    | signalled =>
      rw [threadTask_of_signalled hclosing]
      split
      · exact h.setClosing (by simp [hclosing]) (h.closing (.inr hclosing)) _
      · exact h
    | returned =>
      rw [threadTask_of_returned hclosing]
      exact h

/-- A new object goes on where the old one was. -/
theorem frontier_resume (hclosing : d.closing = .returned) (hfound : d.FoundBy d.lastSaved) :
    (start d.n64FileSize d.createDwonloadFile d.file).frontier = d.frontier := by
  have hlast : d.lastTag = none := if_pos hclosing
  have hlast' : (start d.n64FileSize d.createDwonloadFile d.file).lastTag = d.lastSaved :=
    lastTag_of_ne (by simp [start])
  rw [frontier_of_none hlast]
  cases hsaved : d.lastSaved with
  | none =>
    rw [hsaved] at hfound
    rw [frontier_of_none (hlast'.trans hsaved)]
    simp only [FoundBy] at hfound
    simp only [start]
    omega
  | some r =>
    rw [hsaved] at hfound
    rw [frontier_of_some (hlast'.trans hsaved)]
    exact hfound.1

/-- A new object goes on from the saved ranges. -/
theorem Inv.resume (h : d.Inv content) (hsaves : d.Saves) (hresumable : d.Resumable) :
    (start d.n64FileSize d.createDwonloadFile d.file).Inv content := by
  obtain ⟨hclosing, hexited⟩ := hsaves
  obtain ⟨hno, hon, hrest, hspent, hfound⟩ := hresumable
  have hperm : (readDwonloadFile d.createDwonloadFile).Perm d.vtTagTaskData :=
    List.perm_insertionSort _ _
  have hlast : d.lastTag = none := if_pos hclosing
  have hlast' : (start d.n64FileSize d.createDwonloadFile d.file).lastTag = d.lastSaved :=
    lastTag_of_ne (by simp [start])
  have hposition := h.position.none hlast
  have hspans : (start d.n64FileSize d.createDwonloadFile d.file).spans = d.spans := by
    -- all tasks have ended, and their ranges are saved
    have htasks : Tally.total DownloadTask.spans d.vtThreadTask = 0 := by
      refine Tally.total_eq_zero fun t ht => ?_
      have hrun := (hexited t ht).1
      have hthreadOn := hon t ht
      rw [DownloadTask.spans]
      cases hphase : t.phase with
      | notStarted => rfl
      | running => exact absurd hphase hrun
      | threadOn => exact absurd hphase hthreadOn
      | threadOk => rfl
      | stopped => rfl
    simp only [spans, start, Tally.total_nil, Tally.total_perm _ hperm, htasks, hno]
  have hfrontier := frontier_resume hclosing hfound
  have hsplit : (start d.n64FileSize d.createDwonloadFile d.file).split = d.split := by
    rw [split, split, hspans, hfrontier]
    rfl
  refine ⟨h.size_mod, hsplit ▸ h.sound, h.content_eq, ?_, (nomatch ·), fun t ht => (nomatch ht),
    fun r hr => (nomatch hr), fun r hr => ?_, ⟨fun hnone => ?_, fun r hr => ?_⟩,
    ⟨le_rfl, fun t ht => (nomatch ht), List.Pairwise.nil, fun _ _ t ht => (nomatch ht)⟩,
    fun t ht => (nomatch ht), fun hcl => ?_, fun _ => ?_⟩
  · rw [hsplit, ← h.count]
    simp [getDownloadCount, start, createDwonloadFile]
  · have hmem := hperm.mem_iff.1 hr
    exact ⟨(h.saved r hmem).1, fun _ => hrest r hmem⟩
  · rw [hlast'] at hnone
    rw [hnone] at hfound
    simp only [FoundBy] at hfound
    rw [hfrontier]
    -- nothing is saved, so assigning starts again at 0, and nothing must have been assigned
    refine .inl ⟨rfl, ?_⟩
    have hzero : d.frontier = 0 := (frontier_of_none hlast).trans hfound
    obtain ⟨-, hdvd, h0, hlt⟩ | ⟨-, hend⟩ := hposition
    · exact ⟨hdvd, h0, hlt⟩
    · have hmod := h.size_mod
      rw [← hend, hzero] at hmod
      exact absurd rfl hmod
  · rw [hlast'] at hr
    rw [hr] at hfound
    rw [hfrontier]
    have hend : d.frontier = r.n64X + r.n64TaskCnt := (frontier_of_none hlast).trans hfound.1.symm
    obtain ⟨-, hdvd, h0, hlt⟩ | ⟨-, heq⟩ := hposition
    · have hcode : ¬(r.n64X + r.n64DownloadCnt = T_X ∨ r.n64X + r.n64DownloadCnt = T_Z) :=
        fun hcode => absurd (hend.trans (hfound.2.2 hcode)) hlt.ne
      exact .inl ⟨hdvd, h0, hlt, fun hX => hcode (.inl hX), fun hZ => hcode (.inr hZ)⟩
    · exact .inr ⟨heq, hfound.2.1 (hend.symm.trans heq)⟩
  · obtain hcl | hcl := hcl
    · cases hcl
    · cases hcl
  · have hcount := Tally.count_perm TagDownloadData.spent hperm
    change Tally.count _ [] + Tally.count _ (readDwonloadFile d.createDwonloadFile) < _
    rw [hcount, Tally.count_nil, Nat.zero_add]
    exact hspent

/-! ## Any step -/

/-- An event of a running task does nothing, or there is one. -/
theorem ofRunning_cases (d : Download) (i : ℕ) (f : DownloadTask → Download) :
    d.ofRunning i f = d ∨
      ∃ t, d.vtThreadTask[i]? = some t ∧ t.phase = .running ∧ d.ofRunning i f = f t := by
  rw [ofRunning]
  cases ht : d.vtThreadTask[i]? with
  | none => exact .inl rfl
  | some t =>
    by_cases hrun : t.phase = .running
    · exact .inr ⟨t, rfl, hrun, if_pos hrun⟩
    · exact .inl (if_neg hrun)

theorem ofRunning_of_running (ht : d.vtThreadTask[i]? = some t) (hrun : t.phase = .running)
    (f : DownloadTask → Download) : d.ofRunning i f = f t := by
  simp only [ofRunning, ht, if_pos hrun]

/-- Bytes that are received are those of a running task. -/
theorem next_receive_cases (content : ℤ → UInt8) (d : Download) (i n : ℕ) :
    d.next content (.receive i n) = d ∨
      ∃ t, d.vtThreadTask[i]? = some t ∧ t.phase = .running ∧
        (0 < n ∧ n ≤ 2047 ∧ t.n64DownloadByteCnt + n ≤ t.answer d.n64FileSize) ∧
        d.next content (.receive i n) = d.received content i t n := by
  obtain heq | ⟨t, ht, hrun, heq⟩ := d.ofRunning_cases i fun t =>
    if 0 < n ∧ n ≤ 2047 ∧ t.n64DownloadByteCnt + n ≤ t.answer d.n64FileSize then
      d.received content i t n else d
  · exact .inl heq
  · by_cases hn : 0 < n ∧ n ≤ 2047 ∧ t.n64DownloadByteCnt + n ≤ t.answer d.n64FileSize
    · exact .inr ⟨t, ht, hrun, hn, heq.trans (if_pos hn)⟩
    · exact .inl (heq.trans (if_neg hn))

/-- An answer that ends is that of a running task. -/
theorem next_finish_cases (content : ℤ → UInt8) (d : Download) (i : ℕ) :
    d.next content (.finish i) = d ∨
      ∃ t, d.vtThreadTask[i]? = some t ∧ t.phase = .running ∧
        t.n64DownloadByteCnt = t.answer d.n64FileSize ∧
        d.next content (.finish i) = d.finished i t := by
  obtain heq | ⟨t, ht, hrun, heq⟩ := d.ofRunning_cases i fun t =>
    if t.n64DownloadByteCnt = t.answer d.n64FileSize then d.finished i t else d
  · exact .inl heq
  · by_cases hend : t.n64DownloadByteCnt = t.answer d.n64FileSize
    · exact .inr ⟨t, ht, hrun, hend, heq.trans (if_pos hend)⟩
    · exact .inl (heq.trans (if_neg hend))

/-- A transfer that fails is that of a running task. -/
theorem next_fail_cases (content : ℤ → UInt8) (d : Download) (i : ℕ) :
    d.next content (.fail i) = d ∨
      ∃ t, d.vtThreadTask[i]? = some t ∧ t.phase = .running ∧
        d.next content (.fail i) = d.setTask i { t with phase := .threadOn } :=
  d.ofRunning_cases i fun t => d.setTask i { t with phase := .threadOn }

/-- A task that is told to stop is running, and `thread_Task` has returned. -/
theorem next_stopTask_cases (content : ℤ → UInt8) (d : Download) (i : ℕ) :
    d.next content (.stopTask i) = d ∨
      ∃ t, d.vtThreadTask[i]? = some t ∧ t.phase = .running ∧ d.closing = .returned ∧
        d.next content (.stopTask i) = d.setTask i { t with bStopDownload := true } := by
  obtain heq | ⟨t, ht, hrun, heq⟩ := d.ofRunning_cases i fun t =>
    if d.closing = .returned then d.setTask i { t with bStopDownload := true } else d
  · exact .inl heq
  · by_cases hreturned : d.closing = .returned
    · exact .inr ⟨t, ht, hrun, hreturned, heq.trans (if_pos hreturned)⟩
    · exact .inl (heq.trans (if_neg hreturned))

/-- The task of the bytes that are written. -/
theorem getElem?_progress (content : ℤ → UInt8) (ht : d.vtThreadTask[i]? = some t) (n : ℕ) :
    (d.progress content i t n).vtThreadTask[i]? = some (wrote t n) := by
  change (d.vtThreadTask.set i (wrote t n))[i]? = _
  rw [Tally.getElem?_set_of_some ht, if_pos rfl]

/-- The zero bytes at the end of an answer do not change the cells. -/
theorem Inv.counted_zero (h : d.Inv content) (ht : d.vtThreadTask[i]? = some t)
    (hrun : t.phase = .running) (hstop : t.bStopDownload = true) :
    d.counted i t 0 = d.stopped i t := by
  have htmem := List.mem_of_getElem? ht
  have htag := (h.tasks t htmem (by simp [hrun])).tag
  have hcells : (d.nDownloadCount.map fun cells =>
      Function.update cells t.nCallByteCnt (toInt (cells t.nCallByteCnt + (0 : ℕ)))) =
      d.nDownloadCount := by
    cases hcells : d.nDownloadCount with
    | none => rfl
    | some cells =>
      have heq := h.cells.eq cells hcells t htmem
      have h0 : 0 ≤ t.n64DownloadByteCnt := htag.cnt_nonneg
      have hle : t.n64DownloadByteCnt ≤ t.n64DownloadSize + 1 := htag.cnt_le
      have hsegment := htag.segment
      simp only [DownloadTask.tag_n64X, DownloadTask.tag_n64TaskCnt, segment] at hsegment
      have hval : toInt (cells t.nCallByteCnt + (0 : ℕ)) = cells t.nCallByteCnt := by
        rw [heq, Nat.cast_zero, add_zero]
        exact toInt_of_lt h0 (by omega)
      rw [Option.map_some, hval, Function.update_eq_self]
  rw [counted, hcells]
  change (if t.bStopDownload then d.stopped i { t with
    n64DownloadByteCnt := t.n64DownloadByteCnt + (0 : ℕ) } else _) = _
  rw [if_pos hstop, Nat.cast_zero, add_zero]

/-- The end of an answer is the end of the range. -/
theorem Inv.finished (h : d.Inv content) (ht : d.vtThreadTask[i]? = some t)
    (hrun : t.phase = .running) (hend : t.n64DownloadByteCnt = t.answer d.n64FileSize) :
    d.finished i t =
      if t.bStopDownload then d.stopped i t else d.setTask i { t with phase := .threadOk } := by
  have hfits := h.tasks t (List.mem_of_getElem? ht) (by simp [hrun])
  rw [hfits.whole.answer] at hend
  rw [Download.finished, if_neg (by omega)]
  by_cases hstop : t.bStopDownload = true
  · rw [if_pos hstop, if_pos hstop, h.counted_zero ht hrun hstop]
  · rw [if_neg hstop, if_neg hstop]

/-- Bytes that are received are taken off the front of the range. -/
theorem Inv.received (h : d.Inv content) (ht : d.vtThreadTask[i]? = some t)
    (hrun : t.phase = .running) {n : ℕ} (hpos : 0 < n)
    (hn : t.n64DownloadByteCnt + n ≤ t.answer d.n64FileSize) :
    (d.received content i t n).Inv content := by
  have hprogress := (h.progress ht hrun hpos hn).1
  rw [received_eq]
  split
  next hstop =>
    have hreturned := h.stop t (List.mem_of_getElem? ht) (.inl hstop)
    exact hprogress.stopped (getElem?_progress content ht n) hrun hreturned
  next => exact hprogress

/-- Nothing is left of a range whose answer ends. -/
theorem Inv.finish (h : d.Inv content) (ht : d.vtThreadTask[i]? = some t)
    (hrun : t.phase = .running) (hend : t.n64DownloadByteCnt = t.answer d.n64FileSize) :
    (d.finished i t).Inv content := by
  have hfits := h.tasks t (List.mem_of_getElem? ht) (by simp [hrun])
  rw [h.finished ht hrun hend]
  rw [hfits.whole.answer] at hend
  split
  next hstop => exact h.stopped ht hrun (h.stop t (List.mem_of_getElem? ht) (.inl hstop))
  next hstop =>
    refine h.setTask ht rfl rfl (.inr ⟨rfl, t.n64X + t.n64DownloadByteCnt, ?_⟩) (by simp)
      ⟨hfits.tag, { hfits.whole with }, by simp⟩ fun hs => absurd (by simpa using hs) hstop
    rw [DownloadTask.spans, hrun]
    simp only [TagDownloadData.span, DownloadTask.tag, hend]

/-- The range of a transfer that fails is kept. -/
theorem Inv.fail (h : d.Inv content) (ht : d.vtThreadTask[i]? = some t)
    (hrun : t.phase = .running) (hrepairable : t.tag.Repairable d.n64FileSize) :
    (d.setTask i { t with phase := .threadOn }).Inv content := by
  have htmem := List.mem_of_getElem? ht
  have hfits := h.tasks t htmem (by simp [hrun])
  refine h.setTask ht rfl rfl (.inl ?_) (by simp)
    ⟨hfits.tag, { hfits.whole with }, fun _ => hrepairable⟩
    fun hs => h.stop t htmem (.inl (by simpa using hs))
  rw [DownloadTask.spans, DownloadTask.spans, hrun]
  rfl

/-- So is that of a task that is told to stop. -/
theorem Inv.stopTask (h : d.Inv content) (ht : d.vtThreadTask[i]? = some t)
    (hrun : t.phase = .running) (hreturned : d.closing = .returned) :
    (d.setTask i { t with bStopDownload := true }).Inv content := by
  have hfits := h.tasks t (List.mem_of_getElem? ht) (by simp [hrun])
  exact h.setTask ht rfl rfl (.inl rfl) (by simp [hrun])
    ⟨hfits.tag, { hfits.whole with }, by simp [hrun]⟩ fun _ => hreturned

/-- A step that is allowed keeps the ranges. -/
theorem Inv.next (h : d.Inv content) {e : DownloadEvent} (hallowed : d.Allowed e) :
    (d.next content e).Inv content := by
  cases e with
  | threadTask => exact h.threadTask hallowed
  | detectVtThreadTask =>
    rw [Download.next]
    split
    · exact h
    · exact h.detectVtThreadTask
  | receive i n =>
    obtain heq | ⟨t, ht, hrun, ⟨hpos, -, hn⟩, heq⟩ := next_receive_cases content d i n
    · rw [heq]
      exact h
    · rw [heq]
      exact h.received ht hrun hpos hn
  | finish i =>
    obtain heq | ⟨t, ht, hrun, hend, heq⟩ := next_finish_cases content d i
    · rw [heq]
      exact h
    · rw [heq]
      exact h.finish ht hrun hend
  | fail i =>
    obtain heq | ⟨t, ht, hrun, heq⟩ := next_fail_cases content d i
    · rw [heq]
      exact h
    · rw [heq]
      simp only [Allowed, ht] at hallowed
      exact h.fail ht hrun (hallowed hrun)
  | close =>
    rw [Download.next]
    split
    next hopen =>
      have htags := hallowed hopen
      -- where nothing is saved, there is nothing to clear
      have hsame : ({ d with vtTagTaskData := [], closing := .cleared } : Download) =
          { d with closing := .cleared } := by rw [← htags]
      rw [hsame]
      exact h.setClosing (by simp [hopen]) htags _
    next => exact h
  | stopThreadTask =>
    rw [Download.next]
    split
    next hcleared =>
      exact h.setClosing (by simp [hcleared]) (h.closing (.inl hcleared)) _
    next => exact h
  | stopTask i =>
    obtain heq | ⟨t, ht, hrun, hreturned, heq⟩ := next_stopTask_cases content d i
    · rw [heq]
      exact h
    · rw [heq]
      exact h.stopTask ht hrun hreturned
  | resume =>
    rw [Download.next]
    split
    next hsaves => exact h.resume hsaves (hallowed hsaves)
    next => exact h

/-- A new object that was not interrupted before. -/
theorem Inv.fresh (content : ℤ → UInt8) {size : ℤ} (hpos : 0 < size)
    (hmod : size % segment ≠ 0) : (Download.fresh size).Inv content := by
  have hsplit : (Download.fresh size).split = ⟨∅, 0, 0⟩ := by
    simp [split, Download.fresh, start, spans, frontier, lastTag, readDwonloadFile]
  refine ⟨hmod, ?_, fun p b hb => (nomatch hb), ?_, (nomatch ·), fun t ht => (nomatch ht),
    fun r hr => (nomatch hr), fun r hr => (nomatch hr), ⟨fun _ => .inl ⟨rfl, ?_⟩, ?_⟩,
    ⟨le_rfl, fun t ht => (nomatch ht), List.Pairwise.nil, fun _ _ t ht => (nomatch ht)⟩,
    fun t ht => (nomatch ht), fun _ => rfl, fun _ => Nat.zero_lt_succ 9⟩
  · rw [hsplit]
    exact State.sound_empty
  · rw [hsplit]
    simp [getDownloadCount, Download.fresh, start]
  · have hfrontier : (Download.fresh size).frontier = 0 := congrArg State.next hsplit
    rw [hfrontier]
    exact ⟨Int.dvd_zero _, le_rfl, hpos⟩
  · intro r hr
    simp [lastTag, Download.fresh, start, readDwonloadFile] at hr

end Download

end Gendo.Client
