import Gendo.Client.DownloadSplit

/-!
# Downloads come to an end

A download that is not interrupted, and where no task fails, comes to an end: `measure` goes down
with every step that changes something, and as long as `thread_Task` is in its loop some step
does. At the end every byte is in its place, and `get_DownloadCount` is the size of the file.
-/

namespace Gendo.Client

open StepSystem WorkSplit

namespace DownloadEvent

/-- A task fails. -/
def fails : DownloadEvent → Bool
  | .fail _ => true
  | _ => false

/-- No task fails, and nobody calls `thread_SecurityCloseTask`. -/
def Smooth : DownloadEvent → Prop
  | .threadTask | .detectVtThreadTask | .receive _ _ | .finish _ => True
  | .fail _ | .close | .stopThreadTask | .stopTask _ | .resume => False

end DownloadEvent

namespace Download

variable {content : ℤ → UInt8} {d : Download} {e : DownloadEvent}

/-! ## What a step does -/

/-- What follows from a step of `thread_Task`, of `detect_vtThread_Task` or of a task, where no task
fails and none is told to stop. -/
inductive Effect (content : ℤ → UInt8) (d : Download) : Download → Prop
  | stay : Effect content d d
  | progress {i : ℕ} {t : DownloadTask} {n : ℕ} (ht : d.vtThreadTask[i]? = some t)
      (hrun : t.phase = .running) (hpos : 0 < n)
      (hn : t.n64DownloadByteCnt + n ≤ t.answer d.n64FileSize) :
      Effect content d (d.progress content i t n)
  | ended {i : ℕ} {t : DownloadTask} (ht : d.vtThreadTask[i]? = some t)
      (hrun : t.phase = .running) (hend : t.n64DownloadByteCnt = t.answer d.n64FileSize) :
      Effect content d (d.setTask i { t with phase := .threadOk })
  | detected {t : DownloadTask} {l₁ l₂ : List DownloadTask} (hleft : ¬d.Left)
      (hl : d.vtThreadTask = l₁ ++ t :: l₂) (hphase : t.phase = .threadOn ∨ t.phase = .threadOk) :
      Effect content d { d with
        vtThreadTask := l₁ ++ l₂
        vtDownloadNo := if t.phase = .threadOn then d.vtDownloadNo ++ [t.tag]
          else d.vtDownloadNo }
  | repaired {r : TagDownloadData} {rest : List TagDownloadData} (hleft : ¬d.Left)
      (hcell : d.HasCell) (hno : d.vtDownloadNo = r :: rest) :
      Effect content d (addTask { d with vtDownloadNo := rest } (r.n64X + r.n64DownloadCnt)
        (r.n64TaskCnt - r.n64DownloadCnt - 1))
  | assigned {k : ℤ} (hleft : ¬d.Left) (hcell : d.HasCell) (hno : d.vtDownloadNo = [])
      (htags : d.vtTagTaskData = []) (hpos : 0 < k) (hle : k ≤ segment)
      (hdvd : segment ∣ d.frontier) (hnonneg : 0 ≤ d.frontier)
      (hcases : (k = segment ∧ d.frontier + k < d.n64FileSize) ∨
        (k ≠ segment ∧ d.frontier + k = d.n64FileSize)) :
      Effect content d ((d.assignNext k).addTask d.frontier (k - 1))
  | handedOut {r : TagDownloadData} {rest : List TagDownloadData} (hleft : ¬d.Left)
      (hcell : d.HasCell) (hno : d.vtDownloadNo = []) (htags : d.vtTagTaskData = r :: rest) :
      Effect content d d.startTask
  | left (hleft : ¬d.Left) (hcount : d.getDownloadCount = d.n64FileSize) :
      Effect content d d.leave

/-- What a pass of the loop does. -/
theorem Inv.effect_pass (h : d.Inv content) (hclosing : d.closing ≠ .returned) (hleft : ¬d.Left)
    (hcell : d.vtDownloadNo ≠ [] ∨ ¬d.Waits → d.HasCell) : Effect content d d.pass := by
  obtain ⟨r, rest, hno, hpass⟩ | ⟨hno, hwaits, hcount, hpass⟩ | ⟨hno, hwaits, hcount, hpass⟩ |
    ⟨hno, htags, hC, hpass⟩ | ⟨hno, ⟨r, rest, htags⟩, hpass⟩ := d.pass_cases
  · rw [hpass]
    exact .repaired hleft (hcell (.inl (by simp [hno]))) hno
  · rw [hpass]
    exact .left hleft hcount
  · rw [hpass]
    exact .stay
  · obtain ⟨k, hstart, hpos, hle, hdvd, h0, hcases⟩ :=
      exists_assignTasks h.size_mod h.position hclosing htags hC
    rw [hpass, hstart]
    exact .assigned hleft (hcell (.inr fun hwaits => hwaits.2 hC)) hno htags hpos hle hdvd h0
      hcases
  · have hwaits : ¬d.Waits := by
      rintro ⟨hnil, -⟩
      rw [htags] at hnil
      cases hnil
    rw [hpass]
    exact .handedOut hleft (hcell (.inr hwaits)) hno htags

/-- No task was told to stop. -/
theorem Inv.not_stopped (h : d.Inv content) (hclosing : d.closing ≠ .returned) {t : DownloadTask}
    (ht : t ∈ d.vtThreadTask) : ¬(t.bStopDownload = true) ∧ t.phase ≠ .stopped :=
  ⟨fun hstop => hclosing (h.stop t ht (.inl hstop)),
    fun hstop => hclosing (h.stop t ht (.inr hstop))⟩

/-- What a step does before the tasks are told to stop, unless `thread_Task` returns. -/
theorem Inv.effect (h : d.Inv content) (hclosing : d.closing ≠ .returned)
    (hsignalled : d.closing = .signalled → e ≠ .threadTask) (he : e.Smooth)
    (hallowed : d.Allowed e) : Effect content d (d.next content e) := by
  cases e with
  | threadTask =>
    have hopen : d.closing = .notCalled ∨ d.closing = .cleared := by
      cases hcl : d.closing with
      | notCalled => exact .inl rfl
      | cleared => exact .inr rfl
      | signalled => exact absurd rfl (hsignalled hcl)
      | returned => exact absurd hcl hclosing
    rw [Download.next, threadTask_of_open hopen]
    -- the loop was left, or makes a pass, or there are tasks enough
    split_ifs with hleft hlen
    · exact .stay
    · exact h.effect_pass hclosing hleft fun hmake => hallowed ⟨hopen, hleft, hlen, hmake⟩
    · exact .stay
  | detectVtThreadTask =>
    rw [Download.next]
    split
    next => exact .stay
    next hdetect =>
      obtain ⟨heq, -⟩ | ⟨t, l₁, l₂, hl, hphase, heq⟩ := d.detectVtThreadTask_cases
      · rw [heq]
        exact .stay
      · rw [heq]
        exact .detected (fun hleft => hdetect (.inr hleft)) hl hphase
  | receive i n =>
    obtain heq | ⟨t, ht, hrun, hn, heq⟩ := next_receive_cases content d i n
    · rw [heq]
      exact .stay
    · -- the flag that is looked at after each read is not set
      rw [heq, received_eq, if_neg (h.not_stopped hclosing (List.mem_of_getElem? ht)).1]
      exact .progress ht hrun hn.1 hn.2.2
  | finish i =>
    obtain heq | ⟨t, ht, hrun, hend, heq⟩ := next_finish_cases content d i
    · rw [heq]
      exact .stay
    · rw [heq, h.finished ht hrun hend,
        if_neg (h.not_stopped hclosing (List.mem_of_getElem? ht)).1]
      exact .ended ht hrun hend
  | fail i => exact he.elim
  | close => exact he.elim
  | stopThreadTask => exact he.elim
  | stopTask i => exact he.elim
  | resume => exact he.elim

/-- A task is replaced by one that was started. -/
theorem Started.setTask (h : d.Started) (i : ℕ) {t : DownloadTask} (ht : t.phase ≠ .notStarted) :
    (d.setTask i t).Started := by
  intro u hu
  obtain hu | rfl := List.mem_or_eq_of_mem_set hu
  · exact h u hu
  · exact ht

/-- A new task that is started leaves no task that is not. -/
theorem Started.addTask (h : d.Started) {x size : ℤ}
    (hnew : (DownloadTask.new d.n64FileSize x size d.nDataCount).phase = .running) :
    (d.addTask x size).Started := by
  refine List.forall_mem_append.2 ⟨h, List.forall_mem_singleton.2 ?_⟩
  rw [hnew]
  simp

/-- Where no saved range is to be handed out, every task that a step makes is started. -/
theorem Inv.started_effect (h : d.Inv content) (htags : d.vtTagTaskData = [])
    (hstarted : d.Started) (heffect : Effect content d d') : d'.Started := by
  cases heffect with
  | stay => exact hstarted
  | @progress i t n ht hrun hpos hn => exact hstarted.setTask i (by simp [wrote, hrun])
  | @ended i t ht hrun hend => exact hstarted.setTask i (by simp)
  | @detected t l₁ l₂ hleft hl hphase =>
    intro u hu
    apply hstarted u
    rw [hl]
    exact ((List.sublist_cons_self t l₂).append_left l₁).subset hu
  | @repaired r rest hleft hcell hno =>
    -- there is something left of a failed range
    obtain ⟨hfits, hrepairable⟩ := h.failed r (by simp [hno])
    obtain ⟨hphase, -⟩ := new_rest hfits hrepairable d.nDataCount rfl
    exact Started.addTask (d := { d with vtDownloadNo := rest }) hstarted hphase
  | assigned hleft hcell hno htags hpos hle hdvd hnonneg hcases =>
    have hnew := DownloadTask.new_of_whole
      (whole_assigned hnonneg hpos hcases d.nDataCount .notStarted)
    exact Started.addTask (d := d.assignNext _) hstarted (congrArg DownloadTask.phase hnew)
  | handedOut hleft hcell hno hwait => exact absurd (htags.symm.trans hwait) (by simp)
  | left hleft hcount => exact hstarted

/-- Where assigning goes on after a segment was assigned. -/
theorem frontier_assigned (hclosing : d.closing ≠ .returned) (k : ℤ) :
    ((d.assignNext k).addTask d.frontier (k - 1)).frontier = d.frontier + k := by
  have hlast : ((d.assignNext k).addTask d.frontier (k - 1)).lastTag = none :=
    lastTag_of_ne hclosing
  rw [frontier_of_none hlast]
  rfl

/-! ## The measure -/

/-- How many steps a task takes at most, besides those that write. -/
def weight (t : DownloadTask) : ℕ :=
  match t.phase with
  | .running => 2
  | .threadOn => 4
  | .threadOk => 1
  | .notStarted | .stopped => 0

/-- How many steps follow at most. -/
def measure (d : Download) : ℕ :=
  (3 * (d.n64FileSize - d.frontier)).toNat + (d.n64FileSize - d.getDownloadCount).toNat +
    Tally.total weight d.vtThreadTask + 3 * d.vtDownloadNo.length + 3 * d.vtTagTaskData.length +
    if d.Left then 0 else 1

theorem weight_new_le (size n64X n64Size slot : ℤ) :
    weight (.new size n64X n64Size slot) ≤ 2 := by
  obtain ⟨phase, hnew, rfl | rfl⟩ := DownloadTask.new_eq size n64X n64Size slot
  · rw [hnew]
    exact le_rfl
  · rw [hnew]
    exact Nat.zero_le 2

/-- No more bytes are written than the file has. -/
theorem Inv.count_le (h : d.Inv content) : d.getDownloadCount ≤ d.n64FileSize := by
  have hcount := h.count
  have hncard : d.split.done.ncard ≤ d.frontier := h.sound.ncard_le
  have hle := h.position.frontier_le
  omega

/-- The measure in the loop. -/
theorem measure_of_not_left (hleft : ¬d.Left) :
    d.measure = (3 * (d.n64FileSize - d.frontier)).toNat +
      (d.n64FileSize - d.getDownloadCount).toNat + Tally.total weight d.vtThreadTask +
      3 * d.vtDownloadNo.length + 3 * d.vtTagTaskData.length + 1 := by
  rw [measure, if_neg hleft]

/-- The measure where a task is made. -/
theorem measure_addTask_le (hleft : ¬d.Left) (h0 : 0 ≤ d.nDataCount) (hcell : d.HasCell)
    (x size : ℤ) :
    (d.addTask x size).measure ≤
      (3 * (d.n64FileSize - (d.addTask x size).frontier)).toNat +
        (d.n64FileSize - d.getDownloadCount).toNat + Tally.total weight d.vtThreadTask +
        3 * d.vtDownloadNo.length + 3 * d.vtTagTaskData.length + 3 := by
  have hleft' : ¬(d.addTask x size).Left := fun hleft' =>
    hleft (Option.map_eq_none_iff.1 hleft')
  have htotal : Tally.total weight (d.addTask x size).vtThreadTask =
      Tally.total weight d.vtThreadTask + weight (.new d.n64FileSize x size d.nDataCount) := by
    simp [addTask]
  have hweight := weight_new_le d.n64FileSize x size d.nDataCount
  rw [measure_of_not_left hleft', getDownloadCount_addTask h0 hcell.2, htotal]
  change (3 * (d.n64FileSize - (d.addTask x size).frontier)).toNat +
    (d.n64FileSize - d.getDownloadCount).toNat + _ + 3 * d.vtDownloadNo.length +
    3 * d.vtTagTaskData.length + 1 ≤ _
  omega

/-- Every step that changes something takes one off the measure. -/
theorem Inv.measure_lt (h : d.Inv content) (hclosing : d.closing ≠ .returned) {d' : Download}
    (heffect : Effect content d d') (hne : d' ≠ d) : d'.measure + 1 ≤ d.measure := by
  have hcountLe := h.count_le
  cases heffect with
  | stay => exact absurd rfl hne
  | @progress i t n ht hrun hpos hn =>
    obtain ⟨hinv, hcount⟩ := h.progress ht hrun hpos hn
    have hle := hinv.count_le
    have hsize : (d.progress content i t n).n64FileSize = d.n64FileSize := rfl
    have htotal : Tally.total weight (d.vtThreadTask.set i (wrote t n)) =
        Tally.total weight d.vtThreadTask := Tally.total_set_of_eq weight ht rfl
    have hfrontier : (d.progress content i t n).frontier = d.frontier := rfl
    have hleft : (d.progress content i t n).Left ↔ d.Left := Option.map_eq_none_iff
    -- the bytes that were counted are missing from what is to be counted
    simp only [measure, hcount, hfrontier, hleft]
    simp only [Download.progress, htotal] at hle hcount ⊢
    omega
  | @ended i t ht hrun hend =>
    -- an ended task weighs less than a running one
    have htotal := Tally.total_set weight ht { t with phase := .threadOk }
    have hweight : weight t = 2 := by
      rw [weight, hrun]
    have hweight' : weight { t with phase := .threadOk } = 1 := rfl
    rw [hweight, hweight'] at htotal
    change (3 * (d.n64FileSize - d.frontier)).toNat + (d.n64FileSize - d.getDownloadCount).toNat +
      Tally.total weight (d.vtThreadTask.set i _) + 3 * d.vtDownloadNo.length +
      3 * d.vtTagTaskData.length + (if d.Left then 0 else 1) + 1 ≤ d.measure
    rw [measure]
    omega
  | @detected t l₁ l₂ hleft hl hphase =>
    have htotal : Tally.total weight d.vtThreadTask =
        Tally.total weight (l₁ ++ l₂) + weight t := by
      rw [hl, Tally.total_append, Tally.total_append, Tally.total_cons]
      omega
    change (3 * (d.n64FileSize - d.frontier)).toNat + (d.n64FileSize - d.getDownloadCount).toNat +
      Tally.total weight (l₁ ++ l₂) + 3 * (if t.phase = .threadOn then d.vtDownloadNo ++ [t.tag]
        else d.vtDownloadNo).length +
      3 * d.vtTagTaskData.length + (if d.Left then 0 else 1) + 1 ≤ d.measure
    rw [measure, htotal]
    obtain hphase | hphase := hphase
    · simp only [weight, hphase, if_true, List.length_append, List.length_singleton]
      omega
    · simp only [weight, hphase]
      rw [if_neg (by simp)]
      omega
  | @repaired r rest hleft hcell hno =>
    -- a task weighs at most 2, and the range that it is made for is worth 3
    have hadd := measure_addTask_le (d := { d with vtDownloadNo := rest }) hleft h.cells.nonneg
      hcell (r.n64X + r.n64DownloadCnt) (r.n64TaskCnt - r.n64DownloadCnt - 1)
    have hfrontier : (Download.addTask { d with vtDownloadNo := rest }
      (r.n64X + r.n64DownloadCnt) (r.n64TaskCnt - r.n64DownloadCnt - 1)).frontier =
        d.frontier := rfl
    rw [hfrontier] at hadd
    rw [measure_of_not_left hleft, hno, List.length_cons]
    change _ ≤ _ + (d.n64FileSize - d.getDownloadCount).toNat + _ + _ + _ + 3 at hadd
    simp only at hadd
    omega
  | @assigned k hleft hcell hno htags hpos hle hdvd hnonneg hcases =>
    have hadd := measure_addTask_le (d := d.assignNext k) hleft h.cells.nonneg hcell
      d.frontier (k - 1)
    rw [frontier_assigned hclosing] at hadd
    change _ ≤ (3 * (d.n64FileSize - (d.frontier + k))).toNat +
      (d.n64FileSize - d.getDownloadCount).toNat + Tally.total weight d.vtThreadTask +
      3 * d.vtDownloadNo.length + 0 + 3 at hadd
    rw [measure_of_not_left hleft]
    omega
  | @handedOut r rest hleft hcell hno htags =>
    have hfrontier := frontier_startTask hclosing htags
    obtain ⟨S, C, hstart, -⟩ := startTask_cons htags
    have hadd := measure_addTask_le (d := d.retarget S C d.vtDownloadNo rest d.assigned)
      hleft h.cells.nonneg hcell (r.n64X + r.n64DownloadCnt)
      (r.n64TaskCnt - r.n64DownloadCnt - 1)
    rw [← hstart, hfrontier] at hadd
    change _ ≤ (3 * (d.n64FileSize - d.frontier)).toNat +
      (d.n64FileSize - d.getDownloadCount).toNat + Tally.total weight d.vtThreadTask +
      3 * d.vtDownloadNo.length + 3 * rest.length + 3 at hadd
    rw [measure_of_not_left hleft, htags, List.length_cons]
    omega
  | left hleft hcount =>
    change (3 * (d.n64FileSize - d.frontier)).toNat + (d.n64FileSize - d.getDownloadCount).toNat +
      Tally.total weight d.vtThreadTask + 3 * d.vtDownloadNo.length +
      3 * d.vtTagTaskData.length + 0 + 1 ≤ d.measure
    rw [measure, if_neg hleft]

/-! ## Nothing more happens -/

/-- A download whose task was replaced by another one is another. -/
theorem tasks_set_ne {i : ℕ} {t t' : DownloadTask} (ht : d.vtThreadTask[i]? = some t)
    (hne : t' ≠ t) : d.vtThreadTask.set i t' ≠ d.vtThreadTask := by
  intro heq
  have hget : (d.vtThreadTask.set i t')[i]? = some t' := by
    rw [Tally.getElem?_set_of_some ht, if_pos rfl]
  rw [heq, ht] at hget
  exact hne (Option.some.inj hget).symm

/-- A running task can read, or comes to the end of its answer. -/
theorem Inv.not_running (h : d.Inv content) (hclosing : d.closing ≠ .returned)
    (hquiet : Quiet (Download.next content) DownloadEvent.Smooth d) {t : DownloadTask}
    (ht : t ∈ d.vtThreadTask) : t.phase ≠ .running := by
  intro hrun
  obtain ⟨i, hi⟩ := List.mem_iff_getElem?.1 ht
  have hstop := (h.not_stopped hclosing ht).1
  have hfits := h.tasks t ht (by simp [hrun])
  have hcnt : t.n64DownloadByteCnt ≤ t.n64DownloadSize + 1 := hfits.tag.cnt_le
  -- in both cases the step changes the task, so that the state is not quiet
  by_cases hend : t.n64DownloadByteCnt = t.answer d.n64FileSize
  · have hfinish := hquiet (.finish i) trivial
    rw [Download.next, ofRunning_of_running hi hrun, if_pos hend, h.finished hi hrun hend,
      if_neg hstop] at hfinish
    refine tasks_set_ne hi ?_ (congrArg Download.vtThreadTask hfinish)
    intro heq
    have hphase := congrArg DownloadTask.phase heq
    rw [hrun] at hphase
    cases hphase
  · have hmore : t.n64DownloadByteCnt + (1 : ℕ) ≤ t.answer d.n64FileSize := by
      rw [hfits.whole.answer] at hend ⊢
      omega
    have hreceive := hquiet (.receive i 1) trivial
    rw [Download.next, ofRunning_of_running hi hrun, if_pos ⟨Nat.one_pos, by omega, hmore⟩,
      received_eq, if_neg hstop] at hreceive
    refine tasks_set_ne hi ?_ (congrArg Download.vtThreadTask hreceive)
    intro heq
    have hgot : t.n64DownloadByteCnt + (1 : ℕ) = t.n64DownloadByteCnt :=
      congrArg DownloadTask.n64DownloadByteCnt heq
    omega

/-- A task that has ended is taken out. -/
theorem not_ended (hclosing : d.closing ≠ .returned) (hleft : ¬d.Left)
    (hquiet : Quiet (Download.next content) DownloadEvent.Smooth d) {t : DownloadTask}
    (ht : t ∈ d.vtThreadTask) : t.ended = false := by
  have hdetect := hquiet .detectVtThreadTask trivial
  rw [Download.next, if_neg (by simp [hclosing, hleft])] at hdetect
  obtain ⟨-, hended⟩ | ⟨u, l₁, l₂, hl, -, heq⟩ := d.detectVtThreadTask_cases
  · exact hended t ht
  · have htasks : l₁ ++ l₂ = l₁ ++ u :: l₂ := by
      rw [← hl]
      exact congrArg Download.vtThreadTask (heq.symm.trans hdetect)
    have hlen := congrArg List.length htasks
    simp at hlen

/-- A task that is made is kept in `vtThread_Task_`. -/
theorem addTask_ne {c : Download} (htasks : c.vtThreadTask = d.vtThreadTask) (x size : ℤ) :
    c.addTask x size ≠ d := by
  intro heq
  have hlen := congrArg (fun d : Download => d.vtThreadTask.length) heq
  simp [addTask, htasks] at hlen

/-- As long as `thread_Task` is in its loop, some step changes something. -/
theorem Inv.left_of_quiet (h : d.Inv content) (hopen : d.closing = .notCalled)
    (hquiet : Quiet (Download.next content) DownloadEvent.Smooth d) : d.Left := by
  by_contra hleft
  have hclosing : d.closing ≠ .returned := by simp [hopen]
  -- the tasks that are left were not started, and are fewer than ten
  have hunstarted : ∀ t ∈ d.vtThreadTask, t.phase = .notStarted := by
    intro t ht
    have hrunning := h.not_running hclosing hquiet ht
    have hended := not_ended hclosing hleft hquiet ht
    have hstopped := (h.not_stopped hclosing ht).2
    rw [DownloadTask.ended] at hended
    cases hphase : t.phase with
    | notStarted => rfl
    | running => exact absurd hphase hrunning
    | threadOn => simp [hphase] at hended
    | threadOk => simp [hphase] at hended
    | stopped => exact absurd hphase hstopped
  have hlen : d.vtThreadTask.length < dwThreadCnt := by
    have hspent := h.spent hclosing
    rw [Tally.count_eq_length DownloadTask.unstarted fun t ht =>
      decide_eq_true (hunstarted t ht)] at hspent
    omega
  have hpass := hquiet .threadTask trivial
  rw [Download.next, threadTask_of_open (.inl hopen), if_neg hleft, if_pos hlen] at hpass
  obtain ⟨r, rest, hno, heq⟩ | ⟨-, -, -, heq⟩ | ⟨hno, hwaits, hcount, -⟩ | ⟨-, htags, hC, heq⟩ |
    ⟨-, ⟨r, rest, htags⟩, heq⟩ := d.pass_cases
  · exact addTask_ne (d := d) (c := { d with vtDownloadNo := rest }) rfl _ _ (heq.symm.trans hpass)
  · exact hleft (congrArg Download.nDownloadCount (heq.symm.trans hpass)).symm
  · -- all is assigned, and nothing is left to be written
    have hlast : d.lastTag = none := by
      rw [lastTag_of_ne hclosing, hwaits.1]
      rfl
    obtain ⟨hC, -⟩ | ⟨-, hfrontier⟩ := h.position.none hlast
    · exact hwaits.2 hC
    · have htasks : Tally.total DownloadTask.spans d.vtThreadTask = 0 := by
        refine Tally.total_eq_zero fun t ht => ?_
        rw [DownloadTask.spans, hunstarted t ht]
      have hspans : d.spans = 0 := by
        rw [spans, htasks, hno, hwaits.1]
        rfl
      have hncard : (d.split.done.ncard : ℤ) = d.frontier :=
        h.sound.ncard_eq fun r hr => by
          change r ∈ d.spans at hr
          rw [hspans] at hr
          exact absurd hr (Multiset.notMem_zero r)
      exact hcount (by rw [h.count, hncard, hfrontier])
  · obtain ⟨k, hstart, -⟩ := exists_assignTasks h.size_mod h.position hclosing htags hC
    exact addTask_ne (d := d) (c := d.assignNext k) rfl _ _
      (hstart.symm.trans (heq.symm.trans hpass))
  · obtain ⟨S, C, hstart, -⟩ := startTask_cons htags
    exact addTask_ne (d := d) (c := d.retarget S C d.vtDownloadNo rest d.assigned) rfl _ _
      (hstart.symm.trans (heq.symm.trans hpass))

/-- The whole file was downloaded: `thread_Task` has left its loop, `get_DownloadCount` is the size
of the file, and every byte is in its place. -/
structure Complete (content : ℤ → UInt8) (d : Download) : Prop where
  left : d.Left
  count : d.getDownloadCount = d.n64FileSize
  file : ∀ p, 0 ≤ p → p < d.n64FileSize → d.file p = some (content p)

/-- What is there once the loop is left. -/
theorem Inv.complete (h : d.Inv content) (hleft : d.Left) : d.Complete content := by
  have hcount := h.left hleft
  refine ⟨hleft, hcount, fun p hp hlt => ?_⟩
  have hmem : p ∈ d.split.done :=
    h.sound.mem_done_of_ncard h.position.frontier_le (h.count.symm.trans hcount) hp hlt
  obtain ⟨b, hb⟩ := Option.isSome_iff_exists.1 hmem
  rw [hb, h.content_eq p b hb]

/-! ## There is a cell for every task -/

/-- How many segments start before a position. -/
def segments (p : ℤ) : ℤ := (p + segment - 1) / segment

/-- Nothing has failed, and no more tasks were made and ranges saved than segments start before
the place where assigning goes on. -/
structure Unfailed (d : Download) : Prop where
  failed : d.vtDownloadNo = []
  threadOn : ∀ t ∈ d.vtThreadTask, t.phase ≠ .threadOn
  vector : d.dwDownloadVectorSize = downloadVectorSize d.n64FileSize
  made : d.nDataCount + d.vtTagTaskData.length ≤ segments d.frontier

/-- A whole or a last segment is one more. -/
theorem segments_add {f k : ℤ} (hdvd : segment ∣ f) (hpos : 0 < k) (hle : k ≤ segment) :
    segments (f + k) = segments f + 1 := by
  simp only [segments, segment] at hdvd hle ⊢
  omega

/-- The array has a cell for each segment of the file. -/
theorem le_downloadVectorSize {N : ℤ} (hpos : 0 < N) (hN : N / segment + 1 < 2 ^ 31) :
    N / segment + 1 ≤ downloadVectorSize N := by
  rw [downloadVectorSize]
  split
  · simp only [segment] at *
    omega
  · simp only [segment] at *
    omega

/-- Where nothing has failed, there is a cell for the next task. -/
theorem Unfailed.hasCell (hu : d.Unfailed) (h : d.Inv content) (hclosing : d.closing ≠ .returned)
    (hpos : 0 < d.n64FileSize) (hN : d.n64FileSize / segment + 1 < 2 ^ 31)
    (hmake : d.MakesTask) : d.HasCell := by
  have hvector := le_downloadVectorSize hpos hN
  rw [← hu.vector] at hvector
  have hmade := hu.made
  have hbound : d.nDataCount ≤ d.n64FileSize / segment := by
    cases htags : d.vtTagTaskData with
    | nil =>
      have hlast : d.lastTag = none := by
        rw [lastTag_of_ne hclosing, htags]
        rfl
      obtain ⟨-, hdvd, h0, hlt⟩ | ⟨hC, -⟩ := h.position.none hlast
      · rw [htags, List.length_nil] at hmade
        simp only [segments, segment] at hmade hdvd ⊢
        omega
      · exact absurd ⟨htags, hC⟩ (hmake.2.2.2.resolve_left (absurd hu.failed))
    | cons r rest =>
      have hle := h.position.frontier_le
      rw [htags, List.length_cons] at hmade
      simp only [segments, segment] at hmade ⊢
      omega
  exact ⟨by omega, by omega⟩

/-- A step keeps it so. -/
theorem Unfailed.effect (hu : d.Unfailed) (hclosing : d.closing ≠ .returned)
    (hcells : d.Cells) {d' : Download} (heffect : Effect content d d') : d'.Unfailed := by
  have hnew : ∀ x size slot, (DownloadTask.new d.n64FileSize x size slot).phase ≠ .threadOn := by
    intro x size slot
    obtain ⟨phase, hnew, rfl | rfl⟩ := DownloadTask.new_eq d.n64FileSize x size slot
    · simp [hnew]
    · simp [hnew]
  have hcount : d.HasCell → toInt (d.nDataCount + 1) = d.nDataCount + 1 := fun hcell =>
    toInt_of_lt (by have := hcells.nonneg; omega) hcell.2
  have hmade := hu.made
  -- a step that makes a task counts it, and leaves one range less to make a task for
  cases heffect with
  | stay => exact hu
  | @progress i t n ht hrun hpos hn =>
    refine ⟨hu.failed, fun u hu' => ?_, hu.vector, hu.made⟩
    obtain hu' | rfl := List.mem_or_eq_of_mem_set hu'
    · exact hu.threadOn u hu'
    · simp [wrote, hrun]
  | @ended i t ht hrun hend =>
    refine ⟨hu.failed, fun u hu' => ?_, hu.vector, hu.made⟩
    obtain hu' | rfl := List.mem_or_eq_of_mem_set hu'
    · exact hu.threadOn u hu'
    · simp
  | @detected t l₁ l₂ hleft hl hphase =>
    have hon := hu.threadOn t (by simp [hl])
    refine ⟨?_, fun u hu' => hu.threadOn u ?_, hu.vector, hu.made⟩
    · simp only [if_neg hon]
      exact hu.failed
    · rw [hl]
      exact ((List.sublist_cons_self t l₂).append_left l₁).subset hu'
  | repaired hleft hcell hno => exact absurd (hu.failed.symm.trans hno) (by simp)
  | @assigned k hleft hcell hno htags hpos hle hdvd hnonneg hcases =>
    refine ⟨hu.failed, ?_, hu.vector, ?_⟩
    · exact List.forall_mem_append.2 ⟨hu.threadOn, List.forall_mem_singleton.2 (hnew _ _ _)⟩
    · rw [frontier_assigned hclosing, segments_add hdvd hpos hle]
      rw [htags, List.length_nil] at hmade
      change toInt (d.nDataCount + 1) + (0 : ℕ) ≤ _
      rw [hcount hcell]
      omega
  | @handedOut r rest hleft hcell hno htags =>
    have hfrontier := frontier_startTask hclosing htags
    obtain ⟨S, C, hstart, -⟩ := startTask_cons htags
    refine ⟨?_, ?_, ?_, ?_⟩
    · rw [hstart]
      exact hu.failed
    · rw [hstart]
      exact List.forall_mem_append.2 ⟨hu.threadOn, List.forall_mem_singleton.2 (hnew _ _ _)⟩
    · rw [hstart]
      exact hu.vector
    · rw [hfrontier, hstart]
      rw [htags, List.length_cons] at hmade
      change toInt (d.nDataCount + 1) + (rest.length : ℤ) ≤ _
      rw [hcount hcell]
      omega
  | left hleft hcount' => exact ⟨hu.failed, hu.threadOn, hu.vector, hu.made⟩

/-! ## Runs -/

/-- The step changes neither the size of the file nor what `thread_SecurityCloseTask` does. -/
theorem Effect.same {d' : Download} (heffect : Effect content d d') :
    d'.n64FileSize = d.n64FileSize ∧ d'.closing = d.closing := by
  cases heffect with
  | handedOut hleft hcell hno htags =>
    obtain ⟨S, C, hstart, -⟩ := startTask_cons htags
    rw [hstart]
    exact ⟨rfl, rfl⟩
  | _ => exact ⟨rfl, rfl⟩

/-- A download that goes on without failures and stops: what is kept. -/
structure GoesOn (content : ℤ → UInt8) (N : ℤ) (d : Download) : Prop where
  inv : d.Inv content
  unfailed : d.Unfailed
  notCalled : d.closing = .notCalled
  size : d.n64FileSize = N

/-- Every step of a download that goes on keeps it so, and takes one off the measure where it
changes something. -/
theorem GoesOn.next {N : ℤ} (h : d.GoesOn content N) (he : e.Smooth) (hallowed : d.Allowed e) :
    (d.next content e).GoesOn content N ∧
      (d.next content e ≠ d → (d.next content e).measure + 1 ≤ d.measure) := by
  have hclosing : d.closing ≠ .returned := by simp [h.notCalled]
  have heffect := h.inv.effect hclosing (by simp [h.notCalled]) he hallowed
  refine ⟨⟨h.inv.next hallowed, ?_, ?_, ?_⟩, ?_⟩
  · exact h.unfailed.effect hclosing h.inv.cells heffect
  · exact heffect.same.2.trans h.notCalled
  · exact heffect.same.1.trans h.size
  · exact h.inv.measure_lt hclosing heffect

section Run

variable {N : ℤ} (hpos : 0 < N) (hN : N / segment + 1 < 2 ^ 31)

include hpos hN

/-- There is a cell for every task, so that every step is allowed. -/
theorem GoesOn.allowed (h : d.GoesOn content N) (he : e.Smooth) : d.Allowed e := by
  cases e with
  | threadTask =>
    exact h.unfailed.hasCell h.inv (by simp [h.notCalled]) (h.size ▸ hpos) (h.size ▸ hN)
  | detectVtThreadTask => trivial
  | receive i n => trivial
  | finish i => trivial
  | fail i => exact he.elim
  | close => exact he.elim
  | stopThreadTask => exact he.elim
  | stopTask i => exact he.elim
  | resume => exact he.elim

/-- It goes on so in a whole run. -/
theorem GoesOn.always (h : d.GoesOn content N) {es : List DownloadEvent}
    (hes : ∀ e ∈ es, e.Smooth) :
    Always (GoesOn content N) d (runOf (Download.next content) d es) := by
  refine always_of_guarded ?_ h (isRun_runOf _ d es) (guarded_runOf _ d hes)
  rintro d e d' h he rfl
  exact (h.next he (h.allowed hpos hN he)).1

end Run

/-- Without failures and stops, the download changes only so often, and when nothing changes any
more it is complete. -/
structure Completes (content : ℤ → UInt8) (d : Download) : Prop where
  bounded : ∃ B, ∀ es, Changing (next content) DownloadEvent.Smooth d es → es.length ≤ B
  ends : ∀ es : List DownloadEvent, (∀ e ∈ es, e.Smooth) →
    Quiet (next content) DownloadEvent.Smooth (final d (runOf (next content) d es)) →
    (final d (runOf (next content) d es)).Complete content

theorem GoesOn.completes {N : ℤ} (hpos : 0 < N) (hN : N / segment + 1 < 2 ^ 31)
    (h : d.GoesOn content N) : d.Completes content := by
  constructor
  · refine ⟨d.measure, fun es hchanging => ?_⟩
    have hrun := ((isRun_runOf (Download.next content) d es).and
      (guarded_runOf _ d hchanging.1)).and hchanging.2
    have hstep : ∀ (d : Download) (e : DownloadEvent) (d' : Download), d.GoesOn content N →
        (d' = d.next content e ∧ e.Smooth) ∧ d' ≠ d →
        d'.measure + 1 ≤ d.measure + 0 ∧ d'.GoesOn content N := by
      rintro d e d' h ⟨⟨rfl, he⟩, hne⟩
      obtain ⟨hnext, hmeasure⟩ := h.next he (h.allowed hpos hN he)
      exact ⟨hmeasure hne, hnext⟩
    have hlen := length_runOf_le (along_of_invariant hstep h hrun)
    simpa using hlen
  · intro es hes hquiet
    have hend := (h.always hpos hN hes).last
    exact hend.inv.complete (hend.inv.left_of_quiet hend.notCalled hquiet)

/-- A new download goes on. -/
theorem GoesOn.fresh (content : ℤ → UInt8) {N : ℤ} (hpos : 0 < N) (hmod : N % segment ≠ 0) :
    (Download.fresh N).GoesOn content N where
  inv := .fresh content hpos hmod
  unfailed := by
    refine ⟨rfl, fun t ht => (nomatch ht), rfl, ?_⟩
    change (0 : ℤ) + (0 : ℕ) ≤ segments 0
    decide
  notCalled := rfl
  size := rfl

end Download

end Gendo.Client
