import Gendo.Client.DownloadEnds

/-!
# The segments of a download

What `call_AssignTasks` and `thread_Task` do with a new download where no task fails. The last
segment is recognised by its length, which is not that of the others. Where the file ends with a
full segment there is no such last one: the segment before it is assigned again and again, and
`thread_Task` never leaves its loop. Where there are 2 ^ 31 segments or more, `nDataCount_`
overflows. `covers_iff` shows that all other files are covered.
-/

namespace Gendo.Client

open StepSystem WorkSplit

namespace Download

variable {content : ℤ → UInt8} {N : ℤ} {d : Download} {e : DownloadEvent}

/-- The segments that were assigned are apart and lie in the file, every task has a cell of the
array, and once the loop is left they cover the file. -/
structure Segmented (N : ℤ) (d : Download) : Prop where
  apart : d.assigned.Pairwise Span.Apart
  inside : ∀ r ∈ d.assigned, ∀ p, r.Covers p → 0 ≤ p ∧ p < N
  cells : ∀ t ∈ d.vtThreadTask, 0 ≤ t.nCallByteCnt ∧ t.nCallByteCnt < d.dwDownloadVectorSize
  cover : d.Left → ∀ p, 0 ≤ p → p < N → ∃ r ∈ d.assigned, r.Covers p
  count : d.Left → d.getDownloadCount = N

/-- A new download of `N` bytes where no task fails is cut into segments that cover the file, and
`thread_Task` leaves its loop, once nothing more happens, with the whole file. -/
structure Covers (content : ℤ → UInt8) (N : ℤ) : Prop where
  segmented : ∀ es : List DownloadEvent, (∀ e ∈ es, e.Smooth) →
    Always (Segmented N) (fresh N) (runOf (next content) (fresh N) es)
  completes : (fresh N).Completes content

/-! ## Files that are covered -/

/-- The segments so far. -/
structure Assigned (d : Download) : Prop where
  apart : d.assigned.Pairwise Span.Apart
  below : ∀ r ∈ d.assigned, 0 ≤ r.lo ∧ r.hi ≤ d.frontier
  cover : ∀ p, 0 ≤ p → p < d.frontier → ∃ r ∈ d.assigned, r.Covers p
  tags : d.vtTagTaskData = []
  made : d.frontier ≤ d.nDataCount * segment

theorem Assigned.fresh (N : ℤ) : (Download.fresh N).Assigned := by
  have hfrontier : (Download.fresh N).frontier = 0 := rfl
  refine ⟨List.Pairwise.nil, fun r hr => (nomatch hr), fun p hp hlt => ?_, rfl, ?_⟩
  · omega
  · rw [hfrontier]
    exact le_rfl

/-- A step assigns the next segment, or none. -/
theorem Assigned.effect (ha : d.Assigned) (hclosing : d.closing ≠ .returned) (hcells : d.Cells)
    (hfailed : d.vtDownloadNo = []) {d' : Download} (heffect : Effect content d d') :
    d'.Assigned := by
  cases heffect with
  | stay => exact ha
  | progress ht hrun hpos hn => exact ⟨ha.apart, ha.below, ha.cover, ha.tags, ha.made⟩
  | ended ht hrun hend => exact ⟨ha.apart, ha.below, ha.cover, ha.tags, ha.made⟩
  | detected hleft hl hphase => exact ⟨ha.apart, ha.below, ha.cover, ha.tags, ha.made⟩
  | repaired hleft hcell hno => exact absurd (hfailed.symm.trans hno) (by simp)
  | @assigned k hleft hcell hno htags hpos hle hdvd hnonneg hcases =>
    have hfrontier := frontier_assigned hclosing k
    refine ⟨?_, ?_, ?_, rfl, ?_⟩
    · refine List.pairwise_append.2 ⟨ha.apart, List.pairwise_singleton _ _, fun r hr => ?_⟩
      rw [List.forall_mem_singleton]
      intro p hp hp'
      have hlt := (ha.below r hr).2
      have hp₁ := hp.2
      have hp₂ := hp'.1
      simp only at hp₂
      omega
    · rw [hfrontier]
      refine List.forall_mem_append.2 ⟨fun r hr => ?_, ?_⟩
      · obtain ⟨h0, hlt⟩ := ha.below r hr
        exact ⟨h0, by omega⟩
      · rw [List.forall_mem_singleton]
        exact ⟨hnonneg, le_rfl⟩
    · rw [hfrontier]
      intro p hp hlt
      -- a byte was assigned before, or is one of the new segment
      by_cases hold : p < d.frontier
      · obtain ⟨r, hr, hcovers⟩ := ha.cover p hp hold
        exact ⟨r, List.mem_append_left _ hr, hcovers⟩
      · exact ⟨⟨d.frontier, d.frontier + k⟩, List.mem_append_right _ (List.mem_singleton_self _),
          by simp only; omega, hlt⟩
    · have hmade := ha.made
      have hcount : toInt (d.nDataCount + 1) = d.nDataCount + 1 :=
        toInt_of_lt (by have := hcells.nonneg; omega) hcell.2
      rw [hfrontier]
      change d.frontier + k ≤ toInt (d.nDataCount + 1) * segment
      rw [hcount]
      simp only [segment] at hle hmade ⊢
      omega
  | handedOut hleft hcell hno htags => exact absurd (ha.tags.symm.trans htags) (by simp)
  | left hleft hcount => exact ⟨ha.apart, ha.below, ha.cover, ha.tags, ha.made⟩

/-- What holds along the run of a file that is covered. -/
structure Covering (content : ℤ → UInt8) (N : ℤ) (d : Download) : Prop where
  goesOn : d.GoesOn content N
  assigned : d.Assigned

theorem Covering.fresh (content : ℤ → UInt8) (hpos : 0 < N) (hmod : N % segment ≠ 0) :
    (Download.fresh N).Covering content N :=
  ⟨.fresh content hpos hmod, .fresh N⟩

theorem Covering.next (h : d.Covering content N) (he : e.Smooth) (hallowed : d.Allowed e) :
    (d.next content e).Covering content N :=
  ⟨(h.goesOn.next he hallowed).1, h.assigned.effect (by simp [h.goesOn.notCalled])
    h.goesOn.inv.cells h.goesOn.unfailed.failed
    (h.goesOn.inv.effect (by simp [h.goesOn.notCalled]) (by simp [h.goesOn.notCalled]) he hallowed)⟩

/-- Once the loop is left, all is assigned. -/
theorem Covering.frontier_of_left (h : d.Covering content N) (hleft : d.Left) :
    d.frontier = N := by
  have hcount := h.goesOn.inv.left hleft
  have hcard := h.goesOn.inv.count
  have hncard : d.split.done.ncard ≤ d.frontier := h.goesOn.inv.sound.ncard_le
  have hle := h.goesOn.inv.position.frontier_le
  rw [h.goesOn.size] at hcount hle
  omega

theorem Covering.segmented (h : d.Covering content N) : d.Segmented N := by
  refine ⟨h.assigned.apart, fun r hr p hp => ?_, fun t ht => ?_, fun hleft => ?_,
    fun hleft => h.goesOn.size ▸ h.goesOn.inv.left hleft⟩
  · have hle := h.goesOn.inv.position.frontier_le
    rw [h.goesOn.size] at hle
    obtain ⟨h0, hlt⟩ := h.assigned.below r hr
    have hp₁ := hp.1
    have hp₂ := hp.2
    omega
  · obtain ⟨h0, -, hlt⟩ := h.goesOn.inv.cells.slot t ht
    exact ⟨h0, hlt⟩
  · rw [← h.frontier_of_left hleft]
    exact h.assigned.cover

/-- A file that does not end with a full segment, and has not too many, is covered. -/
theorem covers_of (content : ℤ → UInt8) (hpos : 0 < N) (hmod : N % segment ≠ 0)
    (hN : N / segment + 1 < 2 ^ 31) : Covers content N := by
  have hfresh := Covering.fresh content hpos hmod
  refine ⟨fun es hes => ?_, hfresh.goesOn.completes hpos hN⟩
  have halways := always_of_guarded (fun d e d' h he (heq : d' = d.next content e) => by
    rw [heq]
    exact h.next he (h.goesOn.allowed hpos hN he)) hfresh (isRun_runOf (Download.next content) _ es)
    (guarded_runOf _ _ hes)
  exact ⟨halways.1.segmented, halways.2.imp fun _ _ _ h => h.segmented⟩

/-! ## Files that are not -/

/-- What the steps of tasks do not change. -/
structure Frame (d d' : Download) : Prop where
  size : d'.n64FileSize = d.n64FileSize
  position : d'.n64ThreadTaskSion = d.n64ThreadTaskSion
  length : d'.n64ThreadDownloadCnt = d.n64ThreadDownloadCnt
  tags : d'.vtTagTaskData = d.vtTagTaskData
  count : d'.nDataCount = d.nDataCount
  before : d'.n64JiDonwloadCnt = d.n64JiDonwloadCnt
  closing : d'.closing = d.closing
  left : d'.Left ↔ d.Left
  stop : ∀ t' ∈ d'.vtThreadTask, ∃ t ∈ d.vtThreadTask, t'.bStopDownload = t.bStopDownload

/-- A task that is replaced by one with the same flag. -/
theorem Frame.of_set {d' : Download} {i : ℕ} {t t' : DownloadTask}
    (ht : d.vtThreadTask[i]? = some t) (htasks : d'.vtThreadTask = d.vtThreadTask.set i t')
    (hstop : t'.bStopDownload = t.bStopDownload) :
    ∀ u' ∈ d'.vtThreadTask, ∃ u ∈ d.vtThreadTask, u'.bStopDownload = u.bStopDownload := by
  intro u' hu'
  rw [htasks] at hu'
  obtain hu' | rfl := List.mem_or_eq_of_mem_set hu'
  · exact ⟨u', hu', rfl⟩
  · exact ⟨t, List.mem_of_getElem? ht, hstop⟩

/-- A step where nobody stops the download is a pass of the loop of `thread_Task`, or a step of a
task. -/
theorem next_cases (content : ℤ → UInt8) (hopen : d.closing = .notCalled)
    (hstop : ∀ t ∈ d.vtThreadTask, t.bStopDownload = false) (he : e.Smooth) :
    (¬d.Left ∧ d.next content e = d.pass) ∨ Frame d (d.next content e) := by
  have hsame : Frame d d := ⟨rfl, rfl, rfl, rfl, rfl, rfl, rfl, Iff.rfl, fun t ht => ⟨t, ht, rfl⟩⟩
  cases e with
  | threadTask =>
    rw [Download.next, threadTask_of_open (.inl hopen)]
    split_ifs with hleft hlen
    · exact .inr hsame
    · exact .inl ⟨hleft, rfl⟩
    · exact .inr hsame
  | detectVtThreadTask =>
    right
    rw [Download.next]
    split
    · exact hsame
    · obtain ⟨heq, -⟩ | ⟨t, l₁, l₂, hl, -, heq⟩ := d.detectVtThreadTask_cases
      · rw [heq]
        exact hsame
      · rw [heq]
        refine ⟨rfl, rfl, rfl, rfl, rfl, rfl, rfl, Iff.rfl, fun u hu => ⟨u, ?_, rfl⟩⟩
        rw [hl]
        exact ((List.sublist_cons_self t l₂).append_left l₁).subset hu
  | receive i n =>
    right
    obtain heq | ⟨t, ht, -, -, heq⟩ := next_receive_cases content d i n
    · rw [heq]
      exact hsame
    · have hflag := hstop t (List.mem_of_getElem? ht)
      rw [heq, received_eq, if_neg (by simp [hflag])]
      exact ⟨rfl, rfl, rfl, rfl, rfl, rfl, rfl, Option.map_eq_none_iff, Frame.of_set ht rfl rfl⟩
  | finish i =>
    right
    obtain heq | ⟨t, ht, -, -, heq⟩ := next_finish_cases content d i
    · rw [heq]
      exact hsame
    · have hflag := hstop t (List.mem_of_getElem? ht)
      rw [heq, finished]
      split
      · exact ⟨rfl, rfl, rfl, rfl, rfl, rfl, rfl, Iff.rfl, Frame.of_set ht rfl rfl⟩
      · rw [if_neg (by simp [hflag])]
        exact ⟨rfl, rfl, rfl, rfl, rfl, rfl, rfl, Iff.rfl, Frame.of_set ht rfl rfl⟩
  | fail i => exact he.elim
  | close => exact he.elim
  | stopThreadTask => exact he.elim
  | stopTask i => exact he.elim
  | resume => exact he.elim

/-- Nobody has stopped the download, and its loop is not left. -/
structure InLoop (N : ℤ) (d : Download) : Prop where
  size : d.n64FileSize = N
  notCalled : d.closing = .notCalled
  left : ¬d.Left
  tags : d.vtTagTaskData = []
  stop : ∀ t ∈ d.vtThreadTask, t.bStopDownload = false

theorem InLoop.frame {d' : Download} (h : d.InLoop N) (hframe : Frame d d') : d'.InLoop N := by
  refine ⟨hframe.size.trans h.size, hframe.closing.trans h.notCalled,
    fun hleft => h.left (hframe.left.1 hleft), hframe.tags.trans h.tags, fun t' ht' => ?_⟩
  obtain ⟨t, ht, hflag⟩ := hframe.stop t' ht'
  rw [hflag]
  exact h.stop t ht

theorem InLoop.addTask (h : d.InLoop N) (d' : Download) (hsize : d'.n64FileSize = N)
    (hclosing : d'.closing = d.closing) (hcells : d'.nDownloadCount = d.nDownloadCount)
    (htags : d'.vtTagTaskData = d.vtTagTaskData) (htasks : d'.vtThreadTask = d.vtThreadTask)
    (x size : ℤ) : (d'.addTask x size).InLoop N := by
  refine ⟨hsize, hclosing.trans h.notCalled, fun hleft => h.left ?_, htags.trans h.tags, ?_⟩
  · exact hcells.symm.trans (Option.map_eq_none_iff.1 hleft)
  · obtain ⟨phase, hnew, -⟩ := DownloadTask.new_eq d'.n64FileSize x size d'.nDataCount
    refine List.forall_mem_append.2 ⟨?_, ?_⟩
    · rw [htasks]
      exact h.stop
    · rw [List.forall_mem_singleton, hnew]

/-- What a pass does in the loop: it makes a task, where assigning goes on at the old position or
at the next one, or it leaves the loop, or it waits. -/
theorem InLoop.pass_cases (h : d.InLoop N) :
    (∃ (d' : Download) (x size : ℤ), d.pass = d'.addTask x size ∧ d.pass.InLoop N ∧
      d'.nDataCount = d.nDataCount ∧ d'.n64JiDonwloadCnt = d.n64JiDonwloadCnt ∧
      d'.dwDownloadVectorSize = d.dwDownloadVectorSize ∧
      ((d'.n64ThreadTaskSion = d.n64ThreadTaskSion ∧
          d'.n64ThreadDownloadCnt = d.n64ThreadDownloadCnt) ∨
        (d.n64ThreadDownloadCnt = segment ∧ ∃ ret, callAssignTasks d.n64ThreadTaskSion
          d.n64ThreadDownloadCnt d.n64FileSize =
            (ret, d'.n64ThreadTaskSion, d'.n64ThreadDownloadCnt)))) ∨
    (d.Waits ∧ (d.getDownloadCount = N ∨ d.pass = d)) := by
  obtain ⟨r, rest, hno, heq⟩ | ⟨hno, hwaits, hcount, heq⟩ | ⟨hno, hwaits, hcount, heq⟩ |
    ⟨hno, htags, hC, heq⟩ | ⟨hno, ⟨r, rest, htags⟩, heq⟩ := Download.pass_cases d
  · refine .inl ⟨{ d with vtDownloadNo := rest }, _, _, heq, ?_, rfl, rfl, rfl, .inl ⟨rfl, rfl⟩⟩
    rw [heq]
    exact h.addTask { d with vtDownloadNo := rest } h.size rfl rfl rfl rfl _ _
  · exact .inr ⟨hwaits, .inl (hcount.trans h.size)⟩
  · exact .inr ⟨hwaits, .inr heq⟩
  · refine .inl ⟨d.assignTasks, d.assignTasks.n64ThreadTaskSion,
      d.assignTasks.n64ThreadDownloadCnt - 1, ?_, ?_, rfl, rfl, rfl, .inr ⟨hC, _, rfl⟩⟩
    · rw [heq, startTask_nil]
      exact h.tags
    · rw [heq, startTask_nil (d := d.assignTasks) h.tags]
      exact h.addTask d.assignTasks h.size rfl rfl rfl rfl _ _
  · exact absurd (h.tags.symm.trans htags) (by simp)

/-- In a file that ends with a full segment, assigning does not come to the end. -/
structure Stuck (N : ℤ) (d : Download) : Prop extends InLoop N d where
  length : d.n64ThreadDownloadCnt = segment
  dvd : segment ∣ d.n64ThreadTaskSion

/-- Every step leaves it so. -/
theorem Stuck.next (h : d.Stuck N) (hmod : N % segment = 0) (he : e.Smooth) :
    (d.next content e).Stuck N := by
  have hassign : ∀ ret S C, callAssignTasks d.n64ThreadTaskSion d.n64ThreadDownloadCnt
      d.n64FileSize = (ret, S, C) → C = segment ∧ segment ∣ S := by
    intro ret S C hcall
    have hdvd := h.dvd
    have hdvdN : segment ∣ N := Int.dvd_of_emod_eq_zero hmod
    rw [callAssignTasks, h.length, h.size] at hcall
    split_ifs at hcall with hend hmore hlast
    · cases hcall
      exact ⟨rfl, hdvd⟩
    · cases hcall
      exact ⟨rfl, Int.dvd_add hdvd (Int.dvd_refl segment)⟩
    · -- between two multiples of the length there is no third
      simp only [segment] at hdvd hdvdN hlast
      omega
    · cases hcall
      exact ⟨rfl, hdvd⟩
  obtain ⟨-, heq⟩ | hframe := next_cases content h.notCalled h.stop he
  · rw [heq]
    obtain ⟨d', x, size, hpass, hloop, -, -, -, ⟨hS, hC⟩ | ⟨-, ret, hcall⟩⟩ | ⟨hwaits, -⟩ :=
      h.toInLoop.pass_cases
    · refine ⟨hloop, ?_, ?_⟩
      · rw [hpass]
        exact hC.trans h.length
      · rw [hpass]
        exact (congrArg (segment ∣ ·) hS).mpr h.dvd
    · obtain ⟨hC, hdvd⟩ := hassign _ _ _ hcall
      refine ⟨hloop, ?_, ?_⟩
      · rw [hpass]
        exact hC
      · rw [hpass]
        exact hdvd
    · exact absurd h.length hwaits.2
  · refine ⟨h.toInLoop.frame hframe, hframe.length.trans h.length, ?_⟩
    rw [hframe.position]
    exact h.dvd

theorem Stuck.fresh (N : ℤ) : (Download.fresh N).Stuck N :=
  ⟨⟨rfl, rfl, by simp [Left, Download.fresh, start], rfl, fun t ht => (nomatch ht)⟩, rfl, by
    change segment ∣ 0 - segment
    decide⟩

/-- There are so many segments that `nDataCount_` has overflowed. -/
structure Overflowed (N : ℤ) (d : Download) : Prop extends InLoop N d where
  negative : d.nDataCount < 0
  before : d.n64JiDonwloadCnt = 0

/-- Then no cell is counted, and the next task has none: as long as every task has one, it stays
so. -/
theorem Overflowed.next (h : d.Overflowed N) (hpos : 0 < N) (he : e.Smooth)
    (hsegmented : (d.next content e).Segmented N) : (d.next content e).Overflowed N := by
  obtain ⟨-, heq⟩ | hframe := next_cases content h.notCalled h.stop he
  · rw [heq] at hsegmented ⊢
    obtain ⟨d', x, size, hpass, -, hcount, -⟩ | ⟨-, hcount | hsame⟩ := h.toInLoop.pass_cases
    · have hcell := hsegmented.cells (.new d'.n64FileSize x size d'.nDataCount) (by
        rw [hpass]
        exact List.mem_append_right _ (List.mem_singleton_self _))
      obtain ⟨phase, hnew, -⟩ := DownloadTask.new_eq d'.n64FileSize x size d'.nDataCount
      rw [hnew, hcount] at hcell
      exact absurd hcell.1 (not_le.2 h.negative)
    · obtain ⟨cells, hcells⟩ := Option.ne_none_iff_exists'.1 h.left
      rw [getDownloadCount_of_some hcells, h.before, Int.toNat_of_nonpos h.negative.le] at hcount
      simp at hcount
      omega
    · rw [hsame]
      exact h
  · exact ⟨h.toInLoop.frame hframe, hframe.count.trans_lt h.negative,
      hframe.before.trans h.before⟩

/-- A download that goes on, until `nDataCount_` overflows. -/
def Counting (content : ℤ → UInt8) (N : ℤ) (d : Download) : Prop :=
  (d.Covering content N ∧ d.nDataCount < 2 ^ 31 ∧ d.n64JiDonwloadCnt = 0) ∨ d.Overflowed N

theorem Covering.inLoop (h : d.Covering content N) (hleft : ¬d.Left) : d.InLoop N where
  size := h.goesOn.size
  notCalled := h.goesOn.notCalled
  left := hleft
  tags := h.assigned.tags
  stop t ht := by simpa using (h.goesOn.inv.not_stopped (by simp [h.goesOn.notCalled]) ht).1

/-- A step that is not allowed: there is a cell, but `nDataCount_` overflows. -/
theorem Covering.overflows (h : d.Covering content N) (hcount : d.nDataCount < 2 ^ 31)
    (hbefore : d.n64JiDonwloadCnt = 0) (hmake : d.MakesTask) (hcell : ¬d.HasCell)
    (hsegmented : d.pass.Segmented N) : d.pass.Overflowed N := by
  have hwaits : ¬d.Waits := hmake.2.2.2.resolve_left (absurd h.goesOn.unfailed.failed)
  obtain ⟨d', x, size, hpass, hloop, hcount', hbefore', hvector, -⟩ | ⟨hwaits', -⟩ :=
    (h.inLoop hmake.2.1).pass_cases
  · obtain ⟨phase, hnew, -⟩ := DownloadTask.new_eq d'.n64FileSize x size d'.nDataCount
    rw [hpass] at hsegmented hloop ⊢
    have hslot := hsegmented.cells (.new d'.n64FileSize x size d'.nDataCount)
      (List.mem_append_right _ (List.mem_singleton_self _))
    rw [hnew] at hslot
    change 0 ≤ d'.nDataCount ∧ d'.nDataCount < d'.dwDownloadVectorSize at hslot
    rw [hcount', hvector] at hslot
    have hmax : d.nDataCount + 1 = 2 ^ 31 := by
      have hnot : ¬(d.nDataCount + 1 < 2 ^ 31) := fun hlt => hcell ⟨hslot.2, hlt⟩
      omega
    refine ⟨hloop, ?_, hbefore'.trans hbefore⟩
    change toInt (d'.nDataCount + 1) < 0
    rw [hcount', hmax]
    decide
  · exact absurd hwaits' hwaits

/-- A step that is allowed counts at most one task. -/
theorem Effect.count {d' : Download} (heffect : Effect content d d')
    (hcount : d.nDataCount < 2 ^ 31) :
    d'.nDataCount < 2 ^ 31 ∧ d'.n64JiDonwloadCnt = d.n64JiDonwloadCnt := by
  cases heffect with
  | repaired => exact ⟨toInt_lt _, rfl⟩
  | assigned => exact ⟨toInt_lt _, rfl⟩
  | handedOut hleft hcell hno htags =>
    obtain ⟨S, C, hstart, -⟩ := startTask_cons htags
    rw [hstart]
    exact ⟨toInt_lt _, rfl⟩
  | _ => exact ⟨hcount, rfl⟩

/-- Every step keeps the count right, or lets it overflow. -/
theorem Counting.next (h : d.Counting content N) (hpos : 0 < N) (he : e.Smooth)
    (hsegmented : (d.next content e).Segmented N) : (d.next content e).Counting content N := by
  obtain ⟨hcovering, hcount, hbefore⟩ | hoverflowed := h
  · by_cases hallowed : d.Allowed e
    · have heffect := hcovering.goesOn.inv.effect (by simp [hcovering.goesOn.notCalled])
        (by simp [hcovering.goesOn.notCalled]) he hallowed
      obtain ⟨hcount', hbefore'⟩ := heffect.count hcount
      exact .inl ⟨hcovering.next he hallowed, hcount', hbefore'.trans hbefore⟩
    · -- the step is a pass that makes a task
      cases e with
      | threadTask =>
        obtain ⟨hmake, hcell⟩ := Classical.not_imp.1 hallowed
        rw [Download.next, threadTask_of_makesTask hmake] at hsegmented ⊢
        exact .inr (hcovering.overflows hcount hbefore hmake hcell hsegmented)
      | detectVtThreadTask => exact absurd trivial hallowed
      | receive i n => exact absurd trivial hallowed
      | finish i => exact absurd trivial hallowed
      | fail i => exact he.elim
      | close => exact he.elim
      | stopThreadTask => exact he.elim
      | stopTask i => exact he.elim
      | resume => exact he.elim
  · exact .inr (hoverflowed.next hpos he hsegmented)

/-- A covered file does not end with a full segment. -/
theorem Covers.mod_ne (h : Covers content N) : N % segment ≠ 0 := by
  intro hmod
  obtain ⟨B, hB⟩ := h.completes.bounded
  obtain ⟨es, ⟨hes, -⟩, hquiet⟩ := exists_quiet hB
  have hstep : ∀ (d : Download) (e : DownloadEvent) (d' : Download), d.Stuck N → e.Smooth →
      d' = d.next content e → d'.Stuck N := by
    rintro d e d' hd he rfl
    exact hd.next hmod he
  have hstuck := (always_of_guarded hstep (Stuck.fresh N) (isRun_runOf (Download.next content) _ es)
    (guarded_runOf _ _ hes)).last
  exact hstuck.left (h.completes.ends es hes hquiet).left

/-- A covered file has not too many segments. -/
theorem Covers.lt (h : Covers content N) (hpos : 0 < N) : N / segment + 1 < 2 ^ 31 := by
  obtain ⟨B, hB⟩ := h.completes.bounded
  obtain ⟨es, ⟨hes, -⟩, hquiet⟩ := exists_quiet hB
  have hleft := (h.completes.ends es hes hquiet).left
  have hmod := h.mod_ne
  have hstep : ∀ (d : Download) (e : DownloadEvent) (d' : Download), d.Counting content N →
      e.Smooth → d' = d.next content e ∧ d'.Segmented N → d'.Counting content N := by
    rintro d e d' hd he ⟨rfl, hsegmented⟩
    exact hd.next hpos he hsegmented
  have hfresh : (Download.fresh N).Counting content N := by
    refine .inl ⟨.fresh content hpos hmod, ?_, rfl⟩
    change (0 : ℤ) < 2 ^ 31
    decide
  have hrun := (isRun_runOf (Download.next content) _ es).and (h.segmented es hes).2
  obtain ⟨hcovering, hcount, -⟩ | hoverflowed :=
    (always_of_guarded hstep hfresh hrun (guarded_runOf _ _ hes)).last
  · have hmade := hcovering.assigned.made
    rw [hcovering.frontier_of_left hleft] at hmade
    simp only [segment] at hmade hmod ⊢
    omega
  · exact absurd hleft hoverflowed.left

/-- A file is covered if and only if it does not end with a full segment, and its segments can be
counted. -/
theorem covers_iff (content : ℤ → UInt8) {N : ℤ} (hpos : 0 < N) :
    Covers content N ↔ N % segment ≠ 0 ∧ N / segment + 1 < 2 ^ 31 :=
  ⟨fun h => ⟨h.mod_ne, h.lt hpos⟩, fun h => covers_of content hpos h.1 h.2⟩

theorem covers_300000 : Covers (fun _ => 7) 300000 :=
  (covers_iff (fun _ => 7) (by decide)).2 (by decide)

/-- The first pass for a file of one full segment assigns a range before the file. -/
theorem not_covers_204800 : ¬Covers (fun _ => 7) 204800 := by
  intro h
  have hrun := (h.segmented [.threadTask] (by simp [DownloadEvent.Smooth])).last
  have hmem : (⟨-204800, 0⟩ : Span) ∈
      (final (fresh 204800) (runOf (next fun _ => 7) (fresh 204800) [.threadTask])).assigned := by
    decide
  exact absurd (hrun.inside _ hmem (-1) (by decide)).1 (by decide)

end Download

end Gendo.Client
