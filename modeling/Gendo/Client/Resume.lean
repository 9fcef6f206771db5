import Gendo.Client.DownloadEnds

/-!
# Stopped downloads

`thread_SecurityCloseTask` stops `thread_Task`, then the tasks, and saves what is left of their
ranges; a new object hands the saved ranges out again and goes on assigning after the last of
them. The place where assigning was is not saved: it is taken from the end of the last range, and
what `set_ThreadTaskData` returns is a position or one of the codes `T_X` and `T_Z`. A task for a
range with nothing left is never started, and the next stop waits for the exit code of its thread.
Where nothing that was to be handed out is cleared, no stop waits for such a task, and the last
saved range tells where to go on, every byte is kept across any number of stops.
-/

namespace Gendo.Client

open StepSystem WorkSplit

namespace Download

variable {content : ℤ → UInt8} {N : ℤ} {d d' : Download} {e : DownloadEvent}

/-- When `thread_SecurityCloseTask` is called all saved ranges are handed out and all tasks were
started, and a new object can go on from what it saves. -/
def StopsWell (d : Download) (e : DownloadEvent) : Prop :=
  (e = .close ∨ e = .resume → d.Allowed e) ∧ (e = .close → d.closing = .notCalled → d.Started)

instance (d : Download) : DecidablePred d.StopsWell := fun _ =>
  inferInstanceAs (Decidable (_ ∧ _))

/-! ## Where assigning goes on -/

/-- Where no saved range is to be handed out, a step leaves no task that is not started. -/
theorem Started.next (h : d.Started) (hinv : d.Inv content) (hopen : d.closing ≠ .notCalled)
    (hallowed : d.Allowed e) : (d.next content e).Started := by
  cases e with
  | threadTask =>
    cases hclosing : d.closing with
    | notCalled => exact absurd hclosing hopen
    | cleared =>
      -- nothing is saved any more, so that all tasks that are still made get their thread
      have heffect : Effect content d (d.next content .threadTask) :=
        hinv.effect (by simp [hclosing]) (by simp [hclosing]) trivial hallowed
      exact hinv.started_effect (hinv.closing (.inl hclosing)) h heffect
    | signalled =>
      rw [Download.next, threadTask_of_signalled hclosing]
      split
      · exact h
      · exact h
    | returned =>
      rw [Download.next, threadTask_of_returned hclosing]
      exact h
  | detectVtThreadTask =>
    rw [Download.next]
    split
    · exact h
    obtain ⟨heq, -⟩ | ⟨t, l₁, l₂, hl, -, heq⟩ := d.detectVtThreadTask_cases
    · rw [heq]
      exact h
    · -- the task that has ended is taken out, the others stay
      rw [heq]
      intro u hu
      apply h u
      rw [hl]
      exact ((List.sublist_cons_self t l₂).append_left l₁).subset hu
  | receive i n =>
    obtain heq | ⟨t, ht, hrun, -, heq⟩ := next_receive_cases content d i n
    · rw [heq]
      exact h
    · have hprogress : (d.progress content i t n).Started := h.setTask i (by simp [wrote, hrun])
      rw [heq, received_eq]
      split
      · exact hprogress.setTask i (by simp)
      · exact hprogress
  | finish i =>
    obtain heq | ⟨t, ht, hrun, hend, heq⟩ := next_finish_cases content d i
    · rw [heq]
      exact h
    · rw [heq, hinv.finished ht hrun hend]
      split
      · exact h.setTask i (by simp)
      · exact h.setTask i (by simp)
  | fail i =>
    obtain heq | ⟨t, -, -, heq⟩ := next_fail_cases content d i
    · rw [heq]
      exact h
    · rw [heq]
      exact h.setTask i (by simp)
  | close =>
    rw [Download.next, if_neg hopen]
    exact h
  | stopThreadTask =>
    rw [Download.next]
    split
    · exact h
    · exact h
  | stopTask i =>
    obtain heq | ⟨t, -, hrun, -, heq⟩ := next_stopTask_cases content d i
    · rw [heq]
      exact h
    · rw [heq]
      exact h.setTask i (by simp [hrun])
  | resume =>
    rw [Download.next]
    split
    · -- the new object has no tasks
      exact fun t ht => absurd ht List.not_mem_nil
    · exact h

/-! ## There is a cell for every task -/

/-- The range of the task is saved. -/
def isStopped (t : DownloadTask) : Bool := t.phase = .stopped

/-- While the tasks are stopped: nothing has failed, and no more tasks were made than segments start
before the place where assigning goes on. -/
structure Halted (d : Download) : Prop where
  failed : d.vtDownloadNo = []
  threadOn : ∀ t ∈ d.vtThreadTask, t.phase ≠ .threadOn
  made : d.nDataCount ≤ segments d.frontier
  saved : d.vtTagTaskData.length ≤ Tally.count isStopped d.vtThreadTask

/-- The cells of the tasks are different ones. -/
theorem Cells.length_le (h : d.Cells) : (d.vtThreadTask.length : ℤ) ≤ d.nDataCount := by
  have hnodup : (d.vtThreadTask.map DownloadTask.nCallByteCnt).Nodup :=
    List.pairwise_map.2 h.distinct
  have hsub : (d.vtThreadTask.map DownloadTask.nCallByteCnt).toFinset ⊆
      Finset.Ico 0 d.nDataCount := by
    intro k hk
    obtain ⟨t, ht, rfl⟩ := List.mem_map.1 (List.mem_toFinset.1 hk)
    obtain ⟨h0, hlt, -⟩ := h.slot t ht
    exact Finset.mem_Ico.2 ⟨h0, hlt⟩
  have hcard := Finset.card_le_card hsub
  have hnonneg := h.nonneg
  rw [List.toFinset_card_of_nodup hnodup, List.length_map, Int.card_Ico] at hcard
  omega

theorem frontier_of_returned (h : d.closing = .returned) :
    d.frontier = d.n64ThreadTaskSion + d.n64ThreadDownloadCnt :=
  frontier_of_none (if_pos h)

/-- A running task goes on, ends or is stopped. -/
theorem Halted.set (h : d.Halted) {i : ℕ} {t t' : DownloadTask}
    (ht : d.vtThreadTask[i]? = some t) (hrun : t.phase = .running)
    (htasks : d'.vtThreadTask = d.vtThreadTask.set i t') (hphase : t'.phase ≠ .threadOn)
    (hno : d'.vtDownloadNo = d.vtDownloadNo) (hcount : d'.nDataCount = d.nDataCount)
    (hfrontier : d'.frontier = d.frontier)
    (htags : d'.vtTagTaskData.length = d.vtTagTaskData.length + (isStopped t').toNat) :
    d'.Halted := by
  refine ⟨hno.trans h.failed, fun u hu => ?_, ?_, ?_⟩
  · rw [htasks] at hu
    obtain hu | rfl := List.mem_or_eq_of_mem_set hu
    · exact h.threadOn u hu
    · exact hphase
  · rw [hcount, hfrontier]
    exact h.made
  · have hset := Tally.count_set isStopped ht t'
    have hstopped : isStopped t = false := by simp [isStopped, hrun]
    have hsaved := h.saved
    rw [hstopped, Bool.toNat_false, add_zero] at hset
    rw [htasks, htags, hset]
    omega

/-- A task notes its range. -/
theorem Halted.stopped (h : d.Halted) (hclosing : d.closing = .returned) {i : ℕ}
    {t : DownloadTask} (ht : d.vtThreadTask[i]? = some t) (hrun : t.phase = .running) :
    (d.stopped i t).Halted := by
  have hreturned : (d.stopped i t).closing = .returned := hclosing
  refine h.set ht hrun rfl (by simp) rfl rfl ?_ ?_
  · rw [frontier_of_returned hreturned, frontier_of_returned hclosing]
    rfl
  · exact List.length_append

/-- While the tasks are stopped, a step keeps it so, unless it is the last one. -/
theorem Halted.next (h : d.Halted) (hinv : d.Inv content) (hclosing : d.closing = .returned)
    (hfails : e.fails = false) (hresume : e = .resume → ¬d.Saves) :
    (d.next content e).Halted ∧ (d.next content e).closing = .returned ∧
      (d.next content e).n64FileSize = d.n64FileSize := by
  cases e with
  | threadTask =>
    rw [Download.next, threadTask_of_returned hclosing]
    exact ⟨h, hclosing, rfl⟩
  | detectVtThreadTask =>
    rw [Download.next, if_pos (.inl hclosing)]
    exact ⟨h, hclosing, rfl⟩
  | receive i n =>
    obtain heq | ⟨t, ht, hrun, -, heq⟩ := next_receive_cases content d i n
    · rw [heq]
      exact ⟨h, hclosing, rfl⟩
    · rw [heq, received_eq]
      -- what is read may be the last before the task sees that it is told to stop
      have hprogress : (d.progress content i t n).Halted :=
        h.set ht hrun rfl (by simp [wrote, hrun]) rfl rfl rfl
          (by simp [isStopped, wrote, hrun, Download.progress])
      split_ifs with hstop
      · exact ⟨hprogress.stopped hclosing (getElem?_progress content ht n) hrun, hclosing, rfl⟩
      · exact ⟨hprogress, hclosing, rfl⟩
  | finish i =>
    obtain heq | ⟨t, ht, hrun, hend, heq⟩ := next_finish_cases content d i
    · rw [heq]
      exact ⟨h, hclosing, rfl⟩
    · rw [heq, hinv.finished ht hrun hend]
      split
      next => exact ⟨h.stopped hclosing ht hrun, hclosing, rfl⟩
      next => exact ⟨h.set ht hrun rfl (by simp) rfl rfl rfl rfl, hclosing, rfl⟩
  | fail i => cases hfails
  | close =>
    rw [Download.next, if_neg (by simp [hclosing])]
    exact ⟨h, hclosing, rfl⟩
  | stopThreadTask =>
    rw [Download.next, if_neg (by simp [hclosing])]
    exact ⟨h, hclosing, rfl⟩
  | stopTask i =>
    obtain heq | ⟨t, ht, hrun, -, heq⟩ := next_stopTask_cases content d i
    · rw [heq]
      exact ⟨h, hclosing, rfl⟩
    · rw [heq]
      exact ⟨h.set ht hrun rfl (by simp [hrun]) rfl rfl rfl (by simp [isStopped, hrun, setTask]),
        hclosing, rfl⟩
  | resume =>
    rw [Download.next]
    split
    next hsaves => exact absurd hsaves (hresume rfl)
    next => exact ⟨h, hclosing, rfl⟩

/-- A new object has fewer ranges to hand out than tasks were made before. -/
theorem Halted.resume (h : d.Halted) (hcells : d.Cells) (hclosing : d.closing = .returned)
    (hfound : d.FoundBy d.lastSaved) :
    (start d.n64FileSize d.createDwonloadFile d.file).Unfailed := by
  refine ⟨rfl, fun t ht => (nomatch ht), rfl, ?_⟩
  have hperm : (readDwonloadFile d.createDwonloadFile).Perm d.vtTagTaskData :=
    List.perm_insertionSort _ _
  have hcount := Tally.count_le_length isStopped d.vtThreadTask
  have hlength := hcells.length_le
  have hmade := h.made
  have hsaved := h.saved
  rw [frontier_resume hclosing hfound]
  change (0 : ℤ) + ((readDwonloadFile d.createDwonloadFile).length : ℤ) ≤ _
  rw [hperm.length_eq]
  omega

/-- `thread_Task` returns. -/
theorem Unfailed.halted (h : d.Unfailed) (hclosing : d.closing ≠ .returned)
    (htags : d.vtTagTaskData = []) : Halted { d with closing := .returned } := by
  have hmade := h.made
  rw [htags, List.length_nil] at hmade
  refine ⟨h.failed, h.threadOn, ?_, ?_⟩
  · rw [frontier_setClosing hclosing htags]
    simpa using hmade
  · change d.vtTagTaskData.length ≤ _
    rw [htags]
    exact Nat.zero_le _

/-- `thread_SecurityCloseTask` goes on where nothing is saved. -/
theorem Unfailed.setClosing (h : d.Unfailed) (hclosing : d.closing ≠ .returned)
    (htags : d.vtTagTaskData = []) (closing : Closing) :
    Unfailed { d with closing := closing } := by
  refine ⟨h.failed, h.threadOn, h.vector, ?_⟩
  rw [frontier_setClosing hclosing htags]
  exact h.made

/-! ## Runs -/

/-- What holds in a download that is stopped and resumed as it should be. -/
structure Resuming (content : ℤ → UInt8) (N : ℤ) (d : Download) : Prop where
  inv : d.Inv content
  size : d.n64FileSize = N
  started : d.closing ≠ .notCalled → d.Started
  unfailed : d.closing ≠ .returned → d.Unfailed
  halted : d.closing = .returned → d.Halted

theorem Resuming.fresh (content : ℤ → UInt8) (hpos : 0 < N) (hmod : N % segment ≠ 0) :
    (Download.fresh N).Resuming content N :=
  ⟨.fresh content hpos hmod, rfl, fun hopen => absurd rfl hopen,
    fun _ => (GoesOn.fresh content hpos hmod).unfailed, fun hclosing => (nomatch hclosing)⟩

/-- Until `thread_Task` returns, a step keeps it so. -/
theorem Unfailed.next (h : d.Unfailed) (hinv : d.Inv content) (hclosing : d.closing ≠ .returned)
    (hfails : e.fails = false) (hallowed : d.Allowed e) :
    (((d.next content e).closing ≠ .returned ∧ (d.next content e).Unfailed) ∨
      ((d.next content e).closing = .returned ∧ (d.next content e).Halted)) ∧
    (d.next content e).n64FileSize = d.n64FileSize := by
  have hsame : ((d.closing ≠ .returned ∧ d.Unfailed) ∨ (d.closing = .returned ∧ d.Halted)) ∧
      d.n64FileSize = d.n64FileSize := ⟨.inl ⟨hclosing, h⟩, rfl⟩
  have heffect : ∀ d', Effect content d d' →
      ((d'.closing ≠ .returned ∧ d'.Unfailed) ∨ (d'.closing = .returned ∧ d'.Halted)) ∧
        d'.n64FileSize = d.n64FileSize := by
    intro d' heffect
    -- what `Effect` describes does not stop the download
    obtain ⟨hsize, hcl⟩ := heffect.same
    exact ⟨.inl ⟨hcl ▸ hclosing, h.effect hclosing hinv.cells heffect⟩, hsize⟩
  cases e with
  | threadTask =>
    by_cases hsignalled : d.closing = .signalled
    · rw [Download.next, threadTask_of_signalled hsignalled]
      split
      · exact ⟨.inr ⟨rfl, h.halted hclosing (hinv.closing (.inr hsignalled))⟩, rfl⟩
      · exact hsame
    · exact heffect _ (hinv.effect hclosing (fun hcl => absurd hcl hsignalled) trivial hallowed)
  | detectVtThreadTask => exact heffect _ (hinv.effect hclosing (by simp) trivial trivial)
  | receive i n => exact heffect _ (hinv.effect hclosing (by simp) trivial trivial)
  | finish i => exact heffect _ (hinv.effect hclosing (by simp) trivial trivial)
  | fail i => cases hfails
  | close =>
    rw [Download.next]
    split
    next hopen =>
      have htags := hallowed hopen
      have hcleared : ({ d with vtTagTaskData := [], closing := .cleared } : Download) =
          { d with closing := .cleared } := by rw [← htags]
      rw [hcleared]
      exact ⟨.inl ⟨by simp, h.setClosing hclosing htags _⟩, rfl⟩
    next => exact hsame
  | stopThreadTask =>
    rw [Download.next]
    split
    next hcleared =>
      exact ⟨.inl ⟨by simp, h.setClosing hclosing (hinv.closing (.inl hcleared)) _⟩, rfl⟩
    next => exact hsame
  | stopTask i =>
    obtain heq | ⟨-, -, -, hreturned, -⟩ := next_stopTask_cases content d i
    · rw [heq]
      exact hsame
    · exact absurd hreturned hclosing
  | resume =>
    rw [Download.next, if_neg fun hsaves => hclosing hsaves.1]
    exact hsame

theorem next_resume (h : d.Saves) :
    d.next content .resume = start d.n64FileSize d.createDwonloadFile d.file := if_pos h

/-- Once `thread_SecurityCloseTask` is called, no task is left that was not started. -/
theorem Resuming.started_next (h : d.Resuming content N) (hfails : e.fails = false)
    (hallowed : d.Allowed e) (hclose : e = .close → d.closing = .notCalled → d.Started)
    (hnext : (d.next content e).closing ≠ .notCalled) : (d.next content e).Started := by
  by_cases hopen : d.closing = .notCalled
  · -- only the call itself changes that it was not called
    have hsmooth : e.Smooth → False := by
      intro hsmooth
      have heffect := h.inv.effect (by simp [hopen]) (by simp [hopen]) hsmooth hallowed
      exact hnext (heffect.same.2.trans hopen)
    cases e with
    | threadTask => exact (hsmooth trivial).elim
    | detectVtThreadTask => exact (hsmooth trivial).elim
    | receive i n => exact (hsmooth trivial).elim
    | finish i => exact (hsmooth trivial).elim
    | fail i => cases hfails
    | close =>
      rw [Download.next, if_pos hopen]
      exact hclose rfl hopen
    | stopThreadTask =>
      rw [Download.next, if_neg (by simp [hopen])] at hnext
      exact absurd hopen hnext
    | stopTask i =>
      obtain heq | ⟨-, -, -, hreturned, -⟩ := next_stopTask_cases content d i
      · rw [heq] at hnext
        exact absurd hopen hnext
      · simp [hopen] at hreturned
    | resume =>
      rw [Download.next, if_neg (by simp [hopen])] at hnext
      exact absurd hopen hnext
  · exact (h.started hopen).next h.inv hopen hallowed

/-- Every step that is allowed keeps it so. -/
theorem Resuming.next (h : d.Resuming content N) (hfails : e.fails = false)
    (hallowed : d.Allowed e) (hclose : e = .close → d.closing = .notCalled → d.Started) :
    (d.next content e).Resuming content N := by
  have hinv := h.inv.next hallowed
  have hstarted := h.started_next hfails hallowed hclose
  by_cases hclosing : d.closing = .returned
  · -- the tasks are being stopped, and the last step of this makes a new object
    by_cases hresume : e = .resume ∧ d.Saves
    · obtain ⟨rfl, hsaves⟩ := hresume
      rw [next_resume hsaves] at hinv hstarted ⊢
      have hfound := (hallowed hsaves).2.2.2.2
      have hunfailed := (h.halted hclosing).resume h.inv.cells hclosing hfound
      exact ⟨hinv, h.size, hstarted, fun _ => hunfailed, fun hcl => (nomatch hcl)⟩
    · obtain ⟨hhalted, hcl, hsize⟩ := (h.halted hclosing).next h.inv hclosing hfails
        fun he hsaves => hresume ⟨he, hsaves⟩
      exact ⟨hinv, hsize.trans h.size, hstarted, fun hne => absurd hcl hne, fun _ => hhalted⟩
  · obtain ⟨⟨hcl, hunfailed⟩ | ⟨hcl, hhalted⟩, hsize⟩ :=
      (h.unfailed hclosing).next h.inv hclosing hfails hallowed
    · exact ⟨hinv, hsize.trans h.size, hstarted, fun _ => hunfailed,
        fun hcl' => absurd hcl' hcl⟩
    · exact ⟨hinv, hsize.trans h.size, hstarted, fun hne => absurd hcl hne, fun _ => hhalted⟩

section Run

variable (hpos : 0 < N) (hN : N / segment + 1 < 2 ^ 31)

include hpos hN

/-- Steps other than stops are always allowed. -/
theorem Resuming.allowed (h : d.Resuming content N) (hfails : e.fails = false)
    (hstops : d.StopsWell e) : d.Allowed e := by
  cases e with
  | threadTask =>
    intro hmake
    have hclosing : d.closing ≠ .returned := by
      obtain hcl | hcl := hmake.1
      · simp [hcl]
      · simp [hcl]
    exact (h.unfailed hclosing).hasCell h.inv hclosing (h.size ▸ hpos) (h.size ▸ hN) hmake
  | detectVtThreadTask => trivial
  | receive i n => trivial
  | finish i => trivial
  | fail i => cases hfails
  | close => exact hstops.1 (.inl rfl)
  | stopThreadTask => trivial
  | stopTask i => trivial
  | resume => exact hstops.1 (.inr rfl)

/-- Where it is not interrupted any more, the download comes to its end. -/
theorem Resuming.completes (h : d.Resuming content N) (hclosing : d.closing = .notCalled) :
    d.Completes content :=
  GoesOn.completes hpos hN ⟨h.inv, h.unfailed (by simp [hclosing]), hclosing, h.size⟩

end Run

end Download

end Gendo.Client
