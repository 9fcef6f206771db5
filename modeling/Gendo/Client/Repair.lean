import Gendo.Client.DownloadEnds
import Mathlib.Algebra.BigOperators.Ring.List

/-!
# Failed ranges

A task that fails leaves its range to `vtDownloadNo`, and `decete_TaskFailure` makes a task for
the rest of it. The length is given to the task with one taken off and to the header as the
distance to the last byte, and a distance of 0 asks for everything up to the end of the file: a
rest of one byte is asked for too much, and so is one of no bytes, whose header is not valid.
Where this does not happen, and there is a cell for every task, what fails is downloaded in the
end, however often it fails.
-/

namespace Gendo.Client

open StepSystem WorkSplit

/-- Nobody calls `thread_SecurityCloseTask`. -/
def DownloadEvent.Uninterrupted : DownloadEvent → Prop
  | .threadTask | .detectVtThreadTask | .receive _ _ | .finish _ | .fail _ => True
  | .close | .stopThreadTask | .stopTask _ | .resume => False

/-- The whole range. -/
def TagDownloadData.range (r : TagDownloadData) : Span := ⟨r.n64X, r.n64X + r.n64TaskCnt⟩

/-- The header asks for the range of the task. -/
theorem DownloadTask.Whole.asks_range {size : ℤ} {t : DownloadTask}
    (h : t.Whole size) (p : ℤ) : t.request.Asks size p ↔ t.tag.range.Covers p := by
  rw [h.asks_iff, TagDownloadData.range, Span.Covers]
  simp only [DownloadTask.tag_n64X, DownloadTask.tag_n64TaskCnt, add_assoc]

namespace Download

variable {content : ℤ → UInt8} {N : ℤ} {d d' : Download} {e : DownloadEvent}

/-- The ranges of the tasks and of those that failed. -/
def ranges (d : Download) : List Span :=
  d.vtThreadTask.map (fun t => t.tag.range) ++ d.vtDownloadNo.map TagDownloadData.range

/-- A pass that repairs a failed range starts a task, which asks for what is not written of the
range. -/
def RequestsRest (d : Download) (e : DownloadEvent) (d' : Download) : Prop :=
  e = .threadTask → d.MakesTask → ∀ r rest, d.vtDownloadNo = r :: rest →
    ∃ t, d'.vtThreadTask = d.vtThreadTask ++ [t] ∧ d'.vtDownloadNo = rest ∧ t.phase = .running ∧
      ∀ p, t.request.Asks d.n64FileSize p ↔ r.range.Covers p ∧ d.file p = none

/-- Every task asks for its range, the ranges are apart and in the file, every byte is written to
its own position and counted, and when nothing happens any more, all are. -/
structure Repaired (content : ℤ → UInt8) (N : ℤ) (d : Download) : Prop where
  asks : ∀ t ∈ d.vtThreadTask, ∀ p, t.request.Asks N p ↔ t.tag.range.Covers p
  inside : ∀ t ∈ d.vtThreadTask, ∀ p, t.tag.range.Covers p → 0 ≤ p ∧ p < N
  apart : d.ranges.Pairwise Span.Apart
  file : ∀ p b, d.file p = some b → 0 ≤ p ∧ p < N ∧ b = content p
  count : d.getDownloadCount = {p | (d.file p).isSome}.ncard
  ends : Quiet (next content) DownloadEvent.Smooth d → d.Complete content

/-- The events are a history of a new download of `N` bytes in which tasks fail and are repaired as
they should. As every failure causes at most three more steps, the download comes to an end. -/
structure Repairs (content : ℤ → UInt8) (N : ℤ) (es : List DownloadEvent) : Prop where
  requests : Along RequestsRest (fresh N) (runOf (next content) (fresh N) es)
  states : Always (Repaired content N) (fresh N) (runOf (next content) (fresh N) es)
  bounded : Along (fun d _ d' => d' ≠ d) (fresh N) (runOf (next content) (fresh N) es) →
    (es.length : ℤ) ≤ 4 * N + 1 + 3 * Tally.count DownloadEvent.fails es

/-! ## What is kept -/

/-- The ranges of the tasks and of those that failed are apart, and before the place where
assigning goes on. Every task was started. -/
structure Separate (d : Download) : Prop where
  apart : d.ranges.Pairwise Span.Apart
  below : ∀ r ∈ d.ranges, r.hi ≤ d.frontier
  started : d.Started
  tags : d.vtTagTaskData = []

/-- A task that is replaced by one for the same range. -/
theorem Separate.set (h : d.Separate) {i : ℕ} {t t' : DownloadTask}
    (ht : d.vtThreadTask[i]? = some t) (htasks : d'.vtThreadTask = d.vtThreadTask.set i t')
    (hrange : t'.tag.range = t.tag.range) (hstarted : d'.Started)
    (hno : d'.vtDownloadNo = d.vtDownloadNo) (htags : d'.vtTagTaskData = d.vtTagTaskData)
    (hfrontier : d'.frontier = d.frontier) : d'.Separate := by
  obtain ⟨l₁, l₂, hl, hset⟩ := Tally.exists_append_of_getElem? ht
  have hranges : d'.ranges = d.ranges := by
    rw [ranges, ranges, htasks, hno, hset, hl, List.map_append, List.map_cons, List.map_append,
      List.map_cons, hrange]
  refine ⟨hranges ▸ h.apart, ?_, hstarted, htags.trans h.tags⟩
  rw [hranges, hfrontier]
  exact h.below

/-- The ranges but one. -/
theorem Separate.rest (h : d.Separate) {r : Span} {rest : List Span}
    (hranges : d.ranges.Perm (r :: rest)) :
    rest.Pairwise Span.Apart ∧ (∀ q ∈ rest, q.hi ≤ d.frontier) ∧ (∀ q ∈ rest, r.Apart q) ∧
      r.hi ≤ d.frontier := by
  obtain ⟨hr, hrest⟩ :=
    List.pairwise_cons.1 ((hranges.pairwise_iff fun h => Span.Apart.symm h).1 h.apart)
  have hbelow : ∀ q ∈ r :: rest, q.hi ≤ d.frontier :=
    fun q hq => h.below q (hranges.mem_iff.2 hq)
  obtain ⟨hr', hrest'⟩ := List.forall_mem_cons.1 hbelow
  exact ⟨hrest, hrest', hr, hr'⟩

/-- A range is put to others. -/
theorem Separate.cons {s : Span} {rest : List Span} (hranges : d'.ranges.Perm (s :: rest))
    (hrest : rest.Pairwise Span.Apart) (hbelow : ∀ q ∈ rest, q.hi ≤ d'.frontier)
    (hs : ∀ q ∈ rest, s.Apart q) (hhi : s.hi ≤ d'.frontier)
    (hstarted : d'.Started) (htags : d'.vtTagTaskData = []) : d'.Separate := by
  refine ⟨?_, fun q hq => ?_, hstarted, htags⟩
  · rw [hranges.pairwise_iff fun h => Span.Apart.symm h]
    exact List.pairwise_cons.2 ⟨hs, hrest⟩
  · obtain rfl | hq := List.mem_cons.1 (hranges.mem_iff.1 hq)
    · exact hhi
    · exact hbelow q hq

/-- The range of a new task comes last of those of the tasks. -/
theorem ranges_addTask (d : Download) (x size : ℤ) :
    (d.addTask x size).ranges.Perm (⟨x, x + (size + 1)⟩ :: d.ranges) := by
  obtain ⟨phase, hnew, -⟩ := DownloadTask.new_eq d.n64FileSize x size d.nDataCount
  have htasks : (d.addTask x size).vtThreadTask =
      d.vtThreadTask ++ [⟨x, size, 0, d.nDataCount, false, phase⟩] := by
    rw [← hnew]
    rfl
  have hno : (d.addTask x size).vtDownloadNo = d.vtDownloadNo := rfl
  rw [ranges, ranges, htasks, hno, List.map_append, List.append_assoc]
  exact List.perm_middle

/-- A step keeps the ranges apart. -/
theorem Separate.effect (h : d.Separate) (hinv : d.Inv content) (hclosing : d.closing ≠ .returned)
    (heffect : Effect content d d') : d'.Separate := by
  have hstarted := hinv.started_effect h.tags h.started heffect
  cases heffect with
  | stay => exact h
  | progress ht hrun hpos hn => exact h.set ht rfl rfl hstarted rfl rfl rfl
  | ended ht hrun hend => exact h.set ht rfl rfl hstarted rfl rfl rfl
  | @detected t l₁ l₂ hleft hl hphase =>
    have hold : d.ranges.Perm (t.tag.range :: ((l₁ ++ l₂).map (fun t => t.tag.range) ++
        d.vtDownloadNo.map TagDownloadData.range)) := by
      rw [ranges, hl, List.map_append, List.map_cons, List.map_append, List.append_assoc,
        List.append_assoc, List.cons_append]
      exact List.perm_middle
    obtain ⟨hrest, hbelow, hapart, hhi⟩ := h.rest hold
    obtain hphase | hphase := hphase
    · refine .cons ?_ hrest hbelow hapart hhi hstarted h.tags
      simp only [ranges, hphase, if_true, List.map_append, List.map_cons, List.map_nil]
      rw [← List.append_assoc]
      exact List.perm_append_singleton _ _
    · simp only [hphase, reduceCtorEq, if_false]
      exact ⟨hrest, hbelow, hstarted, h.tags⟩
  | @repaired r rest hleft hcell hno =>
    obtain ⟨hfits, -⟩ := hinv.failed r (by simp [hno])
    have hold : d.ranges.Perm (r.range :: (d.vtThreadTask.map (fun t => t.tag.range) ++
        rest.map TagDownloadData.range)) := by
      rw [ranges, hno, List.map_cons]
      exact List.perm_middle
    obtain ⟨hrest, hbelow, hapart, hhi⟩ := h.rest hold
    have hcnt := hfits.cnt_nonneg
    refine .cons (ranges_addTask { d with vtDownloadNo := rest } _ _) hrest hbelow
      (fun q hq p hp => hapart q hq p ?_) ?_ hstarted h.tags
    · -- the rest of a range is a part of it
      have hlo := hp.1
      have hlt := hp.2
      simp only at hlo hlt
      exact ⟨by simp only [TagDownloadData.range]; omega,
        by simp only [TagDownloadData.range]; omega⟩
    · simp only [TagDownloadData.range] at hhi
      change r.n64X + r.n64DownloadCnt + _ ≤ d.frontier
      omega
  | @assigned k hleft hcell hno htags hpos hle hdvd hnonneg hcases =>
    have hfrontier := frontier_assigned hclosing k
    refine .cons (ranges_addTask (d.assignNext k) _ _) h.apart (fun q hq => ?_)
      (fun q hq p hp hp' => ?_) ?_ hstarted rfl
    · have hbelow := h.below q hq
      omega
    · have hbelow := h.below q hq
      have hlo := hp.1
      have hhi := hp'.2
      simp only at hlo
      omega
    · rw [hfrontier]
      simp only
      omega
  | handedOut hleft hcell hno htags => exact absurd (h.tags.symm.trans htags) (by simp)
  | left hleft hcount => exact ⟨h.apart, h.below, hstarted, h.tags⟩

/-- What holds in a download where tasks fail and are repaired. -/
structure Repairing (content : ℤ → UInt8) (N : ℤ) (d : Download) : Prop where
  inv : d.Inv content
  separate : d.Separate
  notCalled : d.closing = .notCalled
  size : d.n64FileSize = N

theorem Repairing.fresh (content : ℤ → UInt8) (hpos : 0 < N) (hmod : N % segment ≠ 0) :
    (Download.fresh N).Repairing content N :=
  ⟨.fresh content hpos hmod,
    ⟨List.Pairwise.nil, fun _ hr => (nomatch hr), fun _ ht => (nomatch ht), rfl⟩, rfl, rfl⟩

/-- A task fails. -/
theorem Repairing.fail (h : d.Repairing content N) {i : ℕ} {t : DownloadTask}
    (ht : d.vtThreadTask[i]? = some t) (hrun : t.phase = .running) :
    (d.setTask i { t with phase := .threadOn }).Separate ∧
      (d.setTask i { t with phase := .threadOn }).measure + 1 ≤ d.measure + 3 := by
  refine ⟨h.separate.set ht rfl rfl (h.separate.started.setTask i (by simp)) rfl rfl rfl, ?_⟩
  have htotal := Tally.total_set weight ht { t with phase := .threadOn }
  have hweight : weight t = 2 := by
    rw [weight, hrun]
  have hweight' : weight { t with phase := .threadOn } = 4 := rfl
  rw [hweight, hweight'] at htotal
  change (3 * (d.n64FileSize - d.frontier)).toNat + (d.n64FileSize - d.getDownloadCount).toNat +
    Tally.total weight (d.vtThreadTask.set i _) + 3 * d.vtDownloadNo.length +
    3 * d.vtTagTaskData.length + (if d.Left then 0 else 1) + 1 ≤ d.measure + 3
  rw [measure]
  omega

/-- Every step that is allowed keeps it so, and takes one off the measure, to which a failure puts
three. -/
theorem Repairing.next (h : d.Repairing content N) (he : e.Uninterrupted)
    (hallowed : d.Allowed e) :
    (d.next content e).Repairing content N ∧
      (d.next content e ≠ d →
        (d.next content e).measure + 1 ≤ d.measure + 3 * e.fails.toNat) := by
  have hsmooth : e.Smooth → e.fails = false → (d.next content e).Repairing content N ∧
      (d.next content e ≠ d →
        (d.next content e).measure + 1 ≤ d.measure + 3 * e.fails.toNat) := by
    intro hsmooth hfails
    have hclosing : d.closing ≠ .returned := by simp [h.notCalled]
    have heffect := h.inv.effect hclosing (by simp [h.notCalled]) hsmooth hallowed
    refine ⟨⟨h.inv.next hallowed, h.separate.effect h.inv hclosing heffect,
      heffect.same.2.trans h.notCalled, heffect.same.1.trans h.size⟩, ?_⟩
    rw [hfails]
    exact h.inv.measure_lt hclosing heffect
  cases e with
  | threadTask => exact hsmooth trivial rfl
  | detectVtThreadTask => exact hsmooth trivial rfl
  | receive i n => exact hsmooth trivial rfl
  | finish i => exact hsmooth trivial rfl
  | fail i =>
    have hinv := h.inv.next hallowed
    obtain heq | ⟨t, ht, hrun, heq⟩ := next_fail_cases content d i
    · rw [heq]
      exact ⟨h, fun hne => absurd rfl hne⟩
    · rw [heq] at hinv ⊢
      obtain ⟨hseparate, hmeasure⟩ := h.fail ht hrun
      exact ⟨⟨hinv, hseparate, h.notCalled, h.size⟩, fun _ => hmeasure⟩
  | close => exact he.elim
  | stopThreadTask => exact he.elim
  | stopTask i => exact he.elim
  | resume => exact he.elim

/-! ## What follows -/

/-- What is not written of a failed range is its rest. -/
theorem Inv.rest_iff (h : d.Inv content) {r : TagDownloadData} (hr : r ∈ d.vtDownloadNo) (p : ℤ) :
    r.span.Covers p ↔ r.range.Covers p ∧ d.file p = none := by
  have hfits := (h.failed r hr).1
  have hcnt := hfits.cnt_nonneg
  constructor
  · intro hp
    have hmem : r.span ∈ d.split.todo := by
      obtain ⟨l₁, l₂, hl⟩ := List.append_of_mem hr
      simp [split, spans, hl]
    have hdone := h.sound.notMem_done hmem hp
    refine ⟨⟨?_, hp.2⟩, by simpa [split] using hdone⟩
    have hlo := hp.1
    simp only [TagDownloadData.span] at hlo
    simp only [TagDownloadData.range]
    omega
  · rintro ⟨⟨hlo, hlt⟩, hfile⟩
    refine ⟨?_, hlt⟩
    by_contra hwritten
    have hsome := hfits.written p hlo (not_le.1 hwritten)
    rw [hfile] at hsome
    cases hsome

/-- A pass that repairs a range asks for its rest. -/
theorem Inv.requestsRest (h : d.Inv content) : RequestsRest d e (d.next content e) := by
  rintro rfl hmake r rest hno
  have hr : r ∈ d.vtDownloadNo := by simp [hno]
  obtain ⟨hfits, hrepairable⟩ := h.failed r hr
  obtain ⟨hphase, hspan, hnew⟩ := new_rest hfits hrepairable d.nDataCount rfl
  have hpass : d.pass = Download.addTask { d with vtDownloadNo := rest } (r.n64X + r.n64DownloadCnt)
      (r.n64TaskCnt - r.n64DownloadCnt - 1) := by
    simp only [Download.pass, deceteTaskFailure, hno]
  rw [Download.next, threadTask_of_makesTask hmake, hpass]
  refine ⟨_, rfl, rfl, hphase, fun p => ?_⟩
  obtain ⟨phase, heq, -⟩ := DownloadTask.new_eq d.n64FileSize (r.n64X + r.n64DownloadCnt)
    (r.n64TaskCnt - r.n64DownloadCnt - 1) d.nDataCount
  have hrange : (DownloadTask.new d.n64FileSize (r.n64X + r.n64DownloadCnt)
      (r.n64TaskCnt - r.n64DownloadCnt - 1) d.nDataCount).tag.range = r.span := by
    have hend : r.n64X + r.n64DownloadCnt + (r.n64TaskCnt - r.n64DownloadCnt - 1 + 1) =
        r.n64X + r.n64TaskCnt := by omega
    rw [heq]
    simp only [TagDownloadData.range, TagDownloadData.span, DownloadTask.tag, hend]
  rw [← h.rest_iff hr, ← hrange]
  exact hnew.whole.asks_range p

/-- What the states of a download look like where tasks fail and are repaired. -/
theorem Repairing.repaired (h : d.Repairing content N) : d.Repaired content N := by
  have hsize := h.size
  refine ⟨fun t ht p => ?_, fun t ht p hp => ?_, h.separate.apart, fun p b hb => ?_, h.inv.count,
    fun hquiet => h.inv.complete (h.inv.left_of_quiet h.notCalled hquiet)⟩
  · have hfits := h.inv.tasks t ht (h.separate.started t ht)
    rw [← hsize]
    exact hfits.whole.asks_range p
  · have hfits := h.inv.tasks t ht (h.separate.started t ht)
    have hnonneg := hfits.tag.nonneg
    have hinside := hfits.tag.inside
    have hlo := hp.1
    have hlt := hp.2
    simp only [TagDownloadData.range] at hlo hlt
    omega
  · have hmem : p ∈ d.split.done := by simp [split, hb]
    have hbounds := h.inv.sound.bounds_done hmem
    have hle := h.inv.position.frontier_le
    exact ⟨hbounds.1, hsize ▸ lt_of_lt_of_le hbounds.2 hle, h.inv.content_eq p b hb⟩

theorem measure_fresh (hpos : 0 < N) : ((Download.fresh N).measure : ℤ) = 4 * N + 1 := by
  have hcount : (Download.fresh N).getDownloadCount = 0 := by
    simp [getDownloadCount, Download.fresh, start]
  have hfrontier : (Download.fresh N).frontier = 0 := rfl
  have hleft : ¬(Download.fresh N).Left := by simp [Left, Download.fresh, start]
  rw [measure, hcount, hfrontier, if_neg hleft]
  change (((3 * (N - 0)).toNat + (N - 0).toNat + 0 + 3 * 0 + 3 * 0 + 1 : ℕ) : ℤ) = 4 * N + 1
  push_cast
  omega

/-- Where every range that fails has more than one byte left, or only the last of the file, and
there is a cell for every task, the failed ranges are repaired. -/
theorem repairs_of_allowed (content : ℤ → UInt8) (hpos : 0 < N) (hmod : N % segment ≠ 0)
    {es : List DownloadEvent} (hes : ∀ e ∈ es, e.Uninterrupted)
    (hallowed : Guarded Allowed (fresh N) (runOf (next content) (fresh N) es)) :
    Repairs content N es := by
  have hfresh := Repairing.fresh content hpos hmod
  have hrun := ((isRun_runOf (Download.next content) (Download.fresh N) es).and
    (guarded_runOf _ _ hes)).and hallowed
  have hstep : ∀ (d : Download) (e : DownloadEvent) (d' : Download), d.Repairing content N →
      (d' = d.next content e ∧ e.Uninterrupted) ∧ d.Allowed e →
      (RequestsRest d e d' ∧ d'.Repaired content N ∧
        (d' ≠ d → d'.measure + 1 ≤ d.measure + 3 * e.fails.toNat)) ∧ d'.Repairing content N := by
    rintro d e d' h ⟨⟨rfl, he⟩, hok⟩
    obtain ⟨hnext, hmeasure⟩ := h.next he hok
    exact ⟨⟨h.inv.requestsRest, hnext.repaired, hmeasure⟩, hnext⟩
  have halong := along_of_invariant hstep hfresh hrun
  refine ⟨halong.imp fun _ _ _ h => h.1, ⟨hfresh.repaired, halong.imp fun _ _ _ h => h.2.1⟩,
    fun hchanging => ?_⟩
  have hlen := length_runOf_le ((halong.and hchanging).imp fun _ _ _ h => h.1.2.2 h.2)
  rw [List.sum_map_mul_left] at hlen
  have hmeasure := measure_fresh hpos
  rw [Tally.count, Tally.total]
  omega

/-- A task fails after its first byte, and the other two are downloaded. -/
theorem repairs_firstByte : Repairs (fun _ => 7) 3
    [.threadTask, .receive 0 1, .fail 0, .detectVtThreadTask, .threadTask, .receive 0 2,
      .finish 0, .detectVtThreadTask, .threadTask] :=
  repairs_of_allowed (fun _ => 7) (by decide) (by decide)
    (by simp [DownloadEvent.Uninterrupted]) (by decide +kernel)

/-- A segment of which one byte is left when its task fails. -/
def oneByteLeft : List DownloadEvent :=
  .threadTask :: List.replicate 100 (.receive 0 2047) ++
    [.receive 0 99, .fail 0, .detectVtThreadTask, .threadTask]

/-- The task that repairs it asks for the next segment too. -/
theorem not_repairs_oneByteLeft : ¬∀ N : ℤ, 0 < N → N % segment ≠ 0 →
    ∀ es : List DownloadEvent, (∀ e ∈ es, e.Uninterrupted) → Repairs (fun _ => 7) N es := by
  intro h
  have hes : ∀ e ∈ oneByteLeft, e.Uninterrupted := by
    intro e he
    simp only [oneByteLeft, List.mem_append, List.mem_cons, List.mem_replicate] at he
    obtain (rfl | ⟨-, rfl⟩) | rfl | rfl | rfl | rfl | he := he
    all_goals trivial
  have hlast := (h 204801 (by decide) (by decide) oneByteLeft hes).states.last
  have hmem : (⟨204799, 0, 0, 1, false, .running⟩ : DownloadTask) ∈
      (final (fresh 204801) (runOf (next fun _ => 7) (fresh 204801) oneByteLeft)).vtThreadTask := by
    decide +kernel
  exact absurd ((hlast.asks _ hmem 204800).1 (by decide)) (by decide)

end Download

end Gendo.Client
