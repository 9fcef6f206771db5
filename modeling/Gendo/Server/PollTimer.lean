import Gendo.Library.StepSystem
import Mathlib.Algebra.Group.Int.Defs
import Mathlib.Data.Int.Init

/-!
# The timers of a reactor

The timers of `lib-poll.c`. `poll_init_timer` sets the time of the last firing of each to the
clock, and the default timeout to that of `poll_wait`, but it runs once, before the loop. A timer
that is added during the loop keeps the zero of `mem_malloc` as its last firing, and -1 as its
default timeout. Both numbers of `poll_add_timer` are `long`, and the fields that take them `int`.

A timer remembers the call that made it and the times at which it fired; the condition of
`pollTimers_iff` is about these.
-/

namespace Gendo

open StepSystem

/-! ## The timers -/

/-- `POLL_TIMEOUT_DEFAULT`. -/
def POLL_TIMEOUT_DEFAULT : ℤ := -1

/-- A call of `poll_add_timer`: when it is made, its two numbers, and whether `mem_malloc` gives
memory. -/
structure NewTimer where
  time : ℤ
  timeout : ℤ
  times : ℤ
  alloc : Bool
  deriving DecidableEq, Repr

/-- `poll_timer_t`, with its history. -/
structure PollTimer where
  timeout : Int32
  times : Int32
  /-- It leaves the range of an `int` only where `times` is 0, and then nothing depends on it. -/
  notifyTimes : ℤ
  lastNotify : ℤ
  /-- The call that made it. -/
  call : NewTimer
  /-- It was added during the loop. -/
  late : Bool
  /-- When it fired, the last firing first. -/
  fired : List ℤ
  deriving DecidableEq, Repr

/-- What `poll_check_timer` does with a timer. -/
inductive TimerVisit
  | keep
  | delete
  | fire
  deriving DecidableEq, Repr

namespace PollTimer

/-- The time is over, as the fields say. -/
def Due (t : PollTimer) (now : ℤ) : Prop := t.timeout.toInt ≤ now - t.lastNotify

instance (t : PollTimer) (now : ℤ) : Decidable (t.Due now) := inferInstanceAs (Decidable (_ ≤ _))

/-- The timer is to be deleted instead of firing once more. -/
def Exhausted (t : PollTimer) : Prop := t.times.toInt ≤ t.notifyTimes ∧ t.times.toInt ≠ 0

instance (t : PollTimer) : Decidable t.Exhausted := inferInstanceAs (Decidable (_ ∧ _))

/-- The body of the loop in `poll_check_timer`. -/
def visit (t : PollTimer) (now : ℤ) : TimerVisit :=
  if t.Due now then if t.Exhausted then .delete else .fire else .keep

/-- The timer when its function is called. -/
def fire (t : PollTimer) (now : ℤ) : PollTimer :=
  { t with notifyTimes := t.notifyTimes + 1, lastNotify := now, fired := now :: t.fired }

end PollTimer

/-- `poll_add_timer`, which puts the timer at the front. -/
def pollAddTimer (late : Bool) (timers : List PollTimer) (n : NewTimer) : List PollTimer :=
  if n.timeout ≤ 0 ∧ n.timeout ≠ POLL_TIMEOUT_DEFAULT then timers
  else if n.alloc = false then timers
  else ⟨.ofInt n.timeout, .ofInt n.times, 0, 0, n, late, []⟩ :: timers

/-- The body of the loop in `poll_init_timer`. -/
def PollTimer.start (t : PollTimer) (defaultTimeout : Int32) (now : ℤ) : PollTimer :=
  { t with
    lastNotify := now
    timeout := if t.timeout.toInt = POLL_TIMEOUT_DEFAULT then defaultTimeout else t.timeout }

/-- `poll_init_timer` -/
def pollInitTimer (defaultTimeout : Int32) (now : ℤ) (timers : List PollTimer) : List PollTimer :=
  timers.map fun t => t.start defaultTimeout now

/-- `poll_check_timer`: `front` is the part of the list that it has passed, and `calls` are the
timers that each call of a timer's function adds. -/
def pollCheckTimer (now : ℤ) :
    List (List NewTimer) → List PollTimer → List PollTimer → List PollTimer
  | _, front, [] => front
  | calls, front, t :: rest =>
    match t.visit now with
    | .keep => pollCheckTimer now calls (front ++ [t]) rest
    | .delete => pollCheckTimer now calls front rest
    | .fire => pollCheckTimer now calls.tail
        ((calls.headD []).foldl (pollAddTimer true) (front ++ [t.fire now])) rest

/-! ## The loop -/

/-- The timers, the timeout of `poll_wait` if it is in its loop, and the last reading of the
clock. -/
structure PollLoop where
  timers : List PollTimer
  waiting : Option Int32
  clock : ℤ

/-- What happens. -/
inductive PollLoopLabel
  | add (n : NewTimer)
  /-- `poll_wait` gets to its loop. -/
  | start (timeout : Int32) (now : ℤ)
  /-- The loop checks the timers, whose functions add these until `till`. -/
  | check (now till : ℤ) (calls : List (List NewTimer))
  /-- `poll_del_timer` of a timer, not from a timer's function. -/
  | delete (i : ℕ)

namespace PollLoop

/-- Nothing is added, and the system has just started. -/
def init : PollLoop := ⟨[], none, 0⟩

def next (s : PollLoop) : PollLoopLabel → PollLoop
  | .add n => ⟨pollAddTimer s.waiting.isSome s.timers n, s.waiting, n.time⟩
  | .start timeout now => ⟨pollInitTimer timeout now s.timers, some timeout, now⟩
  | .check now till calls => ⟨pollCheckTimer now calls [] s.timers, s.waiting, till⟩
  | .delete i => ⟨s.timers.eraseIdx i, s.waiting, s.clock⟩

/-- The clock does not go back. `poll_wait` begins once, with a timeout that it takes, and without
a timeout it checks no timers. -/
def Valid (s : PollLoop) : PollLoopLabel → Prop
  | .add n => s.clock ≤ n.time
  | .start timeout now => s.clock ≤ now ∧ s.waiting = none ∧
      ¬(timeout.toInt < -1 ∨ timeout.toInt = -1 ∧ s.timers ≠ [])
  | .check now till calls => s.clock ≤ now ∧ now ≤ till ∧
      (∀ ns ∈ calls, ∀ n ∈ ns, now ≤ n.time ∧ n.time ≤ till) ∧
      ∃ timeout, s.waiting = some timeout ∧ 0 ≤ timeout.toInt
  | .delete i => i < s.timers.length

end PollLoop

/-- One step. -/
def PollLoopStep (s : PollLoop) (label : PollLoopLabel) (t : PollLoop) : Prop :=
  s.Valid label ∧ t = s.next label

namespace PollTimer

/-- The timeout that the timer was added with, where the default is that of `poll_wait`. -/
def asked (t : PollTimer) (waiting : Option Int32) : ℤ :=
  if t.call.timeout = POLL_TIMEOUT_DEFAULT then (waiting.getD 0).toInt else t.call.timeout

/-- The last firing, or the time at which it was added. -/
def prev (t : PollTimer) : ℤ := t.fired.headD t.call.time

/-- The timer fires, and is removed, only when it is to. -/
structure VisitOk (t : PollTimer) (waiting : Option Int32) (now : ℤ) : Prop where
  apart : t.visit now = .fire → t.asked waiting ≤ now - t.prev
  atMost : 0 < t.call.times → t.visit now = .fire → (t.fired.length : ℤ) < t.call.times
  removed : 0 < t.call.times → t.call.times ≤ t.fired.length → t.asked waiting ≤ now - t.prev →
    t.visit now = .delete
  stays : t.call.times = 0 → t.visit now ≠ .delete

/-- The fields do not say what the timer was added for: the timeout did not fit, or the timer was
added during the loop and either has not fired or has the default timeout. -/
def Improper (t : PollTimer) : Prop :=
  2 ^ 31 ≤ t.call.timeout ∨ t.late = true ∧ (t.fired = [] ∨ t.call.timeout = POLL_TIMEOUT_DEFAULT)

instance (t : PollTimer) : Decidable t.Improper := inferInstanceAs (Decidable (_ ∨ _ ∧ (_ ∨ _)))

end PollTimer

/-- What a check of the timers is to do. -/
def ChecksWell (s : PollLoop) (label : PollLoopLabel) (_ : PollLoop) : Prop :=
  ∀ now till calls, label = .check now till calls → ∀ t ∈ s.timers, t.VisitOk s.waiting now

/-- No timer whose fields are wrong is due too early by them, and none whose `times` was
truncated to 0 is due once more than it was to fire. -/
def timersFit (s : PollLoop) (label : PollLoopLabel) : Prop :=
  ∀ now till calls, label = .check now till calls → ∀ t ∈ s.timers, t.Due now →
    (t.Improper → ¬t.Exhausted → t.asked s.waiting ≤ now - t.prev) ∧
      (0 < t.call.times → 2 ^ 32 ∣ t.call.times → (t.fired.length : ℤ) < t.call.times)

/-! ## The invariant -/

/-- The fields of a timer, by its history. -/
structure PollTimer.Inv (t : PollTimer) (waiting : Option Int32) (clock : ℤ) : Prop where
  made : 0 < t.call.timeout ∨ t.call.timeout = POLL_TIMEOUT_DEFAULT
  times : t.times = .ofInt t.call.times
  notify : t.notifyTimes = t.fired.length
  time : t.call.time ≤ clock
  unstarted : waiting = none → t.late = false ∧ t.fired = []
  timeout : t.timeout =
    if t.late = false ∧ (Int32.ofInt t.call.timeout).toInt = POLL_TIMEOUT_DEFAULT
    then waiting.getD (.ofInt t.call.timeout) else .ofInt t.call.timeout
  last : t.fired ≠ [] → t.lastNotify = t.prev
  started : waiting ≠ none → t.late = false → t.prev ≤ t.lastNotify

theorem toInt_ofInt_le {z : ℤ} (h : 0 ≤ z) : (Int32.ofInt z).toInt ≤ z := by
  rw [Int32.toInt_ofInt, Int.bmod_def, Int32.size]
  split_ifs <;> omega

theorem toInt_ofInt_eq_zero {z : ℤ} : (Int32.ofInt z).toInt = 0 ↔ 2 ^ 32 ∣ z := by
  rw [Int32.toInt_ofInt, ← Int.dvd_iff_bmod_eq_zero, Int32.size]
  rfl

theorem ne_default {z : ℤ} (h : 0 < z) : z ≠ POLL_TIMEOUT_DEFAULT := by
  rw [POLL_TIMEOUT_DEFAULT]
  omega

namespace PollTimer

variable {t : PollTimer} {waiting : Option Int32} {clock now : ℤ}

theorem visit_eq_fire : t.visit now = .fire ↔ t.Due now ∧ ¬t.Exhausted := by
  rw [visit]
  split_ifs <;> simp [*]

theorem visit_eq_delete : t.visit now = .delete ↔ t.Due now ∧ t.Exhausted := by
  rw [visit]
  split_ifs <;> simp [*]

namespace Inv

/-- A new timer. -/
theorem new {n : NewTimer} (hmade : ¬(n.timeout ≤ 0 ∧ n.timeout ≠ POLL_TIMEOUT_DEFAULT))
    (hclock : n.time ≤ clock) :
    Inv ⟨.ofInt n.timeout, .ofInt n.times, 0, 0, n, waiting.isSome, []⟩ waiting clock where
  made := by
    show 0 < n.timeout ∨ n.timeout = _
    by_cases h : n.timeout = POLL_TIMEOUT_DEFAULT <;> omega
  times := rfl
  notify := rfl
  time := hclock
  unstarted h := by simp [h]
  timeout := by cases waiting <;> simp
  last h := absurd rfl h
  started h hlate := by cases waiting <;> simp at h hlate

theorem mono (h : t.Inv waiting clock) {clock' : ℤ} (hle : clock ≤ clock') :
    t.Inv waiting clock' :=
  { h with time := Int.le_trans h.time hle }

/-- `poll_wait` begins. -/
theorem start (h : t.Inv none clock) (timeout : Int32) (hle : clock ≤ now) :
    (t.start timeout now).Inv (some timeout) now := by
  obtain ⟨hlate, hfired⟩ := h.unstarted rfl
  have htime := h.timeout
  rw [Option.getD_none, ite_self] at htime
  refine ⟨h.made, h.times, h.notify, Int.le_trans h.time hle, fun hn => (by cases hn), ?_,
    fun hne => absurd hfired hne, fun _ _ => ?_⟩
  · show (if t.timeout.toInt = _ then timeout else t.timeout) = if t.late = false ∧ _ then _ else _
    simp only [htime, hlate, Option.getD_some, true_and]
    rfl
  · show t.fired.headD t.call.time ≤ now
    rw [hfired]
    exact Int.le_trans h.time hle

/-- The timer fires. -/
theorem fire (h : t.Inv waiting clock) (hwait : waiting ≠ none) :
    (t.fire now).Inv waiting clock where
  made := h.made
  times := h.times
  notify := by
    show t.notifyTimes + 1 = ((now :: t.fired).length : ℤ)
    rw [h.notify, List.length_cons, Int.natCast_succ]
  time := h.time
  unstarted hn := absurd hn hwait
  timeout := h.timeout
  last _ := rfl
  started _ _ := Int.le_refl now

/-- The timeout in the field is never above that which was asked for, and it is the same if it
fits and the timer was there from the start or does not have the default timeout. -/
theorem timeout_le_asked (h : t.Inv waiting clock) {timeout : Int32}
    (hwait : waiting = some timeout) (hnn : 0 ≤ timeout.toInt) :
    t.timeout.toInt ≤ t.asked waiting := by
  subst hwait
  have hmax := timeout.toInt_lt
  rw [h.timeout, asked, Option.getD_some, Option.getD_some]
  rcases h.made with hpos | hdef
  · have hle := toInt_ofInt_le (Int.le_of_lt hpos)
    have hne := ne_default hpos
    rw [if_neg hne]
    split_ifs with hcond
    · -- -1 came out of a timeout that did not fit
      have hbig : 2 ^ 31 ≤ t.call.timeout := by
        by_contra hlt
        have hsame := Int32.toInt_ofInt_of_le (n := t.call.timeout) (by omega) (by omega)
        rw [hcond.2, POLL_TIMEOUT_DEFAULT] at hsame
        omega
      omega
    · exact hle
  · rw [if_pos hdef, hdef]
    split_ifs
    · exact Int.le_refl _
    · exact Int.le_trans (by decide) hnn

theorem timeout_eq_asked (h : t.Inv waiting clock) {timeout : Int32}
    (hwait : waiting = some timeout) (hproper : ¬t.Improper) :
    t.timeout.toInt = t.asked waiting := by
  subst hwait
  rw [Improper, not_or, not_and_or] at hproper
  obtain ⟨hfits, hlate⟩ := hproper
  rw [h.timeout, asked, Option.getD_some, Option.getD_some]
  rcases h.made with hpos | hdef
  · have hsame := Int32.toInt_ofInt_of_le (n := t.call.timeout) (by omega) (by omega)
    have hne := ne_default hpos
    rw [hsame, if_neg hne, if_neg fun hcond => hne hcond.2]
    exact hsame
  · have hearly : t.late = false := by
      by_contra htrue
      rcases hlate with hlate | hlate
      · exact hlate (eq_true_of_ne_false htrue)
      · exact hlate (.inr hdef)
    rw [if_pos hdef, hdef, if_pos ⟨hearly, by decide⟩]

/-- Unless its fields are wrong, the last firing that a timer has is none before the real one. -/
theorem prev_le_last (h : t.Inv waiting clock) (hwait : waiting ≠ none) (hproper : ¬t.Improper) :
    t.prev ≤ t.lastNotify := by
  by_cases hfired : t.fired = []
  · refine h.started hwait ?_
    by_contra htrue
    exact hproper (.inr ⟨eq_true_of_ne_false htrue, .inl hfired⟩)
  · exact Int.le_of_eq (h.last hfired).symm

/-- A visit does what it is to do if the condition of `timersFit` holds. -/
theorem visitOk (h : t.Inv waiting clock) {timeout : Int32} (hwait : waiting = some timeout)
    (hnn : 0 ≤ timeout.toInt)
    (hearly : t.Due now → t.Improper → ¬t.Exhausted → t.asked waiting ≤ now - t.prev)
    (hwrap : t.Due now → 0 < t.call.times → 2 ^ 32 ∣ t.call.times →
      (t.fired.length : ℤ) < t.call.times) : t.VisitOk waiting now where
  apart hfire := by
    obtain ⟨hdue, hmore⟩ := visit_eq_fire.mp hfire
    by_cases himproper : t.Improper
    · exact hearly hdue himproper hmore
    · -- `prev` is at most the last call, and the timeout is what was asked for
      have hsame := h.timeout_eq_asked hwait himproper
      have hprev := h.prev_le_last (by simp [hwait]) himproper
      rw [Due] at hdue
      omega
  atMost hpos hfire := by
    obtain ⟨hdue, hmore⟩ := visit_eq_fire.mp hfire
    by_cases hdvd : 2 ^ 32 ∣ t.call.times
    · exact hwrap hdue hpos hdvd
    · have hle := toInt_ofInt_le (Int.le_of_lt hpos)
      rw [← toInt_ofInt_eq_zero] at hdvd
      rw [Exhausted, h.times, h.notify, not_and_or, not_not] at hmore
      rcases hmore with hmore | hzero
      · omega
      · exact absurd hzero hdvd
  removed hpos hall hover := by
    have hfired : t.fired ≠ [] := by
      rintro hnil
      rw [hnil, List.length_nil] at hall
      omega
    have hle := h.timeout_le_asked hwait hnn
    have hdue : t.Due now := by
      rw [Due, h.last hfired]
      omega
    refine visit_eq_delete.mpr ⟨hdue, ?_⟩
    have htimes := toInt_ofInt_le (Int.le_of_lt hpos)
    rw [Exhausted, h.times, h.notify, ne_eq, toInt_ofInt_eq_zero]
    refine ⟨by omega, fun hdvd => ?_⟩
    have hless := hwrap hdue hpos hdvd
    omega
  stays hzero hdelete := by
    obtain ⟨-, -, hne⟩ := visit_eq_delete.mp hdelete
    rw [h.times, hzero] at hne
    exact hne rfl

/-- A timer whose visit does what it is to do meets the condition. -/
theorem fits_of_visitOk (h : t.Inv waiting clock) (hok : t.VisitOk waiting now) (hdue : t.Due now) :
    (t.Improper → ¬t.Exhausted → t.asked waiting ≤ now - t.prev) ∧
      (0 < t.call.times → 2 ^ 32 ∣ t.call.times → (t.fired.length : ℤ) < t.call.times) := by
  refine ⟨fun _ hmore => hok.apart (visit_eq_fire.mpr ⟨hdue, hmore⟩), fun hpos hdvd => ?_⟩
  refine hok.atMost hpos (visit_eq_fire.mpr ⟨hdue, fun hexhausted => hexhausted.2 ?_⟩)
  rw [h.times]
  exact toInt_ofInt_eq_zero.mpr hdvd

end Inv

end PollTimer

/-- Every timer has its fields by its history. -/
def PollLoop.Inv (s : PollLoop) : Prop := ∀ t ∈ s.timers, t.Inv s.waiting s.clock

section Lists

variable {waiting : Option Int32} {clock now : ℤ} {timers : List PollTimer}

theorem forall_mem_pollAddTimer {n : NewTimer} (h : ∀ t ∈ timers, t.Inv waiting clock)
    (hclock : n.time ≤ clock) :
    ∀ t ∈ pollAddTimer waiting.isSome timers n, t.Inv waiting clock := by
  rw [pollAddTimer]
  split_ifs with hrefused halloc
  · exact h
  · exact h
  · intro t ht
    rcases List.mem_cons.mp ht with rfl | hold
    · exact .new hrefused hclock
    · exact h t hold

theorem forall_mem_foldl_pollAddTimer {ns : List NewTimer} (h : ∀ t ∈ timers, t.Inv waiting clock)
    (hclock : ∀ n ∈ ns, n.time ≤ clock) :
    ∀ t ∈ ns.foldl (pollAddTimer waiting.isSome) timers, t.Inv waiting clock := by
  induction ns generalizing timers with
  | nil => exact h
  | cons n ns ih =>
    obtain ⟨hn, hns⟩ := List.forall_mem_cons.mp hclock
    exact ih (forall_mem_pollAddTimer h hn) hns

/-- The loop over the list keeps the fields of what it has passed and of what it has not. -/
theorem forall_mem_pollCheckTimer {timeout : Int32} {calls : List (List NewTimer)}
    {front rest : List PollTimer} (hfront : ∀ t ∈ front, t.Inv (some timeout) clock)
    (hrest : ∀ t ∈ rest, t.Inv (some timeout) clock)
    (hcalls : ∀ ns ∈ calls, ∀ n ∈ ns, n.time ≤ clock) :
    ∀ t ∈ pollCheckTimer now calls front rest, t.Inv (some timeout) clock := by
  induction rest generalizing front calls with
  | nil => exact hfront
  | cons x rest ih =>
    obtain ⟨hx, hrest⟩ := List.forall_mem_cons.mp hrest
    rw [pollCheckTimer]
    split
    · refine ih (fun t ht => ?_) hrest hcalls
      rcases List.mem_append.mp ht with hold | hnew
      · exact hfront t hold
      · rwa [List.mem_singleton.mp hnew]
    · exact ih hfront hrest hcalls
    · refine ih ?_ hrest fun ns hns => hcalls ns (List.mem_of_mem_tail hns)
      have hadd := @forall_mem_foldl_pollAddTimer (some timeout) clock
      refine hadd (fun t ht => ?_) ?_
      · rcases List.mem_append.mp ht with hold | hnew
        · exact hfront t hold
        · rw [List.mem_singleton.mp hnew]
          exact hx.fire (by simp)
      · cases calls with
        | nil => simp
        | cons ns calls => exact hcalls ns (List.mem_cons_self ..)

end Lists

/-- A step keeps the invariant, whatever it does. -/
theorem PollLoop.Inv.step {s : PollLoop} (h : s.Inv) {label : PollLoopLabel}
    (hvalid : s.Valid label) : (s.next label).Inv := by
  cases label with
  | add n =>
    exact forall_mem_pollAddTimer (fun t ht => (h t ht).mono hvalid) (Int.le_refl _)
  | start timeout now =>
    obtain ⟨hclock, hwait, -⟩ := hvalid
    intro t ht
    obtain ⟨x, hx, rfl⟩ := List.mem_map.mp ht
    have hinv := h x hx
    rw [hwait] at hinv
    exact hinv.start timeout hclock
  | check now till calls =>
    obtain ⟨hclock, htill, hcalls, timeout, hwait, -⟩ := hvalid
    have hle := Int.le_trans hclock htill
    have htimers : ∀ t ∈ s.timers, t.Inv (some timeout) till := fun t ht => by
      rw [← hwait]
      exact (h t ht).mono hle
    show ∀ t ∈ pollCheckTimer now calls [] s.timers, t.Inv s.waiting till
    rw [hwait]
    exact forall_mem_pollCheckTimer (by simp) htimers fun ns hns n hn => (hcalls ns hns n hn).2
  | delete i => exact fun t ht => h t (List.mem_of_mem_eraseIdx ht)

/-- In every run, however the clock goes on, timers fire no sooner than they are to and no more
often, and are removed after that and only then, exactly if no timer is due early by a timeout
that did not fit, or by having been added during the loop, and none fires on whose `times` was
truncated to 0. -/
theorem pollTimers_iff {r : List (PollLoopLabel × PollLoop)} (hr : IsRun PollLoopStep .init r) :
    Along ChecksWell .init r ↔ Guarded timersFit .init r := by
  have hguard : ∀ (s : PollLoop) label t, s.Inv → PollLoopStep s label t → timersFit s label →
      ChecksWell s label t ∧ t.Inv := by
    rintro s label t h ⟨hvalid, rfl⟩ hfit
    refine ⟨?_, h.step hvalid⟩
    rintro now till calls rfl t ht
    obtain ⟨-, -, -, timeout, hwait, hnn⟩ := hvalid
    have hfit := hfit now till calls rfl t ht
    exact (h t ht).visitOk hwait hnn (fun hdue => (hfit hdue).1) fun hdue => (hfit hdue).2
  have hback : ∀ (s : PollLoop) label t, s.Inv → PollLoopStep s label t → ChecksWell s label t →
      timersFit s label := by
    rintro s label t h - hwell now till calls rfl t ht hdue
    exact (h t ht).fits_of_visitOk (hwell now till calls rfl t ht) hdue
  exact along_iff_guarded hguard hback (fun t ht => absurd ht List.not_mem_nil) hr

/-- A timer that is added before the loop fires once and is removed. -/
def onceRun : List (PollLoopLabel × PollLoop) :=
  runOf PollLoop.next .init
    [.add ⟨100, 10, 1, true⟩, .start 5 100, .check 105 105 [], .check 112 113 [[]],
      .check 125 125 []]

theorem isRun_onceRun : IsRun PollLoopStep .init onceRun := by
  refine ⟨⟨(by decide : (0 : ℤ) ≤ 100), rfl⟩, ⟨⟨by decide, rfl, by decide⟩, rfl⟩,
    ⟨⟨by decide, by decide, by decide, 5, rfl, by decide⟩, rfl⟩,
    ⟨⟨by decide, by decide, by decide, 5, rfl, by decide⟩, rfl⟩,
    ⟨⟨by decide, by decide, by decide, 5, rfl, by decide⟩, rfl⟩, trivial⟩

theorem pollTimers_onceRun : Along ChecksWell .init onceRun ↔ Guarded timersFit .init onceRun :=
  pollTimers_iff isRun_onceRun

/-- A timer of 60 seconds that is added during the loop fires in the same second. -/
theorem not_pollTimers_late :
    ¬∀ r : List (PollLoopLabel × PollLoop), IsRun PollLoopStep .init r →
      Along ChecksWell .init r := by
  intro h
  obtain ⟨-, -, hcheck, -⟩ := h (runOf PollLoop.next .init
    [.start 5 1000, .add ⟨1000, 60, 1, true⟩, .check 1000 1000 []])
    ⟨⟨⟨by decide, rfl, by decide⟩, rfl⟩, ⟨(by decide : (1000 : ℤ) ≤ 1000), rfl⟩,
      ⟨⟨by decide, by decide, by decide, 5, rfl, by decide⟩, rfl⟩, trivial⟩
  have hapart := (hcheck 1000 1000 [] rfl _ (List.mem_singleton_self _)).apart (by decide)
  exact absurd hapart (by decide)

end Gendo
