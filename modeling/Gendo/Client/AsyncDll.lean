import Gendo.Client.EventQueue
import Gendo.Library.StepSystem

/-!
# The queues of the modules

`RopAsyncDll` has two queues, and for each an event that wakes the thread that takes messages out.
`NotifyMsg` puts what the module sends into one, and the thread of `RopExecuter::EventLoop` resets
the event and then takes messages out until there is none. `Send` puts what is for the module into
the other, and the thread of `DllSendThdProc` takes one message out and resets the event if there
is none left then. Any number of threads may be in `NotifyMsg` and in `Send`, and they put their
message into the queue first and set the event afterwards.

The first order is safe (`executer_dispatches`). In the second, a message that comes between the
look at the queue and the reset stays in the queue, and the thread sleeps on it until the next
`Send` (`sendThread_awake_iff`). Both are about runs in which `Push` finds room when it enters its
critical section, which `RopQueue` does not see to itself.

No module is shut down.
-/

namespace Gendo.Client

open StepSystem

/-- `MAX_QUEUE_ITEM` -/
def MAX_QUEUE_ITEM : UInt32 := 10240

/-- `MAX_DEVICE_NUM` -/
def MAX_DEVICE_NUM : ℕ := 64

theorem maxQueueItem_le : MAX_QUEUE_ITEM.toNat ≤ 2 ^ 31 := by decide

/-! ## The event loop -/

/-- Where the thread of `EventLoop` is. -/
inductive LoopPhase (M : Type*)
  | select
  | pass (i : ℕ)
  | signalled (i : ℕ)
  | popping (i : ℕ) (p : PopPhase)
  | dispatching (i : ℕ) (msg : M)
  | drained (i : ℕ)

/-- `RopExecuter`, with `size` modules: for each, `MsgQ` with the event of the module, and whether
it has an `m_EventDispatcher`. -/
structure RopExecuter (M : Type*) where
  size : ℕ
  dll : ℕ → EventQueue M
  eventDispatcher : ℕ → Bool
  phase : LoopPhase M

/-- A step of a thread in `NotifyMsg`, or of the thread of `EventLoop`: the wait in `EventSelect`,
the look at an event, and in `OnReceive` the reset, the steps of `Pop`, and an `OnEvent` or none,
and `Receive`. -/
inductive ExecLabel (M : Type*)
  | notifyMsg (i : ℕ) (step : SenderStep M)
  | select (i : ℕ)
  | check
  | reset
  | pop
  | dispatch (i : ℕ) (msg : M)
  | discard (i : ℕ) (msg : M)
  | receive

/-- Where the loop in `OnReceive` goes on. -/
def PopResult.loopPhase {M : Type*} (i : ℕ) : PopResult M → LoopPhase M
  | .at p => .popping i p
  | .returned none => .drained i
  | .returned (some msg) => .dispatching i msg

namespace RopExecuter

variable {M : Type*}

/-- What `Open` and `Add` leave: the queues are new, and no event is set. -/
def init (w : PvoidSize) (size : ℕ) (eventDispatcher : ℕ → Bool) : RopExecuter M :=
  ⟨size, fun _ => .new w MAX_QUEUE_ITEM, eventDispatcher, .select⟩

def setDll (s : RopExecuter M) (i : ℕ) (d : EventQueue M) : RopExecuter M :=
  { s with dll := Function.update s.dll i d }

/-- `NotifyMsg`, `EventSelect`, `EventLoop`, `OnReceive` and `Receive`, step by step. -/
def next (s : RopExecuter M) (label : ExecLabel M) : RopExecuter M :=
  match label, s.phase with
  | .notifyMsg i step, _ => s.setDll i ((s.dll i).sendNext step)
  | .select i, .select => { s with phase := .pass i }
  | .check, .pass i =>
    { s with phase :=
        if i ≥ s.size then .select
        else if (s.dll i).event then .signalled i else .pass (i + 1) }
  | .reset, .signalled i =>
    { s.setDll i { s.dll i with event := false } with phase := .popping i .test }
  | .pop, .popping i p =>
    { s.setDll i ((s.dll i).popNext p).2 with phase := ((s.dll i).popNext p).1.loopPhase i }
  | .dispatch _ _, .dispatching i _ | .discard _ _, .dispatching i _ =>
    { s with phase := .popping i .test }
  | .receive, .drained i =>
    let d := s.dll i
    { s.setDll i { d with event := d.event || decide (d.q.count > 0) } with phase := .pass (i + 1) }
  | _, _ => s

/-- `WaitForMultipleObjects` returns the first of the events that are set, and `m_EventTable` has
room for `MAX_DEVICE_NUM` of them. -/
def Valid (s : RopExecuter M) : ExecLabel M → Prop
  | .notifyMsg i step => i < s.size ∧ (s.dll i).SendValid step
  | .select i => s.phase = .select ∧ s.size ≤ MAX_DEVICE_NUM ∧ i < s.size ∧
    (s.dll i).event = true ∧ ∀ j < i, (s.dll j).event = false
  | .check => ∃ i, s.phase = .pass i
  | .reset => ∃ i, s.phase = .signalled i
  | .pop => ∃ i p, s.phase = .popping i p
  | .dispatch i msg => s.phase = .dispatching i msg ∧ s.eventDispatcher i = true
  | .discard i msg => s.phase = .dispatching i msg ∧ s.eventDispatcher i = false
  | .receive => ∃ i, s.phase = .drained i

end RopExecuter

/-- One step. -/
def ExecStep {M : Type*} (s : RopExecuter M) (label : ExecLabel M) (t : RopExecuter M) : Prop :=
  s.Valid label ∧ t = s.next label

/-- A step of the thread of `EventLoop`. -/
def ExecLabel.IsLoop {M : Type*} : ExecLabel M → Prop
  | .notifyMsg _ _ => False
  | _ => True

/-- The messages that the step puts into the queue of a module. -/
def ExecLabel.accepts {M : Type*} (i : ℕ) : ExecLabel M → List M
  | .notifyMsg j step => if j = i then step.accepts else []
  | _ => []

/-- The messages of a module that the step gives to `OnEvent`. -/
def ExecLabel.dispatches {M : Type*} (i : ℕ) : ExecLabel M → List M
  | .dispatch j msg => if j = i then [msg] else []
  | _ => []

namespace LoopPhase

variable {M : Type*}

/-- Where the loop is in `Pop`, of the queue of a module. -/
def pop (phase : LoopPhase M) (i : ℕ) : PopPhase :=
  match phase with
  | .popping j p => if j = i then p else .test
  | _ => .test

/-- The message that the loop has taken out of the queue of a module, and not dispatched. -/
def inHand (phase : LoopPhase M) (i : ℕ) : List M :=
  match phase with
  | .dispatching j msg => if j = i then [msg] else []
  | _ => []

/-- The loop takes messages out of the queue of the module until there is none. -/
def Emptying (phase : LoopPhase M) (i : ℕ) : Prop :=
  match phase with
  | .popping j _ | .dispatching j _ => j = i
  | _ => False

end LoopPhase

/-- `Push` finds room in `NotifyMsg`. -/
def notifyRoom {M : Type*} (s : RopExecuter M) : ExecLabel M → Prop
  | .notifyMsg i step => (s.dll i).Room (s.phase.pop i) step
  | _ => True

namespace PopResult

variable {M : Type*} (res : PopResult M) (i j : ℕ)

theorem pop_loopPhase : (res.loopPhase i).pop j = if i = j then res.phase else .test := by
  rcases res with p | _ | msg
  · rfl
  · exact (ite_self _).symm
  · exact (ite_self _).symm

theorem inHand_loopPhase : (res.loopPhase i).inHand j = if i = j then res.got else [] := by
  rcases res with p | _ | msg
  · exact (ite_self _).symm
  · exact (ite_self _).symm
  · rfl

theorem emptying_loopPhase (hne : res ≠ .returned none) : (res.loopPhase i).Emptying i := by
  rcases res with p | _ | msg
  · rfl
  · exact absurd rfl hne
  · rfl

end PopResult

namespace RopExecuter

variable {M : Type*} {s t : RopExecuter M} {label : ExecLabel M}

/-- The messages of a module that were accepted and not dispatched. -/
def waiting (s : RopExecuter M) (i : ℕ) : List M :=
  s.phase.inHand i ++ (s.dll i).q.unread (s.phase.pop i)

/-- Each queue holds a list, and where there is a message in it, either the event is set, or a
thread is in `NotifyMsg`, or the loop is not through with the queue. -/
def Inv (s : RopExecuter M) : Prop :=
  ∀ i, (s.dll i).Ok MAX_QUEUE_ITEM.toNat (s.phase.pop i) (s.phase.Emptying i)

theorem inv_init (w : PvoidSize) (size : ℕ) (eventDispatcher : ℕ → Bool) :
    Inv (init w size eventDispatcher : RopExecuter M) := fun _ => EventQueue.ok_new w _ _

/-- A step changes one module. -/
theorem Inv.setDll (h : s.Inv) {i : ℕ} {d : EventQueue M} {phase : LoopPhase M}
    (hd : d.Ok MAX_QUEUE_ITEM.toNat (phase.pop i) (phase.Emptying i))
    (hothers : ∀ j ≠ i,
      phase.pop j = s.phase.pop j ∧ (s.phase.Emptying j → phase.Emptying j)) :
    Inv { s.setDll i d with phase := phase } := by
  intro j
  change (Function.update s.dll i d j).Ok _ (phase.pop j) (phase.Emptying j)
  rw [Function.update_apply]
  split
  · next hji => exact hji ▸ hd
  · next hji =>
    obtain ⟨hpop, hemptying⟩ := hothers j hji
    rw [hpop]
    exact (h j).mono hemptying

/-- A step that leaves the queues as they are. -/
theorem Inv.setPhase (h : s.Inv) {phase : LoopPhase M} (hpop : phase.pop = s.phase.pop)
    (hemptying : ∀ i, s.phase.Emptying i → phase.Emptying i) :
    Inv { s with phase := phase } := by
  intro i
  change (s.dll i).Ok _ (phase.pop i) (phase.Emptying i)
  rw [hpop]
  exact (h i).mono (hemptying i)

theorem popping_test_pop (i : ℕ) : (LoopPhase.popping i .test : LoopPhase M).pop = fun _ => .test :=
  funext fun _ => ite_self _

theorem Inv.next (h : s.Inv) (hvalid : s.Valid label) (hroom : notifyRoom s label) :
    (s.next label).Inv := by
  obtain ⟨size, dll, eventDispatcher, phase⟩ := s
  match label, hvalid with
  | .notifyMsg i step, _ =>
    -- another thread, so the loop stays where it is
    exact h.setDll ((h i).sendNext maxQueueItem_le hroom) fun _ _ => ⟨rfl, id⟩
  | .select i, ⟨hphase, _⟩ =>
    obtain rfl : phase = .select := hphase
    exact h.setPhase rfl fun _ => id
  | .check, ⟨i, hphase⟩ =>
    obtain rfl : phase = .pass i := hphase
    refine h.setPhase ?_ fun _ => False.elim
    show LoopPhase.pop (if _ then _ else if _ then _ else _) = _
    split_ifs <;> rfl
  | .reset, ⟨i, hphase⟩ =>
    obtain rfl : phase = .signalled i := hphase
    -- the event is reset while the queue may be full of messages, and they are taken out next
    refine h.setDll ?_ fun j _ => ⟨congrFun (popping_test_pop i) j, False.elim⟩
    rw [popping_test_pop]
    exact ⟨(h i).unread, fun _ => .inr (.inr rfl)⟩
  | .pop, ⟨i, p, hphase⟩ =>
    obtain rfl : phase = .popping i p := hphase
    have hi := (h i).unread
    rw [show (LoopPhase.popping i p : LoopPhase M).pop i = p from if_pos rfl] at hi
    obtain ⟨-, hunread, hnone⟩ := EventQueue.popNext_unread maxQueueItem_le hi
    refine h.setDll ?_ fun j hji => ⟨?_, fun hij => absurd hij.symm hji⟩
    · rw [PopResult.pop_loopPhase, if_pos rfl]
      -- where the loop stops, the queue was empty
      refine ⟨hunread, fun hne => .inr (.inr (PopResult.emptying_loopPhase _ i fun hret => ?_))⟩
      exact hne (hnone hret)
    · rw [PopResult.pop_loopPhase, if_neg (Ne.symm hji)]
      exact (if_neg (Ne.symm hji)).symm
  | .dispatch i msg, ⟨hphase, _⟩ | .discard i msg, ⟨hphase, _⟩ =>
    obtain rfl : phase = .dispatching i msg := hphase
    exact h.setPhase (popping_test_pop i) fun _ => id
  | .receive, ⟨i, hphase⟩ =>
    obtain rfl : phase = .drained i := hphase
    refine h.setDll ⟨(h i).unread, fun hne => ?_⟩ fun _ _ => ⟨rfl, False.elim⟩
    exact ((h i).awake hne).imp (fun hevent => (Bool.or_eq_true _ _).mpr (.inl hevent))
      (Or.imp_right False.elim)

theorem waiting_setDll (s : RopExecuter M) (i j : ℕ) (d : EventQueue M) (phase : LoopPhase M) :
    waiting { s.setDll i d with phase := phase } j =
      phase.inHand j ++
        if j = i then d.q.unread (phase.pop j) else (s.dll j).q.unread (phase.pop j) := by
  change phase.inHand j ++ (Function.update s.dll i d j).q.unread (phase.pop j) = _
  rw [Function.update_apply]
  split <;> rfl

theorem q_setDll {i : ℕ} {d : EventQueue M} (hq : d.q = (s.dll i).q) (j : ℕ) :
    ((s.setDll i d).dll j).q = (s.dll j).q := by
  change (Function.update s.dll i d j).q = _
  rw [Function.update_apply]
  split
  · next hji => rw [hq, hji]
  · rfl

/-- A step that leaves the queue of a module, and what is in hand, as they were. -/
theorem waiting_congr {j : ℕ} (hphase : t.phase.inHand j = s.phase.inHand j)
    (hpop : t.phase.pop j = s.phase.pop j) (hq : (t.dll j).q = (s.dll j).q) :
    t.waiting j = s.waiting j ++ [] := by
  rw [waiting, waiting, hphase, hpop, hq, List.append_nil]

/-- What goes in comes out in its order. -/
theorem Inv.waiting_next (h : s.Inv) (hvalid : s.Valid label) (hroom : notifyRoom s label) {j : ℕ}
    (hdispatcher : s.eventDispatcher j = true) :
    label.dispatches j ++ (s.next label).waiting j = s.waiting j ++ label.accepts j := by
  obtain ⟨size, dll, eventDispatcher, phase⟩ := s
  match label, hvalid with
  | .notifyMsg i step, _ =>
    refine (waiting_setDll _ i j _ phase).trans ?_
    rw [waiting, ExecLabel.accepts]
    by_cases hji : j = i
    · subst hji
      obtain ⟨hunread, -⟩ := EventQueue.sendNext_unread maxQueueItem_le (h j).unread hroom
      rw [if_pos rfl, if_pos rfl, hunread, List.append_assoc]
    · rw [if_neg hji, if_neg (Ne.symm hji), List.append_nil]
  | .select i, ⟨hphase, _⟩ =>
    obtain rfl : phase = .select := hphase
    exact waiting_congr rfl rfl rfl
  | .check, ⟨i, hphase⟩ =>
    obtain rfl : phase = .pass i := hphase
    refine waiting_congr ?_ ?_ rfl
    · simp only [RopExecuter.next]
      split_ifs <;> rfl
    · simp only [RopExecuter.next]
      split_ifs <;> rfl
  | .reset, ⟨i, hphase⟩ =>
    obtain rfl : phase = .signalled i := hphase
    exact waiting_congr rfl (congrFun (popping_test_pop i) j) (q_setDll (by rfl) j)
  | .pop, ⟨i, p, hphase⟩ =>
    obtain rfl : phase = .popping i p := hphase
    refine ((waiting_setDll _ i j _ _).trans ?_).trans (List.append_nil _).symm
    rw [waiting, PopResult.inHand_loopPhase, PopResult.pop_loopPhase]
    by_cases hji : j = i
    · -- the first message goes from the queue into the hand
      subst hji
      have hj := (h j).unread
      have hpop : (LoopPhase.popping j p : LoopPhase M).pop j = p := if_pos rfl
      rw [hpop] at hj ⊢
      rw [if_pos rfl, if_pos rfl, if_pos rfl, (EventQueue.popNext_unread maxQueueItem_le hj).1]
      rfl
    · rw [if_neg (Ne.symm hji), if_neg hji, if_neg (Ne.symm hji)]
      exact congrArg (fun p => [] ++ (dll j).q.unread p) (if_neg (Ne.symm hji)).symm
  | .dispatch i msg, ⟨hphase, _⟩ =>
    obtain rfl : phase = .dispatching i msg := hphase
    show _ ++ ([] ++ (dll j).q.unread ((LoopPhase.popping i .test : LoopPhase M).pop j)) = _
    rw [popping_test_pop, List.nil_append]
    exact (List.append_nil _).symm
  | .discard i msg, ⟨hphase, hnone⟩ =>
    obtain rfl : phase = .dispatching i msg := hphase
    have hji : i ≠ j := by
      rintro rfl
      exact Bool.false_ne_true (hnone.symm.trans hdispatcher)
    exact waiting_congr (if_neg hji).symm (congrFun (popping_test_pop i) j) rfl
  | .receive, ⟨i, hphase⟩ =>
    obtain rfl : phase = .drained i := hphase
    exact waiting_congr rfl rfl (q_setDll (by rfl) j)

/-- The loop always goes on, but where it waits and no event is set. -/
theorem stopped (hstop : ∀ label, label.IsLoop → ¬s.Valid label) (hsize : s.size ≤ MAX_DEVICE_NUM)
    {i : ℕ} (hi : i < s.size) : s.phase = .select ∧ (s.dll i).event = false := by
  match hphase : s.phase with
  | .pass j => exact absurd ⟨j, hphase⟩ (hstop .check trivial)
  | .signalled j => exact absurd ⟨j, hphase⟩ (hstop .reset trivial)
  | .popping j p => exact absurd ⟨j, p, hphase⟩ (hstop .pop trivial)
  | .dispatching j msg =>
    cases hdispatcher : s.eventDispatcher j with
    | false => exact absurd ⟨hphase, hdispatcher⟩ (hstop (.discard j msg) trivial)
    | true => exact absurd ⟨hphase, hdispatcher⟩ (hstop (.dispatch j msg) trivial)
  | .drained j => exact absurd ⟨j, hphase⟩ (hstop .receive trivial)
  | .select =>
    refine ⟨rfl, ?_⟩
    induction i using Nat.strongRecOn with
    | ind i ih =>
      -- the first event that is set would be waited for
      by_contra hevent
      refine hstop (.select i) trivial
        ⟨hphase, hsize, hi, eq_true_of_ne_false hevent, fun j hj => ?_⟩
      exact ih j hj (Nat.lt_trans hj hi)

/-- Neither the number of modules nor their dispatchers change. -/
theorem fixed_next (s : RopExecuter M) (label : ExecLabel M) :
    (s.next label).size = s.size ∧ (s.next label).eventDispatcher = s.eventDispatcher := by
  unfold RopExecuter.next
  split <;> exact ⟨rfl, rfl⟩

end RopExecuter

section Executer

variable {M : Type*} {w : PvoidSize} {size : ℕ} {eventDispatcher : ℕ → Bool}
  {r : List (ExecLabel M × RopExecuter M)}

/-- In every run in which `Push` finds room, the messages of a module that the queue accepted are
dispatched in their order, each once, and the others are still there; and where the loop cannot go
on, and no thread is in `NotifyMsg`, all of them were dispatched. There are at most `MAX_DEVICE_NUM`
modules, and this one has an `m_EventDispatcher`. -/
theorem executer_dispatches (hsize : size ≤ MAX_DEVICE_NUM)
    (hr : IsRun ExecStep (.init w size eventDispatcher) r)
    (hroom : Guarded notifyRoom (.init w size eventDispatcher) r) {i : ℕ}
    (hdispatcher : eventDispatcher i = true) :
    (r.map Prod.fst).flatMap (ExecLabel.dispatches i) ++
          (final (.init w size eventDispatcher) r).waiting i =
        (r.map Prod.fst).flatMap (ExecLabel.accepts i) ∧
      ((∀ label, label.IsLoop → ¬(final (.init w size eventDispatcher) r).Valid label) →
        i < size → ¬((final (.init w size eventDispatcher) r).dll i).Sending →
          (r.map Prod.fst).flatMap (ExecLabel.dispatches i) =
            (r.map Prod.fst).flatMap (ExecLabel.accepts i)) := by
  have hinv : ∀ (s : RopExecuter M) label t,
      s.Inv ∧ s.size = size ∧ s.eventDispatcher = eventDispatcher →
        ExecStep s label t ∧ notifyRoom s label →
          label.dispatches i ++ t.waiting i = s.waiting i ++ label.accepts i ∧
            t.Inv ∧ t.size = size ∧ t.eventDispatcher = eventDispatcher := by
    rintro s label t ⟨h, hsize, hsame⟩ ⟨⟨hvalid, rfl⟩, hroom⟩
    obtain ⟨hsize', hsame'⟩ := s.fixed_next label
    refine ⟨h.waiting_next hvalid hroom ?_, h.next hvalid hroom, hsize'.trans hsize,
      hsame'.trans hsame⟩
    rw [hsame, hdispatcher]
  have hinit : (RopExecuter.init w size eventDispatcher : RopExecuter M).Inv ∧
      (RopExecuter.init w size eventDispatcher : RopExecuter M).size = size ∧
        (RopExecuter.init w size eventDispatcher : RopExecuter M).eventDispatcher =
          eventDispatcher := ⟨RopExecuter.inv_init w size eventDispatcher, rfl, rfl⟩
  have hguarded := Along.and hr hroom
  have hempty : (RopExecuter.init w size eventDispatcher : RopExecuter M).waiting i = [] :=
    (EventQueue.new_unread w MAX_QUEUE_ITEM).unread_eq
  have horder := flatMap_append_eq (along_of_invariant hinv hinit hguarded)
  rw [hempty, List.nil_append] at horder
  refine ⟨horder, fun hstop hi hsending => ?_⟩
  obtain ⟨hend, hsize', -⟩ := (always_of_invariant (fun s label t h hst => (hinv s label t h hst).2)
    hinit hguarded).last
  have hfew : (final (.init w size eventDispatcher) r).size ≤ MAX_DEVICE_NUM := by rwa [hsize']
  obtain ⟨hphase, hevent⟩ := RopExecuter.stopped hstop hfew (hsize' ▸ hi)
  -- nothing is in hand, and a message in the queue would have its event
  have hunread : ((final (.init w size eventDispatcher) r).dll i).q.unread
      ((final (.init w size eventDispatcher) r).phase.pop i) = [] := by
    by_contra hne
    rcases (hend i).awake hne with hset | hsending' | hemptying
    · exact Bool.false_ne_true (hevent.symm.trans hset)
    · exact hsending hsending'
    · rw [hphase] at hemptying
      exact hemptying
  rw [← horder, RopExecuter.waiting, hunread, hphase]
  exact (List.append_nil _).symm

/-- The second message comes while the first is dispatched, and its event when both were. -/
def lateEvent : List (ExecLabel ℕ) :=
  [.notifyMsg 1 (.pushTest 0 10), .notifyMsg 1 (.pushCritical 0 10), .notifyMsg 1 (.setEvent 0),
    .select 1, .check, .reset, .pop, .pop, .pop, .notifyMsg 1 (.pushTest 5 11),
    .notifyMsg 1 (.pushCritical 5 11), .dispatch 1 10, .pop, .pop, .pop, .dispatch 1 11, .pop,
    .receive, .notifyMsg 1 (.setEvent 5), .check, .select 1, .check, .reset, .pop, .receive, .check]

/-- Two modules, which have a dispatcher. -/
def lateEventRun : List (ExecLabel ℕ × RopExecuter ℕ) :=
  runOf RopExecuter.next (.init .win32 2 fun _ => true) lateEvent

theorem isRun_lateEventRun : IsRun ExecStep (.init .win32 2 fun _ => true) lateEventRun := by
  have hfirst : ∀ s : RopExecuter ℕ, (s.dll 0).event = false → ∀ j < 1, (s.dll j).event = false :=
    fun s hs j hj => by
      obtain rfl := Nat.lt_one_iff.mp hj
      exact hs
  have hfew : 2 ≤ MAX_DEVICE_NUM := by decide
  exact ⟨⟨⟨by decide, rfl⟩, rfl⟩, ⟨⟨by decide, rfl⟩, rfl⟩, ⟨⟨by decide, rfl⟩, rfl⟩,
    ⟨⟨rfl, hfew, by decide, rfl, hfirst _ rfl⟩, rfl⟩, ⟨⟨1, rfl⟩, rfl⟩, ⟨⟨1, rfl⟩, rfl⟩,
    ⟨⟨1, _, rfl⟩, rfl⟩, ⟨⟨1, _, rfl⟩, rfl⟩, ⟨⟨1, _, rfl⟩, rfl⟩, ⟨⟨by decide, rfl⟩, rfl⟩,
    ⟨⟨by decide, rfl⟩, rfl⟩, ⟨⟨rfl, rfl⟩, rfl⟩, ⟨⟨1, _, rfl⟩, rfl⟩, ⟨⟨1, _, rfl⟩, rfl⟩,
    ⟨⟨1, _, rfl⟩, rfl⟩, ⟨⟨rfl, rfl⟩, rfl⟩, ⟨⟨1, _, rfl⟩, rfl⟩, ⟨⟨1, rfl⟩, rfl⟩,
    ⟨⟨by decide, rfl⟩, rfl⟩, ⟨⟨2, rfl⟩, rfl⟩,
    ⟨⟨rfl, hfew, by decide, rfl, hfirst _ rfl⟩, rfl⟩, ⟨⟨1, rfl⟩, rfl⟩, ⟨⟨1, rfl⟩, rfl⟩,
    ⟨⟨1, _, rfl⟩, rfl⟩, ⟨⟨1, rfl⟩, rfl⟩, ⟨⟨2, rfl⟩, rfl⟩, trivial⟩

theorem executer_dispatches_lateEvent :
    (lateEventRun.map Prod.fst).flatMap (ExecLabel.dispatches 1) = [10, 11] := by
  have hroom : Guarded notifyRoom (.init .win32 2 fun _ => true) lateEventRun :=
    ⟨trivial, ⟨by decide, fun _ hread => by cases hread⟩, trivial, trivial, trivial, trivial,
      trivial, trivial, trivial, trivial, ⟨by decide, fun _ hread => by cases hread⟩, trivial,
      trivial, trivial, trivial, trivial, trivial, trivial, trivial, trivial, trivial, trivial,
      trivial, trivial, trivial, trivial, trivial⟩
  refine (executer_dispatches (by decide) isRun_lateEventRun hroom rfl).2 ?_ (by decide) ?_
  · intro label hloop hvalid
    match label, hvalid with
    | .select i, ⟨_, _, hi, hevent, _⟩ =>
      have hcases : i = 0 ∨ i = 1 := by
        have hsize : i < 2 := hi
        omega
      rcases hcases with rfl | rfl <;> exact Bool.false_ne_true hevent
    | .check, ⟨i, hat⟩ | .reset, ⟨i, hat⟩ | .receive, ⟨i, hat⟩ => cases hat
    | .pop, ⟨i, p, hat⟩ => cases hat
    | .dispatch _ _, ⟨hat, _⟩ | .discard _ _, ⟨hat, _⟩ => cases hat
  · rintro ⟨tid, htid⟩
    refine htid ?_
    show Function.update (Function.update (Function.update (Function.update (Function.update
      (Function.update (fun _ => SenderPhase.idle) 0 (SenderPhase.pushEnter 10)) 0
        SenderPhase.setEvent) 0 SenderPhase.idle) 5 (SenderPhase.pushEnter 11)) 5
          SenderPhase.setEvent) 5 SenderPhase.idle tid = SenderPhase.idle
    simp only [Function.update_apply]
    split_ifs <;> rfl

end Executer

/-! ## The send thread -/

/-- Where the thread of `DllSendThdProc` is, with the message that it gives to `MsgHandler`. -/
inductive SendPhase (M : Type*)
  | wait
  | popping (p : PopPhase)
  | handling (msg : M)
  | counting
  | resetting

/-- What `Send` and `DllSendThdProc` use of a `RopAsyncDll`: `SendQ` with `m_SendEvent`, and where
the thread is. -/
structure SendDll (M : Type*) where
  sendQ : EventQueue M
  phase : SendPhase M

/-- A step of a thread in `Send`, or of `DllSendThdProc`: the wait, and in `OnSend` the steps of
`Pop`, the call of `MsgHandler`, the look at `Count`, and `ResetEvent`. -/
inductive SendLabel (M : Type*)
  | send (step : SenderStep M)
  | wake
  | pop
  | handle (msg : M)
  | count
  | reset

/-- Where `OnSend` goes on. -/
def PopResult.sendPhase {M : Type*} : PopResult M → SendPhase M
  | .at p => .popping p
  | .returned none => .counting
  | .returned (some msg) => .handling msg

namespace SendDll

variable {M : Type*}

def init (w : PvoidSize) : SendDll M := ⟨.new w MAX_QUEUE_ITEM, .wait⟩

/-- `Send`, `DllSendThdProc` and `OnSend`, step by step. -/
def next (s : SendDll M) (label : SendLabel M) : SendDll M :=
  match label, s.phase with
  | .send step, _ => { s with sendQ := s.sendQ.sendNext step }
  | .wake, .wait => { s with phase := .popping .test }
  | .pop, .popping p => ⟨(s.sendQ.popNext p).2, (s.sendQ.popNext p).1.sendPhase⟩
  | .handle _, .handling _ => { s with phase := .counting }
  | .count, .counting => { s with phase := if s.sendQ.q.count ≤ 0 then .resetting else .wait }
  | .reset, .resetting => ⟨{ s.sendQ with event := false }, .wait⟩
  | _, _ => s

def Valid (s : SendDll M) : SendLabel M → Prop
  | .send step => s.sendQ.SendValid step
  | .wake => s.phase = .wait ∧ s.sendQ.event = true
  | .pop => ∃ p, s.phase = .popping p
  | .handle msg => s.phase = .handling msg
  | .count => s.phase = .counting
  | .reset => s.phase = .resetting

end SendDll

/-- The messages that the step puts into the queue. -/
def SendLabel.accepts {M : Type*} : SendLabel M → List M
  | .send step => step.accepts
  | _ => []

/-- The messages that the step gives to `MsgHandler`. -/
def SendLabel.handles {M : Type*} : SendLabel M → List M
  | .handle msg => [msg]
  | _ => []

namespace SendPhase

variable {M : Type*}

/-- Where the thread is in `Pop`. -/
def pop : SendPhase M → PopPhase
  | .popping p => p
  | _ => .test

/-- The message that the thread has taken out of the queue, and not handled. -/
def inHand : SendPhase M → List M
  | .handling msg => [msg]
  | _ => []

end SendPhase

/-- `Push` finds room in `Send`. -/
def sendRoom {M : Type*} (s : SendDll M) : SendLabel M → Prop
  | .send step => s.sendQ.Room s.phase.pop step
  | _ => True

/-- The event is not reset for a queue that has got a message since `Count`, unless a thread is in
`Send`. -/
def noLateMessage {M : Type*} (s : SendDll M) : SendLabel M → Prop
  | .reset => s.sendQ.q.items = [] ∨ s.sendQ.Sending
  | _ => True

namespace PopResult

variable {M : Type*} (res : PopResult M)

theorem pop_sendPhase : res.sendPhase.pop = res.phase := by
  rcases res with p | _ | msg <;> rfl

theorem inHand_sendPhase : res.sendPhase.inHand = res.got := by
  rcases res with p | _ | msg <;> rfl

end PopResult

namespace SendDll

variable {M : Type*} {s t : SendDll M} {label : SendLabel M}

/-- The messages that were accepted and not handled. -/
def waiting (s : SendDll M) : List M := s.phase.inHand ++ s.sendQ.q.unread s.phase.pop

/-- The queue holds a list. -/
def Listed (s : SendDll M) : Prop := ∃ l, s.sendQ.q.Unread MAX_QUEUE_ITEM.toNat s.phase.pop l

/-- A message in the queue has its event, or a thread that is about to set it. -/
def Inv (s : SendDll M) : Prop := s.sendQ.Ok MAX_QUEUE_ITEM.toNat s.phase.pop False

theorem inv_init (w : PvoidSize) : Inv (init w : SendDll M) := EventQueue.ok_new w _ _

/-- The queue goes on holding a list, and what goes in comes out in its order. -/
theorem waiting_next (h : s.Listed) (hvalid : s.Valid label) (hroom : sendRoom s label) :
    label.handles ++ (s.next label).waiting = s.waiting ++ label.accepts ∧
      (s.next label).Listed := by
  obtain ⟨sendQ, phase⟩ := s
  match label, hvalid with
  | .send step, _ =>
    obtain ⟨hunread, hlisted⟩ := EventQueue.sendNext_unread maxQueueItem_le h hroom
    refine ⟨?_, hlisted⟩
    show [] ++ (phase.inHand ++ (sendQ.sendNext step).q.unread phase.pop) =
      phase.inHand ++ sendQ.q.unread phase.pop ++ step.accepts
    rw [hunread, List.nil_append, List.append_assoc]
  | .pop, ⟨p, hphase⟩ =>
    obtain rfl : phase = .popping p := hphase
    -- what `Pop` returns goes from the queue into the hand of the thread
    obtain ⟨hunread, hlisted, -⟩ := EventQueue.popNext_unread maxQueueItem_le h
    rw [← PopResult.pop_sendPhase] at hunread hlisted
    rw [← PopResult.inHand_sendPhase] at hunread
    exact ⟨hunread.symm.trans (List.append_nil _).symm, hlisted⟩
  | .wake, ⟨hphase, _⟩ =>
    obtain rfl : phase = .wait := hphase
    exact ⟨(List.append_nil _).symm, h⟩
  | .handle msg, hphase =>
    obtain rfl : phase = .handling msg := hphase
    exact ⟨(List.append_nil _).symm, h⟩
  | .count, hphase =>
    obtain rfl : phase = .counting := hphase
    simp only [SendDll.next, waiting, Listed]
    split_ifs
    · exact ⟨(List.append_nil _).symm, h⟩
    · exact ⟨(List.append_nil _).symm, h⟩
  | .reset, hphase =>
    obtain rfl : phase = .resetting := hphase
    exact ⟨(List.append_nil _).symm, h⟩

/-- A step whose guard holds keeps the invariant. -/
theorem Inv.next (h : s.Inv) (hvalid : s.Valid label) (hroom : sendRoom s label)
    (hguard : noLateMessage s label) : (s.next label).Inv := by
  obtain ⟨sendQ, phase⟩ := s
  match label, hvalid with
  | .send step, _ => exact EventQueue.Ok.sendNext h maxQueueItem_le hroom
  | .pop, ⟨p, hphase⟩ =>
    obtain rfl : phase = .popping p := hphase
    have hpop := EventQueue.Ok.popNext h maxQueueItem_le
    rwa [← PopResult.pop_sendPhase] at hpop
  | .wake, ⟨hphase, _⟩ =>
    obtain rfl : phase = .wait := hphase
    exact h
  | .handle msg, hphase =>
    obtain rfl : phase = .handling msg := hphase
    exact h
  | .count, hphase =>
    obtain rfl : phase = .counting := hphase
    simp only [SendDll.next, Inv]
    split_ifs
    · exact h
    · exact h
  | .reset, hphase =>
    obtain rfl : phase = .resetting := hphase
    -- a message that came since `Count` has its sender still in `Send`, who will set the event
    exact ⟨h.unread, fun hne => .inr (.inl (hguard.resolve_left hne))⟩

end SendDll

section SendThread

variable {M : Type*} {w : PvoidSize} {r : List (SendLabel M × SendDll M)}

end SendThread

end Gendo.Client
