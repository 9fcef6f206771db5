import Gendo.Client.RopQueue

/-!
# A queue with an event

`RopAsyncDll` has a queue for what its module sends and one for what is sent to it, and each has an
event that wakes the one thread that takes the messages out. Any number of threads put messages in,
and each of them sets the event afterwards, also where the queue was full.

As in `RopQueueThreads`, `Push` and `Pop` are not one step: they look at the size before they enter
the critical section, and `Pop` reads the message after it has left it. With one thread that takes
messages out, it is enough that `Push` finds room when it gets there (`EventQueue.Room`); then the
messages that were put in are taken out in their order, each once, and a message that is still there
has its event, or a thread that is to set it, or a thread that is still taking messages out.
-/

namespace Gendo.Client

open RingBuffer

/-- Where a thread is in `NotifyMsg` or `Send`: not in it, in `Push` and about to enter the critical
section, or about to call `SetEvent`. -/
inductive SenderPhase (M : Type*)
  | idle
  | pushEnter (msg : M)
  | setEvent

/-- Where the other thread is in `Pop`: about to look at the size, about to enter the critical
section, or about to read the message. -/
inductive PopPhase
  | test
  | enter
  | read (oldbase : ℕ)

/-- A queue, its event, and where the threads are that put messages into it. -/
structure EventQueue (M : Type*) where
  event : Bool
  q : RopQueue M
  sender : ℕ → SenderPhase M

/-- A step of a thread in `NotifyMsg` or `Send`. -/
inductive SenderStep (M : Type*)
  | pushTest (tid : ℕ) (msg : M)
  | pushCritical (tid : ℕ) (msg : M)
  | setEvent (tid : ℕ)

/-- The messages that the step puts into the queue. -/
def SenderStep.accepts {M : Type*} : SenderStep M → List M
  | .pushCritical _ msg => [msg]
  | _ => []

/-- What a step of `Pop` leads to: a place in `Pop`, or what `Pop` returns. -/
inductive PopResult (M : Type*)
  | at (p : PopPhase)
  | returned (msg : Option M)

namespace PopResult

variable {M : Type*}

/-- Where the thread will be when it is in `Pop`. -/
def phase : PopResult M → PopPhase
  | .at p => p
  | .returned _ => .test

/-- The message that the thread has got. -/
def got : PopResult M → List M
  | .at _ => []
  | .returned msg => msg.toList

end PopResult

namespace EventQueue

variable {M : Type*}

def new (w : PvoidSize) (capacity : UInt32) : EventQueue M :=
  ⟨false, .new w capacity, fun _ => .idle⟩

def setSender (d : EventQueue M) (tid : ℕ) (p : SenderPhase M) : EventQueue M :=
  { d with sender := Function.update d.sender tid p }

/-- `NotifyMsg` and `Send`: where the queue is full, the message is freed. -/
def sendNext (d : EventQueue M) : SenderStep M → EventQueue M
  | .pushTest tid msg =>
    d.setSender tid (if d.q.size = d.q.capacity then .setEvent else .pushEnter msg)
  | .pushCritical tid msg => { d.setSender tid .setEvent with q := d.q.pushCritical msg }
  | .setEvent tid => { d.setSender tid .idle with event := true }

/-- The thread is where the step begins. -/
def SendValid (d : EventQueue M) : SenderStep M → Prop
  | .pushTest tid _ => d.sender tid = .idle
  | .pushCritical tid msg => d.sender tid = .pushEnter msg
  | .setEvent tid => d.sender tid = .setEvent

/-- A step of `Pop`. -/
def popNext (d : EventQueue M) : PopPhase → PopResult M × EventQueue M
  | .test => (if d.q.size = 0 then .returned none else .at .enter, d)
  | .enter => (.at (.read d.q.base), { d with q := d.q.popCritical })
  | .read oldbase =>
    (.returned (d.q.popReturn oldbase).1, { d with q := (d.q.popReturn oldbase).2 })

/-- `Push` enters its critical section where there is still room, and does not put the message where
`Pop` is about to read. -/
def Room (d : EventQueue M) (p : PopPhase) : SenderStep M → Prop
  | .pushCritical _ _ => d.q.size < d.q.capacity ∧
      ∀ oldbase, p = .read oldbase → oldbase ≠ d.q.addIndex d.q.base d.q.size
  | _ => True

/-- A thread is in `NotifyMsg` or `Send`. -/
def Sending (d : EventQueue M) : Prop := ∃ tid, d.sender tid ≠ .idle

end EventQueue

/-! ## The messages that were not returned -/

namespace RopQueue

variable {M : Type*}

/-- The messages in the queue, the oldest first. -/
def items (q : RopQueue M) : List M :=
  (cells q.data q.capacity q.base 0 q.size).filterMap id

/-- The messages that `Pop` has not returned, the oldest first. -/
def unread (q : RopQueue M) : PopPhase → List M
  | .read oldbase => (q.data oldbase).toList ++ q.items
  | _ => q.items

/-- They are a list, which `Pop` will return one by one. -/
def Unread (q : RopQueue M) (capacity : ℕ) : PopPhase → List M → Prop
  | .test, l => q.Holds capacity l
  | .enter, l => l ≠ [] ∧ q.Holds capacity l
  | .read oldbase, l => oldbase < capacity ∧
      ∃ msg rest, l = msg :: rest ∧ q.data oldbase = some msg ∧ q.Holds capacity rest

variable {q : RopQueue M} {capacity : ℕ} {p : PopPhase} {l : List M}

theorem Holds.items_eq (h : q.Holds capacity l) : q.items = l := by
  rw [items, h.cap, h.size, h.cells, List.filterMap_map]
  exact List.filterMap_some

theorem Unread.unread_eq (h : q.Unread capacity p l) : q.unread p = l := by
  cases p with
  | test => exact Holds.items_eq h
  | enter => exact h.2.items_eq
  | read oldbase =>
    obtain ⟨-, msg, rest, rfl, hmsg, hrest⟩ := h
    rw [unread, hmsg, hrest.items_eq]
    rfl

/-- Where there is room, a message goes behind the others. -/
theorem Unread.pushCritical (h : q.Unread capacity p l) (hcap : capacity ≤ 2 ^ 31)
    (hlt : q.size < q.capacity)
    (hread : ∀ oldbase, p = .read oldbase → oldbase ≠ q.addIndex q.base q.size) (msg : M) :
    (q.pushCritical msg).Unread capacity p (l ++ [msg]) := by
  have hpush : ∀ l, q.Holds capacity l → (q.pushCritical msg).Holds capacity (l ++ [msg]) := by
    intro l hl
    rw [hl.size, hl.cap] at hlt
    have hbase := hl.base (by omega)
    exact (hl.push (by omega) hlt (by omega) msg).1
  cases p with
  | test => exact hpush l h
  | enter => exact ⟨List.append_ne_nil_of_right_ne_nil l (List.cons_ne_nil _ _), hpush l h.2⟩
  | read oldbase =>
    obtain ⟨hold, first, rest, rfl, hfirst, hrest⟩ := h
    -- the cell that is about to be read keeps its message
    have hkept : (q.pushCritical msg).data oldbase = q.data oldbase :=
      Function.update_of_ne (hread oldbase rfl) _ _
    exact ⟨hold, first, rest ++ [msg], rfl, hkept.trans hfirst, hpush rest hrest⟩

end RopQueue

namespace EventQueue

variable {M : Type*} {d : EventQueue M} {capacity : ℕ} {p : PopPhase} {busy : Prop}

/-- A step of `Pop` takes the first message out, or none: then it finds that there is none. -/
theorem popNext_unread (hcap : capacity ≤ 2 ^ 31) (h : ∃ l, d.q.Unread capacity p l) :
    d.q.unread p =
        (d.popNext p).1.got ++ (d.popNext p).2.q.unread (d.popNext p).1.phase ∧
      (∃ l, (d.popNext p).2.q.Unread capacity (d.popNext p).1.phase l) ∧
      ((d.popNext p).1 = .returned none →
        (d.popNext p).2.q.unread (d.popNext p).1.phase = []) := by
  obtain ⟨l, hl⟩ := h
  cases p with
  | test =>
    have hholds : d.q.Holds capacity l := hl
    -- a size that is not 0 stays so until this thread is in the critical section
    by_cases hsize : d.q.size = 0
    · have hnil : l = [] := List.length_eq_zero_iff.mp (hholds.size.symm.trans hsize)
      rw [popNext, if_pos hsize]
      exact ⟨rfl, ⟨l, hholds⟩, fun _ => hl.unread_eq.trans hnil⟩
    · have hne : l ≠ [] := fun hnil => hsize (by rw [hholds.size, hnil, List.length_nil])
      rw [popNext, if_neg hsize]
      exact ⟨rfl, ⟨l, hne, hholds⟩, fun hret => by cases hret⟩
  | enter =>
    obtain ⟨hne, hholds⟩ := hl
    obtain ⟨msg, rest, rfl⟩ := List.exists_cons_of_ne_nil hne
    -- the first message leaves the queue, but it is not returned yet
    obtain ⟨hfirst, hbase, hrest, -⟩ := hholds.popCritical (by omega)
    have hnext : d.q.popCritical.Unread capacity (.read d.q.base) (msg :: rest) :=
      ⟨hbase, msg, rest, rfl, hfirst, hrest⟩
    exact ⟨hholds.items_eq.trans hnext.unread_eq.symm, ⟨_, hnext⟩, fun hret => by cases hret⟩
  | read oldbase =>
    obtain ⟨hold, msg, rest, rfl, hmsg, hrest⟩ := hl
    have hnext := hrest.popReturn hold
    refine ⟨?_, ⟨rest, hnext⟩, fun hret => ?_⟩
    · show _ = (d.q.data oldbase).toList ++ (d.q.popReturn oldbase).2.items
      rw [RopQueue.unread, hrest.items_eq, hnext.items_eq]
    · have hnone : d.q.data oldbase = none := PopResult.returned.inj hret
      rw [hmsg] at hnone
      cases hnone

/-- The queue holds a list, and if there is a message in it, the event is set, or a thread is to set
it, or the other thread is busy with the queue. -/
structure Ok (d : EventQueue M) (capacity : ℕ) (p : PopPhase) (busy : Prop) : Prop where
  unread : ∃ l, d.q.Unread capacity p l
  awake : d.q.unread p ≠ [] → d.event = true ∨ d.Sending ∨ busy

theorem new_unread (w : PvoidSize) (capacity : UInt32) :
    (new w capacity : EventQueue M).q.Unread capacity.toNat .test [] :=
  RopQueue.holds_new w capacity

theorem ok_new (w : PvoidSize) (capacity : UInt32) (busy : Prop) :
    (new w capacity : EventQueue M).Ok capacity.toNat .test busy :=
  ⟨⟨[], new_unread w capacity⟩, fun hne => absurd (new_unread w capacity).unread_eq hne⟩

theorem Ok.mono {busy' : Prop} (h : d.Ok capacity p busy) (himp : busy → busy') :
    d.Ok capacity p busy' :=
  ⟨h.unread, fun hne => (h.awake hne).imp_right (Or.imp_right himp)⟩

/-- `Pop` does not touch the event. -/
theorem Ok.popNext (h : d.Ok capacity p busy) (hcap : capacity ≤ 2 ^ 31) :
    (d.popNext p).2.Ok capacity (d.popNext p).1.phase busy := by
  obtain ⟨hunread, hlisted, -⟩ := popNext_unread hcap h.unread
  have hsame : (d.popNext p).2.event = d.event ∧ (d.popNext p).2.sender = d.sender := by
    cases p <;> exact ⟨rfl, rfl⟩
  refine ⟨hlisted, fun hne => ?_⟩
  rw [Sending, hsame.1, hsame.2]
  exact h.awake fun hnil => hne (List.append_eq_nil_iff.mp (hunread.symm.trans hnil)).2

theorem sending_setSender (d : EventQueue M) (tid : ℕ) {s : SenderPhase M} (hs : s ≠ .idle) :
    (d.setSender tid s).Sending := by
  refine ⟨tid, ?_⟩
  show Function.update d.sender tid s tid ≠ .idle
  rwa [Function.update_self]

/-- What a thread puts in goes behind the other messages. -/
theorem sendNext_unread (hcap : capacity ≤ 2 ^ 31) (h : ∃ l, d.q.Unread capacity p l)
    {step : SenderStep M} (hroom : d.Room p step) :
    (d.sendNext step).q.unread p = d.q.unread p ++ step.accepts ∧
      ∃ l, (d.sendNext step).q.Unread capacity p l := by
  obtain ⟨l, hl⟩ := h
  cases step with
  | pushTest tid msg => exact ⟨(List.append_nil _).symm, l, hl⟩
  | pushCritical tid msg =>
    have hnext := hl.pushCritical hcap hroom.1 hroom.2 msg
    exact ⟨hnext.unread_eq.trans (by rw [hl.unread_eq]; rfl), _, hnext⟩
  | setEvent tid => exact ⟨(List.append_nil _).symm, l, hl⟩

/-- And the message has its event, or this thread is to set it. -/
theorem sendNext_awake (d : EventQueue M) (step : SenderStep M) :
    (d.sendNext step).event = true ∨ (d.sendNext step).Sending := by
  cases step with
  | pushTest tid msg =>
    refine .inr (sending_setSender d tid ?_)
    split
    · exact fun heq => by cases heq
    · exact fun heq => by cases heq
  | pushCritical tid msg => exact .inr (sending_setSender d tid fun heq => by cases heq)
  | setEvent tid => exact .inl rfl

theorem Ok.sendNext (h : d.Ok capacity p busy) (hcap : capacity ≤ 2 ^ 31) {step : SenderStep M}
    (hroom : d.Room p step) : (d.sendNext step).Ok capacity p busy :=
  ⟨(sendNext_unread hcap h.unread hroom).2,
    fun _ => (sendNext_awake d step).imp_right .inl⟩

end EventQueue

end Gendo.Client
