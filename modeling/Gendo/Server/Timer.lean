import Gendo.Library.StepSystem
import Gendo.Server.LibList
import Mathlib.Data.List.Range
import Mathlib.Data.UInt

/-!
# The timer list

The timers of `lib-timer.c`: a list of the running ones, each with the time it has left, from
which `timer_timeout_callback` takes the time of a tick and whose timers it fires. A timeout
function can itself start and stop timers while the loop over the list stands at its timer, so a
tick is not one step here: `round` is a round of the loop, and between the round in which a timer
fires and `ret` any calls of the timer functions can come.

What the timers should do is said about the log of all this. `clock` reads off a log which
timers run, for what time they were started and how much of it has gone by, and `Legal` says that
every entry is as it should be after those before it.
-/

namespace Gendo

open LinkedList StepSystem

/-- The list nodes: `timer_list`, and the node of every timer. -/
inductive TimerNode (τ : Type)
  | timerList
  | timer (tp : τ)
  deriving DecidableEq, Repr

/-- What is known of a run afterwards. -/
inductive TimerEvent (τ : Type)
  /-- `timer_start` was called with this time, and returned `ret`. -/
  | started (tp : τ) (time : UInt32) (ret : ℤ)
  /-- `timer_stop` was called and returned `ret`. -/
  | stopped (tp : τ) (ret : ℤ)
  /-- `timer_timeout_callback` was called. -/
  | tick (time : ℕ)
  /-- The timeout function of a timer was called. -/
  | fired (tp : τ)
  /-- `timer_timeout_callback` returned. -/
  | tickEnd
  deriving DecidableEq, Repr

/-- Where `timer_timeout_callback` is. -/
inductive TimerPhase (τ : Type)
  | idle
  /-- It is about to test `ln1`, with `ln2` read before. -/
  | loop (time : ℕ) (ln1 ln2 : Option (TimerNode τ))
  /-- It is in the timeout function of a timer. -/
  | callback (time : ℕ) (ln2 : Option (TimerNode τ))
  deriving DecidableEq, Repr

/-- `timer_list` and the `expires` fields. -/
structure Timers (τ : Type) where
  links : Links (TimerNode τ)
  expires : τ → ℕ
  phase : TimerPhase τ
  log : List (TimerEvent τ)

variable {τ : Type} [DecidableEq τ]

/-- `(unsigned long) 0 - 1`, for an `unsigned long` of so many bits. -/
def ulongMax (bits : ℕ) : ℕ := 2 ^ bits - 1

namespace Timers

/-- No timer runs. -/
def init : Timers τ where
  links := initLibList ⟨fun _ => none, fun _ => none⟩ .timerList
  expires _ := 0
  phase := .idle
  log := []

/-- A store to `expires`, which is a `UInt32`. -/
def setExpires (s : Timers τ) (tp : τ) (time : ℕ) : Timers τ :=
  { s with expires := Function.update s.expires tp (time % 2 ^ 32) }

/-- An entry in the log. -/
def note (s : Timers τ) (e : TimerEvent τ) : Timers τ := { s with log := s.log ++ [e] }

/-- The body of the loop in `has_timer`, with whether the timer was found. -/
def hasTimerItem (tp : τ) (ln : TimerNode τ) (s : Timers τ × Bool) :
    Except Stop (Bool × (Timers τ × Bool)) :=
  if ln = .timer tp then .ok (true, s.1, true) else .ok (false, s)

/-- `has_timer`, with so many rounds for its loop. -/
def hasTimer (rounds : ℕ) (s : Timers τ) (tp : τ) : Except Stop Bool :=
  Prod.snd <$> libListForEach (fun s => s.1.links) .timerList (hasTimerItem tp) rounds
    (s.links.next .timerList) (s, false)

/-- `timer_start` -/
def timerStart (bits rounds : ℕ) (s : Timers τ) (tp : τ) (time : UInt32) :
    Except Stop (Timers τ) := do
  if ← s.hasTimer rounds tp then
    return s.note (.started tp time ERROR)
  else
    let s := s.setExpires tp (if time = 0 then ulongMax bits else time.toNat)
    let links ← libListAdd s.links (.timer tp) .timerList
    return { s with links := links }.note (.started tp time OK)

/-- `timer_stop` -/
def timerStop (rounds : ℕ) (s : Timers τ) (tp : τ) : Except Stop (Timers τ) := do
  if ← s.hasTimer rounds tp then
    let s := { s with links := libListDel s.links (.timer tp) }
    let s := s.setExpires tp 0
    return s.note (.stopped tp OK)
  else
    return s.note (.stopped tp ERROR)

/-- `timer_reset` -/
def timerReset (bits rounds : ℕ) (s : Timers τ) (tp : τ) (time : UInt32) :
    Except Stop (Timers τ) := do
  let s ← s.timerStop rounds tp
  s.timerStart bits rounds tp time

/-- The end of a round: `pos = n, n = pos->next`. -/
def advance (s : Timers τ) (time : ℕ) (ln2 : Option (TimerNode τ)) : Except Stop (Timers τ) := do
  let ln1 ← deref ln2
  return { s with phase := .loop time (some ln1) (s.links.next ln1) }

/-- `timer_timeout_callback` up to its loop. -/
def timeoutCallback (s : Timers τ) (time : ℕ) : Except Stop (Timers τ) := do
  let ln1 ← deref (s.links.next .timerList)
  return { s with phase := .loop time (some ln1) (s.links.next ln1) }.note (.tick time)

/-- A round of the loop, up to the call of the timeout function if there is one to be called. -/
def round (bits : ℕ) (s : Timers τ) (time : ℕ) (ln1 ln2 : Option (TimerNode τ)) :
    Except Stop (Timers τ) := do
  match ← deref ln1 with
  | .timerList => return { s with phase := .idle }.note .tickEnd
  | .timer tp =>
    if s.expires tp = ulongMax bits then
      s.advance time ln2
    else if time < s.expires tp then
      (s.setExpires tp (s.expires tp - time)).advance time ln2
    else
      let s := { s with links := libListDel s.links (.timer tp) }
      let s := s.setExpires tp 0
      return { s with phase := .callback time ln2 }.note (.fired tp)

end Timers

/-- What the program does with its timers. -/
inductive TimerLabel (τ : Type)
  /-- The timer functions are called, be it from a timeout function. -/
  | start (tp : τ) (time : UInt32)
  | stop (tp : τ)
  | reset (tp : τ) (time : UInt32)
  /-- `timer_timeout_callback` is called. -/
  | tick (time : ℕ)
  /-- It does a round of its loop. -/
  | round
  /-- The timeout function that it called returns. -/
  | ret
  deriving DecidableEq

/-- The timers, unless the process has ended. -/
abbrev TimerState (τ : Type) := Except Stop (Timers τ)

/-- One step of the program. No timer function is called between two rounds of the loop, and
`timer_timeout_callback` not from a timeout function. -/
inductive TimerStep (bits : ℕ) : TimerState τ → TimerLabel τ → TimerState τ → Prop
  | start {s tp time rounds t} (hphase : ∀ dt ln1 ln2, s.phase ≠ .loop dt ln1 ln2)
      (hrun : s.timerStart bits rounds tp time = t) (ht : t ≠ .error .rounds) :
      TimerStep bits (.ok s) (.start tp time) t
  | stop {s tp rounds t} (hphase : ∀ dt ln1 ln2, s.phase ≠ .loop dt ln1 ln2)
      (hrun : s.timerStop rounds tp = t) (ht : t ≠ .error .rounds) :
      TimerStep bits (.ok s) (.stop tp) t
  | reset {s tp time rounds t} (hphase : ∀ dt ln1 ln2, s.phase ≠ .loop dt ln1 ln2)
      (hrun : s.timerReset bits rounds tp time = t) (ht : t ≠ .error .rounds) :
      TimerStep bits (.ok s) (.reset tp time) t
  | tick {s time} (hphase : s.phase = .idle) :
      TimerStep bits (.ok s) (.tick time) (s.timeoutCallback time)
  | round {s time ln1 ln2} (hphase : s.phase = .loop time ln1 ln2) :
      TimerStep bits (.ok s) .round (s.round bits time ln1 ln2)
  | ret {s time ln2} (hphase : s.phase = .callback time ln2) :
      TimerStep bits (.ok s) .ret (s.advance time ln2)

/-! ### What the timers should do -/

/-- A running timer: the time it was started for, and the sum of the ticks since then. -/
structure TimerClock where
  time : ℕ
  elapsed : ℕ
  deriving DecidableEq, Repr

/-- The timer is to fire. A timer that was started for 0 never is. -/
def TimerClock.Due (c : TimerClock) : Prop := 0 < c.time ∧ c.time ≤ c.elapsed

/-- What an entry of the log changes about the running timers. -/
def TimerEvent.apply (clock : τ → Option TimerClock) : TimerEvent τ → τ → Option TimerClock
  | started tp time _ =>
    if clock tp = none then Function.update clock tp (some ⟨time.toNat, 0⟩) else clock
  | stopped tp _ | fired tp => Function.update clock tp none
  | tick time => fun tp => (clock tp).map fun c => { c with elapsed := c.elapsed + time }
  | tickEnd => clock

/-- The entry is as it should be where these timers run. -/
def TimerEvent.Fits (clock : τ → Option TimerClock) : TimerEvent τ → Prop
  | started tp _ ret => ret = OK ↔ clock tp = none
  | stopped tp ret => ret = OK ↔ clock tp ≠ none
  | tick _ => True
  -- a timer fires when it is due, and when the tick is over no due timer is left
  | fired tp => ∃ c, clock tp = some c ∧ c.Due
  | tickEnd => ∀ tp c, clock tp = some c → ¬ c.Due

/-- The running timers after the entries of a log. -/
def timerClock (log : List (TimerEvent τ)) : τ → Option TimerClock :=
  log.foldl (fun clock e => e.apply clock) fun _ => none

/-- Every entry of the log is as it should be after those before it. -/
def LegalLog (log : List (TimerEvent τ)) : Prop :=
  ∀ before e after, log = before ++ e :: after → e.Fits (timerClock before)

/-- The program is still running, and the timers did what they should. -/
def KeepsTime (s : TimerState τ) : Prop := ∃ t, s = .ok t ∧ LegalLog t.log

/-- Every tick comes to its end: before the round in which `timer_timeout_callback` returns, it
does no more rounds than timers were running when it was called. -/
def TicksEnd (r : List (TimerLabel τ × TimerState τ)) : Prop :=
  ∀ r₁ time t r₂ r₃, r = r₁ ++ (.tick time, .ok t) :: (r₂ ++ r₃) →
    (∀ x ∈ r₂, ∀ u, x.2 = .ok u → u.phase ≠ .idle) →
    ∃ tps : List τ, tps.Nodup ∧ (∀ tp ∈ tps, timerClock t.log tp ≠ none) ∧
      (r₂.map Prod.fst).count .round ≤ tps.length

/-- Calls of the timer functions return. -/
def CallsReturn (bits : ℕ) (s : TimerState τ) : Prop :=
  ∀ t, s = .ok t → (∀ dt ln1 ln2, t.phase ≠ .loop dt ln1 ln2) → ∀ tp time,
    (∃ u, TimerStep bits s (.start tp time) u) ∧ ∃ u, TimerStep bits s (.stop tp) u

/-- Started for this time, a timer is taken for one started for 0, or the other way round. -/
def confusedTime (bits : ℕ) : ℕ := if bits = 32 then 2 ^ 32 - 1 else 0

/-- What a step must not do: let a timer that was started for the confused time run for as long
as it takes to count down from the largest `UInt32`, or stop the timer that is next in the list
while the loop stands at the one before it. -/
def TimerLabel.guard (bits : ℕ) (s : TimerState τ) (l : TimerLabel τ) : Prop :=
  ∃ t, s = .ok t ∧ match l with
    | tick time => ∀ tp c, timerClock t.log tp = some c → c.time = confusedTime bits →
        c.elapsed + time < 2 ^ 32 - 1
    | stop tp | reset tp _ => ∀ time, t.phase ≠ .callback time (some (.timer tp))
    | start _ _ | round | ret => True

end Gendo
