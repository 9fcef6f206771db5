import Gendo.Server.Timer

/-!
# Timers keep time

The invariant of the timer list, and that every step that is not one of those `TimerLabel.guard`
names keeps it. In the loop the list has two parts: the timers before the place of the loop, from
which this tick's time has been taken, and those still to come, from which it has not. What a
timeout function starts goes before all others, so it belongs to the first part.
-/

namespace Gendo

open LinkedList StepSystem

variable {τ : Type} [DecidableEq τ]

section Clock

variable {log : List (TimerEvent τ)} {e : TimerEvent τ} {tp : τ}

@[simp]
theorem timerClock_nil : timerClock ([] : List (TimerEvent τ)) = fun _ => none := rfl

@[simp]
theorem timerClock_append (log : List (TimerEvent τ)) (e : TimerEvent τ) :
    timerClock (log ++ [e]) = e.apply (timerClock log) := List.foldl_concat ..

theorem legalLog_nil : LegalLog ([] : List (TimerEvent τ)) := by
  intro before e after h
  simp at h

theorem legalLog_append (h : LegalLog log) (he : e.Fits (timerClock log)) :
    LegalLog (log ++ [e]) := by
  intro before e' after hlog
  obtain rfl | ⟨after', last, rfl⟩ := List.eq_nil_or_concat after
  · obtain ⟨rfl, hlast⟩ := List.append_inj' hlog rfl
    cases hlast
    exact he
  · rw [List.concat_eq_append, ← List.cons_append, ← List.append_assoc] at hlog
    exact h before e' after' (List.append_inj' hlog rfl).1

end Clock

/-- The largest value of `expires`. -/
def expiresMax : ℕ := 2 ^ 32 - 1

/-- What `timer_start` sets `expires` to. -/
def startExpires (time : ℕ) : ℕ := if time = 0 then expiresMax else time

/-- `expires` counts the time that has gone by, unless it has the value that stands for never. -/
def Counts (bits : ℕ) (c : TimerClock) (gone expires : ℕ) : Prop :=
  if bits = 32 ∧ startExpires c.time = expiresMax then expires = expiresMax
  else 0 < expires ∧ expires + gone = startExpires c.time

/-- The timers that run, with the loop between `done` and `rest`; the time of the tick has been
taken only from the first part. -/
structure Timers.Running (bits : ℕ) (s : Timers τ) (done rest : List τ) (time : ℕ) : Prop where
  legal : LegalLog s.log
  ring : Ring s.links .timerList ((done ++ rest).map .timer)
  mem_iff : ∀ tp, tp ∈ done ++ rest ↔ timerClock s.log tp ≠ none
  time_lt : ∀ tp c, timerClock s.log tp = some c → c.time < 2 ^ 32
  short : ∀ tp c, timerClock s.log tp = some c → c.time = confusedTime bits →
    c.elapsed < expiresMax
  settled : ∀ tp ∈ done, ∀ c, timerClock s.log tp = some c →
    Counts bits c c.elapsed (s.expires tp) ∧ ¬ c.Due
  pending : ∀ tp ∈ rest, ∀ c, timerClock s.log tp = some c →
    time ≤ c.elapsed ∧ Counts bits c (c.elapsed - time) (s.expires tp)

/-- Between two rounds of the loop in `has_timer`: the timer was not among those before. -/
def HasTimerRest (s : Timers τ) (xs : List τ) (tp : τ) (nodes : List (TimerNode τ))
    (p : Timers τ × Bool) : Prop :=
  p = (s, false) ∧ ∃ before ys, xs = before ++ ys ∧ nodes = ys.map .timer ∧ tp ∉ before

/-- The loop of `has_timer`, by its rule. -/
theorem Timers.exists_hasTimer {s : Timers τ} {xs : List τ}
    (hring : Ring s.links .timerList (xs.map .timer)) (tp : τ) :
    ∃ rounds, libListForEach (fun s => s.1.links) .timerList (hasTimerItem tp) rounds
      (s.links.next .timerList) (s, false) = .ok (s, decide (tp ∈ xs)) := by
  have hnil : ∀ p, HasTimerRest s xs tp [] p → p = (s, decide (tp ∈ xs)) := by
    rintro p ⟨rfl, before, ys, rfl, hys, hbefore⟩
    rw [eq_comm, List.map_eq_nil_iff] at hys
    simp [hys, hbefore]
  have hcons : ∀ x rest p, HasTimerRest s xs tp (x :: rest) p → x ≠ TimerNode.timerList ∧
      ∃ left q, hasTimerItem tp x p = .ok (left, q) ∧
        (left = true → q = (s, decide (tp ∈ xs))) ∧
        (left = false → q.1.links.next x = some (rest.headD .timerList) ∧
          HasTimerRest s xs tp rest q) := by
    rintro x rest p ⟨rfl, before, ys, rfl, hys, hbefore⟩
    cases ys with
    | nil => cases hys
    | cons y ys =>
      obtain ⟨rfl, rfl⟩ := List.cons.inj hys
      refine ⟨by simp, ?_⟩
      by_cases hy : y = tp
      · subst hy
        refine ⟨true, (s, true), by simp [hasTimerItem], fun _ => by simp, by simp⟩
      · refine ⟨false, (s, false), by simp [hasTimerItem, hy], by simp, fun _ => ⟨?_, rfl, ?_⟩⟩
        · rw [List.map_append, List.map_cons] at hring
          exact hring.next_eq
        · exact ⟨before ++ [y], ys, by simp, rfl, by simp [hbefore, Ne.symm hy]⟩
  have hstart : HasTimerRest s xs tp (xs.map .timer) (s, false) :=
    ⟨rfl, [], xs, rfl, rfl, List.not_mem_nil⟩
  obtain ⟨p, hrun, rfl⟩ := libListForEach_rule hnil hcons hstart (Nat.lt_succ_self _)
  rw [hring.next_head]
  exact ⟨_, hrun⟩

/-- `has_timer` tells whether the timer runs. -/
theorem Timers.hasTimer_eq {s : Timers τ} {xs : List τ}
    (hring : Ring s.links .timerList (xs.map .timer)) (tp : τ) {rounds : ℕ}
    (hrounds : s.hasTimer rounds tp ≠ .error .rounds) :
    s.hasTimer rounds tp = .ok (decide (tp ∈ xs)) := by
  obtain ⟨rounds', hrun⟩ := exists_hasTimer hring tp
  rw [hasTimer] at hrounds ⊢
  rw [libListForEach_unique rfl (fun h => hrounds (by rw [h]; rfl)) hrun (by simp)]
  rfl

theorem startExpires_eq {bits : ℕ} (hbits : bits = 32 ∨ bits = 64) (time : UInt32) :
    (if time = 0 then ulongMax bits else time.toNat) % 2 ^ 32 = startExpires time.toNat := by
  have hzero : time.toNat = 0 ↔ time = 0 := UInt32.toNat_inj (b := 0)
  rw [startExpires, if_congr hzero rfl rfl]
  split
  · obtain rfl | rfl := hbits <;> rfl
  · exact Nat.mod_eq_of_lt time.toNat_lt

theorem counts_start (bits time : ℕ) : Counts bits ⟨time, 0⟩ 0 (startExpires time) := by
  rw [Counts]
  split_ifs with hstuck
  · exact hstuck.2
  · refine ⟨?_, rfl⟩
    rw [startExpires]
    split_ifs
    · decide
    · omega

section Counting

variable {bits time x : ℕ} {c : TimerClock}

/-- The value that stands for never: the timer is passed over, and is not due. -/
theorem counts_never (hbits : bits = 32 ∨ bits = 64) (htime : c.time < 2 ^ 32)
    (hshort : c.time = confusedTime bits → c.elapsed < expiresMax)
    (hcounts : Counts bits c (c.elapsed - time) x) (hx : x = ulongMax bits) :
    Counts bits c c.elapsed x ∧ ¬ c.Due := by
  obtain rfl | rfl := hbits <;>
    simp [Counts, startExpires, confusedTime, ulongMax, TimerClock.Due, expiresMax] at * <;>
    split_ifs at * <;> omega

/-- More time left than the tick takes. -/
theorem counts_sub (hbits : bits = 32 ∨ bits = 64) (htime : c.time < 2 ^ 32)
    (hshort : c.time = confusedTime bits → c.elapsed < expiresMax) (hle : time ≤ c.elapsed)
    (hcounts : Counts bits c (c.elapsed - time) x) (hx : x ≠ ulongMax bits) (hlt : time < x) :
    Counts bits c c.elapsed ((x - time) % 2 ^ 32) ∧ ¬ c.Due := by
  obtain rfl | rfl := hbits <;>
    simp [Counts, startExpires, confusedTime, ulongMax, TimerClock.Due, expiresMax] at * <;>
    split_ifs at * <;> omega

/-- No more time left than the tick takes. -/
theorem due_of_counts (hbits : bits = 32 ∨ bits = 64)
    (hshort : c.time = confusedTime bits → c.elapsed < expiresMax) (hle : time ≤ c.elapsed)
    (hcounts : Counts bits c (c.elapsed - time) x) (hx : x ≠ ulongMax bits) (hge : x ≤ time) :
    c.Due := by
  obtain rfl | rfl := hbits <;>
    simp [Counts, startExpires, confusedTime, ulongMax, TimerClock.Due, expiresMax] at * <;>
    split_ifs at * <;> omega

end Counting

namespace Timers.Running

variable {bits time : ℕ} {s : Timers τ} {done rest : List τ} {tp : τ}

theorem nodup (h : s.Running bits done rest time) : (done ++ rest).Nodup :=
  h.ring.nodup_tail.of_map _

theorem erase_append (h : s.Running bits done rest time) :
    (done ++ rest).erase tp = done.erase tp ++ rest.erase tp := by
  by_cases hdone : tp ∈ done
  · have hrest : tp ∉ rest := (List.disjoint_of_nodup_append h.nodup) hdone
    rw [List.erase_append_left rest hdone, List.erase_of_not_mem hrest]
  · rw [List.erase_append_right rest hdone, List.erase_of_not_mem hdone]

theorem notMem_erase (h : s.Running bits done rest time) (tp : τ) :
    tp ∉ done.erase tp ++ rest.erase tp := by
  rw [← h.erase_append]
  exact h.nodup.not_mem_erase

/-- An entry that changes no clock. -/
theorem note (h : s.Running bits done rest time) {e : TimerEvent τ}
    (hfits : e.Fits (timerClock s.log)) (hclock : e.apply (timerClock s.log) = timerClock s.log) :
    (s.note e).Running bits done rest time := by
  have hsame : timerClock (s.note e).log = timerClock s.log := by
    rw [Timers.note, timerClock_append, hclock]
  refine ⟨legalLog_append h.legal hfits, h.ring, ?_, ?_, ?_, ?_, ?_⟩
  all_goals rw [hsame]
  exacts [h.mem_iff, h.time_lt, h.short, h.settled, h.pending]

/-- A step that changes one timer: its clock, its `expires`, and its place. -/
theorem update (h : s.Running bits done rest time) {s' : Timers τ} {done' rest' : List τ}
    {c' : Option TimerClock} {x : ℕ} (hlegal : LegalLog s'.log)
    (hring : Ring s'.links .timerList ((done' ++ rest').map .timer))
    (hclock : timerClock s'.log = Function.update (timerClock s.log) tp c')
    (hexpires : s'.expires = Function.update s.expires tp x)
    (hmem : tp ∈ done' ++ rest' ↔ c' ≠ none)
    (hdone : ∀ t ≠ tp, t ∈ done' ↔ t ∈ done) (hrest : ∀ t ≠ tp, t ∈ rest' ↔ t ∈ rest)
    (hnew : ∀ c, c' = some c → c.time < 2 ^ 32 ∧
      (c.time = confusedTime bits → c.elapsed < expiresMax) ∧
      (tp ∈ done' → Counts bits c c.elapsed x ∧ ¬ c.Due) ∧
      (tp ∈ rest' → time ≤ c.elapsed ∧ Counts bits c (c.elapsed - time) x)) :
    s'.Running bits done' rest' time := by
  have hself : timerClock s'.log tp = c' := by rw [hclock, Function.update_self]
  have hother : ∀ t ≠ tp, timerClock s'.log t = timerClock s.log t ∧ s'.expires t = s.expires t :=
    fun t ht => ⟨by rw [hclock, Function.update_of_ne ht],
      by rw [hexpires, Function.update_of_ne ht]⟩
  have hx : s'.expires tp = x := by rw [hexpires, Function.update_self]
  refine ⟨hlegal, hring, fun t => ?_, fun t c hc => ?_, fun t c hc => ?_, fun t ht c hc => ?_,
    fun t ht c hc => ?_⟩
  -- for the other timers everything is as before
  all_goals by_cases htp : t = tp
  · rw [htp, hmem, hself]
  · rw [List.mem_append, hdone t htp, hrest t htp, ← List.mem_append, h.mem_iff,
      (hother t htp).1]
  · rw [htp, hself] at hc
    exact (hnew c hc).1
  · rw [(hother t htp).1] at hc
    exact h.time_lt t c hc
  · rw [htp, hself] at hc
    exact (hnew c hc).2.1
  · rw [(hother t htp).1] at hc
    exact h.short t c hc
  · subst htp
    rw [hself] at hc
    rw [hx]
    exact (hnew c hc).2.2.1 ht
  · rw [(hother t htp).1] at hc
    rw [(hother t htp).2]
    exact h.settled t ((hdone t htp).1 ht) c hc
  · subst htp
    rw [hself] at hc
    rw [hx]
    exact (hnew c hc).2.2.2 ht
  · rw [(hother t htp).1] at hc
    rw [(hother t htp).2]
    exact h.pending t ((hrest t htp).1 ht) c hc

theorem timerStart (hbits : bits = 32 ∨ bits = 64) (h : s.Running bits done rest time)
    {start : UInt32} {rounds : ℕ} {t : TimerState τ}
    (hrun : s.timerStart bits rounds tp start = t) (ht : t ≠ .error .rounds) :
    ∃ s' done', t = .ok s' ∧ s'.Running bits done' rest time ∧ s'.phase = s.phase := by
  have hhas : s.hasTimer rounds tp = .ok (decide (tp ∈ done ++ rest)) := by
    apply hasTimer_eq h.ring
    intro hno
    rw [Timers.timerStart, hno] at hrun
    exact ht hrun.symm
  rw [Timers.timerStart, hhas, ok_bind] at hrun
  by_cases htp : tp ∈ done ++ rest
  · -- a timer that runs is not started again
    rw [if_pos (by simpa using htp)] at hrun
    refine ⟨_, done, hrun.symm, h.note ?_ ?_, rfl⟩
    · exact iff_of_false (by decide) ((h.mem_iff tp).1 htp)
    · rw [TimerEvent.apply, if_neg ((h.mem_iff tp).1 htp)]
  · rw [if_neg (by simpa using htp)] at hrun
    have hnone : timerClock s.log tp = none := by
      by_contra hsome
      exact htp ((h.mem_iff tp).2 hsome)
    obtain ⟨links, hadd, hring⟩ := exists_libListAdd (n := .timer tp) h.ring (by simpa using htp)
    obtain ⟨s', hs'⟩ : ∃ s' : Timers τ, s' = { s.setExpires tp
        (if start = 0 then ulongMax bits else start.toNat) with links := links }.note
          (.started tp start OK) := ⟨_, rfl⟩
    have ht' : t = .ok s' := by
      rw [← hrun, hs']
      simp only [setExpires, hadd, ok_bind]
      rfl
    have hclock : timerClock s'.log = Function.update (timerClock s.log) tp
        (some ⟨start.toNat, 0⟩) := by
      rw [hs', Timers.note, timerClock_append, TimerEvent.apply]
      exact if_pos hnone
    have hexpires : s'.expires = Function.update s.expires tp (startExpires start.toNat) := by
      rw [hs', ← startExpires_eq hbits]
      rfl
    have hring' : Ring s'.links .timerList ((tp :: done ++ rest).map .timer) := by
      rw [hs']
      exact hring
    have hlegal : LegalLog s'.log := by
      rw [hs']
      exact legalLog_append h.legal (iff_of_true rfl hnone)
    -- it is put at the head of the list, so that a round that is under way does not come to it
    refine ⟨s', tp :: done, ht', ?_, by rw [hs']; rfl⟩
    have hrest : tp ∉ rest := fun hmem => htp (List.mem_append_right done hmem)
    refine h.update hlegal hring' hclock hexpires (by simp) (fun t ht => by simp [ht])
      (fun t _ => Iff.rfl) ?_
    rintro c ⟨⟩
    refine ⟨start.toNat_lt, fun _ => (by decide : 0 < expiresMax),
      fun _ => ⟨counts_start bits _, ?_⟩,
      fun hmem => absurd hmem hrest⟩
    exact fun hdue => absurd (Nat.lt_of_lt_of_le hdue.1 hdue.2) (Nat.lt_irrefl 0)

/-- `timer_stop`, unless the loop goes on with the timer. -/
theorem timerStop (h : s.Running bits done rest time) (hnext : rest.head? ≠ some tp)
    {rounds : ℕ} {t : TimerState τ} (hrun : s.timerStop rounds tp = t) (ht : t ≠ .error .rounds) :
    ∃ s' done' rest', t = .ok s' ∧ s'.Running bits done' rest' time ∧ s'.phase = s.phase ∧
      rest'.head? = rest.head? ∧ rest'.length ≤ rest.length := by
  have hhas : s.hasTimer rounds tp = .ok (decide (tp ∈ done ++ rest)) := by
    apply hasTimer_eq h.ring
    intro hno
    rw [Timers.timerStop, hno] at hrun
    exact ht hrun.symm
  rw [Timers.timerStop, hhas, ok_bind] at hrun
  by_cases htp : tp ∈ done ++ rest
  · rw [if_pos (by simpa using htp)] at hrun
    have hsome : timerClock s.log tp ≠ none := (h.mem_iff tp).1 htp
    have hring := ring_libListDel_map h.ring htp
    rw [h.erase_append] at hring
    have hlegal : LegalLog (s.log ++ [.stopped tp OK]) :=
      legalLog_append h.legal (iff_of_true rfl hsome)
    have hleft := h.notMem_erase tp
    refine ⟨_, done.erase tp, rest.erase tp, hrun.symm, ?_, rfl, ?_, List.erase_sublist.length_le⟩
    · exact h.update hlegal hring (timerClock_append _ _) rfl (iff_of_false hleft (by simp))
        (fun t ht => List.mem_erase_of_ne ht) (fun t ht => List.mem_erase_of_ne ht) (by simp)
    · cases rest with
      | nil => rfl
      | cons y rest =>
        have hy : y ≠ tp := fun heq => hnext (by rw [heq, List.head?_cons])
        rw [List.erase_cons_tail (by simpa using hy), List.head?_cons, List.head?_cons]
  · rw [if_neg (by simpa using htp)] at hrun
    have hnone : timerClock s.log tp = none := by
      by_contra hsome
      exact htp ((h.mem_iff tp).2 hsome)
    refine ⟨_, done, rest, hrun.symm, h.note ?_ ?_, rfl, rfl, le_rfl⟩
    · exact iff_of_false (by decide) (not_not_intro hnone)
    · exact Function.update_eq_self_iff.2 hnone.symm

/-- The place of the program is not part of what is said about the timers. -/
theorem setPhase (h : s.Running bits done rest time) (phase : TimerPhase τ) :
    { s with phase := phase }.Running bits done rest time :=
  ⟨h.legal, h.ring, h.mem_iff, h.time_lt, h.short, h.settled, h.pending⟩

/-- The loop is past a timer that it did not fire. -/
theorem passed (h : s.Running bits done (tp :: rest) time) {x : ℕ}
    (hx : ∀ c, timerClock s.log tp = some c → Counts bits c c.elapsed x ∧ ¬ c.Due) :
    { s with expires := Function.update s.expires tp x }.Running bits (done ++ [tp]) rest time := by
  have hsplit : done ++ [tp] ++ rest = done ++ tp :: rest := List.append_cons done tp rest |>.symm
  have htp : tp ∈ done ++ tp :: rest := List.mem_append_right done List.mem_cons_self
  have hrest : tp ∉ rest := (List.nodup_cons.1 (List.nodup_append.1 h.nodup).2.1).1
  refine h.update h.legal (by rw [hsplit]; exact h.ring) (Function.update_eq_self tp _).symm rfl
    (by rw [hsplit]; exact h.mem_iff tp) (fun t ht => by simp [ht]) (fun t ht => by simp [ht]) ?_
  intro c hc
  exact ⟨h.time_lt tp c hc, h.short tp c hc, fun _ => hx c hc, fun hmem => absurd hmem hrest⟩

/-- The loop takes out a timer that is due. -/
theorem fired (h : s.Running bits done (tp :: rest) time)
    (hdue : ∀ c, timerClock s.log tp = some c → c.Due) {links : Links (TimerNode τ)}
    (hlinks : links = libListDel s.links (.timer tp)) {phase : TimerPhase τ} :
    (Timers.note { s with links := links, expires := Function.update s.expires tp 0,
                          phase := phase } (.fired tp)).Running bits done rest time := by
  have htp : tp ∈ done ++ tp :: rest := List.mem_append_right done List.mem_cons_self
  obtain ⟨c, hc⟩ := Option.ne_none_iff_exists'.1 ((h.mem_iff tp).1 htp)
  have hleft : tp ∉ done ++ rest := by
    have hnodup := h.nodup
    rw [List.nodup_middle, List.nodup_cons] at hnodup
    exact hnodup.1
  have hring : Ring links .timerList ((done ++ rest).map .timer) := by
    have hring := h.ring
    rw [List.map_append, List.map_cons] at hring
    rw [hlinks, List.map_append]
    exact ring_libListDel hring
  exact h.update (legalLog_append h.legal ⟨c, hc, hdue c hc⟩) hring (timerClock_append _ _) rfl
    (iff_of_false hleft (by simp)) (fun t _ => Iff.rfl) (fun t ht => by simp [ht]) (by simp)

end Timers.Running

/-- The node at which the loop goes on, with these timers still to come. -/
def nodeOf (rest : List τ) : TimerNode τ := (rest.map TimerNode.timer).headD .timerList

/-- The place of the program, with these timers still to come. -/
def TimerPhase.At (phase : TimerPhase τ) (rest : List τ) (time : ℕ) : Prop :=
  match phase with
  | .idle => rest = []
  | .loop dt ln1 ln2 => dt = time ∧ ln1 = some (nodeOf rest) ∧
      ∀ tp rest', rest = tp :: rest' → ln2 = some (nodeOf rest')
  | .callback dt ln2 => dt = time ∧ ln2 = some (nodeOf rest)

/-- What holds between two steps, with at most so many timers still to come. -/
def TimerInv (bits k : ℕ) (s : TimerState τ) : Prop :=
  ∃ t done rest time, s = .ok t ∧ t.Running bits done rest time ∧ t.phase.At rest time ∧
    rest.length ≤ k

theorem timerInv_ok {bits k : ℕ} {s : Timers τ} :
    TimerInv bits k (.ok s) ↔ ∃ done rest time, s.Running bits done rest time ∧
      s.phase.At rest time ∧ rest.length ≤ k := by
  constructor
  · rintro ⟨t, done, rest, time, ht, h⟩
    cases ht
    exact ⟨done, rest, time, h⟩
  · rintro ⟨done, rest, time, h⟩
    exact ⟨s, done, rest, time, rfl, h⟩

/-- With fewer timers to come than allowed. -/
theorem TimerInv.mono {bits k k' : ℕ} {s : TimerState τ} (hs : TimerInv bits k s) (hle : k ≤ k') :
    TimerInv bits k' s := by
  obtain ⟨t, done, rest, time, ht, h, hat, hk⟩ := hs
  exact ⟨t, done, rest, time, ht, h, hat, hk.trans hle⟩

omit [DecidableEq τ] in
theorem nodeOf_congr {rest rest' : List τ} (h : rest'.head? = rest.head?) :
    nodeOf rest' = nodeOf rest := by
  cases rest <;> cases rest' <;> simp_all [nodeOf]

namespace Timers.Running

variable {bits time : ℕ} {s : Timers τ} {done rest : List τ}

/-- The next round begins at the first of the timers still to come. -/
theorem advance (h : s.Running bits done rest time) :
    TimerInv bits rest.length (s.advance time (some (nodeOf rest))) := by
  refine ⟨_, done, rest, time, rfl, h.setPhase _, ⟨rfl, rfl, ?_⟩, le_rfl⟩
  rintro tp rest' rfl
  have hring := h.ring
  rw [List.map_append, List.map_cons] at hring
  exact hring.next_eq

theorem round (hbits : bits = 32 ∨ bits = 64) (h : s.Running bits done rest time)
    {ln1 ln2 : Option (TimerNode τ)} (hat : TimerPhase.At (.loop time ln1 ln2) rest time) :
    TimerInv bits (rest.length - 1) (s.round bits time ln1 ln2) := by
  obtain ⟨-, rfl, hln2⟩ := hat
  cases rest with
  | nil =>
    refine ⟨_, done, [], time, rfl, (h.setPhase .idle).note ?_ rfl, rfl, le_rfl⟩
    intro tp c hc
    have htp : tp ∈ done := by
      have hmem := (h.mem_iff tp).2 (by rw [hc]; simp)
      simpa using hmem
    exact (h.settled tp htp c hc).2
  | cons tp rest =>
    obtain rfl := hln2 tp rest rfl
    have hmem : tp ∈ tp :: rest := List.mem_cons_self
    rw [Timers.round]
    show TimerInv bits rest.length (if _ then _ else _)
    split_ifs with hnever hlt
    · have hpassed := h.passed (x := s.expires tp) fun c hc =>
        counts_never hbits (h.time_lt tp c hc) (h.short tp c hc) (h.pending tp hmem c hc).2 hnever
      rw [Function.update_eq_self] at hpassed
      exact hpassed.advance
    · exact (h.passed fun c hc => counts_sub hbits (h.time_lt tp c hc) (h.short tp c hc)
        (h.pending tp hmem c hc).1 (h.pending tp hmem c hc).2 hnever hlt).advance
    · refine ⟨_, done, rest, time, rfl, h.fired (fun c hc => ?_) rfl, ⟨rfl, rfl⟩, le_rfl⟩
      exact due_of_counts hbits (h.short tp c hc) (h.pending tp hmem c hc).1
        (h.pending tp hmem c hc).2 hnever (Nat.le_of_not_lt hlt)

/-- A tick begins: every timer has its time ahead of it. -/
theorem timeoutCallback (h : s.Running bits done [] time) {tick : ℕ}
    (hshort : ∀ tp c, timerClock s.log tp = some c → c.time = confusedTime bits →
      c.elapsed + tick < expiresMax) :
    TimerInv bits done.length (s.timeoutCallback tick) := by
  have hring := h.ring
  rw [List.append_nil] at hring
  have hmem := h.mem_iff
  simp only [List.append_nil] at hmem
  -- the clocks after the tick are those before it, with the time of the tick added
  have hclock : ∀ tp c, timerClock (s.log ++ [.tick tick]) tp = some c →
      ∃ c₀, timerClock s.log tp = some c₀ ∧ c = { c₀ with elapsed := c₀.elapsed + tick } := by
    intro tp c hc
    rw [timerClock_append] at hc
    obtain ⟨c₀, hc₀, rfl⟩ := Option.map_eq_some_iff.1 hc
    exact ⟨c₀, hc₀, rfl⟩
  have hbegun : (s.note (.tick tick)).Running bits [] done tick := by
    refine ⟨legalLog_append h.legal trivial, hring, fun tp => ?_, fun tp c hc => ?_,
      fun tp c hc => ?_, by simp, fun tp htp c hc => ?_⟩
    · rw [List.nil_append, hmem, Timers.note, timerClock_append, TimerEvent.apply, Ne, Ne,
        Option.map_eq_none_iff]
    · obtain ⟨c₀, hc₀, rfl⟩ := hclock tp c hc
      exact h.time_lt tp c₀ hc₀
    · obtain ⟨c₀, hc₀, rfl⟩ := hclock tp c hc
      exact hshort tp c₀ hc₀
    · obtain ⟨c₀, hc₀, rfl⟩ := hclock tp c hc
      have hcounts := (h.settled tp htp c₀ hc₀).1
      exact ⟨Nat.le_add_left .., by rwa [Nat.add_sub_cancel]⟩
  rw [Timers.timeoutCallback, hring.next_head]
  exact hbegun.advance

end Timers.Running

variable {bits k : ℕ} {s t : TimerState τ} {l : TimerLabel τ}

omit [DecidableEq τ] in
/-- Other timers taken out leave the place of a program that is not between two rounds. -/
theorem TimerPhase.At.congr {phase : TimerPhase τ} {rest rest' : List τ} {time : ℕ}
    (hat : phase.At rest time) (hphase : ∀ dt ln1 ln2, phase ≠ .loop dt ln1 ln2)
    (hhead : rest'.head? = rest.head?) : phase.At rest' time := by
  cases phase with
  | idle =>
    obtain rfl : rest = [] := hat
    exact List.head?_eq_none_iff.1 hhead
  | loop dt ln1 ln2 => exact absurd rfl (hphase dt ln1 ln2)
  | callback dt ln2 => exact ⟨hat.1, by rw [nodeOf_congr hhead]; exact hat.2⟩

omit [DecidableEq τ] in
/-- A timer that may be stopped is not the one with which the loop goes on. -/
theorem TimerPhase.At.head_ne {phase : TimerPhase τ} {rest : List τ} {time : ℕ} {tp : τ}
    (hat : phase.At rest time) (hphase : ∀ dt ln1 ln2, phase ≠ .loop dt ln1 ln2)
    (hnext : ∀ dt, phase ≠ .callback dt (some (.timer tp))) : rest.head? ≠ some tp := by
  intro hhead
  cases phase with
  | idle =>
    obtain rfl : rest = [] := hat
    cases hhead
  | loop dt ln1 ln2 => exact hphase dt ln1 ln2 rfl
  | callback dt ln2 =>
    obtain ⟨rest', rfl⟩ := List.head?_eq_some_iff.1 hhead
    apply hnext dt
    rw [hat.2]
    rfl

theorem TimerInv.timerStart (hbits : bits = 32 ∨ bits = 64) {s : Timers τ} {tp : τ} {time : UInt32}
    {rounds : ℕ} (hs : TimerInv bits k (.ok s))
    (hrun : s.timerStart bits rounds tp time = t) (ht : t ≠ .error .rounds) :
    TimerInv bits k t := by
  obtain ⟨done, rest, dt, h, hat, hle⟩ := timerInv_ok.1 hs
  obtain ⟨s', done', rfl, h', hsame⟩ := h.timerStart hbits hrun ht
  exact ⟨s', done', rest, dt, rfl, h', by rw [hsame]; exact hat, hle⟩

theorem TimerInv.timerStop {s : Timers τ} {tp : τ} {rounds : ℕ} (hs : TimerInv bits k (.ok s))
    (hphase : ∀ dt ln1 ln2, s.phase ≠ .loop dt ln1 ln2)
    (hnext : ∀ dt, s.phase ≠ .callback dt (some (.timer tp)))
    (hrun : s.timerStop rounds tp = t) (ht : t ≠ .error .rounds) :
    ∃ s', t = .ok s' ∧ TimerInv bits k t := by
  obtain ⟨done, rest, dt, h, hat, hle⟩ := timerInv_ok.1 hs
  obtain ⟨s', done', rest', rfl, h', hsame, hhead, hle'⟩ :=
    h.timerStop (hat.head_ne hphase hnext) hrun ht
  refine ⟨s', rfl, s', done', rest', dt, rfl, h', ?_, hle'.trans hle⟩
  rw [hsame]
  exact hat.congr hphase hhead

/-- `timer_reset` is a stop and a start. -/
theorem TimerInv.timerReset (hbits : bits = 32 ∨ bits = 64) {s : Timers τ} {tp : τ} {time : UInt32}
    {rounds : ℕ} (hs : TimerInv bits k (.ok s))
    (hphase : ∀ dt ln1 ln2, s.phase ≠ .loop dt ln1 ln2)
    (hnext : ∀ dt, s.phase ≠ .callback dt (some (.timer tp)))
    (hrun : s.timerReset bits rounds tp time = t) (ht : t ≠ .error .rounds) :
    TimerInv bits k t := by
  have hstop : s.timerStop rounds tp ≠ .error .rounds := by
    intro hno
    rw [Timers.timerReset, hno] at hrun
    exact ht hrun.symm
  obtain ⟨s', hs', hinv⟩ := hs.timerStop hphase hnext rfl hstop
  rw [hs'] at hinv
  rw [Timers.timerReset, hs', ok_bind] at hrun
  exact hinv.timerStart hbits hrun ht

/-- An allowed step keeps the invariant. A round leaves one timer less to come, and a tick is
what brings new ones. -/
theorem TimerInv.step (hbits : bits = 32 ∨ bits = 64) (hs : TimerInv bits k s)
    (hstep : TimerStep bits s l t) (hguard : l.guard bits s) :
    ∃ k', TimerInv bits k' t ∧
      ((∀ time, l ≠ .tick time) → k' = if l = .round then k - 1 else k) := by
  obtain ⟨u, rfl, hguard⟩ := hguard
  cases hstep with
  | start hphase hrun ht =>
    exact ⟨k, hs.timerStart hbits hrun ht, fun _ => (if_neg (by simp)).symm⟩
  | stop hphase hrun ht =>
    obtain ⟨-, -, hinv⟩ := hs.timerStop hphase hguard hrun ht
    exact ⟨k, hinv, fun _ => (if_neg (by simp)).symm⟩
  | reset hphase hrun ht =>
    exact ⟨k, hs.timerReset hbits hphase hguard hrun ht, fun _ => (if_neg (by simp)).symm⟩
  | tick hphase =>
    obtain ⟨done, rest, dt, h, hat, hle⟩ := timerInv_ok.1 hs
    rw [hphase] at hat
    obtain rfl : rest = [] := hat
    exact ⟨_, h.timeoutCallback hguard, fun hno => absurd rfl (hno _)⟩
  | round hphase =>
    obtain ⟨done, rest, dt, h, hat, hle⟩ := timerInv_ok.1 hs
    rw [hphase] at hat
    obtain rfl := hat.1
    exact ⟨k - 1, (h.round hbits hat).mono (by omega), fun _ => (if_pos rfl).symm⟩
  | ret hphase =>
    obtain ⟨done, rest, dt, h, hat, hle⟩ := timerInv_ok.1 hs
    rw [hphase] at hat
    obtain ⟨rfl, rfl⟩ := hat
    exact ⟨k, h.advance.mono hle, fun _ => (if_neg (by simp)).symm⟩

theorem TimerInv.init (bits : ℕ) : TimerInv bits 0 (.ok (Timers.init : Timers τ)) := by
  refine timerInv_ok.2 ⟨[], [], 0, ⟨legalLog_nil, ring_initLibList _ _, ?_, ?_, ?_, ?_, ?_⟩, rfl,
    le_rfl⟩ <;> simp [Timers.init]

theorem TimerInv.keepsTime (hs : TimerInv bits k s) : KeepsTime s := by
  obtain ⟨t, done, rest, time, ht, h, -⟩ := hs
  exact ⟨t, ht, h.legal⟩

/-- With no timer to come, the next round is the last. -/
theorem TimerInv.last_round {s : Timers τ} (hs : TimerInv bits 0 (.ok s)) {time : ℕ}
    {ln1 ln2 : Option (TimerNode τ)} (hphase : s.phase = .loop time ln1 ln2) :
    ∃ u, s.round bits time ln1 ln2 = .ok u ∧ u.phase = .idle := by
  obtain ⟨done, rest, dt, h, hat, hle⟩ := timerInv_ok.1 hs
  rw [hphase] at hat
  obtain rfl := List.length_eq_zero_iff.1 (Nat.le_zero.1 hle)
  obtain ⟨-, rfl, -⟩ := hat
  exact ⟨_, rfl, rfl⟩

/-- A run inside a tick has no more rounds than there are timers to come. -/
theorem TimerInv.rounds_le (hbits : bits = 32 ∨ bits = 64) (hs : TimerInv bits k s)
    {r : List (TimerLabel τ × TimerState τ)} (hr : IsRun (TimerStep bits) s r)
    (hg : Guarded (fun s l => TimerLabel.guard bits s l) s r)
    (hidle : ∀ u, s = .ok u → u.phase ≠ .idle)
    (hin : ∀ x ∈ r, ∀ u, x.2 = .ok u → u.phase ≠ .idle) :
    (r.map Prod.fst).count .round ≤ k := by
  induction r generalizing s k with
  | nil => exact Nat.zero_le k
  | cons x r ih =>
    obtain ⟨l, t⟩ := x
    obtain ⟨hstep, hrest⟩ := hr
    obtain ⟨hguard, hgrest⟩ := hg
    -- no tick begins inside of a tick
    have hnotick : ∀ time, l ≠ .tick time := by
      rintro time rfl
      cases hstep with
      | tick hphase => exact hidle _ rfl hphase
    obtain ⟨k', hinv, hk'⟩ := hs.step hbits hstep hguard
    have hcount := ih hinv hrest hgrest (hin (l, t) List.mem_cons_self)
      fun x hx => hin x (List.mem_cons_of_mem _ hx)
    rw [hk' hnotick] at hcount
    rw [List.map_cons]
    by_cases hround : l = .round
    · subst hround
      have hpos : k ≠ 0 := by
        rintro rfl
        cases hstep with
        | round hphase =>
          obtain ⟨u, hu, huidle⟩ := hs.last_round hphase
          exact hin _ List.mem_cons_self u hu huidle
      rw [if_pos rfl] at hcount
      rw [List.count_cons_self]
      omega
    · rw [if_neg hround] at hcount
      rwa [List.count_cons_of_ne hround]

theorem TimerInv.callsReturn (hs : TimerInv bits k s) : CallsReturn bits s := by
  rintro t rfl hphase tp time
  obtain ⟨done, rest, dt, h, -⟩ := timerInv_ok.1 hs
  obtain ⟨rounds, hrun⟩ := Timers.exists_hasTimer h.ring tp
  have hhas : t.hasTimer rounds tp = .ok (decide (tp ∈ done ++ rest)) := by
    rw [Timers.hasTimer, hrun]
    rfl
  constructor
  · refine ⟨t.timerStart bits rounds tp time, .start hphase rfl ?_⟩
    rw [Timers.timerStart, hhas, ok_bind]
    by_cases htp : tp ∈ done ++ rest
    · rw [if_pos (by simpa using htp), pure_eq_ok]
      simp
    · obtain ⟨links, hadd, -⟩ := exists_libListAdd (n := .timer tp) h.ring (by simpa using htp)
      rw [if_neg (by simpa using htp)]
      simp only [Timers.setExpires, hadd, ok_bind, pure_eq_ok]
      simp
  · refine ⟨t.timerStop rounds tp, .stop hphase rfl ?_⟩
    rw [Timers.timerStop, hhas, ok_bind]
    split_ifs <;> simp only [pure_eq_ok] <;> simp

theorem TimerStep.tick_phase {time : ℕ} {t : Timers τ}
    (hstep : TimerStep bits s (.tick time) (.ok t)) : t.phase ≠ .idle := by
  generalize ht : (Except.ok t : TimerState τ) = t' at hstep
  cases hstep with
  | @tick s _ hphase =>
    rw [Timers.timeoutCallback] at ht
    cases hnext : s.links.next .timerList with
    | none =>
      rw [hnext] at ht
      cases ht
    | some ln1 =>
      rw [hnext] at ht
      cases ht
      simp [Timers.note]

/-- Timers keep time, and ticks come to an end, as long as no timer started for 0 (for 2^32 - 1
where an `unsigned long` has 32 bits) runs for 2^32 - 1, and no timeout function stops the timer
that comes after its own in the list. -/
theorem timers_keepTime (hbits : bits = 32 ∨ bits = 64)
    {r : List (TimerLabel τ × TimerState τ)} (hr : IsRun (TimerStep bits) (.ok Timers.init) r)
    (hg : Guarded (fun s l => TimerLabel.guard bits s l) (.ok Timers.init) r) :
    Always (fun s => KeepsTime s ∧ CallsReturn bits s) (.ok Timers.init) r ∧ TicksEnd r := by
  have hstep : ∀ s l t, (∃ k, TimerInv bits k s) → TimerLabel.guard bits s l →
      TimerStep bits s l t → ∃ k, TimerInv (τ := τ) bits k t := by
    rintro s l t ⟨k, hs⟩ hguard hst
    obtain ⟨k', hinv, -⟩ := hs.step hbits hst hguard
    exact ⟨k', hinv⟩
  have hinv := always_of_guarded hstep ⟨0, TimerInv.init bits⟩ hr hg
  refine ⟨hinv.imp fun s ⟨k, hs⟩ => ⟨hs.keepsTime, hs.callsReturn⟩, ?_⟩
  rintro r₁ time t r₂ r₃ rfl hin
  -- the part of the run that lies in the tick
  obtain ⟨hst, hrun⟩ := (along_append.1 hr).2
  obtain ⟨-, hguarded⟩ := (along_append.1 hg).2
  obtain ⟨⟨k, ht⟩, -⟩ := (along_append.1 hinv.2).2
  obtain ⟨done, rest, dt, h, hat, -⟩ := timerInv_ok.1 ht
  refine ⟨rest, (List.nodup_append.1 h.nodup).2.1,
    fun tp htp => (h.mem_iff tp).1 (List.mem_append_right done htp), ?_⟩
  have hbegun : TimerInv bits rest.length (.ok t) := timerInv_ok.2 ⟨done, rest, dt, h, hat, le_rfl⟩
  refine hbegun.rounds_le hbits (along_append.1 hrun).1 (along_append.1 hguarded).1 ?_ hin
  rintro u ⟨⟩
  exact TimerStep.tick_phase hst

/-- Timer 1 fires while timer 0 has time left; its timeout function starts timer 2, which does
not fire in the same tick. -/
theorem timers_keepTime_restart : ∃ r : List (TimerLabel ℕ × TimerState ℕ),
    r.map Prod.fst = [.start 0 5, .start 1 3, .tick 4, .round, .start 2 1, .ret, .round, .round,
      .stop 0] ∧
    Always (fun s => KeepsTime s ∧ CallsReturn 64 s) (.ok Timers.init) r ∧ TicksEnd r := by
  refine ⟨[(_, _), (_, _), (_, _), (_, _), (_, _), (_, _), (_, _), (_, _), (_, _)], rfl,
    timers_keepTime (.inr rfl)
      ⟨@TimerStep.start _ _ _ _ _ _ 9 _ nofun rfl nofun,
       @TimerStep.start _ _ _ _ _ _ 9 _ nofun rfl nofun,
       .tick rfl, .round rfl,
       @TimerStep.start _ _ _ _ _ _ 9 _ nofun rfl nofun,
       .ret rfl, .round rfl, .round rfl,
       @TimerStep.stop _ _ _ _ _ 9 _ nofun rfl nofun, trivial⟩
      ⟨⟨_, rfl, trivial⟩, ⟨_, rfl, trivial⟩, ⟨_, rfl, ?_⟩, ⟨_, rfl, trivial⟩, ⟨_, rfl, trivial⟩,
        ⟨_, rfl, trivial⟩, ⟨_, rfl, trivial⟩, ⟨_, rfl, trivial⟩, ⟨_, rfl, nofun⟩, trivial⟩⟩
  -- neither of the two running timers was started for 0
  intro tp c hc htime
  have hclock : Function.update (Function.update (fun _ => none) 0 (some ⟨5, 0⟩)) 1
      (some ⟨3, 0⟩) tp = some c := hc
  rw [Function.update_apply, Function.update_apply] at hclock
  split_ifs at hclock <;> cases hclock <;> cases htime

/-- With 64 bits, a timer started for 0 fires when 2^32 - 1 has gone by; with 32 bits, one started
for 2^32 - 1 does not; and a timer that the timeout function before it stops fires, and then the
loop goes on at NULL. -/
theorem not_keepsTime :
    (∃ r, r.map Prod.fst = [.start 0 0, .tick (2 ^ 32 - 1), .round] ∧
      IsRun (TimerStep 64) (.ok (Timers.init : Timers ℕ)) r ∧
      ¬ Always KeepsTime (.ok Timers.init) r) ∧
    (∃ r, r.map Prod.fst = [.start 0 (2 ^ 32 - 1), .tick (2 ^ 32 - 1), .round, .round] ∧
      IsRun (TimerStep 32) (.ok (Timers.init : Timers ℕ)) r ∧
      ¬ Always KeepsTime (.ok Timers.init) r) ∧
    (∃ r, r.map Prod.fst = [.start 0 1, .start 1 1, .tick 1, .round, .stop 0, .ret, .round] ∧
      IsRun (TimerStep 64) (.ok (Timers.init : Timers ℕ)) r ∧
      ¬ Always KeepsTime (.ok Timers.init) r) := by
  refine ⟨⟨[(_, _), (_, _), (_, _)], rfl,
      ⟨@TimerStep.start _ _ _ _ _ _ 9 _ nofun rfl nofun, .tick rfl, .round rfl, trivial⟩, ?_⟩,
    ⟨[(_, _), (_, _), (_, _), (_, _)], rfl,
      ⟨@TimerStep.start _ _ _ _ _ _ 9 _ nofun rfl nofun, .tick rfl, .round rfl, .round rfl,
        trivial⟩, ?_⟩,
    ⟨[(_, _), (_, _), (_, _), (_, _), (_, _), (_, _), (_, _)], rfl,
      ⟨@TimerStep.start _ _ _ _ _ _ 9 _ nofun rfl nofun,
       @TimerStep.start _ _ _ _ _ _ 9 _ nofun rfl nofun, .tick rfl, .round rfl,
       @TimerStep.stop _ _ _ _ _ 9 _ nofun rfl nofun, .ret rfl, .round rfl, trivial⟩, ?_⟩⟩
  · intro h
    obtain ⟨t, ht, hlegal⟩ := h.last
    cases ht
    obtain ⟨c, hc, hdue⟩ := hlegal [.started 0 0 OK, .tick (2 ^ 32 - 1)] (.fired 0) [] rfl
    cases hc
    exact absurd hdue.1 (Nat.lt_irrefl 0)
  · intro h
    obtain ⟨t, ht, hlegal⟩ := h.last
    cases ht
    exact hlegal [.started 0 (2 ^ 32 - 1) OK, .tick (2 ^ 32 - 1)] .tickEnd [] rfl 0 _ rfl
      ⟨by decide, by decide⟩
  · intro h
    obtain ⟨t, ht, hlegal⟩ := h.last
    cases ht
    obtain ⟨c, hc, -⟩ := hlegal [.started 0 1 OK, .started 1 1 OK, .tick 1, .fired 1,
      .stopped 0 OK] (.fired 0) [] rfl
    cases hc

end Gendo
