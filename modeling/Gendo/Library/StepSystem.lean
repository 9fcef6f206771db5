import Mathlib.Algebra.GroupWithZero.Nat
import Mathlib.Data.List.Basic
import Mathlib.Logic.Relation

/-!
# Runs of labelled step systems

A step system is a relation `step : σ → α → σ → Prop`: from a state, a label leads to a next
state. A run from `s` is the list of labels taken, each with the state it leads to. A property
of a run is a property of each of its steps (`Along`), and the three used most are:

* `IsRun step`: every step is a step of the system;
* `Guarded guard`: every step is taken where its guard holds;
* `Always P`: every state visited, the first included, satisfies `P`.

The rules at the end are the only inductions over runs: `always_of_guarded` for an invariant that
guarded steps keep, `along_iff_guarded` for a property of steps that holds exactly where the
guard does, and `always_iff_guarded` for its form about states. Runs come to an end where a measure
goes down (`length_le`), and then some run ends in a state that no label changes
(`exists_quiet`).

A machine answers its calls, and `answers_eq_of_simulation` compares two of them.
-/

namespace StepSystem

variable {σ α : Type*}

/-- Every step of the run from `s` satisfies `Q`. -/
def Along (Q : σ → α → σ → Prop) : σ → List (α × σ) → Prop
  | _, [] => True
  | s, (a, t) :: r => Q s a t ∧ Along Q t r

/-- The run is a run of the system: every step is one of `step`. -/
def IsRun (step : σ → α → σ → Prop) (s : σ) (r : List (α × σ)) : Prop := Along step s r

/-- Every step of the run is taken in a state where `guard` allows its label. -/
def Guarded (guard : σ → α → Prop) (s : σ) (r : List (α × σ)) : Prop :=
  Along (fun s a _ => guard s a) s r

/-- Every state of the run satisfies `P`, the first included. -/
def Always (P : σ → Prop) (s : σ) (r : List (α × σ)) : Prop :=
  P s ∧ Along (fun _ _ t => P t) s r

/-- The state a run ends in. -/
def final : σ → List (α × σ) → σ
  | s, [] => s
  | _, (_, t) :: r => final t r

/-- The run of a deterministic system that takes the labels in turn. -/
def runOf (next : σ → α → σ) : σ → List α → List (α × σ)
  | _, [] => []
  | s, a :: as => (a, next s a) :: runOf next (next s a) as

/-- States reached from `init` by steps of the system. -/
inductive Reachable (step : σ → α → σ → Prop) (init : σ → Prop) : σ → Prop
  | init {s : σ} : init s → Reachable step init s
  | step {s t : σ} {a : α} : Reachable step init s → step s a t → Reachable step init t

section Along

variable {Q R : σ → α → σ → Prop} {s t : σ} {a : α} {r : List (α × σ)}

@[simp]
theorem along_cons : Along Q s ((a, t) :: r) ↔ Q s a t ∧ Along Q t r := Iff.rfl

theorem along_append {r' : List (α × σ)} :
    Along Q s (r ++ r') ↔ Along Q s r ∧ Along Q (final s r) r' := by
  induction r generalizing s with
  | nil => exact (and_iff_right trivial).symm
  | cons x r ih =>
    show _ ∧ Along Q x.2 (r ++ r') ↔ (_ ∧ Along Q x.2 r) ∧ Along Q (final x.2 r) r'
    rw [ih, and_assoc]

theorem final_append (s : σ) (r r' : List (α × σ)) : final s (r ++ r') = final (final s r) r' := by
  induction r generalizing s with
  | nil => rfl
  | cons x r ih => exact ih x.2

/-- A weaker property of steps holds along the same run. -/
theorem Along.imp (hQR : ∀ s a t, Q s a t → R s a t) (h : Along Q s r) : Along R s r := by
  induction r generalizing s with
  | nil => trivial
  | cons x r ih => exact ⟨hQR _ _ _ h.1, ih h.2⟩

/-- Two properties of the steps of a run are one. -/
theorem Along.and (hQ : Along Q s r) (hR : Along R s r) :
    Along (fun s a t => Q s a t ∧ R s a t) s r := by
  induction r generalizing s with
  | nil => trivial
  | cons x r ih => exact ⟨⟨hQ.1, hR.1⟩, ih hQ.2 hR.2⟩

instance decidableAlong [∀ s a t, Decidable (Q s a t)] :
    (s : σ) → (r : List (α × σ)) → Decidable (Along Q s r)
  | _, [] => isTrue trivial
  | s, (a, t) :: r =>
    have := decidableAlong t r
    inferInstanceAs (Decidable (Q s a t ∧ Along Q t r))

instance {guard : σ → α → Prop} [∀ s a, Decidable (guard s a)] (s : σ) (r : List (α × σ)) :
    Decidable (Guarded guard s r) := inferInstanceAs (Decidable (Along _ s r))

end Along

/-- A run takes its labels. -/
theorem guarded_of_forall {ok : α → Prop} (s : σ) {r : List (α × σ)} (h : ∀ x ∈ r, ok x.1) :
    Guarded (fun _ a => ok a) s r := by
  induction r generalizing s with
  | nil => trivial
  | cons x r ih =>
    obtain ⟨hx, hr⟩ := List.forall_mem_cons.1 h
    exact ⟨hx, ih x.2 hr⟩

/-- A run of a deterministic system takes its labels. -/
theorem guarded_runOf {ok : α → Prop} (next : σ → α → σ) (s : σ) {as : List α}
    (h : ∀ a ∈ as, ok a) : Guarded (fun _ a => ok a) s (runOf next s as) := by
  induction as generalizing s with
  | nil => trivial
  | cons a as ih =>
    obtain ⟨ha, has⟩ := List.forall_mem_cons.1 h
    exact ⟨ha, ih (next s a) has⟩

/-- A bound that every step raises by one, in a run that is not too long for it. -/
theorem guarded_runOf_of_bound {P : ℕ → σ → Prop} {next : σ → α → σ}
    (hmono : ∀ m n s, m ≤ n → P m s → P n s) (hnext : ∀ n s a, P n s → P (n + 1) (next s a))
    {n bound : ℕ} {s : σ} {as : List α} (h : P n s) (hbound : n + as.length ≤ bound) :
    Guarded (fun s _ => P bound s) s (runOf next s as) := by
  induction as generalizing n s with
  | nil => trivial
  | cons a as ih =>
    rw [List.length_cons] at hbound
    exact ⟨hmono n bound s (by omega) h, ih (hnext n s a h) (by omega)⟩

/-- What every step raises by one is raised by the length of the run. -/
theorem final_runOf_of_bound {P : ℕ → σ → Prop} {next : σ → α → σ}
    (hnext : ∀ n s a, P n s → P (n + 1) (next s a)) {n : ℕ} {s : σ} (h : P n s) (as : List α) :
    P (n + as.length) (final s (runOf next s as)) := by
  induction as generalizing n s with
  | nil => exact h
  | cons a as ih =>
    rw [List.length_cons, Nat.add_comm as.length, ← Nat.add_assoc]
    exact ih (hnext n s a h)

@[simp]
theorem length_runOf (next : σ → α → σ) (s : σ) (as : List α) :
    (runOf next s as).length = as.length := by
  induction as generalizing s with
  | nil => rfl
  | cons a as ih => rw [runOf, List.length_cons, List.length_cons, ih]

@[simp]
theorem map_fst_runOf (next : σ → α → σ) (s : σ) (as : List α) :
    (runOf next s as).map Prod.fst = as := by
  induction as generalizing s with
  | nil => rfl
  | cons a as ih => rw [runOf, List.map_cons, ih]

theorem runOf_append (next : σ → α → σ) (s : σ) (as bs : List α) :
    runOf next s (as ++ bs) = runOf next s as ++ runOf next (final s (runOf next s as)) bs := by
  induction as generalizing s with
  | nil => rfl
  | cons a as ih => exact congrArg ((a, next s a) :: ·) (ih (next s a))

/-- The run of a deterministic system is a run of its graph. -/
theorem isRun_runOf (next : σ → α → σ) (s : σ) (as : List α) :
    IsRun (fun s a t => t = next s a) s (runOf next s as) := by
  induction as generalizing s with
  | nil => trivial
  | cons a as ih => exact ⟨rfl, ih (next s a)⟩

section Rules

variable {step : σ → α → σ → Prop} {guard : σ → α → Prop} {Inv P : σ → Prop}
  {Q : σ → α → σ → Prop}

/-- An invariant kept by every step holds in every reachable state. -/
theorem Reachable.invariant {init : σ → Prop} (hinit : ∀ s, init s → Inv s)
    (hstep : ∀ s a t, Inv s → step s a t → Inv t) {s : σ} (h : Reachable step init s) :
    Inv s := by
  induction h with
  | init hs => exact hinit _ hs
  | step _ hst ih => exact hstep _ _ _ ih hst

/-- An invariant kept by every guarded step holds in every state of a guarded run. -/
theorem always_of_guarded (hstep : ∀ s a t, Inv s → guard s a → step s a t → Inv t)
    {s : σ} {r : List (α × σ)} (hs : Inv s) (hr : IsRun step s r) (hg : Guarded guard s r) :
    Always Inv s r := by
  refine ⟨hs, ?_⟩
  induction r generalizing s with
  | nil => trivial
  | cons x r ih =>
    have ht : Inv x.2 := hstep _ _ _ hs hg.1 hr.1
    exact ⟨ht, ih ht hr.2 hg.2⟩

/-- An invariant kept by every step holds in every state of a run. -/
theorem always_of_invariant (hstep : ∀ s a t, Inv s → step s a t → Inv t)
    {s : σ} {r : List (α × σ)} (hs : Inv s) (hr : IsRun step s r) : Always Inv s r := by
  have hguarded : Guarded (fun _ _ => True) s r := .imp (fun _ _ _ _ => trivial) hr
  exact always_of_guarded (fun s a t h _ hst => hstep s a t h hst) hs hr hguarded

/-- What every step does where the invariant holds, it does in a whole run. -/
theorem along_of_invariant (hstep : ∀ s a t, Inv s → step s a t → Q s a t ∧ Inv t)
    {s : σ} {r : List (α × σ)} (hs : Inv s) (hr : IsRun step s r) : Along Q s r := by
  induction r generalizing s with
  | nil => trivial
  | cons x r ih =>
    obtain ⟨hq, ht⟩ := hstep _ _ _ hs hr.1
    exact ⟨hq, ih ht hr.2⟩

/-- If, where the invariant holds, a step satisfies `Q` exactly when its guard allows it, and
then keeps the invariant, then a run satisfies `Q` at every step exactly when it is guarded. -/
theorem along_iff_guarded
    (hguard : ∀ s a t, Inv s → step s a t → guard s a → Q s a t ∧ Inv t)
    (hQ : ∀ s a t, Inv s → step s a t → Q s a t → guard s a)
    {s : σ} {r : List (α × σ)} (hs : Inv s) (hr : IsRun step s r) :
    Along Q s r ↔ Guarded guard s r := by
  induction r generalizing s with
  | nil => exact Iff.rfl
  | cons x r ih =>
    obtain ⟨a, t⟩ := x
    constructor
    · rintro ⟨hq, hrest⟩
      have hg := hQ s a t hs hr.1 hq
      exact ⟨hg, (ih (hguard s a t hs hr.1 hg).2 hr.2).1 hrest⟩
    · rintro ⟨hg, hrest⟩
      obtain ⟨hq, ht⟩ := hguard s a t hs hr.1 hg
      exact ⟨hq, (ih ht hr.2).2 hrest⟩

/-- The rule for a property of states that the invariant implies: it holds in every state of a
run exactly when the run is guarded. -/
theorem always_iff_guarded (hP : ∀ s, Inv s → P s)
    (hguard : ∀ s a t, Inv s → step s a t → guard s a → Inv t)
    (hbad : ∀ s a t, Inv s → step s a t → P t → guard s a)
    {s : σ} {r : List (α × σ)} (hs : Inv s) (hr : IsRun step s r) :
    Always P s r ↔ Guarded guard s r := by
  rw [Always, and_iff_right (hP s hs)]
  exact along_iff_guarded (fun s a t hi hst hg => ⟨hP t (hguard s a t hi hst hg),
    hguard s a t hi hst hg⟩) hbad hs hr

/-- A weaker property of states holds in every state of the same run. -/
theorem Always.imp {P' : σ → Prop} (hPP' : ∀ s, P s → P' s) {s : σ} {r : List (α × σ)}
    (h : Always P s r) : Always P' s r :=
  ⟨hPP' s h.1, h.2.imp fun _ _ t => hPP' t⟩

/-- What holds in every state of a run holds in the last one. -/
theorem Always.last {s : σ} {r : List (α × σ)} (h : Always P s r) : P (final s r) := by
  induction r generalizing s with
  | nil => exact h.1
  | cons x r ih => exact ih h.2

/-- Steps in a row are a run. -/
theorem exists_run {s t : σ} (h : Relation.ReflTransGen (fun s t => ∃ a, step s a t) s t) :
    ∃ r, IsRun step s r ∧ final s r = t := by
  induction h using Relation.ReflTransGen.head_induction_on with
  | refl => exact ⟨[], trivial, rfl⟩
  | @head s u hstep _ ih =>
    obtain ⟨a, ha⟩ := hstep
    obtain ⟨r, hr, hfinal⟩ := ih
    exact ⟨(a, u) :: r, ⟨ha, hr⟩, hfinal⟩

/-- Where every step takes one off a measure, and what it costs is put on it, a run is no longer
than the measure at its start and the costs together. -/
theorem length_le {μ : σ → ℕ} {cost : α → ℕ} {s : σ} {r : List (α × σ)}
    (h : Along (fun s a t => μ t + 1 ≤ μ s + cost a) s r) :
    r.length ≤ μ s + (r.map fun x => cost x.1).sum := by
  induction r generalizing s with
  | nil => exact Nat.zero_le _
  | cons x r ih =>
    have hstep := h.1
    have hrest := ih h.2
    rw [List.length_cons, List.map_cons, List.sum_cons]
    omega

/-- Where every step leaves no more of a measure than it found and what it costs, and pays out of it
what it gains, what was gained and what is left are no more than what there was and the costs. -/
theorem countP_add_le {μ : σ → ℕ} {gain cost : α → Bool} {s : σ} {r : List (α × σ)}
    (h : Along (fun s a t => μ t + (gain a).toNat ≤ μ s + (cost a).toNat) s r) :
    μ (final s r) + (r.map Prod.fst).countP gain ≤ μ s + (r.map Prod.fst).countP cost := by
  induction r generalizing s with
  | nil => exact Nat.le_refl _
  | cons x r ih =>
    have hstep : μ x.2 + (gain x.1).toNat ≤ μ s + (cost x.1).toNat := h.1
    have hrest := ih h.2
    rw [final, List.map_cons, List.countP_cons, List.countP_cons]
    have hunit : ∀ b : Bool, b.toNat = if b = true then 1 else 0 := by decide
    rw [hunit, hunit] at hstep
    omega

/-- Where every step takes what it puts out from the front of a buffer, and puts what it takes in at
the end, what went in came out in its order, or is in the buffer. -/
theorem flatMap_append_eq {β : Type*} {buf : σ → List β} {inn out : α → List β} {s : σ}
    {r : List (α × σ)} (h : Along (fun s a t => out a ++ buf t = buf s ++ inn a) s r) :
    (r.map Prod.fst).flatMap out ++ buf (final s r) = buf s ++ (r.map Prod.fst).flatMap inn := by
  induction r generalizing s with
  | nil => exact (List.append_nil _).symm
  | cons x r ih =>
    have hstep : out x.1 ++ buf x.2 = buf s ++ inn x.1 := h.1
    rw [final, List.map_cons, List.flatMap_cons, List.flatMap_cons, List.append_assoc, ih h.2,
      ← List.append_assoc, hstep, List.append_assoc]

/-- What is owed until it is paid, and not owed at the end, was paid on the way. -/
theorem exists_of_owed {owed : σ → Prop} {paid : α → Prop}
    (hstep : ∀ s a t, Inv s → step s a t → (owed s → paid a ∨ owed t) ∧ Inv t)
    {s : σ} {r : List (α × σ)} (hs : Inv s) (hr : IsRun step s r) (howed : owed s)
    (hend : ¬owed (final s r)) : ∃ x ∈ r, paid x.1 := by
  induction r generalizing s with
  | nil => exact absurd howed hend
  | cons x r ih =>
    obtain ⟨hkeep, ht⟩ := hstep _ _ _ hs hr.1
    rcases hkeep howed with hpaid | howed'
    · exact ⟨x, List.mem_cons_self, hpaid⟩
    · obtain ⟨y, hy, hpaid⟩ := ih ht hr.2 howed' hend
      exact ⟨y, List.mem_cons_of_mem x hy, hpaid⟩

/-- The rule for a deterministic system. -/
theorem length_runOf_le {μ : σ → ℕ} {cost : α → ℕ} {next : σ → α → σ} {s : σ} {as : List α}
    (h : Along (fun s a t => μ t + 1 ≤ μ s + cost a) s (runOf next s as)) :
    as.length ≤ μ s + (as.map cost).sum := by
  have hlen := length_le h
  have hcost := congrArg (List.map cost) (map_fst_runOf next s as)
  rw [List.map_map] at hcost
  rwa [length_runOf, ← Function.comp_def, hcost] at hlen

end Rules

section Quiet

variable {next : σ → α → σ} {ok : α → Prop} {s : σ}

/-- The labels are allowed, and each of them changes the state. -/
def Changing (next : σ → α → σ) (ok : α → Prop) (s : σ) (as : List α) : Prop :=
  (∀ a ∈ as, ok a) ∧ Along (fun s _ t => t ≠ s) s (runOf next s as)

/-- No allowed label changes the state. -/
def Quiet (next : σ → α → σ) (ok : α → Prop) (s : σ) : Prop := ∀ a, ok a → next s a = s

/-- Where no run changes the state more often than a bound says, some run ends quietly. -/
theorem exists_quiet {B : ℕ} (hB : ∀ as, Changing next ok s as → as.length ≤ B) :
    ∃ as, Changing next ok s as ∧ Quiet next ok (final s (runOf next s as)) := by
  induction B generalizing s with
  | zero =>
    refine ⟨[], ⟨by simp, trivial⟩, fun a ha => ?_⟩
    by_contra hne
    have hle := hB [a] ⟨by simpa using ha, hne, trivial⟩
    exact absurd hle (by simp)
  | succ B ih =>
    by_cases hquiet : Quiet next ok s
    · exact ⟨[], ⟨by simp, trivial⟩, hquiet⟩
    · obtain ⟨a, ha, hne⟩ : ∃ a, ok a ∧ next s a ≠ s := by
        simpa [Quiet] using hquiet
      obtain ⟨as, has, hend⟩ := ih (s := next s a) fun as has => by
        have hle := hB (a :: as) ⟨List.forall_mem_cons.2 ⟨ha, has.1⟩, hne, has.2⟩
        rw [List.length_cons] at hle
        omega
      exact ⟨a :: as, ⟨List.forall_mem_cons.2 ⟨ha, has.1⟩, hne, has.2⟩, hend⟩

end Quiet

section Answers

variable {τ β : Type*} {call : σ → α → β × σ} {call' : τ → α → β × τ}

/-- What a machine answers to the calls, and the state that it is in then. -/
def answers (call : σ → α → β × σ) : σ → List α → List β × σ
  | s, [] => ([], s)
  | s, a :: as => ((call s a).1 :: (answers call (call s a).2 as).1,
    (answers call (call s a).2 as).2)

theorem answers_append (s : σ) (as bs : List α) :
    answers call s (as ++ bs) = ((answers call s as).1 ++ (answers call (answers call s as).2 bs).1,
      (answers call (answers call s as).2 bs).2) := by
  induction as generalizing s with
  | nil => rfl
  | cons a as ih => rw [List.cons_append, answers, ih, answers, List.cons_append]

@[simp]
theorem length_answers (s : σ) (as : List α) : (answers call s as).1.length = as.length := by
  induction as generalizing s with
  | nil => rfl
  | cons a as ih => rw [answers, List.length_cons, List.length_cons, ih]

/-- A machine that gives the same answer as another in related states, and leads to related
states, gives the same answers. -/
theorem answers_eq_of_simulation {Rel : σ → τ → Prop}
    (hcall : ∀ s t a, Rel s t → (call s a).1 = (call' t a).1 ∧ Rel (call s a).2 (call' t a).2)
    {s : σ} {t : τ} (h : Rel s t) (as : List α) :
    (answers call s as).1 = (answers call' t as).1 ∧
      Rel (answers call s as).2 (answers call' t as).2 := by
  induction as generalizing s t with
  | nil => exact ⟨rfl, h⟩
  | cons a as ih =>
    obtain ⟨hanswer, hrel⟩ := hcall s t a h
    obtain ⟨hrest, hend⟩ := ih hrel
    exact ⟨congrArg₂ List.cons hanswer hrest, hend⟩

/-- The same for a machine that may fail in a call. -/
def tryAnswers {ε : Type*} (call : σ → α → Except ε (β × σ)) :
    σ → List α → Except ε (List β × σ)
  | s, [] => .ok ([], s)
  | s, a :: as => do
    let (b, s) ← call s a
    let (bs, s) ← tryAnswers call s as
    return (b :: bs, s)

/-- Where a machine that never fails allows every call, one that does the same on such calls does
not fail. -/
theorem tryAnswers_eq_of_simulation {ε : Type*} {call : σ → α → Except ε (β × σ)}
    {ok : τ → α → Prop} {Rel : σ → τ → Prop}
    (hcall : ∀ s t a, Rel s t → ok t a →
      ∃ s', call s a = .ok ((call' t a).1, s') ∧ Rel s' (call' t a).2)
    {s : σ} {t : τ} (h : Rel s t) {as : List α}
    (hok : Guarded ok t (runOf (fun t a => (call' t a).2) t as)) :
    ∃ s', tryAnswers call s as = .ok ((answers call' t as).1, s') ∧
      Rel s' (answers call' t as).2 := by
  induction as generalizing s t with
  | nil => exact ⟨s, rfl, h⟩
  | cons a as ih =>
    obtain ⟨s₁, hfirst, hrel⟩ := hcall s t a h hok.1
    obtain ⟨s₂, hrest, hend⟩ := ih hrel hok.2
    refine ⟨s₂, ?_, hend⟩
    rw [tryAnswers, hfirst]
    show (tryAnswers call s₁ as >>= fun r => _) = _
    rw [hrest]
    rfl

theorem tryAnswers_append {ε : Type*} {call : σ → α → Except ε (β × σ)} {s s₁ s₂ : σ}
    {as bs : List α} {xs ys : List β} (hfirst : tryAnswers call s as = .ok (xs, s₁))
    (hrest : tryAnswers call s₁ bs = .ok (ys, s₂)) :
    tryAnswers call s (as ++ bs) = .ok (xs ++ ys, s₂) := by
  induction as generalizing s xs with
  | nil =>
    obtain ⟨rfl, rfl⟩ := Prod.mk.inj (Except.ok.inj hfirst)
    exact hrest
  | cons a as ih =>
    rw [tryAnswers] at hfirst
    rw [List.cons_append, tryAnswers]
    cases hcall : call s a with
    | error e =>
      rw [hcall] at hfirst
      cases hfirst
    | ok p =>
      obtain ⟨b, s'⟩ := p
      rw [hcall] at hfirst
      change (tryAnswers call s' as >>= fun r => pure (b :: r.1, r.2)) = _ at hfirst
      show (tryAnswers call s' (as ++ bs) >>= fun r => pure (b :: r.1, r.2)) = _
      cases htail : tryAnswers call s' as with
      | error e =>
        rw [htail] at hfirst
        cases hfirst
      | ok p =>
        obtain ⟨zs, t⟩ := p
        rw [htail] at hfirst
        obtain ⟨rfl, rfl⟩ := Prod.mk.inj (Except.ok.inj hfirst)
        rw [ih htail]
        rfl

/-- A machine whose calls are those of another one. -/
theorem tryAnswers_map {ε γ : Type*} {call : σ → α → Except ε (β × σ)} (f : γ → α) (s : σ)
    (cs : List γ) :
    tryAnswers call s (cs.map f) = tryAnswers (fun s c => call s (f c)) s cs := by
  induction cs generalizing s with
  | nil => rfl
  | cons c cs ih =>
    rw [List.map_cons, tryAnswers, tryAnswers]
    simp only [ih]

/-- The state after the answers is the one that the calls lead to. -/
theorem answers_snd {call : σ → α → β × σ} (s : σ) (as : List α) :
    (answers call s as).2 = final s (runOf (fun s a => (call s a).2) s as) := by
  induction as generalizing s with
  | nil => rfl
  | cons a as ih => exact ih (call s a).2

end Answers

end StepSystem
