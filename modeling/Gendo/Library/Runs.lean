import Mathlib.Data.List.DropRight

/-!
# Runs between separators

`runs p l` are the maximal runs of elements of a list that are no separators: what `List.splitOnP`
leaves, without the empty lists, which it leaves between two separators and at the ends. A
separator cuts the runs in two (`runs_append_cons`), so that separators at either end change nothing
(`runs_dropWhile`, `runs_rdropWhile`).
-/

namespace Runs

variable {α : Type*} {p : α → Bool} {l w : List α}

/-- The maximal runs of elements that do not satisfy `p`. -/
def runs (p : α → Bool) (l : List α) : List (List α) := (l.splitOnP p).filter (· ≠ [])

/-- The runs in front of a separator, and those behind it. -/
theorem runs_append_cons {s : α} (hs : p s) (a b : List α) :
    runs p (a ++ s :: b) = runs p a ++ runs p b := by
  rw [runs, List.splitOnP_append_cons a b hs, List.filter_append]
  rfl

@[simp]
theorem runs_nil : runs p [] = [] := by simp [runs]

theorem runs_cons_of_pos {s : α} (hs : p s) (l : List α) : runs p (s :: l) = runs p l := by
  simpa using runs_append_cons hs [] l

/-- A list without separators is its only run. -/
theorem runs_of_forall_not (hne : w ≠ []) (hw : ∀ c ∈ w, p c = false) : runs p w = [w] := by
  rw [runs, List.splitOnP_eq_singleton hw]
  simp [hne]

/-- Up to its first separator, a list is its first run. -/
theorem runs_run_append {s : α} (hne : w ≠ []) (hw : ∀ c ∈ w, p c = false) (hs : p s)
    (b : List α) : runs p (w ++ s :: b) = w :: runs p b := by
  rw [runs_append_cons hs, runs_of_forall_not hne hw, List.singleton_append]

/-! ## Separators at the ends -/

theorem runs_dropWhile (p : α → Bool) (l : List α) : runs p (l.dropWhile p) = runs p l := by
  induction l with
  | nil => rfl
  | cons c l ih =>
    by_cases hc : p c
    · rw [List.dropWhile_cons_of_pos hc, ih, runs_cons_of_pos hc]
    · rw [List.dropWhile_cons_of_neg hc]

theorem runs_rdropWhile (p : α → Bool) (l : List α) : runs p (l.rdropWhile p) = runs p l := by
  induction l using List.reverseRecOn with
  | nil => rfl
  | append_singleton l c ih =>
    by_cases hc : p c
    · rw [List.rdropWhile_concat_pos _ _ _ hc, ih, runs_append_cons hc, runs_nil, List.append_nil]
    · rw [List.rdropWhile_concat_neg _ _ _ hc]

/-- Behind the separators at the beginning there is a run, or nothing. -/
theorem dropWhile_eq_nil_of_takeWhile (h : (l.dropWhile p).takeWhile (fun c => !p c) = []) :
    l.dropWhile p = [] := by
  have hhead := List.head?_dropWhile_not p l
  generalize l.dropWhile p = body at *
  rcases body with _ | ⟨c, body⟩
  · rfl
  · have hc : p c = false := by simpa using hhead
    simp [hc] at h

/-- The first run, and those behind the separator that ends it. -/
theorem runs_eq (p : α → Bool) (l : List α) :
    runs p l =
      if (l.dropWhile p).takeWhile (fun c => !p c) = [] then []
      else (l.dropWhile p).takeWhile (fun c => !p c) ::
        runs p (((l.dropWhile p).dropWhile fun c => !p c).drop 1) := by
  have hnil := dropWhile_eq_nil_of_takeWhile (p := p) (l := l)
  rw [← runs_dropWhile p l]
  generalize l.dropWhile p = body at hnil
  have hcut : body.takeWhile (fun c => !p c) ++ body.dropWhile (fun c => !p c) = body :=
    List.takeWhile_append_dropWhile
  have hnone : ∀ c ∈ body.takeWhile (fun c => !p c), p c = false := by
    intro c hc
    simpa using List.mem_takeWhile_imp hc
  have hend := List.head?_dropWhile_not (fun c => !p c) body
  split_ifs with hrun
  · rw [hnil hrun, runs_nil]
  · -- behind the run there is nothing, or a separator
    rcases hback : body.dropWhile fun c => !p c with _ | ⟨s, back⟩
    · rw [hback, List.append_nil] at hcut
      rw [List.drop_nil, runs_nil, ← runs_of_forall_not hrun hnone, hcut]
    · have hs : p s := by simpa [hback] using hend
      rw [hback] at hcut
      rw [List.drop_one, List.tail_cons, ← runs_run_append hrun hnone hs, hcut]

theorem ne_nil_of_mem_runs (h : w ∈ runs p l) : w ≠ [] := by
  simpa using (List.mem_filter.1 h).2

/-- Separators in front of a run, if there is anything, leave it a run. -/
theorem getLast?_runs_append {front : List α} (hfront : ∀ hl : front ≠ [], p (front.getLast hl))
    (hne : w ≠ []) (hw : ∀ c ∈ w, p c = false) : (runs p (front ++ w)).getLast? = some w := by
  rcases List.eq_nil_or_concat front with rfl | ⟨front, s, rfl⟩
  · rw [List.nil_append, runs_of_forall_not hne hw]
    rfl
  · have hs : p s := by simpa using hfront
    rw [List.concat_append, runs_append_cons hs, runs_of_forall_not hne hw, List.getLast?_concat]

/-- The last run is what stands at the end of the list without the separators there. -/
theorem getLast?_runs (hne : l.rdropWhile p ≠ []) :
    (runs p l).getLast? = some ((l.rdropWhile p).rtakeWhile fun c => !p c) := by
  have hlast := List.rdropWhile_last_not p l hne
  rw [← runs_rdropWhile]
  generalize l.rdropWhile p = body at hne hlast
  have hrun : body.rtakeWhile (fun c => !p c) ≠ [] := by
    rw [Ne, List.rtakeWhile_eq_nil_iff]
    intro h
    exact h hne (by simpa using hlast)
  have hnone : ∀ c ∈ body.rtakeWhile (fun c => !p c), p c = false := by
    intro c hc
    simpa using List.mem_rtakeWhile_imp hc
  -- what stands in front of the run ends with a separator, as the run is the longest one
  have hfront : ∀ hl : body.rdropWhile (fun c => !p c) ≠ [],
      p ((body.rdropWhile fun c => !p c).getLast hl) := by
    intro hl
    simpa using List.rdropWhile_last_not (fun c => !p c) body hl
  rw [← getLast?_runs_append hfront hrun hnone, List.rdropWhile_append_rtakeWhile]

end Runs
