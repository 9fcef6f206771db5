import Mathlib.Data.List.Basic
import Mathlib.Data.List.Forall2
import Mathlib.Tactic.Common

/-!
# Passes over rows

A pass reads rows up to the one that it looks for. It tidies the rows that it reads, and writes the
one that it finds. `findFrom` is a search that has to meet one mark before another.

After several passes a row holds what the last pass that found it has written: `view_foldl_touch`
says so for any view of a row that does not see whether the row is tidy.
-/

namespace RowPasses

/-! ## Finding a row -/

section

variable {α : Type*} {p q : α → Bool} {x : α} {xs ys : List α} {flag : Bool} {i : ℕ}

/-- Where `q` holds first, from the first place on where `p` holds. -/
def findFrom (p q : α → Bool) (xs : List α) : Option ℕ :=
  (xs.findIdx? p).bind fun j => ((xs.drop j).findIdx? q).map fun k => j + k

/-- Where `q` holds first, if the flag is set, and otherwise from where `p` holds on. -/
def findFlag (p q : α → Bool) (flag : Bool) (xs : List α) : Option ℕ :=
  if flag then xs.findIdx? q else findFrom p q xs

theorem findFlag_nil (p q : α → Bool) (flag : Bool) : findFlag p q flag [] = none := by
  cases flag with
  | false => rfl
  | true => rfl

/-- The flag is set where `p` holds. -/
theorem findFlag_cons :
    findFlag p q flag (x :: xs) =
      if (flag || p x) && q x then some 0
      else (findFlag p q (flag || p x) xs).map fun k => k + 1 := by
  have hset : (x :: xs).findIdx? q =
      if q x then some 0 else (xs.findIdx? q).map fun k => k + 1 := List.findIdx?_cons
  cases flag with
  | true => simpa only [findFlag, Bool.true_or, Bool.true_and, if_true] using hset
  | false =>
    rcases hp : p x with _ | _
    · simp only [findFlag, Bool.or_false, Bool.false_and, Bool.false_eq_true, if_false, findFrom,
        List.findIdx?_cons, hp]
      rcases xs.findIdx? p with _ | j
      · rfl
      · rw [Option.map_some, Option.bind_some, Option.bind_some, List.drop_succ_cons,
          Option.map_map]
        exact congrArg (fun g => Option.map g _) (funext fun k => Nat.succ_add j k)
    · have hfirst : findFlag p q false (x :: xs) = (x :: xs).findIdx? q := by
        simp [findFlag, findFrom, List.findIdx?_cons, hp]
      rw [hfirst, hset]
      rfl

/-- Only the marks matter. -/
theorem findFlag_congr {β : Type*} {p' q' : β → Bool} {zs : List β}
    (h : List.Forall₂ (fun x z => p x = p' z ∧ q x = q' z) xs zs) (flag : Bool) :
    findFlag p q flag xs = findFlag p' q' flag zs := by
  induction h generalizing flag with
  | nil => rw [findFlag_nil, findFlag_nil]
  | cons hmarks _ ih => rw [findFlag_cons, findFlag_cons, hmarks.1, hmarks.2, ih]

end

/-! ## Passes -/

/-- A pass: the row that it finds, and what it writes there. -/
structure Pass (ρ : Type*) where
  found : Option ℕ
  stamp : ρ

namespace Pass

variable {ρ : Type*} {tidy : ρ → ρ} {p : Pass ρ} {ps : List (Pass ρ)} {r : ρ} {rs : List ρ} {i : ℕ}

/-- The row is not behind the one that is found. -/
def Reads (p : Pass ρ) (i : ℕ) : Prop := ∀ f ∈ p.found, i ≤ f

instance (p : Pass ρ) (i : ℕ) : Decidable (p.Reads i) :=
  p.found.decidableForallMem

/-- What a pass makes of a row. -/
def touch (tidy : ρ → ρ) (p : Pass ρ) (i : ℕ) (r : ρ) : ρ :=
  if p.found = some i then p.stamp else if p.Reads i then tidy r else r

/-- What a pass makes of the rows. -/
def run (tidy : ρ → ρ) (p : Pass ρ) (rs : List ρ) : List ρ := rs.mapIdx fun i r => p.touch tidy i r

theorem reads_of_found (h : p.found = some i) : p.Reads i := by
  intro f hf
  rw [h] at hf
  cases hf
  exact Nat.le_refl i

/-- What is written, and what tidying keeps, is kept by a pass. -/
theorem touch_keeps {P : ρ → Prop} (htidy : P r → P (tidy r)) (hstamp : P p.stamp) (hr : P r) :
    P (p.touch tidy i r) := by
  rw [touch]
  split_ifs
  · exact hstamp
  · exact htidy hr
  · exact hr

theorem length_run : (p.run tidy rs).length = rs.length := List.length_mapIdx

theorem getElem?_run : (p.run tidy rs)[i]? = rs[i]?.map (p.touch tidy i) := List.getElem?_mapIdx

/-- A relation to other rows is kept, if it is kept row by row. -/
theorem forall₂_run {α : Type*} {R : α → ρ → Prop} {xs : List α} (h : List.Forall₂ R xs rs)
    (htouch : ∀ i x r, xs[i]? = some x → R x r → R x (p.touch tidy i r)) :
    List.Forall₂ R xs (p.run tidy rs) := by
  obtain ⟨hlen, hall⟩ := List.forall₂_iff_get.1 h
  refine List.forall₂_iff_get.2 ⟨hlen.trans length_run.symm, fun i hi hi' => ?_⟩
  rw [length_run] at hi'
  have hrow := htouch i xs[i] rs[i] (List.getElem?_eq_getElem hi) (hall i hi hi')
  simpa [run] using hrow

/-- A pass that finds the first row reads no other. -/
theorem run_cons_of_zero {s : ρ} : (Pass.mk (some 0) s).run tidy (r :: rs) = s :: rs := by
  rw [run, List.mapIdx_cons]
  congr 1
  refine List.ext_getElem? fun i => ?_
  rw [List.getElem?_mapIdx]
  have hbehind : ∀ r, (Pass.mk (some 0) s).touch tidy (i + 1) r = r := by
    intro r
    rw [touch, if_neg (by simp), if_neg]
    intro hreads
    exact absurd (hreads 0 rfl) (by omega)
  rcases rs[i]? with _ | r
  · rfl
  · exact congrArg some (hbehind r)

/-- A pass that does not find the first row goes on with the others. -/
theorem run_cons_of_succ {f : Option ℕ} {s : ρ} :
    (Pass.mk (f.map fun k => k + 1) s).run tidy (r :: rs) =
      tidy r :: (Pass.mk f s).run tidy rs := by
  rw [run, List.mapIdx_cons, run]
  congr 1
  · rw [touch, if_neg, if_pos]
    · intro k _
      exact Nat.zero_le k
    · rcases f with _ | f <;> simp
  · congr 1
    funext i r
    rcases f with _ | f <;> simp [touch, Reads]

/-- Several passes, row by row. -/
theorem foldl_run (ps : List (Pass ρ)) (rs : List ρ) :
    ps.foldl (fun rs p => p.run tidy rs) rs =
      rs.mapIdx fun i r => ps.foldl (fun r p => p.touch tidy i r) r := by
  induction ps generalizing rs with
  | nil => exact (List.ext_getElem? fun i => by simp).symm
  | cons p ps ih =>
    rw [List.foldl_cons, ih, run, List.mapIdx_mapIdx]
    rfl

/-- The last pass that finds a row. -/
def writer (ps : List (Pass ρ)) (i : ℕ) : Option (Pass ρ) :=
  (ps.filter fun p => p.found = some i).getLast?

/-- A row is as the last pass that found it has written it, up to tidying. -/
theorem view_foldl_touch {β : Type*} {view : ρ → β} (htidy : ∀ r, view (tidy r) = view r)
    (ps : List (Pass ρ)) (i : ℕ) (r : ρ) :
    view (ps.foldl (fun r p => p.touch tidy i r) r) =
      (writer ps i).elim (view r) fun p => view p.stamp := by
  induction ps generalizing r with
  | nil => rfl
  | cons p ps ih =>
    rw [List.foldl_cons, ih, writer, writer]
    by_cases hfound : p.found = some i
    · rw [List.filter_cons_of_pos (by simpa using hfound), List.getLast?_cons, touch, if_pos hfound]
      rcases hlast : (ps.filter fun p => p.found = some i).getLast? with _ | last
      · rw [hlast]
        rfl
      · rw [hlast]
        rfl
    · have hview : view (p.touch tidy i r) = view r := by
        rw [touch, if_neg hfound]
        split_ifs
        · exact htidy r
        · rfl
      rw [List.filter_cons_of_neg (by simpa using hfound), hview]

/-- A row that no pass reads stays as it is. -/
theorem foldl_touch_of_not_reads (h : ∀ p ∈ ps, ¬p.Reads i) (r : ρ) :
    ps.foldl (fun r p => p.touch tidy i r) r = r := by
  induction ps generalizing r with
  | nil => rfl
  | cons p ps ih =>
    obtain ⟨hp, hps⟩ := List.forall_mem_cons.1 h
    rw [List.foldl_cons, touch, if_neg fun hfound => hp (reads_of_found hfound), if_neg hp]
    exact ih hps r

/-- What tidying keeps, and what holds of what is written, is kept. -/
theorem foldl_touch_keeps {P : ρ → Prop} (htidy : ∀ r, P r → P (tidy r))
    (hstamp : ∀ p ∈ ps, P p.stamp) (hr : P r) :
    P (ps.foldl (fun r p => p.touch tidy i r) r) := by
  induction ps generalizing r with
  | nil => exact hr
  | cons p ps ih =>
    obtain ⟨hp, hps⟩ := List.forall_mem_cons.1 hstamp
    exact ih hps (touch_keeps (htidy r) hp hr)

/-- A row that is read is tidy, or as it was written. -/
theorem foldl_touch_of_reads {P Q : ρ → Prop} (htidy : ∀ r, Q r → P (tidy r))
    (hle : ∀ r, P r → Q r) (hstamp : ∀ p ∈ ps, P p.stamp) (h : ∃ p ∈ ps, p.Reads i) (hr : Q r) :
    P (ps.foldl (fun r p => p.touch tidy i r) r) := by
  have hkeep : ∀ r, P r → P (tidy r) := fun r hr => htidy r (hle r hr)
  induction ps generalizing r with
  | nil =>
    obtain ⟨p, hp, _⟩ := h
    cases hp
  | cons p ps ih =>
    obtain ⟨hp, hps⟩ := List.forall_mem_cons.1 hstamp
    rw [List.foldl_cons]
    by_cases hreads : p.Reads i
    · have htouch : P (p.touch tidy i r) := by
        rw [touch, if_pos hreads]
        split_ifs
        · exact hp
        · exact htidy r hr
      exact foldl_touch_keeps hkeep hps htouch
    · -- the row is as it was
      rw [touch, if_neg fun hfound => hreads (reads_of_found hfound), if_neg hreads]
      obtain ⟨p', hp', hreads'⟩ := h
      refine ih hps ⟨p', (List.mem_cons.1 hp').resolve_left ?_, hreads'⟩ hr
      rintro rfl
      exact hreads hreads'

end Pass

end RowPasses
