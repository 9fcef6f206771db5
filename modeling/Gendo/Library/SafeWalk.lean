import Mathlib.Data.List.Basic

/-!
# Walks over a list that changes

A walk that saves the next node before it does something with the node it is at goes on from the
node it saved, in the list as it is by then. What is still ahead of it is what is behind that
position: a node that is put at the head is not, and a node is no longer when it is deleted, as
long as it is not the very node that was saved.
-/

namespace SafeWalk

variable {ν : Type*} [DecidableEq ν] {l : List ν} {a d : ν} {pos : Option ν}

/-- The nodes from a position on. `none` is the end. -/
def ahead (l : List ν) : Option ν → List ν
  | none => []
  | some a => l.dropWhile (· ≠ a)

/-- The position behind a node. -/
def succ (l : List ν) (a : ν) : Option ν := (ahead l (some a)).tail.head?

@[simp]
theorem ahead_none : ahead l none = [] := rfl

theorem ahead_append_cons {front rest : List ν} (h : a ∉ front) :
    ahead (front ++ a :: rest) (some a) = a :: rest := by
  rw [ahead, List.dropWhile_append_of_pos, List.dropWhile_cons_of_neg (by simp)]
  intro x hx
  simpa using ne_of_mem_of_not_mem hx h

/-- A walk begins with the whole list. -/
@[simp]
theorem ahead_head? (l : List ν) : ahead l l.head? = l := by
  rcases l with _ | ⟨a, rest⟩
  · rfl
  · exact ahead_append_cons List.not_mem_nil

/-- It goes on behind the node that it is at. -/
theorem ahead_succ (hl : l.Nodup) (ha : a ∈ l) :
    ahead l (some a) = a :: ahead l (succ l a) := by
  obtain ⟨front, rest, rfl⟩ := List.append_of_mem ha
  have hfront : a ∉ front := fun h =>
    (List.nodup_append.mp hl).2.2 a h a List.mem_cons_self rfl
  rw [succ, ahead_append_cons hfront, List.tail_cons]
  rcases rest with _ | ⟨b, rest⟩
  · rfl
  · -- the next node is neither this one nor before it
    have hb : b ∉ front ++ [a] := by
      intro h
      rw [List.append_cons] at hl
      exact (List.nodup_append.mp hl).2.2 b h b List.mem_cons_self rfl
    rw [List.head?_cons, List.append_cons, ahead_append_cons hb]

theorem ahead_sublist (l : List ν) (pos : Option ν) : (ahead l pos).Sublist l := by
  rcases pos with _ | a
  · exact List.nil_sublist l
  · exact List.dropWhile_sublist _

theorem mem_of_succ (h : succ l a = some d) : d ∈ l :=
  (ahead_sublist l (some a)).subset (List.mem_of_mem_tail (List.mem_of_mem_head? h))

/-- A node put at the head is not ahead. -/
theorem ahead_cons (h : pos ≠ some d) : ahead (d :: l) pos = ahead l pos := by
  rcases pos with _ | a
  · rfl
  · have hda : d ≠ a := fun hda => h (congrArg some hda.symm)
    rw [ahead, ahead, List.dropWhile_cons_of_pos]
    simpa using hda

/-- A node that is deleted is not ahead, and the others are. -/
theorem ahead_filter (h : pos ≠ some d) :
    ahead (l.filter (· ≠ d)) pos = (ahead l pos).filter (· ≠ d) := by
  rcases pos with _ | a
  · rfl
  · have had : a ≠ d := fun hadd => h (congrArg some hadd)
    induction l with
    | nil => rfl
    | cons x l ih =>
      rw [ahead, ahead] at *
      by_cases hxa : x = a
      · subst hxa
        rw [List.filter_cons_of_pos (by simpa using had), List.dropWhile_cons_of_neg (by simp),
          List.dropWhile_cons_of_neg (by simp), List.filter_cons_of_pos (by simpa using had)]
      · rw [List.dropWhile_cons_of_pos (by simpa using hxa), ← ih, List.filter_cons]
        split
        · exact List.dropWhile_cons_of_pos (by simpa using hxa)
        · rfl

end SafeWalk
