import Mathlib.Data.List.Basic

/-!
# Pieces between separators

`pieces sep l` are the pieces that a list consists of between its separators, where a separator at
the end has none behind it. Joined again they give back the list without that separator
(`intercalate_pieces`). `pieces_induction` cuts a list at its first separator, as a loop does.
-/

namespace Pieces

variable {α : Type*} [DecidableEq α] {sep : α}

/-- The pieces between separators, the last of which is not empty. -/
def pieces (sep : α) (l : List α) : List (List α) :=
  let ps := l.splitOn sep
  if ps.getLast? = some [] then ps.dropLast else ps

theorem pieces_of_not_mem {l : List α} (h : sep ∉ l) :
    pieces sep l = if l = [] then [] else [l] := by
  rw [pieces, List.splitOn_eq_singleton h]
  simp

theorem pieces_append_cons {l : List α} (h : sep ∉ l) (rest : List α) :
    pieces sep (l ++ sep :: rest) = l :: pieces sep rest := by
  have hne := List.splitOn_ne_nil sep rest
  rw [pieces, pieces, List.splitOn_append_cons_self_of_not_mem h]
  rw [List.getLast?_cons_of_ne_nil hne]
  split_ifs
  · exact List.dropLast_cons_of_ne_nil hne
  · rfl

/-- A list has no separator, or a first one. -/
theorem pieces_induction (sep : α) {P : List α → Prop} (single : ∀ l, sep ∉ l → P l)
    (cut : ∀ l rest, sep ∉ l → P rest → P (l ++ sep :: rest)) (l : List α) : P l := by
  by_cases hmem : sep ∈ l
  · obtain ⟨front, rest, rfl, hfront⟩ := List.eq_append_cons_of_mem hmem
    exact cut front rest hfront (pieces_induction sep single cut rest)
  · exact single l hmem
termination_by l.length
decreasing_by
  subst l
  simp only [List.length_append, List.length_cons]
  omega

theorem pieces_eq_nil_iff {l : List α} : pieces sep l = [] ↔ l = [] := by
  induction l using pieces_induction sep with
  | single l h =>
    rw [pieces_of_not_mem h]
    split_ifs with hnil <;> simp [hnil]
  | cut l rest h _ => simp [pieces_append_cons h]

/-- Joined again, the pieces are the list up to a separator at its end. -/
theorem intercalate_pieces (l : List α) :
    [sep].intercalate (pieces sep l) = l ∨ [sep].intercalate (pieces sep l) ++ [sep] = l := by
  induction l using pieces_induction sep with
  | single l h =>
    rw [pieces_of_not_mem h]
    split_ifs with hnil <;> simp [hnil]
  | cut l rest h ih =>
    rw [pieces_append_cons h]
    by_cases hrest : rest = []
    · subst hrest
      exact .inr (by simp [pieces])
    · rw [List.intercalate_cons_of_ne_nil (mt pieces_eq_nil_iff.mp hrest)]
      refine ih.imp (fun hih => ?_) fun hih => ?_
      · rw [hih, List.append_assoc, List.singleton_append]
      · rw [List.append_assoc, List.append_assoc, hih, List.singleton_append]

end Pieces
