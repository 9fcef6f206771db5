import Mathlib.Algebra.BigOperators.Group.List.Basic

/-!
# Weighing the entries of a list

Threads, handles and jobs are lists of states, and a step changes one entry. `total w` adds up
what the entries weigh, and `count p` is the number of entries with a property. How a step
changes them is an equation between the two entries alone (`total_set`, `count_set`), stated
without subtraction so that `omega` can use it.
-/

namespace Tally

variable {α M : Type*} [AddCommMonoid M]

/-- What the entries weigh together. -/
def total (w : α → M) (l : List α) : M := (l.map w).sum

/-- The number of entries with a property. -/
def count (p : α → Bool) (l : List α) : ℕ := total (fun a => (p a).toNat) l

section total

variable (w : α → M)

@[simp]
theorem total_nil : total w [] = 0 := rfl

@[simp]
theorem total_cons (a : α) (l : List α) : total w (a :: l) = w a + total w l := by
  simp [total]

@[simp]
theorem total_append (l l' : List α) : total w (l ++ l') = total w l + total w l' := by
  simp [total]

/-- An entry that is replaced takes its weight away and brings the new one. -/
theorem total_set {l : List α} {i : ℕ} {a : α} (h : l[i]? = some a) (b : α) :
    total w (l.set i b) + w a = total w l + w b := by
  induction l generalizing i with
  | nil => simp at h
  | cons x l ih =>
    cases i with
    | zero =>
      obtain rfl : x = a := by simpa using h
      rw [List.set_cons_zero, total_cons, total_cons, add_right_comm, add_comm (w b),
        add_right_comm]
    | succ i =>
      have hi : l[i]? = some a := by simpa using h
      rw [List.set_cons_succ, total_cons, total_cons, add_assoc, ih hi, add_assoc]

/-- Where the new entry weighs as much as the old one, nothing changes. -/
theorem total_set_of_eq {l : List α} {i : ℕ} {a b : α} (h : l[i]? = some a) (hw : w b = w a) :
    total w (l.set i b) = total w l := by
  induction l generalizing i with
  | nil => simp at h
  | cons x l ih =>
    cases i with
    | zero =>
      obtain rfl : x = a := by simpa using h
      rw [List.set_cons_zero, total_cons, total_cons, hw]
    | succ i =>
      have hi : l[i]? = some a := by simpa using h
      rw [List.set_cons_succ, total_cons, total_cons, ih hi]

/-- Entries that weigh the same under two weights do so together. -/
theorem total_congr {w w' : α → M} {l : List α} (h : ∀ a ∈ l, w a = w' a) :
    total w l = total w' l := by
  rw [total, total, List.map_congr_left h]

/-- Entries of no weight have none together. -/
theorem total_eq_zero {w : α → M} {l : List α} (h : ∀ a ∈ l, w a = 0) : total w l = 0 := by
  rw [total_congr h]
  simp [total]

/-- The order of the entries does not matter. -/
theorem total_perm {l l' : List α} (h : l.Perm l') : total w l = total w l' :=
  (h.map w).sum_eq

/-- An entry weighs at most what all of them do. -/
theorem le_total (w : α → ℕ) {l : List α} {i : ℕ} {a : α} (h : l[i]? = some a) :
    w a ≤ total w l := by
  obtain ⟨l₁, l₂, rfl⟩ := List.append_of_mem (List.mem_of_getElem? h)
  rw [total_append, total_cons]
  omega

end total

section count

variable (p : α → Bool)

@[simp]
theorem count_nil : count p [] = 0 := rfl

@[simp]
theorem count_cons (a : α) (l : List α) : count p (a :: l) = (p a).toNat + count p l :=
  total_cons _ a l

@[simp]
theorem count_append (l l' : List α) : count p (l ++ l') = count p l + count p l' :=
  total_append _ l l'

/-- An entry that is replaced counts no longer, and the new one does. -/
theorem count_set {l : List α} {i : ℕ} {a : α} (h : l[i]? = some a) (b : α) :
    count p (l.set i b) + (p a).toNat = count p l + (p b).toNat :=
  total_set _ h b

/-- The order of the entries does not matter. -/
theorem count_perm {l l' : List α} (h : l.Perm l') : count p l = count p l' :=
  total_perm _ h

/-- An entry with the property is counted. -/
theorem count_pos {l : List α} {i : ℕ} {a : α} (h : l[i]? = some a) (ha : p a = true) :
    0 < count p l := by
  have hle := le_total (fun a => (p a).toNat) h
  simp only [ha, Bool.toNat_true] at hle
  exact hle

/-- Something counted is an entry with the property. -/
theorem exists_of_count_pos {l : List α} (h : 0 < count p l) :
    ∃ (i : ℕ) (a : α), l[i]? = some a ∧ p a = true := by
  induction l with
  | nil => simp at h
  | cons x l ih =>
    by_cases hx : p x = true
    · exact ⟨0, x, rfl, hx⟩
    · obtain ⟨i, a, hi, ha⟩ := ih (by simpa [hx] using h)
      exact ⟨i + 1, a, by simpa using hi, ha⟩

/-- At most all entries are counted. -/
theorem count_le_length (l : List α) : count p l ≤ l.length := by
  induction l with
  | nil => simp
  | cons x l ih =>
    have hx : (p x).toNat ≤ 1 := Bool.toNat_le _
    rw [count_cons, List.length_cons]
    omega

/-- All entries are counted where all have the property. -/
theorem count_eq_length {l : List α} (h : ∀ a ∈ l, p a = true) : count p l = l.length := by
  induction l with
  | nil => rfl
  | cons x l ih =>
    obtain ⟨hx, hl⟩ := List.forall_mem_cons.1 h
    rw [count_cons, hx, Bool.toNat_true, ih hl, List.length_cons, Nat.add_comm]

/-- Not all entries are counted if one is known that has not the property. -/
theorem count_lt_length {l : List α} {i : ℕ} {a : α} (h : l[i]? = some a) (ha : p a = false) :
    count p l < l.length := by
  obtain ⟨l₁, l₂, rfl⟩ := List.append_of_mem (List.mem_of_getElem? h)
  have h₁ := count_le_length p l₁
  have h₂ := count_le_length p l₂
  rw [count_append, count_cons, ha, Bool.toNat_false, List.length_append, List.length_cons]
  omega

end count

/-- The entries after one that exists was replaced. -/
theorem getElem?_set_of_some {l : List α} {i : ℕ} {a : α} (h : l[i]? = some a) (b : α) (j : ℕ) :
    (l.set i b)[j]? = if i = j then some b else l[j]? := by
  obtain ⟨hi, -⟩ := List.getElem?_eq_some_iff.mp h
  rw [List.getElem?_set]
  simp [hi]

/-- The entries around one that exists, which stay when it is replaced. -/
theorem exists_append_of_getElem? {l : List α} {i : ℕ} {a : α} (h : l[i]? = some a) :
    ∃ l₁ l₂ : List α, l = l₁ ++ a :: l₂ ∧ ∀ b, l.set i b = l₁ ++ b :: l₂ := by
  induction l generalizing i with
  | nil => simp at h
  | cons x l ih =>
    cases i with
    | zero =>
      obtain rfl : x = a := by simpa using h
      exact ⟨[], l, rfl, fun b => rfl⟩
    | succ i =>
      have hi : l[i]? = some a := by simpa using h
      obtain ⟨l₁, l₂, rfl, hset⟩ := ih hi
      exact ⟨x :: l₁, l₂, rfl, fun b => by rw [List.set_cons_succ, hset b, List.cons_append]⟩

/-- The entries around the first one with a property, which stay when it is taken out. -/
theorem exists_append_of_find? {p : α → Bool} {l : List α} {a : α} (h : l.find? p = some a) :
    p a = true ∧ ∃ l₁ l₂ : List α, l = l₁ ++ a :: l₂ ∧ l.eraseP p = l₁ ++ l₂ := by
  obtain ⟨ha, l₁, l₂, rfl, hl₁⟩ := List.find?_eq_some_iff_append.1 h
  refine ⟨ha, l₁, l₂, rfl, ?_⟩
  have hnone : ∀ b ∈ l₁, ¬p b = true := fun b hb => by simpa using hl₁ b hb
  rw [List.eraseP_append_right _ hnone, List.eraseP_cons_of_pos ha]

end Tally
