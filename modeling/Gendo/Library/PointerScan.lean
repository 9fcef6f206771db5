import Gendo.Library.ByteMemory
import Mathlib.Data.List.DropRight

/-!
# Scans through a C string

A pointer into a string is its offset from the start. Reading is possible from there up to the
terminator; a loop that reads elsewhere has no result.

A loop goes on while what it reads satisfies its condition. Forward it ends at the terminator if not
before (`scanForward_eq`). Backward it must find a character that ends it: in front of the first one
it has read outside of the string before its second test could stop it (`scanBack_eq`).
-/

namespace PointerScan

open ByteMemory (CString)

variable {s : CString} {go q : UInt8 → Bool} {front rest : List UInt8}

/-- The character that a pointer points to. -/
def charAt (s : CString) (p : ℤ) : Option UInt8 :=
  if 0 ≤ p then (s.1 ++ [0])[p.toNat]? else none

theorem charAt_eq_some {p : ℤ} {c : UInt8} (h : charAt s p = some c) :
    0 ≤ p ∧ p ≤ s.1.length := by
  rw [charAt] at h
  split_ifs at h with hp
  have hlt := (List.getElem?_eq_some_iff.1 h).1
  simp only [List.length_append, List.length_singleton] at hlt
  omega

/-- Behind a part of the string stands the next character, or the terminator. -/
theorem charAt_length (hs : s.1 = front ++ rest) :
    charAt s front.length = some (rest.headD 0) := by
  rw [charAt, if_pos (by omega), hs, Int.toNat_natCast, List.append_assoc,
    List.getElem?_append_right le_rfl, Nat.sub_self]
  cases rest <;> rfl

/-- `while (go(*p)) p++;` -/
def scanForward (s : CString) (go : UInt8 → Bool) (p : ℤ) : Option ℤ :=
  match _h : charAt s p with
  | none => none
  | some c => if go c then scanForward s go (p + 1) else some p
termination_by (s.1.length + 1 - p).toNat
decreasing_by
  have := charAt_eq_some _h
  omega

theorem scanForward_of_charAt {p : ℤ} {c : UInt8} (h : charAt s p = some c) :
    scanForward s go p = if go c then scanForward s go (p + 1) else some p := by
  rw [scanForward]
  split <;> rename_i hread
  · rw [h] at hread
    contradiction
  · rw [h, Option.some_inj] at hread
    rw [hread]

/-- `while (go(*p) && p >= s) p--;` -/
def scanBack (s : CString) (go : UInt8 → Bool) (p : ℤ) : Option ℤ :=
  match charAt s p with
  | none => none
  | some c => if go c ∧ 0 ≤ p then scanBack s go (p - 1) else some p
termination_by (p + 1).toNat

/-- `strncpy(dst, p, n)`, and the terminator behind it. -/
def strncpy (s : CString) (p : ℤ) (n : ℕ) : Option (List UInt8) :=
  if 0 ≤ p ∧ p ≤ s.1.length then some ((s.1.drop p.toNat).take n) else none

theorem strncpy_length (hs : s.1 = front ++ rest) (n : ℕ) :
    strncpy s front.length n = some (rest.take n) := by
  rw [strncpy, if_pos (by rw [hs, List.length_append]; omega), hs, Int.toNat_natCast,
    List.drop_left]

/-- `strchr(sp, c) != 0`: the terminator is found, too. -/
def strchr (sp : CString) (c : UInt8) : Bool := c = 0 || sp.1.contains c

theorem strchr_of_ne_zero (sp : CString) {c : UInt8} (hc : c ≠ 0) :
    strchr sp c = sp.1.contains c := by
  simp [strchr, hc]

/-- A loop forward stops behind the characters that let it go on. -/
theorem scanForward_eq (hs : s.1 = front ++ rest) (h0 : go 0 = false)
    (hq : ∀ c ∈ rest, go c = q c) :
    scanForward s go front.length = some ((front ++ rest.takeWhile q).length : ℤ) := by
  induction rest generalizing front with
  | nil =>
    have hread : charAt s front.length = some 0 := charAt_length hs
    rw [scanForward_of_charAt hread, h0, if_neg Bool.false_ne_true, List.takeWhile_nil,
      List.append_nil]
  | cons c rest ih =>
    obtain ⟨hc, hq⟩ := List.forall_mem_cons.1 hq
    have hs' : s.1 = (front ++ [c]) ++ rest := by simpa using hs
    have hread : charAt s front.length = some c := charAt_length hs
    rw [scanForward_of_charAt hread]
    by_cases hgo : q c
    · rw [if_pos (hc.trans hgo), List.takeWhile_cons_of_pos hgo]
      have hnext := ih hs' hq
      rw [List.length_append, List.length_singleton, Nat.cast_add, Nat.cast_one] at hnext
      rw [hnext, List.append_assoc]
      rfl
    · rw [if_neg (by rw [hc]; exact hgo), List.takeWhile_cons_of_neg hgo, List.append_nil]

/-- A loop backward stops at a character that does not let it go on. If there is none, it reads in
front of the string. -/
theorem scanBack_eq (hs : s.1 = front ++ rest) (hq : ∀ c ∈ front, go c = q c) :
    scanBack s go (front.length - 1) =
      if front.rdropWhile q = [] then none else some ((front.rdropWhile q).length - 1 : ℤ) := by
  induction front using List.reverseRecOn generalizing rest with
  | nil =>
    -- the pointer is in front of the string, and what it points to is read first
    rw [scanBack]
    rfl
  | append_singleton front c ih =>
    have hc := hq c (by simp)
    have hs' : s.1 = front ++ c :: rest := by simpa using hs
    have hread : charAt s front.length = some c := charAt_length hs'
    rw [List.length_append, List.length_singleton, Nat.cast_add, Nat.cast_one, add_sub_cancel_right,
      scanBack, hread]
    dsimp only
    by_cases hgo : q c
    · rw [if_pos ⟨hc.trans hgo, by omega⟩, List.rdropWhile_concat_pos _ _ _ hgo]
      exact ih hs' fun d hd => hq d (List.mem_append_left _ hd)
    · rw [if_neg (by rw [hc]; exact fun h => hgo h.1), List.rdropWhile_concat_neg _ _ _ hgo]
      simp

end PointerScan
