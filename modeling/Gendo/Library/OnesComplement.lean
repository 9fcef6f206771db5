import Mathlib.Algebra.Group.Nat.Defs
import Mathlib.Data.List.Basic
import Mathlib.Tactic.Common
import Mathlib.Tactic.Ring

/-!
# One's complement sums

Words of `w` bits are added with the carry brought back to the low end. `sum_eq_norm` says what
becomes of a list of words: their sum modulo `2 ^ w - 1`, where only an empty sum is 0. The same
comes of adding up the words in a wider accumulator and folding it, `norm_fold`.
-/

namespace OnesComplement

/-- The sum of two words, with the carry added to it. -/
def add (w a b : ℕ) : ℕ := if a + b < 2 ^ w then a + b else a + b + 1 - 2 ^ w

/-- The sum of the words. -/
def sum (w : ℕ) (words : List ℕ) : ℕ := words.foldl (add w) 0

/-- The word that a sum comes to. -/
def norm (w s : ℕ) : ℕ := if s = 0 then 0 else (s - 1) % (2 ^ w - 1) + 1

/-- The part of an accumulator above a word is added to the word. -/
def fold (w s : ℕ) : ℕ := s / 2 ^ w + s % 2 ^ w

section

variable {w s a b : ℕ} {words : List ℕ}

@[simp]
theorem norm_zero (w : ℕ) : norm w 0 = 0 := rfl

theorem norm_eq_zero_iff : norm w s = 0 ↔ s = 0 := by
  rw [norm]
  split_ifs with h
  · exact iff_of_true rfl h
  · simp [h]

/-- A sum that is a word is as it is. -/
theorem norm_of_lt (h : s < 2 ^ w) : norm w s = s := by
  rw [norm]
  split_ifs with hs
  · exact hs.symm
  · rw [Nat.mod_eq_of_lt (by omega)]
    omega

theorem norm_lt (hw : 0 < w) (s : ℕ) : norm w s < 2 ^ w := by
  have hpow : 2 ^ 1 ≤ 2 ^ w := Nat.pow_le_pow_right (by decide) hw
  rw [norm]
  split_ifs with hs
  · omega
  · have hmod := Nat.mod_lt (s - 1) (show 0 < 2 ^ w - 1 by omega)
    omega

/-- Sums that differ by a multiple of `2 ^ w - 1` come to the same word. -/
theorem norm_add_mul (hs : s ≠ 0) (k : ℕ) : norm w (s + (2 ^ w - 1) * k) = norm w s := by
  rw [norm, norm, if_neg (by omega), if_neg hs,
    show s + (2 ^ w - 1) * k - 1 = s - 1 + (2 ^ w - 1) * k by omega, Nat.add_mul_mod_self_left]

/-- Folding does not change the word. -/
theorem norm_fold (w s : ℕ) : norm w (fold w s) = norm w s := by
  by_cases hs : s = 0
  · rw [hs, fold, Nat.zero_div, Nat.zero_mod]
  · have hdiv := Nat.div_add_mod s (2 ^ w)
    have hpos : 0 < 2 ^ w := Nat.two_pow_pos w
    have hne : fold w s ≠ 0 := by
      rw [fold]
      intro h
      have hzero : s / 2 ^ w = 0 ∧ s % 2 ^ w = 0 := Nat.add_eq_zero_iff.1 h
      rw [hzero.1, hzero.2] at hdiv
      exact hs (by omega)
    have heq : s = fold w s + (2 ^ w - 1) * (s / 2 ^ w) := by
      have hle : s / 2 ^ w ≤ 2 ^ w * (s / 2 ^ w) := Nat.le_mul_of_pos_left _ hpos
      rw [fold, Nat.sub_mul, Nat.one_mul]
      generalize s / 2 ^ w = q at hdiv hle ⊢
      omega
    conv_rhs => rw [heq]
    exact (norm_add_mul hne _).symm

/-- Adding a word to a sum. -/
theorem add_norm (hw : 0 < w) (hb : b < 2 ^ w) : add w (norm w s) b = norm w (s + b) := by
  have hlt := norm_lt hw s
  have hsum : norm w (norm w s + b) = norm w (s + b) := by
    by_cases hs : s = 0
    · rw [hs, norm_zero]
    · have hk : s = norm w s + (2 ^ w - 1) * ((s - 1) / (2 ^ w - 1)) := by
        have hdiv := Nat.div_add_mod (s - 1) (2 ^ w - 1)
        rw [norm, if_neg hs]
        omega
      have hne : norm w s + b ≠ 0 := by
        have hnorm : norm w s ≠ 0 := fun h => hs (norm_eq_zero_iff.1 h)
        omega
      rw [← norm_add_mul hne ((s - 1) / (2 ^ w - 1))]
      congr 1
      omega
  rw [← hsum, add]
  split_ifs with h
  · rw [norm_of_lt h]
  · have hpos : 0 < 2 ^ w := Nat.two_pow_pos w
    have hne : norm w s + b + 1 - 2 ^ w ≠ 0 := by omega
    have heq : norm w s + b = norm w s + b + 1 - 2 ^ w + (2 ^ w - 1) * 1 := by omega
    have hfit : norm w s + b + 1 - 2 ^ w < 2 ^ w := by omega
    conv_rhs => rw [heq]
    rw [norm_add_mul hne, norm_of_lt hfit]

/-- What a list of words comes to. -/
theorem sum_eq_norm (hw : 0 < w) (h : ∀ a ∈ words, a < 2 ^ w) :
    sum w words = norm w words.sum := by
  have hrun : ∀ s, words.foldl (add w) (norm w s) = norm w (s + words.sum) := by
    induction words with
    | nil => simp
    | cons a words ih =>
      intro s
      rw [List.foldl_cons, add_norm hw (h a List.mem_cons_self),
        ih fun b hb => h b (List.mem_cons_of_mem a hb), List.sum_cons, Nat.add_assoc]
  have hzero := hrun 0
  rwa [norm_zero, Nat.zero_add] at hzero

/-- The complement of a sum completes it to the word of ones. -/
theorem norm_add_complement (hw : 0 < w) (s : ℕ) :
    norm w (s + (2 ^ w - 1 - norm w s)) = 2 ^ w - 1 := by
  have hpow : 2 ^ 1 ≤ 2 ^ w := Nat.pow_le_pow_right (by decide) hw
  by_cases hs : s = 0
  · rw [hs, norm_zero, Nat.sub_zero, Nat.zero_add, norm_of_lt (by omega)]
  · have hlt := norm_lt hw s
    have hdiv := Nat.div_add_mod (s - 1) (2 ^ w - 1)
    have heq : s + (2 ^ w - 1 - norm w s) =
        (2 ^ w - 1) + (2 ^ w - 1) * ((s - 1) / (2 ^ w - 1)) := by
      rw [norm, if_neg hs] at hlt ⊢
      omega
    rw [heq, norm_add_mul (by omega), norm_of_lt (by omega)]

end

end OnesComplement
