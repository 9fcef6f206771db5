import Mathlib.Data.Nat.Bitwise
import Mathlib.Tactic.Common
import Mathlib.Tactic.Ring

/-!
# Runs of ones

`LeadingOnes w n x`: the word `x` of `w` bits consists of at most `n` ones followed by zeros. The
lemmas are what a loop needs that shifts a word to the left and looks at its highest bit.
-/

namespace WordBits

/-- A word of `w` bits with at most `n` ones in front, and no others. -/
def LeadingOnes (w n x : ℕ) : Prop := ∃ k ≤ n, x = 2 ^ w - 2 ^ (w - k)

section

variable {w n x k : ℕ}

theorem leadingOnes_zero (w n : ℕ) : LeadingOnes w n 0 := ⟨0, Nat.zero_le n, by simp⟩

/-- A run that is not empty has the highest bit. -/
theorem LeadingOnes.le_of_pos (h : LeadingOnes (w + 1) n x) (hx : 0 < x) : 2 ^ w ≤ x := by
  obtain ⟨k, _, rfl⟩ := h
  rcases k with _ | k
  · simp at hx
  · have hle : 2 ^ (w + 1 - (k + 1)) ≤ 2 ^ w := Nat.pow_le_pow_right (by decide) (by omega)
    rw [Nat.pow_succ]
    omega

theorem two_pow_succ_sub (hk : k ≤ w) : 2 ^ (w + 1 - k) = 2 * 2 ^ (w - k) := by
  rw [Nat.succ_sub hk, Nat.pow_succ']

/-- Shifted to the left, a word that has the highest bit loses the first of its ones. -/
theorem leadingOnes_shift_iff (hn : n ≤ w) (hle : 2 ^ w ≤ x) (hlt : x < 2 ^ (w + 1)) :
    LeadingOnes (w + 1) n (2 * x - 2 ^ (w + 1)) ↔ LeadingOnes (w + 1) (n + 1) x := by
  have hpow : 2 ^ (w + 1) = 2 * 2 ^ w := by rw [Nat.pow_succ, Nat.mul_comm]
  constructor
  · rintro ⟨k, hk, heq⟩
    refine ⟨k + 1, Nat.succ_le_succ hk, ?_⟩
    rw [Nat.add_sub_add_right]
    have hhalf : 2 ^ (w + 1 - k) = 2 * 2 ^ (w - k) := two_pow_succ_sub (hk.trans hn)
    have hsmall : 2 ^ (w - k) ≤ 2 ^ w := Nat.pow_le_pow_right (by decide) (Nat.sub_le w k)
    omega
  · rintro ⟨k, hk, heq⟩
    rcases k with _ | k
    · rw [Nat.sub_zero, Nat.sub_self] at heq
      have hpos : 0 < 2 ^ w := Nat.two_pow_pos w
      omega
    · rw [Nat.add_sub_add_right] at heq
      have hkn : k ≤ n := Nat.le_of_succ_le_succ hk
      refine ⟨k, hkn, ?_⟩
      have hhalf : 2 ^ (w + 1 - k) = 2 * 2 ^ (w - k) := two_pow_succ_sub (hkn.trans hn)
      have hsmall : 2 ^ (w - k) ≤ 2 ^ w := Nat.pow_le_pow_right (by decide) (Nat.sub_le w k)
      omega

/-- The highest bit of a word is its half. -/
theorem and_two_pow_eq_zero_iff (hx : x < 2 ^ (w + 1)) : x &&& 2 ^ w = 0 ↔ x < 2 ^ w := by
  have hpos : 0 < 2 ^ w := Nat.two_pow_pos w
  rw [Nat.and_two_pow, Nat.mul_eq_zero, or_iff_left (Nat.ne_of_gt hpos),
    Nat.testBit_eq_decide_div_mod_eq]
  have hpow : 2 ^ (w + 1) = 2 * 2 ^ w := by rw [Nat.pow_succ, Nat.mul_comm]
  have hdiv : x / 2 ^ w < 2 := by
    rw [Nat.div_lt_iff_lt_mul hpos]
    omega
  rw [← Nat.div_eq_zero_iff_lt hpos]
  rcases hq : x / 2 ^ w with _ | _ | q
  · simp
  · simp
  · omega

/-- Some adjacent bits of a word. -/
theorem and_shiftLeft_mask (x k n : ℕ) :
    x &&& (2 ^ n - 1) <<< k = (x >>> k % 2 ^ n) <<< k := by
  apply Nat.eq_of_testBit_eq
  intro i
  simp only [Nat.testBit_and, Nat.testBit_shiftLeft, ge_iff_le, Nat.testBit_mod_two_pow,
    Nat.testBit_shiftRight, Nat.testBit_two_pow_sub_one]
  by_cases hk : k ≤ i
  · simp [hk, Bool.and_comm]
  · simp [hk]

/-- The bits of a byte of a word. -/
theorem and_shiftLeft_byte (x k : ℕ) : x &&& 0xff <<< k = (x >>> k % 256) <<< k :=
  and_shiftLeft_mask x k 8

end

end WordBits
