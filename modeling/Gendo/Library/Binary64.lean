import Mathlib.Algebra.Order.Field.Power
import Mathlib.Algebra.Order.Floor.Ring
import Mathlib.Data.Int.Log
import Mathlib.Data.Rat.Floor
import Mathlib.Tactic.FieldSimp
import Mathlib.Tactic.Linarith
import Mathlib.Tactic.NormNum
import Mathlib.Tactic.Positivity
import Mathlib.Tactic.Ring

/-!
# Rounding to binary64

A `Binary64` is the result of an operation on floating point numbers: the exact result is rounded
to the nearest number with 53 binary digits, to the even one of two that are equally near. Zeros
have no sign here, and there is no NaN.

Rounding does not cross a number that has enough digits: with `ulpExp` the exponent of the last
digit, `nearest_le` and `le_nearest` say so for every multiple of a power of two that is not below
`ulpExp`, and `nearest_of_multiple` that it is kept.
-/

/-- A number of the format, or one that is too large for it. -/
inductive Binary64
  | finite (q : ℚ)
  | infinite (negative : Bool)
  deriving DecidableEq, Repr

namespace Binary64

/-- The nearest integer, and of two the even one. -/
def roundEven (q : ℚ) : ℤ :=
  if 2 * (q - ⌊q⌋) < 1 ∨ 2 * (q - ⌊q⌋) = 1 ∧ ⌊q⌋ % 2 = 0 then ⌊q⌋ else ⌊q⌋ + 1

/-- The exponent of the last of 53 binary digits; numbers near zero have fewer. -/
def ulpExp (q : ℚ) : ℤ := max (Int.log 2 |q| - 52) (-1074)

/-- The nearest number with these digits. -/
def nearest (q : ℚ) : ℚ := roundEven (q / 2 ^ ulpExp q) * 2 ^ ulpExp q

def ofRat (q : ℚ) : Binary64 :=
  if |nearest q| < 2 ^ 1024 then .finite (nearest q) else .infinite (q < 0)

/-- An operation with a number that takes infinity to itself. -/
def map (f : ℚ → ℚ) : Binary64 → Binary64
  | finite q => ofRat (f q)
  | infinite negative => infinite negative

variable {q : ℚ} {n j : ℤ}

theorem le_roundEven (h : n ≤ q) : n ≤ roundEven q := by
  have hfloor : n ≤ ⌊q⌋ := Int.le_floor.mpr h
  unfold roundEven
  split
  · exact hfloor
  · omega

theorem roundEven_le (h : q ≤ n) : roundEven q ≤ n := by
  have hfloor : ⌊q⌋ ≤ n := by exact_mod_cast (Int.floor_le q).trans h
  unfold roundEven
  split
  · exact hfloor
  · next hup =>
    -- a number that is rounded up is below `n`
    rcases hfloor.lt_or_eq with hlt | heq
    · exact hlt
    · refine absurd (.inl ?_) hup
      rw [heq]
      linarith

theorem ulpExp_le (hq : q ≠ 0) (hj : -1074 ≤ j) (h : |q| < 2 ^ (j + 53)) : ulpExp q ≤ j := by
  have hlog : Int.log 2 |q| < j + 53 :=
    (Int.lt_zpow_iff_log_lt (by decide) (abs_pos.mpr hq)).mp (by exact_mod_cast h)
  exact max_le (by omega) hj

/-- A multiple of a larger power of two is a multiple of the last digit. -/
theorem multiple_div (he : ulpExp q ≤ j) :
    (n * 2 ^ j : ℚ) = (n * 2 ^ (j - ulpExp q).toNat : ℤ) * 2 ^ ulpExp q := by
  have hsplit : (2 : ℚ) ^ j = 2 ^ (j - ulpExp q).toNat * 2 ^ ulpExp q := by
    rw [← zpow_natCast, ← zpow_add₀ (by norm_num), Int.toNat_of_nonneg (by omega)]
    congr 1
    omega
  rw [hsplit]
  push_cast
  ring

theorem nearest_le (he : ulpExp q ≤ j) (h : q ≤ n * 2 ^ j) : nearest q ≤ n * 2 ^ j := by
  have hpos : (0 : ℚ) < 2 ^ ulpExp q := by positivity
  rw [multiple_div he] at h ⊢
  have hround : roundEven (q / 2 ^ ulpExp q) ≤ n * 2 ^ (j - ulpExp q).toNat :=
    roundEven_le ((div_le_iff₀ hpos).mpr h)
  exact mul_le_mul_of_nonneg_right (by exact_mod_cast hround) hpos.le

theorem le_nearest (he : ulpExp q ≤ j) (h : n * 2 ^ j ≤ q) : n * 2 ^ j ≤ nearest q := by
  have hpos : (0 : ℚ) < 2 ^ ulpExp q := by positivity
  rw [multiple_div he] at h ⊢
  have hround : n * 2 ^ (j - ulpExp q).toNat ≤ roundEven (q / 2 ^ ulpExp q) :=
    le_roundEven ((le_div_iff₀ hpos).mpr h)
  exact mul_le_mul_of_nonneg_right (by exact_mod_cast hround) hpos.le

theorem nearest_of_multiple (he : ulpExp q ≤ j) (h : q = n * 2 ^ j) : nearest q = q := by
  conv_rhs => rw [h]
  exact le_antisymm (nearest_le he h.le) (le_nearest he h.ge)

theorem ofRat_of_small (hnonneg : 0 ≤ nearest q) (hlt : nearest q < 2 ^ 53) :
    ofRat q = .finite (nearest q) := by
  have hlarge : (2 ^ 53 : ℚ) < 2 ^ 1024 := pow_lt_pow_right₀ (by norm_num) (by norm_num)
  rw [ofRat, if_pos]
  rw [abs_of_nonneg hnonneg]
  exact hlt.trans hlarge

/-- An integer of at most 53 digits is kept. -/
theorem ofRat_natCast {m : ℕ} (h : m < 2 ^ 53) : ofRat m = .finite m := by
  have hcast : (m : ℚ) < 2 ^ 53 := by exact_mod_cast h
  have hkept : nearest (m : ℚ) = m := by
    rcases Nat.eq_zero_or_pos m with rfl | hpos
    · simp [nearest, roundEven]
    · have hne : (m : ℚ) ≠ 0 := by exact_mod_cast hpos.ne'
      have habs : |(m : ℚ)| < 2 ^ ((0 : ℤ) + 53) := by
        rw [abs_of_nonneg (by positivity)]
        exact_mod_cast h
      exact nearest_of_multiple (n := m) (ulpExp_le hne (by norm_num) habs) (by simp)
  rw [ofRat_of_small (by rw [hkept]; positivity) (by rwa [hkept]), hkept]

/-- A number between an integer and the next one, with some room before it, stays there. -/
theorem ofRat_between {m : ℕ} (hm : m < 2 ^ 47) (hq : q ≠ 0) (hlo : m ≤ q) (hhi : q ≤ m + 31 / 32) :
    ∃ x : ℚ, ofRat q = .finite x ∧ m ≤ x ∧ x ≤ m + 31 / 32 := by
  have hcast : (m : ℚ) < 2 ^ 47 := by exact_mod_cast hm
  have habs : |q| < 2 ^ ((-5 : ℤ) + 53) := by
    rw [abs_of_nonneg (hlo.trans' (by positivity))]
    norm_num
    linarith
  have hulp := ulpExp_le hq (by norm_num) habs
  have hlow : ((32 * m : ℤ) : ℚ) * 2 ^ (-5 : ℤ) = m := by
    push_cast
    ring
  have hhigh : ((32 * m + 31 : ℤ) : ℚ) * 2 ^ (-5 : ℤ) = m + 31 / 32 := by
    push_cast
    ring
  have hx := le_nearest hulp (hlow.le.trans hlo)
  have hx' := nearest_le hulp (hhi.trans hhigh.ge)
  rw [hlow] at hx
  rw [hhigh] at hx'
  have hsmall : nearest q < 2 ^ 53 := by linarith
  exact ⟨nearest q, ofRat_of_small (hx.trans' (by positivity)) hsmall, hx, hx'⟩

-- a fraction that has no end in binary, and one that is too near to an integer
example : ofRat (1 / 10) = .finite (3602879701896397 / 36028797018963968) := by decide +kernel
example : ofRat (2999999999999999999 / 100000000000000000) = .finite 30 := by decide +kernel

end Binary64
