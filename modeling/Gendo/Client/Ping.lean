import Gendo.Library.OnesComplement
import Gendo.Library.Tally
import Mathlib.Algebra.Order.BigOperators.Group.List

/-!
# The checksum of a ping

`checksum` of `RopPing.cpp`, with an `unsigned long` of 32 bits and words that have their low byte
first. `checksum_spec`: up to 131072 bytes the sum does not overflow, the result is the complement
of the one's complement sum, and a buffer that the checksum was put into has the checksum 0.
-/

namespace Gendo.Client

open OnesComplement Tally

/-- The word at `buff`. -/
def ushort (lo hi : UInt8) : UInt32 := lo.toUInt32 + hi.toUInt32 * 256

/-- The loop of `checksum`, and the byte that is left. -/
def cksumLoop (cksum : UInt32) : List UInt8 → UInt32
  | [] => cksum
  | [b] => cksum + b.toUInt32
  | lo :: hi :: buff => cksumLoop (cksum + ushort lo hi) buff

/-- `checksum` -/
def checksum (buff : List UInt8) : UInt16 :=
  let cksum := cksumLoop 0 buff
  let cksum := (cksum >>> 16) + (cksum &&& 0xffff)
  let cksum := cksum + (cksum >>> 16)
  (~~~cksum).toUInt16

/-- The words of a buffer. A byte that is left is a word, too. -/
def words : List UInt8 → List ℕ
  | [] => []
  | [b] => [b.toNat]
  | lo :: hi :: buff => (lo.toNat + 256 * hi.toNat) :: words buff

/-- The word at an index is stored. -/
def storeWord (buff : List UInt8) (i : ℕ) (w : UInt16) : List UInt8 :=
  (buff.set (2 * i) w.toUInt8).set (2 * i + 1) (w >>> 8).toUInt8

section

variable {buff : List UInt8} {i : ℕ}

theorem lt_of_mem_words {a : ℕ} (h : a ∈ words buff) : a < 2 ^ 16 := by
  fun_induction words buff with
  | case1 => cases h
  | case2 b =>
    have hb := b.toNat_lt
    simp only [List.mem_singleton] at h
    omega
  | case3 lo hi buff ih =>
    rcases List.mem_cons.1 h with rfl | h
    · have hlo := lo.toNat_lt
      have hhi := hi.toNat_lt
      omega
    · exact ih h

theorem length_words (buff : List UInt8) : (words buff).length = (buff.length + 1) / 2 := by
  fun_induction words buff with
  | case1 => rfl
  | case2 b => simp
  | case3 lo hi buff ih =>
    rw [List.length_cons, ih, List.length_cons, List.length_cons]
    omega

theorem toNat_ushort (lo hi : UInt8) : (ushort lo hi).toNat = lo.toNat + 256 * hi.toNat := by
  have hlo := lo.toNat_lt
  have hhi := hi.toNat_lt
  simp only [ushort, UInt32.toNat_add, UInt32.toNat_mul, UInt8.toNat_toUInt32, UInt32.reduceToNat]
  omega

/-- As long as the sum fits, the accumulator holds it. -/
theorem toNat_cksumLoop (cksum : UInt32) (h : cksum.toNat + (words buff).sum < 2 ^ 32) :
    (cksumLoop cksum buff).toNat = cksum.toNat + (words buff).sum := by
  fun_induction cksumLoop cksum buff with
  | case1 cksum => rfl
  | case2 cksum b =>
    rw [words, List.sum_singleton] at h ⊢
    rw [UInt32.toNat_add, UInt8.toNat_toUInt32, Nat.mod_eq_of_lt h]
  | case3 cksum lo hi buff ih =>
    rw [words, List.sum_cons] at h ⊢
    have hadd : (cksum + ushort lo hi).toNat = cksum.toNat + (lo.toNat + 256 * hi.toNat) := by
      rw [UInt32.toNat_add, toNat_ushort, Nat.mod_eq_of_lt (by omega)]
    rw [ih (by rw [hadd]; omega), hadd, Nat.add_assoc]

/-- The sum of that many words. -/
theorem sum_words_le (buff : List UInt8) : (words buff).sum ≤ (words buff).length * (2 ^ 16 - 1) :=
  List.sum_le_card_nsmul _ _ fun _ ha => Nat.le_sub_one_of_lt (lt_of_mem_words ha)

/-- Folded twice, a sum of 32 bits has the word that it comes to in its low half. -/
theorem fold_fold {s : ℕ} (hs : s < 2 ^ 32) :
    (fold 16 s + fold 16 s / 2 ^ 16) % 2 ^ 16 = norm 16 s := by
  have hfold : fold 16 s < 2 * 2 ^ 16 - 1 := by
    rw [fold]
    omega
  rw [← norm_fold]
  generalize fold 16 s = c at hfold ⊢
  rcases Nat.lt_or_ge c (2 ^ 16) with hword | hcarry
  · rw [norm_of_lt hword]
    omega
  · have heq : c = c + 1 - 2 ^ 16 + (2 ^ 16 - 1) * 1 := by omega
    have hne : c + 1 - 2 ^ 16 ≠ 0 := by omega
    conv_rhs => rw [heq]
    rw [norm_add_mul hne, norm_of_lt (by omega)]
    omega

/-- The result is the complement of what the words come to. -/
theorem toNat_checksum (h : (words buff).sum < 2 ^ 32) :
    (checksum buff).toNat = 2 ^ 16 - 1 - norm 16 (words buff).sum := by
  have hloop : (cksumLoop 0 buff).toNat = (words buff).sum := by
    rw [toNat_cksumLoop 0 (by rwa [UInt32.toNat_zero, Nat.zero_add]), UInt32.toNat_zero,
      Nat.zero_add]
  simp only [checksum]
  rw [← fold_fold h, fold, ← hloop]
  generalize cksumLoop 0 buff = s
  have hs := s.toNat_lt
  have hand : (s &&& 0xffff).toNat = s.toNat % 2 ^ 16 := by
    rw [UInt32.toNat_and]
    exact Nat.and_two_pow_sub_one_eq_mod _ 16
  have hshift (c : UInt32) : (c >>> 16).toNat = c.toNat / 2 ^ 16 := by
    rw [UInt32.toNat_shiftRight]
    exact Nat.shiftRight_eq_div_pow _ _
  have hfirst : ((s >>> 16) + (s &&& 0xffff)).toNat = s.toNat / 2 ^ 16 + s.toNat % 2 ^ 16 := by
    rw [UInt32.toNat_add, hand, hshift]
    omega
  generalize (s >>> 16) + (s &&& 0xffff) = c at hfirst ⊢
  have hsecond : (c + (c >>> 16)).toNat = c.toNat + c.toNat / 2 ^ 16 := by
    rw [UInt32.toNat_add, hshift]
    omega
  rw [UInt32.toNat_toUInt16, UInt32.toNat_not, hsecond, hfirst, UInt32.size]
  omega

/-- What is stored is a word of the buffer. -/
theorem words_storeWord (hi : 2 * i + 1 < buff.length) (w : UInt16) :
    words (storeWord buff i w) = (words buff).set i w.toNat := by
  induction i generalizing buff with
  | zero =>
    match buff, hi with
    | b :: b' :: rest, _ =>
      have hw := w.toNat_lt
      have hword : w.toUInt8.toNat + 256 * (w >>> 8).toUInt8.toNat = w.toNat := by
        rw [UInt16.toNat_toUInt8, UInt16.toNat_toUInt8, UInt16.toNat_shiftRight,
          Nat.shiftRight_eq_div_pow, UInt16.toNat_ofNat]
        simp only [Nat.reduceMod, Nat.reducePow] at hw ⊢
        omega
      simp only [storeWord, Nat.mul_zero, Nat.zero_add, List.set_cons_zero, List.set_cons_succ,
        words, hword]
  | succ i ih =>
    match buff, hi with
    | b :: b' :: rest, hi =>
      simp only [List.length_cons] at hi
      have hstore : storeWord (b :: b' :: rest) (i + 1) w = b :: b' :: storeWord rest i w := by
        rw [storeWord, storeWord, Nat.mul_add, show 2 * i + 2 * 1 = 2 * i + 1 + 1 by omega,
          List.set_cons_succ, List.set_cons_succ, List.set_cons_succ, List.set_cons_succ]
      rw [hstore, words, words, ih (by omega), List.set_cons_succ]

/-- Storing a word in place of 0 adds it to the sum. -/
theorem sum_storeWord (hi : 2 * i + 1 < buff.length) (hzero : (words buff)[i]? = some 0)
    (w : UInt16) : (words (storeWord buff i w)).sum = (words buff).sum + w.toNat := by
  have hset := total_set (fun a : ℕ => a) hzero w.toNat
  simpa [total, words_storeWord hi] using hset

/-- So many words fit the accumulator. -/
theorem sum_words_lt (hlen : buff.length ≤ 131072) : (words buff).sum < 2 ^ 32 := by
  have hle := sum_words_le buff
  rw [length_words] at hle
  calc (words buff).sum ≤ (buff.length + 1) / 2 * (2 ^ 16 - 1) := hle
    _ ≤ 2 ^ 16 * (2 ^ 16 - 1) := Nat.mul_le_mul_right _ (by omega)
    _ < 2 ^ 32 := by decide

/-- A buffer is summed up without overflow, its checksum is the complement of its one's complement
sum, and with the checksum in place of a word that was 0 the checksum is 0. -/
theorem checksum_spec (hlen : buff.length ≤ 131072) :
    (∀ k, ((words buff).take k).sum < 2 ^ 32) ∧
      (checksum buff).toNat = 2 ^ 16 - 1 - sum 16 (words buff) ∧
      ∀ i, 2 * i + 1 < buff.length → (words buff)[i]? = some 0 →
        checksum (storeWord buff i (checksum buff)) = 0 := by
  have hsum := sum_words_lt hlen
  have hcomp := toNat_checksum hsum
  refine ⟨fun k => ?_, ?_, fun i hi hzero => ?_⟩
  · exact Nat.lt_of_le_of_lt ((List.take_sublist k _).sum_le_sum fun a _ => Nat.zero_le a) hsum
  · rw [hcomp, sum_eq_norm (by decide) fun a ha => lt_of_mem_words ha]
  · have hlen' : (storeWord buff i (checksum buff)).length ≤ 131072 := by
      rwa [storeWord, List.length_set, List.length_set]
    apply UInt16.toNat_inj.1
    rw [toNat_checksum (sum_words_lt hlen'), sum_storeWord hi hzero, hcomp,
      norm_add_complement (by decide), Nat.sub_self, UInt16.toNat_zero]

end

/-- An echo request with the checksum still 0, and a byte behind it. -/
theorem checksum_spec_echo :
    checksum (storeWord [8, 0, 0, 0, 1, 0, 2, 0, 97] 1
      (checksum [8, 0, 0, 0, 1, 0, 2, 0, 97])) = 0 :=
  (@checksum_spec [8, 0, 0, 0, 1, 0, 2, 0, 97] (by decide)).2.2 1 (by decide) (by decide)

end Gendo.Client
