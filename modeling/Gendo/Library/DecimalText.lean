import Gendo.Library.Calendar
import Gendo.Library.Php
import Mathlib.Algebra.Group.Nat.Defs
import Mathlib.Data.List.Basic
import Mathlib.Data.List.Induction
import Mathlib.Tactic.Ring

/-!
# Numbers as decimal text

`value` is the number that digits stand for, and `padded` writes a number with zeros in front up to
a width. Padding keeps the number (`value_padded`). A number that fits the width has that many
characters, so that it can be told apart from what stands in front of it (`append_padded_inj`), as
in a date that is written without separators (`dateText_inj`).
-/

namespace DecimalText

variable {cs ds : List Char} {a b : String} {m n w : ℕ}

/-- The number that digits stand for. -/
def value (cs : List Char) : ℕ := Nat.ofDigitChars 10 cs 0

@[simp]
theorem value_toDigits (n : ℕ) : value (Nat.toDigits 10 n) = n := Nat.ofDigitChars_ten_toDigits

theorem value_append (cs ds : List Char) :
    value (cs ++ ds) = value cs * 10 ^ ds.length + value ds := by
  rw [value, Nat.ofDigitChars_append, Nat.ofDigitChars_eq_ofDigitChars_zero, Nat.mul_comm]
  rfl

/-- The number is less than what so many digits can stand for. -/
theorem value_lt (h : ∀ c ∈ cs, c.isDigit) : value cs < 10 ^ cs.length := by
  induction cs using List.reverseRecOn with
  | nil => decide
  | append_singleton cs c ih =>
    obtain ⟨hcs, hc⟩ : (∀ d ∈ cs, d.isDigit) ∧ c.isDigit := by simpa [or_imp, forall_and] using h
    have hdigit : value [c] ≤ 9 := by
      have hle : c.val ≤ 57 := (by simpa [Char.isDigit] using hc : 48 ≤ c.val ∧ c.val ≤ 57).2
      have hnat : c.toNat ≤ 57 := UInt32.le_iff_toNat_le.1 hle
      have hzero : '0'.toNat = 48 := rfl
      rw [value, Nat.ofDigitChars_cons, Nat.ofDigitChars_nil]
      omega
    have hlt := ih hcs
    rw [value_append, List.length_append, List.length_singleton, pow_one, pow_succ]
    omega

/-- A number has at most as many digits as are needed for it. -/
theorem length_toDigits_le (hw : 0 < w) : (Nat.toDigits 10 n).length ≤ w ↔ n < 10 ^ w :=
  Nat.length_toDigits_le_iff (by decide) hw

theorem lt_length_toDigits (h : 10 ^ w ≤ n) : w < (Nat.toDigits 10 n).length := by
  rcases Nat.eq_zero_or_pos w with rfl | hw
  · exact Nat.length_toDigits_pos
  · by_contra hle
    exact absurd ((length_toDigits_le hw).1 (Nat.le_of_not_lt hle)) (Nat.not_lt.2 h)

/-- The first digit of a number is not zero. -/
theorem pow_le_of_length (hn : 0 < n) : 10 ^ ((Nat.toDigits 10 n).length - 1) ≤ n := by
  by_contra hlt
  rcases Nat.eq_zero_or_pos ((Nat.toDigits 10 n).length - 1) with hzero | hpos
  · rw [hzero, pow_zero] at hlt
    omega
  · have hle := (length_toDigits_le hpos).2 (Nat.lt_of_not_le hlt)
    omega

/-- A number with zeros in front, up to a width. -/
def padded (n w : ℕ) : String := Php.strPadLeft (toString n) w

theorem toList_strPadLeft (s : String) (w : ℕ) :
    (Php.strPadLeft s w).toList = List.replicate (w - s.length) '0' ++ s.toList := by
  rw [Php.strPadLeft, String.toList_ofList]

theorem toList_padded (n w : ℕ) :
    (padded n w).toList =
      List.replicate (w - (Nat.toDigits 10 n).length) '0' ++ Nat.toDigits 10 n := by
  rw [padded, toList_strPadLeft, ← String.length_toList, Nat.toString_eq_ofList_toDigits,
    String.toList_ofList]

/-- Zeros in front do not change the number. -/
@[simp]
theorem value_padded (n w : ℕ) : value (padded n w).toList = n := by
  rw [toList_padded, value_append, value_toDigits, value, Nat.ofDigitChars_replicate_zero,
    Nat.mul_zero, Nat.zero_mul, Nat.zero_add]

theorem padded_inj : padded m w = padded n w ↔ m = n := by
  refine ⟨fun h => ?_, fun h => by rw [h]⟩
  rw [← value_padded m w, h, value_padded]

theorem length_padded (hw : 0 < w) (h : n < 10 ^ w) : (padded n w).toList.length = w := by
  have hle := (length_toDigits_le hw).2 h
  rw [toList_padded, List.length_append, List.length_replicate, Nat.sub_add_cancel hle]

/-- Texts whose first parts are equally long. -/
theorem append_inj {c d : String} (h : a ++ c = b ++ d) (hlen : a.length = b.length) :
    a = b ∧ c = d := by
  have hlist := congrArg String.toList h
  rw [String.toList_append, String.toList_append] at hlist
  obtain ⟨hfront, hback⟩ := List.append_inj hlist
    (by rwa [String.length_toList, String.length_toList])
  exact ⟨String.toList_inj.1 hfront, String.toList_inj.1 hback⟩

/-- A number that fits its width can be told from what stands in front of it. -/
theorem append_padded_inj (hw : 0 < w) (hm : m < 10 ^ w) (hn : n < 10 ^ w) :
    a ++ padded m w = b ++ padded n w ↔ a = b ∧ m = n := by
  constructor
  · intro h
    have hlist := congrArg String.toList h
    rw [String.toList_append, String.toList_append] at hlist
    obtain ⟨hfront, hback⟩ := List.append_inj' hlist
      ((length_padded hw hm).trans (length_padded hw hn).symm)
    exact ⟨String.toList_inj.1 hfront, padded_inj.1 (String.toList_inj.1 hback)⟩
  · rintro ⟨rfl, rfl⟩
    rfl

/-! ## Signed numbers -/

theorem minus_notMem_zeros (k : ℕ) : '-' ∉ List.replicate k '0' :=
  fun hmem => absurd (List.eq_of_mem_replicate hmem) (by decide)

theorem minus_notMem_toDigits (n : ℕ) : '-' ∉ Nat.toDigits 10 n :=
  fun hmem => absurd (Nat.isDigit_of_mem_toDigits (by decide) (by decide) hmem) (by decide)

theorem toList_strPadLeft_negSucc (n w : ℕ) :
    ∃ k, (Php.strPadLeft (toString (Int.negSucc n)) w).toList =
      List.replicate k '0' ++ '-' :: Nat.toDigits 10 (n + 1) := by
  refine ⟨_, (toList_strPadLeft _ w).trans (congrArg _ ?_)⟩
  show ("-" ++ toString (n + 1)).toList = _
  rw [String.toList_append, Nat.toString_eq_ofList_toDigits, String.toList_ofList,
    String.toList_ofList]
  rfl

/-- Zeros in front of the sign do not change the number either. -/
theorem strPadLeft_int_inj {y z : ℤ} {w : ℕ} :
    Php.strPadLeft (toString y) w = Php.strPadLeft (toString z) w ↔ y = z := by
  refine ⟨fun h => ?_, fun h => by rw [h]⟩
  have hlist := congrArg String.toList h
  have hminus : ∀ (n k : ℕ) (ds : List Char),
      (padded n w).toList ≠ List.replicate k '0' ++ '-' :: ds := by
    intro n k ds heq
    have hmem : '-' ∈ (padded n w).toList := by simp [heq]
    rw [toList_padded, List.mem_append] at hmem
    exact hmem.elim (minus_notMem_zeros _) (minus_notMem_toDigits n)
  -- the text of a negative number has a sign behind the zeros, that of another one has none
  rcases y with m | m <;> rcases z with n | n
  · exact congrArg Int.ofNat (padded_inj.1 h)
  · obtain ⟨k, hk⟩ := toList_strPadLeft_negSucc n w
    exact absurd (hlist.trans hk) (hminus m k _)
  · obtain ⟨k, hk⟩ := toList_strPadLeft_negSucc m w
    exact absurd (hlist.symm.trans hk) (hminus n k _)
  · obtain ⟨j, hj⟩ := toList_strPadLeft_negSucc m w
    obtain ⟨k, hk⟩ := toList_strPadLeft_negSucc n w
    rw [hj, hk] at hlist
    have hdigits := ((List.append_cons_inj_of_notMem (minus_notMem_zeros j)
      (minus_notMem_toDigits _)).1 hlist).2.2
    have hvalue := congrArg value hdigits
    rw [value_toDigits, value_toDigits] at hvalue
    rw [Nat.succ.inj hvalue]

/-! ## Dates -/

/-- `date("Ymd")` -/
def dateText (t : Calendar.DateTime) : String :=
  padded t.year 4 ++ padded t.month 2 ++ padded t.day 2

theorem length_dateText {t : Calendar.DateTime} (h : t.year < 10 ^ 4) :
    (dateText t).length = 8 := by
  have := t.day_le_31
  have := t.month_le
  rw [← String.length_toList, dateText, String.toList_append, String.toList_append,
    List.length_append, List.length_append, length_padded (by decide) h,
    length_padded (by decide) (by omega), length_padded (by decide) (by omega)]

/-- Such a date tells the day. -/
theorem dateText_inj {t u : Calendar.DateTime} :
    dateText t = dateText u ↔ t.year = u.year ∧ t.month = u.month ∧ t.day = u.day := by
  have := t.day_le_31
  have := u.day_le_31
  have := t.month_le
  have := u.month_le
  -- from the end on, every number has its width; the year is what is left
  rw [dateText, dateText, append_padded_inj (by decide) (by omega) (by omega),
    append_padded_inj (by decide) (by omega) (by omega), padded_inj, and_assoc]

end DecimalText
