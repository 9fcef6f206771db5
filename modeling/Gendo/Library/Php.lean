import Gendo.Library.Binary64
import Mathlib.Data.List.TakeWhile
import Mathlib.Data.Nat.Cast.Order.Field

/-!
# Numbers and strings of PHP

What PHP makes of a string in arithmetic (`number`), of a number in an integer argument (`toInt`),
and of a number that is padded into a string (`strPadLeft`); when `==` calls two strings the same
(`looseEq`). This is PHP 5 with integers of 64 bits: every other number is a `Binary64`, and a
string may begin with a hexadecimal number.

PHP does not say what becomes of a float that is too large for an integer, so `toInt` has this as a
parameter. For a quotient of moderate size no rounding can be seen in the integer
(`toInt_plus_divide`).
-/

namespace Php

/-! ## Numbers -/

/-- A number of PHP. -/
inductive Number
  | int (n : ℤ)
  | float (x : Binary64)
  deriving DecidableEq, Repr

/-- The number is an integer of 64 bits. -/
def fits (n : ℤ) : Bool := -2 ^ 63 ≤ n && n < 2 ^ 63

/-- A number divided by a positive integer. -/
def divide (x : Number) (d : ℕ) : Number :=
  match x with
  | .int n => if n % d = 0 then .int (n / d) else .float ((Binary64.ofRat n).map (· / d))
  | .float x => .float (x.map (· / d))

/-- A number added to a small integer. -/
def plus (m : ℕ) : Number → Number
  | .int n => if fits (m + n) then .int (m + n) else .float ((Binary64.ofRat n).map (m + ·))
  | .float x => .float (x.map (m + ·))

/-- The fraction is cut off. -/
def truncate (q : ℚ) : ℤ := q.num.tdiv q.den

/-- A number as an integer argument. -/
def toInt (undefined : Binary64 → ℤ) : Number → ℤ
  | .int n => n
  | .float (.finite q) => if fits (truncate q) then truncate q else undefined (.finite q)
  | .float x => undefined x

/-! ## Strings -/

/-- The characters that PHP skips before a number. -/
def isSpace (c : Char) : Bool := c ∈ [' ', '\t', '\n', '\r', '\x0b', '\x0c']

/-- The value of a string of digits. -/
def digits (cs : List Char) : ℕ := Nat.ofDigitChars 10 cs 0

def isHexDigit (c : Char) : Bool := c.isDigit || 'a' ≤ c && c ≤ 'f' || 'A' ≤ c && c ≤ 'F'

/-- The value of a hexadecimal digit. -/
def hexDigit (c : Char) : ℕ :=
  if c.isDigit then c.toNat - 48 else if 'a' ≤ c then c.toNat - 87 else c.toNat - 55

/-- A number as it is written in a string. -/
inductive Literal
  | hex (digits : List Char)
  | decimal (neg : Bool) (whole : List Char) (fraction : Option (List Char)) (exponent : Option ℤ)

/-- Take a sign off, and say whether it was a minus. -/
def takeSign : List Char → Bool × List Char
  | '-' :: cs => (true, cs)
  | '+' :: cs => (false, cs)
  | cs => (false, cs)

/-- Take a point and the digits after it off. -/
def takeFraction : List Char → Option (List Char) × List Char
  | '.' :: cs => (some (cs.takeWhile Char.isDigit), cs.dropWhile Char.isDigit)
  | cs => (none, cs)

/-- Take an exponent off. -/
def takeExponent : List Char → Option ℤ × List Char
  | e :: cs =>
    let (neg, ds) := takeSign cs
    let n : ℤ := digits (ds.takeWhile Char.isDigit)
    if (e = 'e' ∨ e = 'E') ∧ ds.takeWhile Char.isDigit ≠ [] then
      (some (if neg then -n else n), ds.dropWhile Char.isDigit)
    else (none, e :: cs)
  | [] => (none, [])

/-- The characters behind `0x`, if there are any. -/
def afterHexMark : List Char → Option (List Char)
  | '0' :: x :: c :: cs => if x = 'x' ∨ x = 'X' then some (c :: cs) else none
  | _ => none

/-- The number that the characters start with, and those behind it. -/
def scanDecimal (cs : List Char) : Option (Literal × List Char) :=
  let (neg, cs) := takeSign cs
  let whole := cs.takeWhile Char.isDigit
  let (fraction, rest) := takeFraction (cs.dropWhile Char.isDigit)
  -- a sign or a point without digits is no number
  if whole = [] ∧ fraction.getD [] = [] then none
  else
    let (exponent, rest) := takeExponent rest
    some (.decimal neg whole fraction exponent, rest)

/-- The number that a string starts with, and the characters behind it. -/
def scan (s : String) : Option (Literal × List Char) :=
  let cs := s.toList.dropWhile isSpace
  match afterHexMark cs with
  | some cs => some (.hex (cs.takeWhile isHexDigit), cs.dropWhile isHexDigit)
  | none => scanDecimal cs

namespace Literal

/-- The integer that is written without a point or an exponent. -/
def int : Literal → Option ℤ
  | hex ds => some (ds.foldl (fun n c => 16 * n + hexDigit c) 0)
  | decimal neg whole none none => some (if neg then -digits whole else digits whole)
  | _ => none

/-- What is written, exactly. -/
def value : Literal → ℚ
  | hex ds => ds.foldl (fun n c => 16 * n + hexDigit c) 0
  | decimal neg whole fraction exponent =>
    let fraction := fraction.getD []
    let q : ℚ :=
      digits (whole ++ fraction) / 10 ^ fraction.length * (10 : ℚ) ^ exponent.getD 0
    if neg then -q else q

/-- The float nearest to it; hexadecimal digits are rounded one by one. -/
def float : Literal → Binary64
  | hex ds => ds.foldl (fun x c => x.map (16 * · + hexDigit c)) (.finite 0)
  | l => .ofRat l.value

def number (l : Literal) : Number :=
  match l.int with
  | some n => if fits n then .int n else .float l.float
  | none => .float l.float

/-- Whether there are too many digits for an integer, as a sign or 0. -/
def overflow : Literal → ℤ
  | hex ds => if ((hex ds).int.all fits) then 0 else 1
  | decimal neg whole fraction exponent =>
    if 10 ^ 19 ≤ digits whole ∨ (decimal neg whole fraction exponent).int.all fits = false then
      if neg then -1 else 1
    else 0

end Literal

/-- The number that a string starts with, or 0. -/
def number (s : String) : Number := ((scan s).map fun l => l.1.number).getD (.int 0)

/-- It exactly. -/
def value (s : String) : ℚ := ((scan s).map fun l => l.1.value).getD 0

/-- The number that the whole string is. -/
def numeric (s : String) : Option Literal :=
  match scan s with
  | some (l, []) => some l
  | _ => none

/-- The whole string is a number. -/
def isNumeric (s : String) : Bool := (numeric s).isSome

/-- `==` of two strings. -/
def looseEq (s t : String) : Bool :=
  match numeric s, numeric t with
  | some l, some k =>
    match l.number, k.number with
    | .int m, .int n => m = n
    -- an integer is not compared with digits that are too many for one
    | .int m, .float y => k.overflow = 0 ∧ Binary64.ofRat m = y
    | .float x, .int n => l.overflow = 0 ∧ x = Binary64.ofRat n
    | .float x, .float y =>
      -- where the floats cannot tell, the strings decide
      if l.overflow ≠ 0 ∧ l.overflow = k.overflow ∨ x = .infinite true ∨ x = .infinite false then
        x = y ∧ s = t
      else x = y
  | _, _ => s = t

/-- `str_pad` on the left with zeros. -/
def strPadLeft (s : String) (length : ℕ) : String :=
  String.ofList (List.replicate (length - s.length) '0' ++ s.toList)

theorem looseEq_self (s : String) : looseEq s s = true := by
  unfold looseEq
  cases numeric s with
  | none => exact decide_eq_true rfl
  | some l =>
    dsimp only
    cases l.number with
    | int n => exact decide_eq_true rfl
    | float x =>
      dsimp only
      split <;> simp

theorem looseEq_iff {s t : String} (h : isNumeric t = false) : looseEq s t = true ↔ s = t := by
  have hnone : numeric t = none := Option.isSome_eq_false_iff.mp h |> Option.isNone_iff_eq_none.mp
  unfold looseEq
  rw [hnone]
  cases numeric s <;> exact decide_eq_true_iff

section Digits

variable {c : Char} {cs : List Char}

theorem not_isSpace_of_isDigit (h : c.isDigit = true) : ¬isSpace c = true := by
  intro hspace
  simp only [isSpace, List.mem_cons, List.not_mem_nil, or_false, decide_eq_true_eq] at hspace
  rcases hspace with rfl | rfl | rfl | rfl | rfl | rfl <;> exact absurd h (by decide)

theorem takeSign_of_isDigit (h : c.isDigit = true) : takeSign (c :: cs) = (false, c :: cs) := by
  unfold takeSign
  split
  · next heq =>
    cases heq
    exact absurd h (by decide)
  · next heq =>
    cases heq
    exact absurd h (by decide)
  · rfl

theorem afterHexMark_of_isDigit (h : ∀ c ∈ cs, c.isDigit = true) : afterHexMark cs = none := by
  unfold afterHexMark
  split
  · next x c ds =>
    have hx := h x (by simp)
    refine if_neg ?_
    rintro (rfl | rfl)
    · exact absurd hx (by decide)
    · exact absurd hx (by decide)
  · rfl

/-- Digits are the integer that they stand for. -/
theorem number_digits (hne : cs ≠ []) (h : ∀ c ∈ cs, c.isDigit = true)
    (hlt : digits cs < 2 ^ 63) : number (String.ofList cs) = .int (digits cs) := by
  have hscan : scan (String.ofList cs) = some (.decimal false cs none none, []) := by
    have hspace : cs.dropWhile isSpace = cs := by
      rw [List.dropWhile_eq_self_iff]
      exact fun hl => not_isSpace_of_isDigit (h _ (List.getElem_mem hl))
    have hsign : takeSign cs = (false, cs) := by
      obtain ⟨c, ds, rfl⟩ := List.exists_cons_of_ne_nil hne
      exact takeSign_of_isDigit (h c List.mem_cons_self)
    rw [scan, String.toList_ofList, hspace, afterHexMark_of_isDigit h]
    simp only [scanDecimal, hsign, List.takeWhile_eq_self_iff.mpr h,
      List.dropWhile_eq_nil_iff.mpr h, takeFraction, takeExponent, hne, false_and, if_false]
  have hfits : fits (digits cs) = true := by
    rw [fits, Bool.and_eq_true, decide_eq_true_eq, decide_eq_true_eq]
    omega
  rw [number, hscan, Option.map_some, Option.getD_some]
  simp only [Literal.number, Literal.int, Bool.false_eq_true, if_false, hfits, if_true]

end Digits

section Integers

/-- The integer below a number that is not negative. -/
theorem truncate_eq {q : ℚ} {k : ℕ} (hlo : k ≤ q) (hhi : q < k + 1) : truncate q = k := by
  have hnum : 0 ≤ q.num := Rat.num_nonneg.mpr (hlo.trans' (Nat.cast_nonneg k))
  have hfloor : ⌊q⌋ = k := Int.floor_eq_iff.mpr ⟨by exact_mod_cast hlo, by exact_mod_cast hhi⟩
  rw [truncate, Int.tdiv_eq_ediv_of_nonneg hnum, ← hfloor, Rat.floor_def']

/-- Where the divisor is small, and the quotient not too large, the integer is that of the exact
result: the fraction of the quotient keeps away from the next integer. -/
theorem toInt_plus_divide (undefined : Binary64 → ℤ) {m n d : ℕ} (hm : 0 < m) (hm' : m < 2 ^ 20)
    (hn : n < 2 ^ 40) (hd : 0 < d) (hd' : d ≤ 32) :
    toInt undefined (plus m (divide (.int n) d)) = m + n / d := by
  have hquot : n / d < 2 ^ 40 := (Nat.div_le_self n d).trans_lt hn
  have hfits : ∀ k : ℕ, k < 2 ^ 41 → fits k = true := fun k hk => by
    rw [fits, Bool.and_eq_true, decide_eq_true_eq, decide_eq_true_eq]
    omega
  have hsum := hfits (m + n / d) (by omega)
  push_cast at hsum
  by_cases hdvd : (n : ℤ) % d = 0
  · rw [divide, if_pos hdvd, plus, if_pos hsum]
    rfl
  · have hrest := Nat.div_add_mod n d
    have hmod := Nat.mod_lt n hd
    have hpos : 0 < n := by
      rcases Nat.eq_zero_or_pos n with rfl | hpos
      · exact absurd (by simp) hdvd
      · exact hpos
    have hdq : (0 : ℚ) < d := by exact_mod_cast hd
    have hnq : (0 : ℚ) < n := by exact_mod_cast hpos
    -- the quotient is rounded, and then the sum
    have hlo : ((n / d : ℕ) : ℚ) ≤ n / d := Nat.cast_div_le
    have hhi : (n / d : ℚ) ≤ (n / d : ℕ) + 31 / 32 := by
      have hrest' : (n : ℚ) = d * (n / d : ℕ) + (n % d : ℕ) := by exact_mod_cast hrest.symm
      have hlast : ((n % d : ℕ) : ℚ) + 1 ≤ d := by exact_mod_cast hmod
      have hfew : (d : ℚ) ≤ 32 := by exact_mod_cast hd'
      rw [div_le_iff₀ hdq]
      conv_lhs => rw [hrest']
      linarith
    obtain ⟨x, hx, hxlo, hxhi⟩ :=
      Binary64.ofRat_between (hquot.trans (by norm_num)) (div_pos hnq hdq).ne' hlo hhi
    have hmq : (0 : ℚ) < m := by exact_mod_cast hm
    have hxnonneg : 0 ≤ x := hxlo.trans' (Nat.cast_nonneg _)
    have hlo' : ((m + n / d : ℕ) : ℚ) ≤ m + x := by
      rw [Nat.cast_add]
      linarith
    have hhi' : (m + x : ℚ) ≤ (m + n / d : ℕ) + 31 / 32 := by
      rw [Nat.cast_add]
      linarith
    obtain ⟨y, hy, hylo, hyhi⟩ :=
      Binary64.ofRat_between (m := m + n / d) (by omega) (by linarith) hlo' hhi'
    have htruncate : truncate y = (m + n / d : ℕ) := truncate_eq hylo (by linarith)
    have hround : ((Binary64.ofRat (n : ℤ)).map (· / d)).map ((m : ℚ) + ·) = .finite y := by
      rw [Int.cast_natCast, Binary64.ofRat_natCast (hn.trans (by norm_num)), Binary64.map, hx,
        Binary64.map, hy]
    rw [divide, if_neg hdvd, plus, hround, toInt, htruncate, if_pos (hfits _ (by omega))]
    push_cast
    rfl

end Integers

example : number " 0.15x" = .float (.finite (5404319552844595 / 36028797018963968)) := by
  decide +kernel
example : number "1e2 days" = .float (.finite 100) := by decide +kernel
example : number "0x1C2" = .int 450 := by decide +kernel
example : truncate (-7 / 2) = -3 := by decide +kernel

-- two digests that begin with 0e
example : looseEq "0e46" "0e83" = true := by decide +kernel

end Php
