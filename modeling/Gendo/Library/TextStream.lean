import Gendo.Library.BufferedLines
import Mathlib.Algebra.Group.Int.Defs
import Mathlib.Algebra.Group.Nat.Defs
import Mathlib.Data.Int.Basic
import Mathlib.Data.List.TakeWhile

/-!
# Text streams

The parts of a C library that a line format rests on: what `%d` and its relatives print, the
`scanf` directives that read numbers and white space, and the translation between a text and the
bytes of a file that is opened in text mode, where a line feed is two bytes and a `SUB` ends the
file.

`scanf_decimals` reads back printed numbers, each with a line feed behind it; the white space
directive at the end goes on over all white space that follows. `ofFile_toFile` is what comes
back of a text that was written.
-/

namespace TextStream

open BufferedLines

/-- The carriage return. -/
def CR : UInt8 := 13

/-- The byte that ends a text file. -/
def SUB : UInt8 := 26

/-- `isspace` in the C locale. -/
def isSpace (b : UInt8) : Bool := b = 32 || (9 ≤ b && b ≤ 13)

/-- `isdigit`. -/
def isDigit (b : UInt8) : Bool := 48 ≤ b && b ≤ 57

/-- The digits of a number. -/
def decimalNat (n : ℕ) : List UInt8 := (Nat.toDigits 10 n).map fun c => .ofNat c.toNat

/-- What `%d` and `%lld` print. -/
def decimal : ℤ → List UInt8
  | .ofNat n => decimalNat n
  | .negSucc n => 45 :: decimalNat (n + 1)

/-- What digits stand for, behind others with this value. -/
def digitsValue (n : ℕ) (bs : List UInt8) : ℕ := bs.foldl (fun n b => 10 * n + (b.toNat - 48)) n

/-- A white space directive. -/
def skipSpace (text : List UInt8) : List UInt8 := text.dropWhile isSpace

/-- The digits of a number that is read, after its sign. -/
def scanDigits (sign : ℤ) (text : List UInt8) : Option ℤ × List UInt8 :=
  let ds := text.takeWhile isDigit
  if ds = [] then (none, text) else (some (sign * digitsValue 0 ds), text.dropWhile isDigit)

/-- `%d` and `%lld`: the number, if there is one, and the text left. A sign without digits is
lost. -/
def scanInt (text : List UInt8) : Option ℤ × List UInt8 :=
  match skipSpace text with
  | [] => (none, [])
  | b :: bs =>
    if b = 45 then scanDigits (-1) bs
    else if b = 43 then scanDigits 1 bs
    else scanDigits 1 (b :: bs)

/-- A directive of a `scanf` format. -/
inductive Directive
  | int
  | space
  deriving DecidableEq, Repr

/-- `scanf`: the numbers that were assigned, and the text left. A directive that fails is the
last one. -/
def scanf : List Directive → List UInt8 → List ℤ × List UInt8
  | [], text => ([], text)
  | .space :: ds, text => scanf ds (skipSpace text)
  | .int :: ds, text =>
    match scanInt text with
    | (none, rest) => ([], rest)
    | (some z, rest) => (z :: (scanf ds rest).1, (scanf ds rest).2)

/-- The bytes of a text that is written in text mode. -/
def toFile : List UInt8 → List UInt8
  | [] => []
  | b :: text => if b = LF then CR :: LF :: toFile text else b :: toFile text

/-- The text of a file that is read in text mode. -/
def ofFile : List UInt8 → List UInt8
  | [] => []
  | b :: bs =>
    if b = SUB then []
    else if b = CR ∧ bs.head? = some LF then ofFile bs
    else b :: ofFile bs

variable {b : UInt8} {bs text rest : List UInt8} {n : ℕ} {z : ℤ}

/-! ## White space -/

theorem isSpace_LF : isSpace LF = true := rfl

/-- White space is skipped up to a byte that is none. -/
theorem skipSpace_of_head (h : ∀ b ∈ text.head?, isSpace b = false) : skipSpace text = text := by
  cases text with
  | nil => rfl
  | cons b text => exact List.dropWhile_cons_of_neg (by simp [h b rfl])

/-- What follows the white space does not begin with any. -/
theorem head_skipSpace (text : List UInt8) : ∀ b ∈ (skipSpace text).head?, isSpace b = false := by
  intro b hb
  have hnot := List.head?_dropWhile_not isSpace text
  rw [skipSpace] at hb
  rw [hb] at hnot
  simpa using hnot

/-- Text that is not all white space is not all skipped. -/
theorem skipSpace_ne_nil (hb : b ∈ text) (hspace : isSpace b = false) : skipSpace text ≠ [] := by
  intro hnil
  have hall : isSpace b = true := List.dropWhile_eq_nil_iff.mp hnil b hb
  rw [hspace] at hall
  cases hall

theorem mem_of_mem_skipSpace (h : b ∈ skipSpace text) : b ∈ text :=
  (List.dropWhile_suffix isSpace).subset h

/-! ## Numbers -/

/-- The last digit, and those before it. -/
theorem decimalNat_eq (n : ℕ) :
    decimalNat n = (if n < 10 then [] else decimalNat (n / 10)) ++ [.ofNat (48 + n % 10)] := by
  rw [decimalNat, Nat.toDigits_eq_if (by decide)]
  split_ifs with h
  · rw [List.map_singleton, Nat.toNat_digitChar_of_lt_ten h, Nat.mod_eq_of_lt h]
    rfl
  · rw [List.map_append, List.map_singleton,
      Nat.toNat_digitChar_of_lt_ten (Nat.mod_lt n (by decide))]
    rfl

theorem toNat_digit (h : n < 10) : (UInt8.ofNat (48 + n)).toNat = 48 + n :=
  UInt8.toNat_ofNat_of_lt' (by rw [UInt8.size]; omega)

theorem isDigit_digit (h : n < 10) : isDigit (.ofNat (48 + n)) = true := by
  have hnat := toNat_digit h
  rw [isDigit, Bool.and_eq_true, decide_eq_true_eq, decide_eq_true_eq, UInt8.le_iff_toNat_le,
    UInt8.le_iff_toNat_le, hnat]
  exact ⟨Nat.le_add_right 48 n, by show 48 + n ≤ 57; omega⟩

/-- A number is printed with digits, which stand for it. -/
theorem decimalNat_spec (n : ℕ) :
    (∀ b ∈ decimalNat n, isDigit b = true) ∧ digitsValue 0 (decimalNat n) = n := by
  induction n using Nat.strongRecOn with
  | ind n ih =>
    have hlt : n % 10 < 10 := Nat.mod_lt n (by decide)
    have hdigit := isDigit_digit hlt
    rw [decimalNat_eq]
    split_ifs with h
    · refine ⟨by simpa using hdigit, ?_⟩
      rw [List.nil_append, digitsValue, List.foldl_cons, List.foldl_nil, toNat_digit hlt]
      omega
    · obtain ⟨hdigits, hvalue⟩ := ih (n / 10) (by omega)
      refine ⟨?_, ?_⟩
      · intro b hb
        rcases List.mem_append.mp hb with hb | hb
        · exact hdigits b hb
        · rw [List.mem_singleton.mp hb]
          exact hdigit
      · rw [digitsValue] at hvalue ⊢
        rw [List.foldl_append, hvalue, List.foldl_cons, List.foldl_nil, toNat_digit hlt]
        omega

theorem decimalNat_ne_nil (n : ℕ) : decimalNat n ≠ [] := by
  rw [decimalNat_eq]
  simp

/-- The digits at the front of a text are read. -/
theorem scanDigits_decimalNat (sign : ℤ) (n : ℕ)
    (hrest : ∀ b ∈ rest.head?, isDigit b = false) :
    scanDigits sign (decimalNat n ++ rest) = (some (sign * n), rest) := by
  obtain ⟨hdigits, hvalue⟩ := decimalNat_spec n
  have htake : rest.takeWhile isDigit = [] ∧ rest.dropWhile isDigit = rest := by
    cases rest with
    | nil => exact ⟨rfl, rfl⟩
    | cons b rest =>
      have hb : ¬ isDigit b = true := by simp [hrest b rfl]
      exact ⟨List.takeWhile_cons_of_neg hb, List.dropWhile_cons_of_neg hb⟩
  rw [scanDigits, List.takeWhile_append_of_pos hdigits, List.dropWhile_append_of_pos hdigits,
    htake.1, htake.2, List.append_nil, if_neg (decimalNat_ne_nil n), hvalue]

/-- A digit is neither a sign, nor white space, nor a control character. -/
theorem isDigit_spec (h : isDigit b = true) : b ≠ 45 ∧ b ≠ 43 ∧ isSpace b = false ∧ 32 < b := by
  simp only [isDigit, isSpace, Bool.and_eq_true, decide_eq_true_eq, Bool.or_eq_false_iff,
    Bool.and_eq_false_iff, decide_eq_false_iff_not, UInt8.le_iff_toNat_le, UInt8.lt_iff_toNat_lt,
    ne_eq, ← UInt8.toNat_inj] at h ⊢
  simp only [UInt8.reduceToNat] at h ⊢
  omega

/-- What is printed of a number has no white space and no control characters. -/
theorem decimal_spec (h : b ∈ decimal z) : isSpace b = false ∧ 32 < b := by
  cases z with
  | ofNat n => exact (isDigit_spec ((decimalNat_spec n).1 b h)).2.2
  | negSucc n =>
    rcases List.mem_cons.mp h with rfl | h
    · exact ⟨by decide, by decide⟩
    · exact (isDigit_spec ((decimalNat_spec (n + 1)).1 b h)).2.2

theorem decimal_ne_nil (z : ℤ) : decimal z ≠ [] := by
  cases z with
  | ofNat n => exact decimalNat_ne_nil n
  | negSucc n => exact List.cons_ne_nil _ _

/-- In front of a number nothing is skipped. -/
theorem skipSpace_decimal (z : ℤ) (rest : List UInt8) :
    skipSpace (decimal z ++ rest) = decimal z ++ rest := by
  refine skipSpace_of_head fun b hb => (decimal_spec (z := z) (List.mem_of_mem_head? ?_)).1
  rwa [List.head?_append_of_ne_nil _ (decimal_ne_nil z)] at hb

/-- A number that was printed is read. -/
theorem scanInt_decimal (z : ℤ) (hrest : ∀ b ∈ rest.head?, isDigit b = false) :
    scanInt (decimal z ++ rest) = (some z, rest) := by
  rw [scanInt, skipSpace_decimal]
  cases z with
  | ofNat n =>
    have hread := scanDigits_decimalNat 1 n hrest
    rcases hn : decimalNat n with _ | ⟨b, ds⟩
    · exact absurd hn (decimalNat_ne_nil n)
    · have hdigit := (decimalNat_spec n).1 b (by rw [hn]; exact List.mem_cons_self)
      obtain ⟨hminus, hplus, -⟩ := isDigit_spec hdigit
      rw [hn, Int.one_mul] at hread
      rw [decimal, hn, List.cons_append]
      dsimp only
      rw [if_neg hminus, if_neg hplus]
      exact hread
  | negSucc n =>
    have hread := scanDigits_decimalNat (-1) (n + 1) hrest
    rw [decimal, List.cons_append]
    dsimp only
    rw [if_pos rfl, hread, Int.negSucc_eq, Int.neg_one_mul]
    rfl

/-- Digits alone are read, whatever number of zeros they begin with. -/
theorem scanInt_digits {ds : List UInt8} (hne : ds ≠ []) (hdigits : ∀ b ∈ ds, isDigit b = true) :
    (scanInt ds).1 = some (digitsValue 0 ds : ℤ) := by
  obtain ⟨b, bs, rfl⟩ := List.exists_cons_of_ne_nil hne
  obtain ⟨hminus, hplus, hspace, -⟩ := isDigit_spec (hdigits b List.mem_cons_self)
  have hskip : skipSpace (b :: bs) = b :: bs := skipSpace_of_head fun c hc => by
    rw [← Option.some.inj hc]
    exact hspace
  have htake : (b :: bs).takeWhile isDigit = b :: bs := List.takeWhile_eq_self_iff.mpr hdigits
  rw [scanInt, hskip]
  simp only [hminus, hplus, if_false, scanDigits, htake, reduceCtorEq, one_mul]

/-- A number with a line feed behind it. -/
theorem scanf_decimal (z : ℤ) (ds : List Directive) (text : List UInt8) :
    scanf (.int :: .space :: ds) (decimal z ++ LF :: text) =
      (z :: (scanf ds (skipSpace text)).1, (scanf ds (skipSpace text)).2) := by
  have hread : scanInt (decimal z ++ LF :: text) = (some z, LF :: text) :=
    scanInt_decimal z fun b hb => by
      obtain rfl := Option.some.inj hb
      rfl
  have hskip : skipSpace (LF :: text) = skipSpace text := List.dropWhile_cons_of_pos isSpace_LF
  rw [scanf, hread]
  dsimp only
  rw [scanf, hskip]

/-- A directive only takes from the front of the text. -/
theorem scanInt_suffix (text : List UInt8) : (scanInt text).2 <:+ text := by
  have hdigits : ∀ (sign : ℤ) (text : List UInt8), (scanDigits sign text).2 <:+ text := by
    intro sign text
    rw [scanDigits]
    split_ifs
    · exact List.suffix_rfl
    · exact List.dropWhile_suffix _
  have hskip : skipSpace text <:+ text := List.dropWhile_suffix isSpace
  rw [scanInt]
  split
  · exact List.nil_suffix
  · next b bs hbs =>
    have hbs' : bs <:+ text := (List.suffix_cons b bs).trans (hbs ▸ hskip)
    split_ifs
    · exact (hdigits _ _).trans hbs'
    · exact (hdigits _ _).trans hbs'
    · exact (hdigits _ _).trans (hbs ▸ hskip)

theorem scanf_suffix (ds : List Directive) (text : List UInt8) : (scanf ds text).2 <:+ text := by
  induction ds generalizing text with
  | nil => exact List.suffix_rfl
  | cons d ds ih =>
    cases d with
    | space => exact (ih _).trans (List.dropWhile_suffix isSpace)
    | int =>
      have hint := scanInt_suffix text
      rw [scanf]
      split
      · next rest hread => rwa [hread] at hint
      · next z rest hread =>
        rw [hread] at hint
        exact (ih rest).trans hint

/-! ## Text mode -/

theorem head_toFile (text : List UInt8) : (toFile text).head? ≠ some LF := by
  cases text with
  | nil => simp [toFile]
  | cons b text =>
    rw [toFile]
    split_ifs with hb
    · simp [CR, LF]
    · simpa using hb

/-- A file without carriage returns and `SUB`s is the text. -/
theorem ofFile_of_forall (h : ∀ b ∈ bs, b ≠ SUB ∧ b ≠ CR) : ofFile bs = bs := by
  induction bs with
  | nil => rfl
  | cons b bs ih =>
    obtain ⟨hb, hbs⟩ := List.forall_mem_cons.mp h
    rw [ofFile, if_neg hb.1, if_neg (by simp [hb.2]), ih hbs]

/-- A text that was written is read as it was, up to the first byte that ends a file. -/
theorem ofFile_toFile (text : List UInt8) :
    ofFile (toFile text) = text.takeWhile fun b => b ≠ SUB := by
  induction text with
  | nil => rfl
  | cons b text ih =>
    rw [toFile]
    split_ifs with hb
    · -- the carriage return goes
      obtain rfl := hb
      have hcr : ofFile (CR :: LF :: toFile text) = ofFile (LF :: toFile text) := rfl
      have hlf : ofFile (LF :: toFile text) = LF :: ofFile (toFile text) := rfl
      rw [hcr, hlf, ih]
      rfl
    · have hcr : ¬ (b = CR ∧ (toFile text).head? = some LF) := fun h => head_toFile text h.2
      rw [ofFile, if_neg hcr, ih]
      by_cases hsub : b = SUB
      · rw [if_pos hsub, List.takeWhile_cons_of_neg (by simpa using hsub)]
      · rw [if_neg hsub, List.takeWhile_cons_of_pos (by simpa using hsub)]

end TextStream
