import Gendo.Library.TextStream
import Gendo.Library.WordBits
import Gendo.Server.ConfigFile

/-!
# Addresses and masks

`IsGoodIp` and `IsGoodMask` of `lib-file.c`, for an `unsigned long` of 32 or 64 bits.

`IsGoodMask` shifts the mask to the left until it is zero. In a word of 64 bits it never is, so that
no mask but 0.0.0.0 is good. `isGoodMask_isGoodIp_iff` says for which masks and for which pairs of
an address and a mask the two functions return what they should.
-/

namespace Gendo

open TextStream (decimalNat isDigit scanInt)
open WordBits

/-- The size of an `unsigned long`. -/
inductive LongSize
  | long32
  | long64
  deriving DecidableEq, Repr

/-- Its bits. -/
def LongSize.bits : LongSize → ℕ
  | long32 => 32
  | long64 => 64

/-! ## Fields and numbers -/

/-- The loop of `GetField` and `vgetw` for the field with this number, from 0 on. -/
def fieldAt (sep : List UInt8) : ℕ → List UInt8 → Option (List UInt8)
  | 0, line =>
    let field := (line.dropWhile fun c => sep.contains c).takeWhile fun c => !sep.contains c
    if field = [] then none else some field
  | f + 1, line =>
    -- the separator behind a field is skipped
    fieldAt sep f
      (((line.dropWhile fun c => sep.contains c).dropWhile fun c => !sep.contains c).drop 1)

/-- `GetField(line, sep, f + 1)`. -/
def getFieldBy (sep : List UInt8) (f : ℕ) (line : List UInt8) : Option (List UInt8) :=
  (fieldAt sep f line).map fun field => field.take (LINE_BUF_LEN - 1)

/-- `vgetw(line, sep, f + 1, field, len)`. -/
def vgetwBy (sep : List UInt8) (f : ℕ) (line : List UInt8) (len : ℕ) : Option (List UInt8) :=
  (fieldAt sep f line).map fun field => field.take (len - 1)

/-- `isxdigit`. -/
def isxdigit (c : UInt8) : Bool := isDigit c || (65 ≤ c && c ≤ 70) || (97 ≤ c && c ≤ 102)

/-- Where `strtol(s, &e, 0)` leaves `e`: behind a hexadecimal, octal or decimal number, or at the
beginning if there is none. -/
def strtolEnd (s : List UInt8) : List UInt8 :=
  let text := s.dropWhile TextStream.isSpace
  let body := if text.head? = some 43 ∨ text.head? = some 45 then text.drop 1 else text
  if body.head? = some 48 then
    if (body[1]? = some 120 ∨ body[1]? = some 88) ∧ ((body.drop 2).takeWhile isxdigit) ≠ [] then
      (body.drop 2).dropWhile isxdigit
    else body.dropWhile fun c => 48 ≤ c && c ≤ 55
  else if body.takeWhile isDigit = [] then s
  else body.dropWhile isDigit

/-- `IsNum`. -/
def isNum (s : List UInt8) : Bool :=
  strtolEnd (s.dropWhile fun c => c = 32 || c = 48 || c = 9) = []

/-- `atoi`, which is an `int` from `strtol`. -/
def atoiLong (size : LongSize) (s : List UInt8) : Int32 :=
  Int32.ofInt
    (max (-2 ^ (size.bits - 1)) (min (2 ^ (size.bits - 1) - 1) ((scanInt s).1.getD 0)))

/-- `!(atoi(f) < 0 || atoi(f) > max)` -/
def inRange (size : LongSize) (max : ℤ) (f : List UInt8) : Bool :=
  0 ≤ (atoiLong size f).toInt && (atoiLong size f).toInt ≤ max

/-- The loop over the fields between the dots. -/
def octetsOk (size : LongSize) (text : List UInt8) : Bool :=
  (List.range 4).all fun i =>
    match getFieldBy [46] i text with
    | none => false
    | some f => inRange size 255 f

/-! ## Addresses -/

/-- Four numbers with dots between them. -/
def dotted (a b c d : ℕ) : List UInt8 :=
  decimalNat a ++ 46 :: (decimalNat b ++ 46 :: (decimalNat c ++ 46 :: decimalNat d))

/-- `inet_addr` on a machine that stores the lowest byte first. It is only said what it does with a
dotted quad. -/
structure InetAddr where
  addr : List UInt8 → ℕ
  addr_lt : ∀ text, addr text < 2 ^ 32
  addr_dotted : ∀ a b c d, a < 256 → b < 256 → c < 256 → d < 256 →
    addr (dotted a b c d) = a + 2 ^ 8 * b + 2 ^ 16 * c + 2 ^ 24 * d

/-- `INADDR_NONE`. -/
def INADDR_NONE : ℕ := 0xffffffff

/-- The text that `inet_addr` returns `INADDR_NONE` for, although it is a mask. -/
def allOnes : List UInt8 := ascii "255.255.255.255"

/-- The bytes of an address the other way round, as `IsGoodMask` computes `swap`. They fit a word of
32 bits. -/
def hostOrder (addr : ℕ) : ℕ :=
  ((addr &&& 0xff000000) >>> 24) + ((addr &&& 0xff0000) >>> 8) + ((addr &&& 0xff00) <<< 8) +
    ((addr &&& 0xff) <<< 24)

/-- The loop of `IsGoodMask`, with this many rounds to go. -/
def maskLoop (size : LongSize) : ℕ → ℕ → Bool
  | 0, _ => true
  | n + 1, swap =>
    if swap ≠ 0 ∧ swap &&& 0x80000000 = 0 then false
    else if swap = 0 then true
    else maskLoop size n ((swap <<< 1) % 2 ^ size.bits)

/-- `IsGoodMask`. -/
def isGoodMask (inet : InetAddr) (size : LongSize) (str : List UInt8) : Bool :=
  if inet.addr str = INADDR_NONE ∧ str ≠ allOnes then false
  else maskLoop size 33 (hostOrder (inet.addr str))

/-- `" \t/\n\r"` -/
def ipSeps : List UInt8 := [32, 9, 47, 10, 13]

/-- `IsGoodIp`. -/
def isGoodIp (inet : InetAddr) (size : LongSize) (ip : List UInt8) : Bool :=
  match getFieldBy ipSeps 0 ip with
  | none => false
  | some f =>
    if inet.addr f = INADDR_NONE then false
    else if !octetsOk size ip then false
    else
      match vgetwBy ipSeps 1 ip 256 with
      | none => true
      | some mask =>
        if 46 ∉ mask then isNum mask && inRange size 32 mask
        else if inet.addr mask = INADDR_NONE ∧ mask ≠ allOnes then false
        else if !octetsOk size mask then false
        else isGoodMask inet size mask

/-- `GetField(line, NULL, 1)` is the first field. -/
theorem getFieldBy_eq_getField (line : List UInt8) :
    getFieldBy [32, 9, 10, 13] 0 line = getField line := by
  have hsep : ∀ c : UInt8, ([32, 9, 10, 13] : List UInt8).contains c = isSep c := by
    intro c
    simp [isSep, Bool.or_assoc]
  simp only [getFieldBy, fieldAt, hsep, getField]
  split_ifs with h
  · rfl
  · rfl

/-! ## The loop of the mask -/

/-- In a word of 32 bits the loop accepts the runs of ones. The induction is on the bits that are
left of the mask. -/
theorem maskLoop_long32 {n x : ℕ} (hn : n ≤ 32) (hx : x < 2 ^ 32) (hdvd : 2 ^ (32 - n) ∣ x) :
    maskLoop .long32 (n + 1) x = true ↔ LeadingOnes 32 n x := by
  induction n generalizing x with
  | zero =>
    have hzero : x = 0 := Nat.eq_zero_of_dvd_of_lt hdvd hx
    rw [hzero]
    exact iff_of_true rfl (leadingOnes_zero 32 0)
  | succ n ih =>
    rw [maskLoop]
    have hbit := @and_two_pow_eq_zero_iff 31 x hx
    by_cases hzero : x = 0
    · rw [hzero]
      exact iff_of_true rfl (leadingOnes_zero 32 _)
    · by_cases hlow : x < 2 ^ 31
      · rw [if_pos ⟨hzero, hbit.2 hlow⟩]
        refine iff_of_false (by decide) fun h => ?_
        exact absurd (h.le_of_pos (Nat.pos_of_ne_zero hzero)) (Nat.not_le_of_lt hlow)
      · have hle : 2 ^ 31 ≤ x := Nat.le_of_not_lt hlow
        have hshift : (x <<< 1) % 2 ^ LongSize.long32.bits = 2 * x - 2 ^ 32 := by
          rw [Nat.shiftLeft_eq, LongSize.bits]
          omega
        have hdvd' : 2 ^ (32 - n) ∣ 2 * x - 2 ^ 32 := by
          have hpow : 2 ^ (32 - n) = 2 * 2 ^ (32 - (n + 1)) := by
            rw [← Nat.pow_succ']
            congr 1
            omega
          apply Nat.dvd_sub
          · rw [hpow]
            exact Nat.mul_dvd_mul_left 2 hdvd
          · exact Nat.pow_dvd_pow 2 (Nat.sub_le 32 n)
        rw [if_neg fun h => hlow (hbit.1 h.2), if_neg hzero, hshift,
          ih (Nat.le_of_succ_le hn) (by omega) hdvd']
        exact leadingOnes_shift_iff (Nat.le_of_succ_le_succ hn) hle hx

/-- In a word of 64 bits a mask with a one is never shifted out. -/
theorem maskLoop_long64 {i k x : ℕ} (hk : i + k = 32) (hx : x < 2 ^ 32) (hpos : 0 < x) :
    maskLoop .long64 (k + 1) (x * 2 ^ i) = false := by
  have hpow : 0 < 2 ^ i := Nat.two_pow_pos i
  have hne : x * 2 ^ i ≠ 0 := Nat.ne_of_gt (Nat.mul_pos hpos hpow)
  induction k generalizing i with
  | zero =>
    obtain rfl : i = 32 := hk
    have hbit : x * 2 ^ 32 &&& 0x80000000 = 0 := by
      rw [show (0x80000000 : ℕ) = 2 ^ 31 from rfl, Nat.and_two_pow, Nat.testBit_mul_two_pow,
        decide_eq_false (by decide), Bool.false_and, Bool.toNat_false, Nat.zero_mul]
    rw [maskLoop, if_pos ⟨hne, hbit⟩]
  | succ k ih =>
    rw [maskLoop]
    split_ifs with hlow
    · rfl
    · have hle : 2 ^ (i + 1) ≤ 2 ^ 32 := Nat.pow_le_pow_right (by decide) (by omega)
      have hlt : x * 2 ^ (i + 1) < 2 ^ 64 := by
        calc x * 2 ^ (i + 1) ≤ x * 2 ^ 32 := Nat.mul_le_mul_left x hle
          _ < 2 ^ 32 * 2 ^ 32 := Nat.mul_lt_mul_of_pos_right hx (by decide)
          _ = 2 ^ 64 := by decide
      have hshift : ((x * 2 ^ i) <<< 1) % 2 ^ LongSize.long64.bits = x * 2 ^ (i + 1) := by
        rw [Nat.shiftLeft_eq, LongSize.bits, Nat.mul_assoc, ← Nat.pow_succ, Nat.mod_eq_of_lt hlt]
      rw [hshift]
      exact ih (by omega) (Nat.two_pow_pos _)
        (Nat.ne_of_gt (Nat.mul_pos hpos (Nat.two_pow_pos _)))

/-- The masks that the loop accepts: the runs of ones, or only the empty one. -/
theorem maskLoop_iff (size : LongSize) {x : ℕ} (hx : x < 2 ^ 32) :
    maskLoop size 33 x = true ↔ LeadingOnes 32 32 x ∧ (size = .long32 ∨ x = 0) := by
  cases size with
  | long32 =>
    rw [maskLoop_long32 (Nat.le_refl 32) hx (by simp)]
    simp
  | long64 =>
    rcases Nat.eq_zero_or_pos x with rfl | hpos
    · exact iff_of_true rfl ⟨leadingOnes_zero 32 32, .inr rfl⟩
    · have hfalse := @maskLoop_long64 0 32 x rfl hx hpos
      rw [Nat.pow_zero, Nat.mul_one] at hfalse
      rw [hfalse]
      simp [Nat.ne_of_gt hpos]

/-! ## Masks in dotted notation -/

/-- The mask with this value in host order, in dotted notation. -/
def dottedOf (m : ℕ) : List UInt8 :=
  dotted (m / 2 ^ 24) (m / 2 ^ 16 % 256) (m / 2 ^ 8 % 256) (m % 256)

section

variable {inet : InetAddr} {size : LongSize} {a b c d m n f : ℕ} {sep rest field text : List UInt8}
  {s : UInt8}

/-- Host order is the bytes the other way round. -/
theorem hostOrder_bytes (x : ℕ) :
    hostOrder x = x / 16777216 % 256 + x / 65536 % 256 * 256 + x / 256 % 256 * 65536 +
      x % 256 * 16777216 := by
  have hbyte (k : ℕ) : x &&& 0xff <<< k = x / 2 ^ k % 256 * 2 ^ k := by
    rw [and_shiftLeft_byte, Nat.shiftLeft_eq, Nat.shiftRight_eq_div_pow]
  have h24 : x &&& 0xff000000 = x / 16777216 % 256 * 16777216 := by simpa using hbyte 24
  have h16 : x &&& 0xff0000 = x / 65536 % 256 * 65536 := by simpa using hbyte 16
  have h8 : x &&& 0xff00 = x / 256 % 256 * 256 := by simpa using hbyte 8
  have h0 : x &&& 0xff = x % 256 := Nat.and_two_pow_sub_one_eq_mod x 8
  unfold hostOrder
  rw [h24, h16, h8, h0]
  simp only [Nat.shiftLeft_eq, Nat.shiftRight_eq_div_pow]
  generalize x / 16777216 % 256 = p, x / 65536 % 256 = q, x / 256 % 256 = r, x % 256 = s
  omega

theorem hostOrder_lt (x : ℕ) : hostOrder x < 2 ^ 32 := by
  rw [hostOrder_bytes]
  omega

theorem hostOrder_quad (ha : a < 256) (hb : b < 256) (hc : c < 256) (hd : d < 256) :
    hostOrder (a + 2 ^ 8 * b + 2 ^ 16 * c + 2 ^ 24 * d) =
      16777216 * a + 65536 * b + 256 * c + d := by
  rw [hostOrder_bytes]
  simp only [Nat.reducePow]
  omega

/-- `inet_addr` on a mask. -/
theorem hostOrder_dottedOf (inet : InetAddr) (hm : m < 2 ^ 32) :
    hostOrder (inet.addr (dottedOf m)) = m := by
  have h24 : m / 2 ^ 24 < 256 := by omega
  have hmod (n : ℕ) : n % 256 < 256 := Nat.mod_lt n (by decide)
  rw [dottedOf, inet.addr_dotted _ _ _ _ h24 (hmod _) (hmod _) (hmod _),
    hostOrder_quad h24 (hmod _) (hmod _) (hmod _)]
  simp only [Nat.reducePow]
  omega

theorem dotted_allOnes : dotted 255 255 255 255 = allOnes := by decide

/-- Only one dotted quad is taken for a failure of `inet_addr`. -/
theorem addr_dotted_eq_none_iff (inet : InetAddr) (ha : a < 256) (hb : b < 256) (hc : c < 256)
    (hd : d < 256) :
    inet.addr (dotted a b c d) = INADDR_NONE ↔ dotted a b c d = allOnes := by
  rw [inet.addr_dotted a b c d ha hb hc hd, INADDR_NONE]
  constructor
  · intro h
    obtain ⟨rfl, rfl, rfl, rfl⟩ : a = 255 ∧ b = 255 ∧ c = 255 ∧ d = 255 := by omega
    exact dotted_allOnes
  · intro h
    have haddr := congrArg inet.addr (h.trans dotted_allOnes.symm)
    rw [inet.addr_dotted a b c d ha hb hc hd,
      inet.addr_dotted 255 255 255 255 (by decide) (by decide) (by decide) (by decide)] at haddr
    omega

/-- `IsGoodMask` on a mask in dotted notation is its loop. -/
theorem isGoodMask_dottedOf (inet : InetAddr) (size : LongSize) (hm : m < 2 ^ 32) :
    isGoodMask inet size (dottedOf m) = true ↔
      LeadingOnes 32 32 m ∧ (size = .long32 ∨ m = 0) := by
  have hnone := addr_dotted_eq_none_iff inet (show m / 2 ^ 24 < 256 by omega)
    (Nat.mod_lt (m / 2 ^ 16) (by decide)) (Nat.mod_lt (m / 2 ^ 8) (by decide))
    (Nat.mod_lt m (by decide))
  rw [isGoodMask, if_neg fun h => h.2 (hnone.1 h.1), hostOrder_dottedOf inet hm,
    maskLoop_iff size hm]

/-! ## Fields of an address -/

theorem fieldAt_zero (hne : field ≠ []) (hfield : ∀ c ∈ field, c ∉ sep) (rest : List UInt8) :
    fieldAt sep 0 (field ++ rest) = some (field ++ rest.takeWhile fun c => !sep.contains c) := by
  have hskip : ((field ++ rest).dropWhile fun c => sep.contains c) = field ++ rest := by
    rcases field with _ | ⟨c, field⟩
    · exact absurd rfl hne
    · apply List.dropWhile_cons_of_neg
      simpa using hfield c List.mem_cons_self
  have htake : ((field ++ rest).takeWhile fun c => !sep.contains c) =
      field ++ rest.takeWhile fun c => !sep.contains c := by
    apply List.takeWhile_append_of_pos
    intro c hc
    simpa using hfield c hc
  rw [fieldAt, hskip, htake, if_neg]
  exact fun h => hne (List.append_eq_nil_iff.1 h).1

theorem fieldAt_succ (hne : field ≠ []) (hfield : ∀ c ∈ field, c ∉ sep) (hs : s ∈ sep)
    (rest : List UInt8) : fieldAt sep (f + 1) (field ++ s :: rest) = fieldAt sep f rest := by
  have hskip : ((field ++ s :: rest).dropWhile fun c => sep.contains c) = field ++ s :: rest := by
    rcases field with _ | ⟨c, field⟩
    · exact absurd rfl hne
    · apply List.dropWhile_cons_of_neg
      simpa using hfield c List.mem_cons_self
  have hdrop : ((field ++ s :: rest).dropWhile fun c => !sep.contains c) = s :: rest := by
    rw [List.dropWhile_append_of_pos]
    · apply List.dropWhile_cons_of_neg
      simpa using hs
    · intro c hc
      simpa using hfield c hc
  rw [fieldAt, hskip, hdrop]
  rfl

/-- A digit is no separator. -/
theorem digit_notMem (h : ∀ c ∈ sep, isDigit c = false) (hs : s ∈ decimalNat n) : s ∉ sep := by
  intro hmem
  have hdigit := (TextStream.decimalNat_spec n).1 s hs
  rw [h s hmem] at hdigit
  cases hdigit

theorem length_decimalNat_le (hn : n < 256) : (decimalNat n).length ≤ 3 := by
  rw [TextStream.decimalNat_eq, TextStream.decimalNat_eq (n / 10),
    TextStream.decimalNat_eq (n / 10 / 10), if_pos (show n / 10 / 10 < 10 by omega)]
  split_ifs <;> simp

/-- A number in front of something that is no digit is in range up to its bound. -/
theorem inRange_decimalNat (size : LongSize) {max : ℕ} (hn : n ≤ max) (hmax : max < 2 ^ 31)
    (hrest : ∀ b ∈ rest.head?, isDigit b = false) :
    inRange size max (decimalNat n ++ rest) = true := by
  have hread : scanInt (decimalNat n ++ rest) = (some (n : ℤ), rest) :=
    TextStream.scanInt_decimal (.ofNat n) hrest
  have hsmall : (n : ℤ) ≤ 2 ^ (size.bits - 1) - 1 := by
    cases size <;> simp only [LongSize.bits] <;> omega
  have hlow : -2 ^ (size.bits - 1) ≤ (n : ℤ) := by
    cases size <;> simp only [LongSize.bits] <;> omega
  have hatoi : (atoiLong size (decimalNat n ++ rest)).toInt = n := by
    rw [atoiLong, hread, Option.getD_some, min_eq_right hsmall, max_eq_right hlow]
    exact Int32.toInt_ofInt_of_le (by omega) (by omega)
  simp only [inRange, hatoi, Bool.and_eq_true, decide_eq_true_eq]
  exact ⟨Int.natCast_nonneg n, Int.ofNat_le.2 hn⟩

/-- Digits are a number. -/
theorem isNum_of_digits (h : ∀ c ∈ text, isDigit c = true) : isNum text = true := by
  rw [isNum, decide_eq_true_eq]
  have hdigits : ∀ c ∈ text.dropWhile fun c => c = 32 || c = 48 || c = 9, isDigit c = true :=
    fun c hc => h c ((List.dropWhile_sublist _).mem hc)
  have hhead := List.head?_dropWhile_not (fun c : UInt8 => c = 32 || c = 48 || c = 9) text
  generalize text.dropWhile (fun c => c = 32 || c = 48 || c = 9) = body at hdigits hhead ⊢
  rcases body with _ | ⟨c, body⟩
  · rfl
  · have hc := hdigits c List.mem_cons_self
    have hspec := TextStream.isDigit_spec hc
    have hnot : c ≠ 48 := by
      rintro rfl
      cases hhead
    have hall : (c :: body).dropWhile isDigit = [] := by
      rw [List.dropWhile_eq_nil_iff]
      exact hdigits
    have hsome : (c :: body).takeWhile isDigit ≠ [] := by
      rw [List.takeWhile_cons_of_pos hc]
      exact List.cons_ne_nil _ _
    have hskip : (c :: body).dropWhile TextStream.isSpace = c :: body :=
      List.dropWhile_cons_of_neg (by simp [hspec.2.2.1])
    have hsign : ¬ ((c :: body).head? = some 43 ∨ (c :: body).head? = some 45) := by
      simp [hspec.1, hspec.2.1]
    simp only [strtolEnd, hskip, if_neg hsign]
    rw [if_neg (by simpa using hnot), if_neg hsome, hall]

/-- The bytes of a dotted quad. -/
theorem mem_dotted (h : s ∈ dotted a b c d) : isDigit s = true ∨ s = 46 := by
  have hdigit {n : ℕ} (h : s ∈ decimalNat n) : isDigit s = true ∨ s = 46 :=
    .inl ((TextStream.decimalNat_spec n).1 s h)
  simp only [dotted, List.mem_append, List.mem_cons] at h
  rcases h with h | h | h | h | h | h | h
  · exact hdigit h
  · exact .inr h
  · exact hdigit h
  · exact .inr h
  · exact hdigit h
  · exact .inr h
  · exact hdigit h

/-- The numbers of a dotted quad, the last of them with what stands behind it. -/
theorem fieldAt_dotted (a b c d : ℕ) (rest : List UInt8) :
    fieldAt [46] 0 (dotted a b c d ++ rest) = some (decimalNat a) ∧
      fieldAt [46] 1 (dotted a b c d ++ rest) = some (decimalNat b) ∧
      fieldAt [46] 2 (dotted a b c d ++ rest) = some (decimalNat c) ∧
      fieldAt [46] 3 (dotted a b c d ++ rest) =
        some (decimalNat d ++ rest.takeWhile fun c => !([46] : List UInt8).contains c) := by
  have hne (n : ℕ) := TextStream.decimalNat_ne_nil n
  have hnot (n : ℕ) : ∀ s ∈ decimalNat n, s ∉ ([46] : List UInt8) := fun s hs =>
    digit_notMem (by decide +kernel) hs
  have hdot : (46 : UInt8) ∈ ([46] : List UInt8) := List.mem_singleton_self 46
  have hshape : dotted a b c d ++ rest = decimalNat a ++ 46 :: (decimalNat b ++
      46 :: (decimalNat c ++ 46 :: (decimalNat d ++ rest))) := by
    simp [dotted]
  rw [hshape]
  refine ⟨?_, ?_, ?_, ?_⟩
  · rw [fieldAt_zero (hne a) (hnot a), List.takeWhile_cons_of_neg (by decide), List.append_nil]
  · rw [fieldAt_succ (hne a) (hnot a) hdot, fieldAt_zero (hne b) (hnot b),
      List.takeWhile_cons_of_neg (by decide), List.append_nil]
  · rw [fieldAt_succ (hne a) (hnot a) hdot, fieldAt_succ (hne b) (hnot b) hdot,
      fieldAt_zero (hne c) (hnot c), List.takeWhile_cons_of_neg (by decide), List.append_nil]
  · rw [fieldAt_succ (hne a) (hnot a) hdot, fieldAt_succ (hne b) (hnot b) hdot,
      fieldAt_succ (hne c) (hnot c) hdot, fieldAt_zero (hne d) (hnot d)]

/-- The octets of a dotted quad are in range, whatever stands behind it. -/
theorem octetsOk_dotted (size : LongSize) (ha : a < 256) (hb : b < 256) (hc : c < 256)
    (hd : d < 256) (hrest : ∀ b ∈ rest.head?, isDigit b = false) :
    octetsOk size (dotted a b c d ++ rest) = true := by
  obtain ⟨h0, h1, h2, h3⟩ := fieldAt_dotted a b c d rest
  have htake {n : ℕ} (hn : n < 256) (tail : List UInt8) :
      (decimalNat n ++ tail).take (LINE_BUF_LEN - 1) =
        decimalNat n ++ tail.take (LINE_BUF_LEN - 1 - (decimalNat n).length) := by
    have hlen := length_decimalNat_le hn
    rw [List.take_append, List.take_of_length_le (hlen.trans (by decide))]
  have hoctet {n : ℕ} (hn : n < 256) {tail : List UInt8}
      (htail : ∀ b ∈ tail.head?, isDigit b = false) :
      inRange size 255 ((decimalNat n ++ tail).take (LINE_BUF_LEN - 1)) = true := by
    rw [htake hn]
    refine @inRange_decimalNat n _ size 255 (Nat.le_of_lt_succ hn) (by decide) fun b hb => ?_
    rw [List.head?_take] at hb
    split_ifs at hb
    · cases hb
    · exact htail b hb
  have hlast : ∀ b ∈ (rest.takeWhile fun c => !([46] : List UInt8).contains c).head?,
      isDigit b = false := by
    intro b hb
    rw [List.head?_takeWhile] at hb
    exact hrest b (Option.mem_filter_iff.1 hb).1
  have hnil : ∀ b ∈ ([] : List UInt8).head?, isDigit b = false := by simp
  simp only [octetsOk, List.all_eq_true, List.mem_range]
  intro i hi
  obtain rfl | rfl | rfl | rfl : i = 0 ∨ i = 1 ∨ i = 2 ∨ i = 3 := by omega
  · simpa [getFieldBy, h0] using hoctet ha hnil
  · simpa [getFieldBy, h1] using hoctet hb hnil
  · simpa [getFieldBy, h2] using hoctet hc hnil
  · simp only [getFieldBy, h3, Option.map_some]
    exact hoctet hd hlast

end

/-! ## What the functions accept -/

/-- A dotted quad. -/
def IsQuad (text : List UInt8) : Prop :=
  ∃ a b c d, a < 256 ∧ b < 256 ∧ c < 256 ∧ d < 256 ∧ text = dotted a b c d

/-- A mask in dotted notation: ones, then zeros. -/
def IsMask (text : List UInt8) : Prop :=
  ∃ m < 2 ^ 32, LeadingOnes 32 32 m ∧ text = dottedOf m

/-- A prefix length. -/
def IsPrefixLength (text : List UInt8) : Prop := ∃ n ≤ 32, text = decimalNat n

/-- An address with a mask. -/
def IsPair (a k : List UInt8) : Prop := IsQuad a ∧ (IsMask k ∨ IsPrefixLength k)

/-- The mask with this value is good if it consists of ones, then zeros. -/
def MaskChecked (inet : InetAddr) (size : LongSize) (m : UInt32) : Prop :=
  isGoodMask inet size (dottedOf m.toNat) = true ↔ LeadingOnes 32 32 m.toNat

/-- The texts with a slash between them are good if they are an address and a mask. -/
def IpChecked (inet : InetAddr) (size : LongSize) (a k : List UInt8) : Prop :=
  isGoodIp inet size (a ++ 47 :: k) = true ↔ IsPair a k

/-- A text passes for a mask: its octets are in range and `inet_addr` reads a run of ones, or the
text is a number in range. -/
def ReadAsMask (inet : InetAddr) (size : LongSize) (mask : List UInt8) : Prop :=
  if 46 ∈ mask then
    (inet.addr mask ≠ INADDR_NONE ∨ mask = allOnes) ∧ octetsOk size mask = true ∧
      LeadingOnes 32 32 (hostOrder (inet.addr mask)) ∧
      (size = .long32 ∨ hostOrder (inet.addr mask) = 0)
  else isNum mask = true ∧ inRange size 32 mask = true

/-- A text passes for an address, with a mask or without one: `inet_addr` reads its first field, its
octets are in range and its second field, if there is one, passes for a mask. -/
def ReadAsIp (inet : InetAddr) (size : LongSize) (ip : List UInt8) : Prop :=
  (∃ f, getFieldBy ipSeps 0 ip = some f ∧ inet.addr f ≠ INADDR_NONE) ∧ octetsOk size ip = true ∧
    ∀ mask, vgetwBy ipSeps 1 ip 256 = some mask → ReadAsMask inet size mask

section

variable {inet : InetAddr} {size : LongSize} {a k : List UInt8} {m n : ℕ}

theorem isGoodMask_iff (inet : InetAddr) (size : LongSize) (mask : List UInt8) :
    isGoodMask inet size mask = true ↔
      (inet.addr mask ≠ INADDR_NONE ∨ mask = allOnes) ∧
        LeadingOnes 32 32 (hostOrder (inet.addr mask)) ∧
        (size = .long32 ∨ hostOrder (inet.addr mask) = 0) := by
  rw [isGoodMask]
  split_ifs with h
  · refine iff_of_false (by decide) fun hgood => ?_
    exact hgood.1.elim (fun hne => hne h.1) h.2
  · rw [maskLoop_iff size (hostOrder_lt _)]
    refine (and_iff_right ?_).symm
    by_cases hnone : inet.addr mask = INADDR_NONE
    · exact .inr (of_not_not fun hne => h ⟨hnone, hne⟩)
    · exact .inl hnone

theorem isGoodIp_iff (inet : InetAddr) (size : LongSize) (ip : List UInt8) :
    isGoodIp inet size ip = true ↔ ReadAsIp inet size ip := by
  have hmask (mask : List UInt8) :
      (if 46 ∉ mask then isNum mask && inRange size 32 mask
        else if inet.addr mask = INADDR_NONE ∧ mask ≠ allOnes then false
        else if !octetsOk size mask then false
        else isGoodMask inet size mask) = true ↔ ReadAsMask inet size mask := by
    rw [ReadAsMask]
    by_cases hdot : 46 ∈ mask
    · rw [if_neg (not_not_intro hdot), if_pos hdot]
      split_ifs with hnone hoctets
      · refine iff_of_false (by decide) fun h => ?_
        exact h.1.elim (fun hne => hne hnone.1) hnone.2
      · simp_all
      · rw [isGoodMask_iff]
        simp_all
    · rw [if_pos hdot, if_neg hdot, Bool.and_eq_true]
  rw [isGoodIp, ReadAsIp]
  rcases getFieldBy ipSeps 0 ip with _ | f
  · simp
  · dsimp only
    split_ifs with hnone hoctets
    · simp [hnone]
    · simp_all
    · have hoctets' : octetsOk size ip = true := by simpa using hoctets
      have hread : ∃ f', some f = some f' ∧ inet.addr f' ≠ INADDR_NONE := ⟨f, rfl, hnone⟩
      rw [and_iff_right hread, and_iff_right hoctets']
      rcases vgetwBy ipSeps 1 ip 256 with _ | mask
      · simp
      · dsimp only
        rw [hmask]
        simp

/-- A text of digits and dots has no separators. -/
theorem notMem_ipSeps {s : UInt8} (h : isDigit s = true ∨ s = 46) : s ∉ ipSeps := by
  rintro hmem
  have hnone : ∀ c ∈ ipSeps, isDigit c = false ∧ c ≠ 46 := by decide +kernel
  rcases h with h | h
  · rw [(hnone s hmem).1] at h
    cases h
  · exact (hnone s hmem).2 h

theorem IsQuad.spec (h : IsQuad a) : a ≠ [] ∧ (∀ s ∈ a, s ∉ ipSeps) ∧ a.length ≤ 15 := by
  obtain ⟨a, b, c, d, ha, hb, hc, hd, rfl⟩ := h
  refine ⟨by simp [dotted], fun s hs => notMem_ipSeps (mem_dotted hs), ?_⟩
  have hla := length_decimalNat_le ha
  have hlb := length_decimalNat_le hb
  have hlc := length_decimalNat_le hc
  have hld := length_decimalNat_le hd
  simp only [dotted, List.length_append, List.length_cons]
  omega

theorem IsQuad.addr_eq_none_iff (h : IsQuad a) (inet : InetAddr) :
    inet.addr a = INADDR_NONE ↔ a = allOnes := by
  obtain ⟨a, b, c, d, ha, hb, hc, hd, rfl⟩ := h
  exact addr_dotted_eq_none_iff inet ha hb hc hd

theorem IsQuad.octetsOk (h : IsQuad a) (size : LongSize) {rest : List UInt8}
    (hrest : ∀ b ∈ rest.head?, isDigit b = false) : octetsOk size (a ++ rest) = true := by
  obtain ⟨a, b, c, d, ha, hb, hc, hd, rfl⟩ := h
  exact octetsOk_dotted size ha hb hc hd hrest

theorem isQuad_dottedOf (hm : m < 2 ^ 32) : IsQuad (dottedOf m) :=
  ⟨_, _, _, _, by omega, Nat.mod_lt _ (by decide), Nat.mod_lt _ (by decide),
    Nat.mod_lt _ (by decide), rfl⟩

/-- The two fields of an address with a mask. -/
theorem fields_pair (ha : IsQuad a) (hk : k ≠ []) (hsep : ∀ s ∈ k, s ∉ ipSeps)
    (hlen : k.length ≤ 15) :
    getFieldBy ipSeps 0 (a ++ 47 :: k) = some a ∧ vgetwBy ipSeps 1 (a ++ 47 :: k) 256 = some k := by
  obtain ⟨hne, hnot, hla⟩ := ha.spec
  have hslash : (47 : UInt8) ∈ ipSeps := by decide
  have hfirst : fieldAt ipSeps 0 (a ++ 47 :: k) = some a := by
    rw [fieldAt_zero hne hnot, List.takeWhile_cons_of_neg (by decide), List.append_nil]
  have hsecond : fieldAt ipSeps 1 (a ++ 47 :: k) = some k := by
    have hend := fieldAt_zero hk hsep []
    rw [List.append_nil, List.takeWhile_nil, List.append_nil] at hend
    rw [fieldAt_succ hne hnot hslash, hend]
  rw [getFieldBy, vgetwBy, hfirst, hsecond, Option.map_some, Option.map_some,
    List.take_of_length_le (hla.trans (by decide)), List.take_of_length_le (hlen.trans (by decide))]
  exact ⟨rfl, rfl⟩

/-- A mask passes for one in a word of 32 bits, and the empty one always. -/
theorem readAsMask_of_isMask (inet : InetAddr) (size : LongSize) (hk : IsMask k) :
    ReadAsMask inet size k ↔ size = .long32 ∨ k = dotted 0 0 0 0 := by
  obtain ⟨m, hm, hones, rfl⟩ := hk
  have hquad := isQuad_dottedOf hm
  have hdot : 46 ∈ dottedOf m := by simp [dottedOf, dotted]
  have hoctets := @IsQuad.octetsOk _ hquad size [] (by simp)
  rw [List.append_nil] at hoctets
  have hread : inet.addr (dottedOf m) ≠ INADDR_NONE ∨ dottedOf m = allOnes := by
    rw [ne_eq, hquad.addr_eq_none_iff inet]
    exact (em _).symm
  have hzero : m = 0 ↔ dottedOf m = dotted 0 0 0 0 := by
    constructor
    · rintro rfl
      rfl
    · intro h
      have horder := hostOrder_dottedOf inet hm
      rw [h, inet.addr_dotted 0 0 0 0 (by decide) (by decide) (by decide) (by decide)] at horder
      rw [← horder]
      decide
  rw [ReadAsMask, if_pos hdot, hostOrder_dottedOf inet hm, and_iff_right hread,
    and_iff_right hoctets, and_iff_right hones, hzero]

/-- A prefix length passes for a mask. -/
theorem readAsMask_of_isPrefixLength (inet : InetAddr) (size : LongSize) (hk : IsPrefixLength k) :
    ReadAsMask inet size k := by
  obtain ⟨n, hn, rfl⟩ := hk
  have hdigits := (TextStream.decimalNat_spec n).1
  have hdot : 46 ∉ decimalNat n := fun h => by
    have hdigit := hdigits 46 h
    cases hdigit
  have hrange := @inRange_decimalNat n [] size 32 hn (by decide) (by simp)
  rw [List.append_nil] at hrange
  rw [ReadAsMask, if_neg hdot]
  exact ⟨isNum_of_digits hdigits, hrange⟩

/-- An address with a mask passes for one, but for one address, and in a word of 64 bits but for the
masks in dotted notation with ones. -/
theorem readAsIp_pair_iff (inet : InetAddr) (size : LongSize) (h : IsPair a k) :
    ReadAsIp inet size (a ++ 47 :: k) ↔
      a ≠ allOnes ∧ (size = .long32 ∨ IsPrefixLength k ∨ k = dotted 0 0 0 0) := by
  obtain ⟨ha, hk⟩ := h
  have hfields : k ≠ [] ∧ (∀ s ∈ k, s ∉ ipSeps) ∧ k.length ≤ 15 := by
    rcases hk with ⟨m, hm, -, rfl⟩ | ⟨n, hn, rfl⟩
    · exact (isQuad_dottedOf hm).spec
    · refine ⟨TextStream.decimalNat_ne_nil n, fun s hs => ?_, ?_⟩
      · exact notMem_ipSeps (.inl ((TextStream.decimalNat_spec n).1 s hs))
      · exact (length_decimalNat_le (by omega)).trans (by decide)
  obtain ⟨hfirst, hsecond⟩ := fields_pair ha hfields.1 hfields.2.1 hfields.2.2
  have hoctets : octetsOk size (a ++ 47 :: k) = true := by
    refine ha.octetsOk size fun b hb => ?_
    obtain rfl := Option.some.inj hb
    decide
  have hmask : ReadAsMask inet size k ↔ size = .long32 ∨ IsPrefixLength k ∨ k = dotted 0 0 0 0 := by
    rcases hk with hk | hk
    · rw [readAsMask_of_isMask inet size hk]
      refine or_congr_right (or_iff_right ?_).symm
      rintro ⟨n, -, rfl⟩
      obtain ⟨m, hm, -, hdotted⟩ := hk
      have hdot : 46 ∈ decimalNat n := by simp [hdotted, dottedOf, dotted]
      have hdigit := (TextStream.decimalNat_spec n).1 46 hdot
      cases hdigit
    · exact iff_of_true (readAsMask_of_isPrefixLength inet size hk) (.inr (.inl hk))
  rw [ReadAsIp, hfirst, hsecond, and_iff_right hoctets, ← hmask]
  simp [ha.addr_eq_none_iff inet]

/-- Which masks are checked as they should: in a word of 32 bits all, in a word of 64 bits those
that are no run of ones, and the empty one. And which pairs: an address with a mask must not be
255.255.255.255, and in a word of 64 bits have a prefix length or the empty mask; and other texts
must not pass for them. -/
theorem isGoodMask_isGoodIp_iff (inet : InetAddr) (size : LongSize) (m : UInt32)
    (a k : List UInt8) :
    (MaskChecked inet size m ↔ size = .long32 ∨ ¬ LeadingOnes 32 32 m.toNat ∨ m = 0) ∧
      (IpChecked inet size a k ↔
        (IsPair a k →
          a ≠ allOnes ∧ (size = .long32 ∨ IsPrefixLength k ∨ k = dotted 0 0 0 0)) ∧
        (¬ IsPair a k → ¬ ReadAsIp inet size (a ++ 47 :: k))) := by
  constructor
  · have hzero : m.toNat = 0 ↔ m = 0 := UInt32.toNat_inj (b := 0)
    rw [MaskChecked, isGoodMask_dottedOf inet size m.toNat_lt, hzero]
    tauto
  · rw [IpChecked, isGoodIp_iff]
    by_cases hpair : IsPair a k
    · rw [readAsIp_pair_iff inet size hpair]
      simp only [hpair, iff_true, not_true, false_implies, and_true, true_implies]
    · simp only [hpair, iff_false, not_false_iff, false_implies, true_and, true_implies]

end

/-- `inet_addr` on the dotted quads. -/
def inetAddrQuad (text : List UInt8) : ℕ :=
  let n := fun i => TextStream.digitsValue 0 ((fieldAt [46] i text).getD [])
  if n 0 < 256 ∧ n 1 < 256 ∧ n 2 < 256 ∧ n 3 < 256 ∧ text = dotted (n 0) (n 1) (n 2) (n 3) then
    n 0 + 2 ^ 8 * n 1 + 2 ^ 16 * n 2 + 2 ^ 24 * n 3
  else INADDR_NONE

/-- An `inet_addr` that fails on everything else. -/
def quadInet : InetAddr where
  addr := inetAddrQuad
  addr_lt := by
    intro text
    simp only [inetAddrQuad]
    split_ifs with h
    · obtain ⟨h0, h1, h2, h3, -⟩ := h
      omega
    · decide
  addr_dotted := by
    intro a b c d ha hb hc hd
    obtain ⟨h0, h1, h2, h3⟩ := fieldAt_dotted a b c d []
    rw [List.append_nil] at h0 h1 h2 h3
    rw [List.takeWhile_nil, List.append_nil] at h3
    have hvalue (n : ℕ) := (TextStream.decimalNat_spec n).2
    simp only [inetAddrQuad, h0, h1, h2, h3, Option.getD_some, hvalue]
    rw [if_pos ⟨ha, hb, hc, hd, trivial⟩]

/-- 255.255.255.0 and 10.0.0.1/24 in a word of 32 bits. -/
theorem isGoodMask_isGoodIp_iff_long32 :
    MaskChecked quadInet .long32 0xffffff00 ∧
      IpChecked quadInet .long32 (dotted 10 0 0 1) (decimalNat 24) := by
  have hpair : IsPair (dotted 10 0 0 1) (decimalNat 24) :=
    ⟨⟨10, 0, 0, 1, by decide, by decide, by decide, by decide, rfl⟩, .inr ⟨24, by decide, rfl⟩⟩
  obtain ⟨hmask, hip⟩ := isGoodMask_isGoodIp_iff quadInet .long32 0xffffff00 (dotted 10 0 0 1)
    (decimalNat 24)
  exact ⟨hmask.2 (.inl rfl), hip.2 ⟨fun _ => ⟨by decide, .inl rfl⟩, fun h => absurd hpair h⟩⟩

/-- In a word of 64 bits 255.255.255.0 is no good mask. -/
theorem not_maskChecked_long64 : ¬ MaskChecked quadInet .long64 0xffffff00 := by
  have hones : LeadingOnes 32 32 (0xffffff00 : UInt32).toNat := ⟨24, by decide, by decide⟩
  intro h
  have hgood := (isGoodMask_dottedOf quadInet .long64 (UInt32.toNat_lt _)).1 (h.2 hones)
  revert hgood
  simp

end Gendo
