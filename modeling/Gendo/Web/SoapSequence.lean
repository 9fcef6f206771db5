import Gendo.Library.Calendar
import Gendo.Library.DecimalText

/-!
# Sequence numbers of SOAP calls

`genseq` of the COA client counts its calls in a file and returns the time with the count modulo
10000, where 1 stands for 0. `separated_iff` says in which runs two calls that are not far from each
other have different sequence numbers. In the same second, the call after a count that ends in 0000
has the same one; and where the file begins with zeros, the first call leaves digits behind the
count that it writes, so that the second one goes on from another number.
-/

namespace Gendo

open Calendar
open DecimalText

/-! ## Calls -/

/-- The file with the count: up to ten digits, or none at all. -/
structure CallCount where
  text : List Char
  digits : ∀ c ∈ text, c.isDigit
  short : text.length ≤ 10

/-- `fputs($fp, $s, $length)` at the beginning of a file. -/
def fputs (old s : List Char) (length : ℕ) : List Char :=
  -- the file is not cut off behind the new text
  s.take length ++ old.drop (s.take length).length

/-- What is read from the file, if there is one. -/
def readCount (file : Option CallCount) : List Char := (file.map (·.text)).getD []

/-- `$cnt` of a call. -/
def callNumber (file : Option CallCount) : ℕ := value (readCount file) + 1

theorem readCount_spec (file : Option CallCount) :
    (∀ c ∈ readCount file, c.isDigit) ∧ (readCount file).length ≤ 10 := by
  rcases file with _ | file
  · simp [readCount]
  · exact ⟨file.digits, file.short⟩

/-- The file after a call. A new one is empty before. -/
def writeCount (file : Option CallCount) : CallCount where
  text := fputs (readCount file) (Nat.toDigits 10 (callNumber file)) 10
  digits := by
    intro c hc
    rcases List.mem_append.1 hc with hc | hc
    · exact Nat.isDigit_of_mem_toDigits (by decide) (by decide) (List.mem_of_mem_take hc)
    · exact (readCount_spec file).1 c (List.mem_of_mem_drop hc)
  short := by
    have hold := (readCount_spec file).2
    rw [fputs, List.length_append, List.length_drop, List.length_take]
    omega

/-- `$seq` for the number of a call. -/
def seqNumber (cnt : ℕ) : ℕ :=
  -- the next count gives 1 as well
  if cnt % 10000 = 0 then 1 else cnt % 10000

/-- `date('YmdHis')`. -/
def stamp (now : DateTime) : String :=
  dateText now ++ padded now.hour 2 ++ padded now.minute 2 ++ padded now.second 2

/-- `genseq`. -/
def genseq (file : Option CallCount) (now : DateTime) : String × CallCount :=
  (stamp now ++ padded (seqNumber (callNumber file)) 4, writeCount file)

/-- Calls one after another. -/
def genseqs (file : Option CallCount) : List DateTime → List String
  | [] => []
  | now :: clock =>
    let (seq, file) := genseq file now
    seq :: genseqs (some file) clock

/-! ## What they are for -/

/-- With fewer than 9999 calls between them, two calls have different sequence numbers. -/
def Separated (seqs : List String) : Prop :=
  ∀ i j (hj : j < seqs.length) (hi : i < j), j - i - 1 < 9999 → seqs[i] ≠ seqs[j]

/-- The number is shorter than what is in the file, and digits are left behind it. -/
def LeavesDigits (file : Option CallCount) : Prop :=
  (Nat.toDigits 10 (callNumber file)).length < (readCount file).length

/-- The number of the call with an index in a run, up to multiples of 10000: it goes on from what
the first call has left. -/
def runNumber (file : Option CallCount) : ℕ → ℕ
  | 0 => callNumber file
  | i + 1 => callNumber (some (writeCount file)) + i

/-- No two calls with the same number are in the same second: a call whose number ends in 0000 and
the next one, or one whose number ends in 0001 and the one that is 9999 later; or a first call that
leaves digits and one that comes to its number again. -/
structure SecondsApart (file : Option CallCount) (clock : List DateTime) : Prop where
  next : ∀ i (h : i + 1 < clock.length), (i = 0 → ¬LeavesDigits file) →
    runNumber file i % 10000 = 0 → clock[i] ≠ clock[i + 1]
  around : ∀ i (h : i + 9999 < clock.length), (i = 0 → ¬LeavesDigits file) →
    runNumber file i % 10000 = 1 → clock[i] ≠ clock[i + 9999]
  first : LeavesDigits file → ∀ j (h : j < clock.length), 0 < j → j ≤ 9999 →
    seqNumber (runNumber file j) = seqNumber (runNumber file 0) → clock[0] ≠ clock[j]

/-! ## Times and numbers -/

theorem seqNumber_lt (cnt : ℕ) : seqNumber cnt < 10 ^ 4 := by
  rw [seqNumber]
  split_ifs
  · decide
  · exact Nat.mod_lt _ (by decide)

/-- The time tells the second. -/
theorem stamp_inj {t u : DateTime} : stamp t = stamp u ↔ t = u := by
  refine ⟨fun h => ?_, congrArg stamp⟩
  have := t.hour_lt
  have := u.hour_lt
  have := t.minute_lt
  have := u.minute_lt
  have := t.second_lt
  have := u.second_lt
  -- every part but the year has two digits, so they are taken off from the end
  obtain ⟨h, hsecond⟩ := (append_padded_inj (by decide) (by omega) (by omega)).1 h
  obtain ⟨h, hminute⟩ := (append_padded_inj (by decide) (by omega) (by omega)).1 h
  obtain ⟨h, hhour⟩ := (append_padded_inj (by decide) (by omega) (by omega)).1 h
  obtain ⟨hyear, hmonth, hday⟩ := dateText_inj.1 h
  exact DateTime.ext hyear hmonth hday hhour hminute hsecond

/-- Two numbers that are not far from each other are told apart, except 0 from 1. -/
theorem seqNumber_add {cnt d : ℕ} (hpos : 0 < d) (hd : d ≤ 9999) :
    seqNumber cnt = seqNumber (cnt + d) ↔
      cnt % 10000 = 0 ∧ d = 1 ∨ cnt % 10000 = 1 ∧ d = 9999 := by
  rw [seqNumber, seqNumber]
  split_ifs <;> omega

/-! ## The count -/

section Count

variable {file : Option CallCount}

theorem callNumber_le (file : Option CallCount) : callNumber file ≤ 10 ^ 10 := by
  obtain ⟨hdigits, hlen⟩ := readCount_spec file
  exact (value_lt hdigits).trans_le (Nat.pow_le_pow_right (by decide) hlen)

/-- A number of up to ten digits is written as it is. -/
theorem text_writeCount (h : callNumber file < 10 ^ 10) :
    (writeCount file).text = Nat.toDigits 10 (callNumber file) ++
      (readCount file).drop (Nat.toDigits 10 (callNumber file)).length := by
  have hlen := (length_toDigits_le (by decide)).2 h
  show fputs (readCount file) (Nat.toDigits 10 (callNumber file)) 10 = _
  rw [fputs, List.take_of_length_le hlen]

/-- The last digit of the one number that has eleven is not written. -/
theorem text_writeCount_last (h : callNumber file = 10 ^ 10) :
    (writeCount file).text = Nat.toDigits 10 (10 ^ 9) := by
  have hcut : (Nat.toDigits 10 (10 ^ 10)).take 10 = Nat.toDigits 10 (10 ^ 9) := by decide
  have hlen : (Nat.toDigits 10 (10 ^ 9)).length = 10 := by decide
  show fputs (readCount file) (Nat.toDigits 10 (callNumber file)) 10 = _
  rw [fputs, h, hcut, hlen, List.drop_of_length_le (readCount_spec file).2, List.append_nil]

/-- Nothing is left behind a count that a call has written. -/
theorem not_leavesDigits_writeCount (file : Option CallCount) :
    ¬LeavesDigits (some (writeCount file)) := by
  refine not_lt.2 (Nat.le_of_pred_lt ?_)
  refine lt_length_toDigits ((?_ : _ ≤ value (writeCount file).text).trans (Nat.le_succ _))
  show 10 ^ ((writeCount file).text.length - 1) ≤ _
  -- the text begins with the new count, whose first digit is not zero
  rcases (callNumber_le file).lt_or_eq with hlt | heq
  · have hpow := pow_le_of_length (n := callNumber file) (Nat.succ_pos _)
    have hpos := Nat.length_toDigits_pos (b := 10) (n := callNumber file)
    rw [text_writeCount hlt, value_append, value_toDigits, List.length_append,
      Nat.sub_add_comm hpos, pow_add]
    exact (Nat.mul_le_mul_right _ hpow).trans (Nat.le_add_right _ _)
  · rw [text_writeCount_last heq, value_toDigits]
    exact pow_le_of_length (by decide)

/-- Where nothing is left behind, the next call has the next number, up to multiples of 10000. -/
theorem callNumber_writeCount (h : ¬LeavesDigits file) :
    callNumber (some (writeCount file)) % 10000 = (callNumber file + 1) % 10000 := by
  show (value (writeCount file).text + 1) % 10000 = _
  rcases (callNumber_le file).lt_or_eq with hlt | heq
  · rw [text_writeCount hlt, List.drop_of_length_le (not_lt.1 h), List.append_nil, value_toDigits]
  · rw [text_writeCount_last heq, heq, value_toDigits]
    rfl

/-- Where nothing is left behind, the calls of a run count on. -/
theorem runNumber_mod (h : ¬LeavesDigits file) (i : ℕ) :
    runNumber file i % 10000 = (callNumber file + i) % 10000 := by
  rcases i with _ | i
  · rfl
  · have hnext := callNumber_writeCount h
    rw [runNumber]
    omega

/-- From the second call on, they do in any case. -/
theorem runNumber_add (file : Option CallCount) {i : ℕ} (hi : i = 0 → ¬LeavesDigits file) (d : ℕ) :
    runNumber file (i + d) % 10000 = (runNumber file i + d) % 10000 := by
  rcases i with _ | i
  · rw [runNumber_mod (hi rfl), Nat.zero_add]
    rfl
  · rw [Nat.add_right_comm, runNumber, runNumber, Nat.add_assoc]

theorem seqNumber_congr {m n : ℕ} (h : m % 10000 = n % 10000) : seqNumber m = seqNumber n := by
  rw [seqNumber, seqNumber, h]

/-- The calls of a run, by their numbers. -/
theorem getElem?_genseqs (file : Option CallCount) (clock : List DateTime) (i : ℕ) :
    (genseqs file clock)[i]? =
      clock[i]?.map fun now => stamp now ++ padded (seqNumber (runNumber file i)) 4 := by
  induction clock generalizing file i with
  | nil => rfl
  | cons now clock ih =>
    rcases i with _ | i
    · rfl
    · -- the other calls are a run from the file that the first one leaves
      have hnumber : seqNumber (runNumber (some (writeCount file)) i) =
          seqNumber (runNumber file (i + 1)) :=
        seqNumber_congr (runNumber_mod (not_leavesDigits_writeCount file) i)
      rw [← hnumber]
      exact ih (some (writeCount file)) i

theorem length_genseqs (file : Option CallCount) (clock : List DateTime) :
    (genseqs file clock).length = clock.length := by
  induction clock generalizing file with
  | nil => rfl
  | cons now clock ih => exact congrArg (· + 1) (ih _)

end Count

/-! ## Runs -/

/-- Two calls of a run have the same result exactly if they are in the same second, and their
numbers are not told apart. -/
theorem separated_genseqs_iff (file : Option CallCount) (clock : List DateTime) :
    Separated (genseqs file clock) ↔
      ∀ i j (hj : j < clock.length) (hi : i < j), j - i ≤ 9999 →
        seqNumber (runNumber file i) = seqNumber (runNumber file j) → clock[i] ≠ clock[j] := by
  have hlen := length_genseqs file clock
  have hsame : ∀ i j (hj : j < clock.length) (hi : i < j),
      ((genseqs file clock)[i] = (genseqs file clock)[j] ↔
        clock[i] = clock[j] ∧ seqNumber (runNumber file i) = seqNumber (runNumber file j)) := by
    intro i j hj hi
    -- the number has four digits, and what stands in front of it is the time
    rw [← Option.some_inj, ← List.getElem?_eq_getElem, ← List.getElem?_eq_getElem,
      getElem?_genseqs, getElem?_genseqs, List.getElem?_eq_getElem (hi.trans hj),
      List.getElem?_eq_getElem hj, Option.map_some, Option.map_some, Option.some_inj,
      append_padded_inj (by decide) (seqNumber_lt _) (seqNumber_lt _), stamp_inj]
  constructor
  · intro hsep i j hj hi hnear hseq hclock
    exact hsep i j (hlen.symm ▸ hj) hi (by omega) ((hsame i j hj hi).2 ⟨hclock, hseq⟩)
  · intro happart i j hj hi hnear heq
    obtain ⟨hclock, hseq⟩ := (hsame i j (hlen ▸ hj) hi).1 heq
    exact happart i j (hlen ▸ hj) hi (by omega) hseq hclock

/-- Which calls have the same number, where they count on. -/
theorem seqNumber_runNumber_iff (file : Option CallCount) {i d : ℕ}
    (hi : i = 0 → ¬LeavesDigits file) (hpos : 0 < d) (hd : d ≤ 9999) :
    seqNumber (runNumber file i) = seqNumber (runNumber file (i + d)) ↔
      runNumber file i % 10000 = 0 ∧ d = 1 ∨ runNumber file i % 10000 = 1 ∧ d = 9999 := by
  rw [seqNumber_congr (runNumber_add file hi d)]
  exact seqNumber_add hpos hd

/-- Sequence numbers are separated exactly if no two calls with one number are in one second. -/
theorem separated_iff (file : Option CallCount) (clock : List DateTime) :
    Separated (genseqs file clock) ↔ SecondsApart file clock := by
  rw [separated_genseqs_iff]
  constructor
  · intro happart
    refine ⟨fun i h hleft hzero => ?_, fun i h hleft hone => ?_, fun _ j h hpos hj hseq => ?_⟩
    · refine happart i (i + 1) h (by omega) (by omega) ?_
      exact (seqNumber_runNumber_iff file hleft (by decide) (by decide)).2 (.inl ⟨hzero, rfl⟩)
    · refine happart i (i + 9999) h (by omega) (by omega) ?_
      exact (seqNumber_runNumber_iff file hleft (by decide) le_rfl).2 (.inr ⟨hone, rfl⟩)
    · exact happart 0 j h hpos hj hseq.symm
  · intro hapart i j hj hi hnear hseq
    -- only the first call can leave digits, and all others count on
    by_cases hleft : i = 0 ∧ LeavesDigits file
    · obtain ⟨rfl, hleft⟩ := hleft
      exact hapart.first hleft j hj hi hnear hseq.symm
    · obtain ⟨d, rfl⟩ := Nat.exists_eq_add_of_lt hi
      have hcount : i = 0 → ¬LeavesDigits file := not_and.1 hleft
      rcases (seqNumber_runNumber_iff file hcount (Nat.succ_pos d) (by omega)).1 hseq with
        ⟨hzero, hd⟩ | ⟨hone, hd⟩
      · obtain rfl : d = 0 := by omega
        exact hapart.next i hj hcount hzero
      · obtain rfl : d = 9998 := by omega
        exact hapart.around i hj hcount hone

/-- Two calls in one second, of which the first is call 10000, have the same sequence number. -/
theorem not_separated : ¬∀ (file : Option CallCount) (clock : List DateTime),
    (clock.Pairwise fun t u => t.time ≤ u.time) → Separated (genseqs file clock) := by
  intro h
  have hsep := h (some ⟨['9', '9', '9', '9'], List.all_eq_true.1 (by decide), by decide⟩)
    [.newYearsEve, .newYearsEve] (List.pairwise_pair.2 le_rfl)
  refine (separated_genseqs_iff _ _).1 hsep 0 1 (by decide) (by decide) (by decide) ?_ rfl
  decide

end Gendo
