import Gendo.Library.BufferedLines
import Gendo.Library.Pieces

/-!
# Lines of an input stream

`getline` with a bounded buffer, and the state of the stream. A line feed is taken off the stream
and not stored; a line that does not fit makes the stream fail, and a stream that has failed
delivers nothing more.

A loop that reads lines until the end of the text is seen ends if every line fits the buffer,
`readLines_of_forall`, and otherwise never, `readLines_of_long`.
-/

namespace LineStream

open BufferedLines Pieces

/-- An input stream: the text left, and its state bits. -/
structure IStream where
  rest : List UInt8
  eof : Bool
  fail : Bool
  deriving DecidableEq, Repr

/-- A text that was opened. -/
def IStream.ofText (text : List UInt8) : IStream := ⟨text, false, false⟩

/-- The characters that are stored where there is room for some, and the stream behind them. -/
def extract : ℕ → List UInt8 → List UInt8 × IStream
  | _, [] => ([], ⟨[], true, false⟩)
  | room, b :: bs =>
    if b = LF then ([], ⟨bs, false, false⟩)
    else if room = 0 then ([], ⟨b :: bs, false, true⟩)
    else (b :: (extract (room - 1) bs).1, (extract (room - 1) bs).2)

namespace IStream

/-- `getline` with a buffer of `n` characters. -/
def getline (n : ℕ) (s : IStream) : List UInt8 × IStream :=
  if s.eof || s.fail then ([], { s with fail := true })
  else
    let (stored, s') := extract (n - 1) s.rest
    -- it is a failure when nothing could be extracted
    (stored, { s' with fail := s'.fail || s.rest.isEmpty })

/-- The loop `while (!s.eof())` with a `getline`: the lines, or `none` while it has not ended. -/
def readLines (n : ℕ) : ℕ → IStream → Option (List (List UInt8))
  | 0, _ => none
  | fuel + 1, s =>
    if s.eof then some []
    else (readLines n fuel (s.getline n).2).map ((s.getline n).1 :: ·)

end IStream

variable {n room fuel : ℕ} {l more text : List UInt8} {s : IStream}

/-! ## One line -/

theorem extract_line (more : List UInt8) (h : LF ∉ l) (hroom : l.length ≤ room) :
    extract room (l ++ LF :: more) = (l, ⟨more, false, false⟩) := by
  induction l generalizing room with
  | nil => rw [List.nil_append, extract, if_pos rfl]
  | cons b l ih =>
    rw [List.mem_cons, not_or] at h
    rw [List.length_cons] at hroom
    rw [List.cons_append, extract, if_neg (Ne.symm h.1), if_neg (by omega),
      ih h.2 (by omega)]

/-- The last line has no line feed, and the end of the text is seen. -/
theorem extract_last (h : LF ∉ l) (hroom : l.length ≤ room) :
    extract room l = (l, ⟨[], true, false⟩) := by
  induction l generalizing room with
  | nil => rfl
  | cons b l ih =>
    rw [List.mem_cons, not_or] at h
    rw [List.length_cons] at hroom
    rw [extract, if_neg (Ne.symm h.1), if_neg (by omega), ih h.2 (by omega)]

/-- A line that is too long. -/
theorem extract_long (more : List UInt8) (h : LF ∉ l) (hroom : room < l.length) :
    (extract room (l ++ more)).2.eof = false ∧ (extract room (l ++ more)).2.fail = true := by
  induction l generalizing room with
  | nil => exact absurd hroom (Nat.not_lt_zero room)
  | cons b l ih =>
    rw [List.mem_cons, not_or] at h
    rw [List.length_cons] at hroom
    rw [List.cons_append, extract, if_neg (Ne.symm h.1)]
    split_ifs with hzero
    · exact ⟨rfl, rfl⟩
    · exact ih h.2 (by omega)

theorem getline_line (h : LF ∉ l) (hlen : l.length ≤ n - 1) :
    (IStream.ofText (l ++ LF :: more)).getline n = (l, .ofText more) := by
  have hextract := extract_line more h hlen
  simp [IStream.getline, IStream.ofText, hextract]

theorem getline_last (h : LF ∉ l) (hlen : l.length ≤ n - 1) :
    ((IStream.ofText l).getline n).1 = l ∧ ((IStream.ofText l).getline n).2.eof = true := by
  have hextract := extract_last h hlen
  simp [IStream.getline, IStream.ofText, hextract]

theorem getline_long (more : List UInt8) (h : LF ∉ l) (hlen : n - 1 < l.length) :
    ((IStream.ofText (l ++ more)).getline n).2.eof = false ∧
      ((IStream.ofText (l ++ more)).getline n).2.fail = true := by
  obtain ⟨heof, hfail⟩ := extract_long more h hlen
  simp [IStream.getline, IStream.ofText, heof, hfail]

/-! ## The loop -/

/-- A stream that has failed in front of the end never gets there. -/
theorem readLines_of_failed (heof : s.eof = false) (hfail : s.fail = true) :
    s.readLines n fuel = none := by
  induction fuel with
  | zero => rfl
  | succ fuel ih =>
    have hstay : (s.getline n).2 = s := by
      rw [IStream.getline, hfail, Bool.or_true, if_pos rfl, ← hfail]
    rw [IStream.readLines, heof, if_neg Bool.false_ne_true, hstay, ih]
    rfl

/-- If every line fits, the loop ends with the lines of the text. -/
theorem readLines_of_forall (h : ∀ l ∈ text.splitOn LF, l.length ≤ n - 1)
    (hfuel : (text.splitOn LF).length < fuel) :
    (IStream.ofText text).readLines n fuel = some (text.splitOn LF) := by
  induction text using pieces_induction LF generalizing fuel with
  | single l hl =>
    rw [List.splitOn_eq_singleton hl] at h hfuel ⊢
    obtain ⟨hstored, heof⟩ := getline_last hl (h l (List.mem_singleton_self l))
    obtain ⟨fuel, rfl⟩ : ∃ m, fuel = m + 2 := ⟨fuel - 2, by simp at hfuel; omega⟩
    rw [IStream.readLines, if_neg (by simp [IStream.ofText]), IStream.readLines, heof,
      if_pos rfl, hstored]
    rfl
  | cut l more hl ih =>
    rw [List.splitOn_append_cons_self_of_not_mem hl] at h hfuel ⊢
    obtain ⟨hfirst, hmore⟩ := List.forall_mem_cons.mp h
    obtain ⟨fuel, rfl⟩ : ∃ m, fuel = m + 1 := ⟨fuel - 1, by simp at hfuel; omega⟩
    rw [List.length_cons, Nat.add_lt_add_iff_right] at hfuel
    rw [IStream.readLines, if_neg (by simp [IStream.ofText]), getline_line hl hfirst,
      ih hmore hfuel]
    rfl

/-- If a line does not fit, the loop never ends. -/
theorem readLines_of_long (hlong : l ∈ text.splitOn LF) (hlen : n - 1 < l.length) :
    (IStream.ofText text).readLines n fuel = none := by
  induction text using pieces_induction LF generalizing fuel with
  | single l' hl =>
    rw [List.splitOn_eq_singleton hl, List.mem_singleton] at hlong
    subst hlong
    cases fuel with
    | zero => rfl
    | succ fuel =>
      obtain ⟨heof, hfail⟩ := getline_long [] hl hlen
      rw [List.append_nil] at heof hfail
      rw [IStream.readLines, if_neg (by simp [IStream.ofText]),
        readLines_of_failed heof hfail]
      rfl
  | cut l' more hl ih =>
    rw [List.splitOn_append_cons_self_of_not_mem hl] at hlong
    cases fuel with
    | zero => rfl
    | succ fuel =>
      rw [IStream.readLines, if_neg (by simp [IStream.ofText])]
      rcases Nat.lt_or_ge (n - 1) l'.length with hlt | hle
      · obtain ⟨heof, hfail⟩ := getline_long (LF :: more) hl hlt
        rw [readLines_of_failed heof hfail]
        rfl
      · -- the long line is a later one
        rcases List.mem_cons.mp hlong with rfl | hmem
        · exact absurd hlen (Nat.not_lt.mpr hle)
        · rw [getline_line hl hle, ih hmem]
          rfl

/-- A loop that has ended stays so. -/
theorem readLines_succ {content : List (List UInt8)} (h : s.readLines n fuel = some content) :
    s.readLines n (fuel + 1) = some content := by
  induction fuel generalizing s content with
  | zero => cases h
  | succ fuel ih =>
    rw [IStream.readLines] at h ⊢
    split_ifs at h ⊢ with heof
    · exact h
    · obtain ⟨more, hmore, rfl⟩ := Option.map_eq_some_iff.mp h
      rw [ih hmore]
      rfl

theorem readLines_of_le {fuel' : ℕ} {content : List (List UInt8)} (hle : fuel ≤ fuel')
    (h : s.readLines n fuel = some content) : s.readLines n fuel' = some content := by
  induction hle with
  | refl => exact h
  | step _ ih => exact readLines_succ ih

/-- When the loop ends, and with what. -/
theorem readLines_eq_some_iff {content : List (List UInt8)} :
    (∃ fuel, (IStream.ofText text).readLines n fuel = some content) ↔
      (∀ l ∈ text.splitOn LF, l.length ≤ n - 1) ∧ content = text.splitOn LF := by
  constructor
  · rintro ⟨fuel, hread⟩
    have hfit : ∀ l ∈ text.splitOn LF, l.length ≤ n - 1 := by
      intro l hl
      by_contra hlong
      rw [readLines_of_long hl (by omega)] at hread
      cases hread
    have hmore := readLines_of_le (Nat.le_add_right fuel ((text.splitOn LF).length + 1)) hread
    rw [readLines_of_forall hfit (by omega)] at hmore
    exact ⟨hfit, (Option.some.inj hmore).symm⟩
  · rintro ⟨hfit, rfl⟩
    exact ⟨(text.splitOn LF).length + 1, readLines_of_forall hfit (Nat.lt_succ_self _)⟩

end LineStream
