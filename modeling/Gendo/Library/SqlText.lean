import Mathlib.Data.List.Basic
import Mathlib.Data.Option.Basic

/-!
# Quoted strings in SQL texts

A lexer for the part of SQL that decides where a string literal ends. A literal is opened and
closed by a single quote, and a doubled quote inside it stands for one. A server may also take
backslash as an escape, as MySQL does by default: `escapes` says whether it does. Outside of
literals every byte is a token of its own.

A value is *plain* if it can be written between two quotes as it stands: `lex_quoted_iff` says
that it is read back as one literal with this value exactly when it is plain.
-/

namespace SqlText

/-- The single quote. -/
def quote : UInt8 := 39

/-- The backslash. -/
def backslash : UInt8 := 92

/-- A byte outside of literals, or a string literal with its value. -/
inductive Token
  | char (b : UInt8)
  | str (value : List UInt8)
  deriving DecidableEq, Repr

/-- Where the lexer is. -/
inductive LexState
  /-- Outside of literals. -/
  | outside
  /-- Inside a literal, with this value so far. -/
  | quoted (value : List UInt8)
  /-- Behind a quote inside a literal, which ends it unless another quote follows. -/
  | quote (value : List UInt8)
  /-- Behind a backslash inside a literal. -/
  | escape (value : List UInt8)

/-- What a byte behind a backslash stands for. The two pattern characters keep the backslash. -/
def unescape (b : UInt8) : List UInt8 :=
  if b = 37 ∨ b = 95 then [backslash, b]
  else if b = 48 then [0]
  else if b = 98 then [8]
  else if b = 110 then [10]
  else if b = 114 then [13]
  else if b = 116 then [9]
  else if b = 90 then [26]
  else [b]

/-- The tokens of a text, or `none` for a literal without end. -/
def lex (escapes : Bool) : LexState → List UInt8 → Option (List Token)
  | .outside, [] => some []
  | .outside, b :: bs =>
    if b = quote then lex escapes (.quoted []) bs
    else (lex escapes .outside bs).map (.char b :: ·)
  | .quoted _, [] => none
  | .quoted v, b :: bs =>
    if b = quote then lex escapes (.quote v) bs
    else if escapes ∧ b = backslash then lex escapes (.escape v) bs
    else lex escapes (.quoted (v ++ [b])) bs
  | .quote v, [] => some [.str v]
  | .quote v, b :: bs =>
    if b = quote then lex escapes (.quoted (v ++ [quote])) bs
    else (lex escapes .outside bs).map (.str v :: .char b :: ·)
  | .escape _, [] => none
  | .escape v, b :: bs => lex escapes (.quoted (v ++ unescape b)) bs

/-- A value that stands for itself between quotes: it has no quote, and if backslash escapes,
every backslash is followed by one of the pattern characters. -/
def Plain (escapes : Bool) : List UInt8 → Prop
  | [] => True
  | [b] => b ≠ quote ∧ ¬(escapes ∧ b = backslash)
  | b :: c :: bs =>
    b ≠ quote ∧ if escapes ∧ b = backslash then (c = 37 ∨ c = 95) ∧ Plain escapes bs
      else Plain escapes (c :: bs)

variable {escapes : Bool}

/-- Text without quotes is read byte by byte. -/
theorem lex_outside_append {cs : List UInt8} (h : quote ∉ cs) (bs : List UInt8) :
    lex escapes .outside (cs ++ bs) = (lex escapes .outside bs).map (cs.map .char ++ ·) := by
  induction cs with
  | nil => simp
  | cons c cs ih =>
    rw [List.mem_cons, not_or] at h
    rw [List.cons_append, lex, if_neg (Ne.symm h.1), ih h.2, Option.map_map]
    rfl

/-- A value without quotes and backslashes goes into the literal as it stands. -/
theorem lex_quoted_append {cs : List UInt8} (hquote : quote ∉ cs) (hslash : backslash ∉ cs)
    (v bs : List UInt8) :
    lex escapes (.quoted v) (cs ++ bs) = lex escapes (.quoted (v ++ cs)) bs := by
  induction cs generalizing v with
  | nil => simp
  | cons c cs ih =>
    rw [List.mem_cons, not_or] at hquote hslash
    have hc : ¬(escapes ∧ c = backslash) := fun h => hslash.1 h.2.symm
    rw [List.cons_append, lex, if_neg (Ne.symm hquote.1), if_neg hc, ih hquote.2 hslash.2,
      List.append_assoc, List.singleton_append]

/-- A literal with such a value is one token, if no other quote follows it. -/
theorem lex_literal {v : List UInt8} (hquote : quote ∉ v) (hslash : backslash ∉ v) {b : UInt8}
    (hb : b ≠ quote) (bs : List UInt8) :
    lex escapes .outside (quote :: (v ++ quote :: b :: bs)) =
      (lex escapes .outside (b :: bs)).map (.str v :: ·) := by
  have hquoted : lex escapes .outside (quote :: (v ++ quote :: b :: bs)) =
      lex escapes (.quote v) (b :: bs) := by
    rw [lex, if_pos rfl, lex_quoted_append hquote hslash, lex, if_pos rfl, List.nil_append]
  have hnext : lex escapes .outside (b :: bs) = (lex escapes .outside bs).map (.char b :: ·) := by
    rw [lex, if_neg hb]
  rw [hquoted, hnext, lex, if_neg hb, Option.map_map]
  rfl

/-- How long the value of a single literal can become from here, with `n` bytes to go. -/
def room (n : ℕ) : LexState → ℕ
  | .outside => n - 2
  | .quoted v => v.length + n - 1
  | .quote v => v.length + n
  | .escape v => v.length + n

theorem length_unescape_le (b : UInt8) : (unescape b).length ≤ 2 := by
  unfold unescape
  split_ifs <;> simp

/-- Every byte of the text adds at most one byte to the value of a literal. -/
theorem length_le_room {st : LexState} {bs v : List UInt8}
    (h : lex escapes st bs = some [.str v]) : v.length ≤ room bs.length st := by
  -- for any state, as a literal may be under way
  induction bs generalizing st with
  | nil => cases st <;> simp_all [lex, room]
  | cons b bs ih =>
    cases st with
    | outside =>
      rw [lex] at h
      split at h
      · have := ih h
        simp only [room, List.length_nil, List.length_cons] at this ⊢
        omega
      · simp at h
    | quoted acc =>
      rw [lex] at h
      split_ifs at h
      · have := ih h
        simp only [room, List.length_cons] at this ⊢
        omega
      · have := ih h
        simp only [room, List.length_cons] at this ⊢
        omega
      · have := ih h
        simp only [room, List.length_append, List.length_cons, List.length_nil] at this ⊢
        omega
    | quote acc =>
      rw [lex] at h
      split at h
      · have := ih h
        simp only [room, List.length_append, List.length_cons, List.length_nil] at this ⊢
        omega
      · simp at h
    | escape acc =>
      rw [lex] at h
      have := ih h
      have hle := length_unescape_le b
      simp only [room, List.length_append, List.length_cons] at this ⊢
      omega

/-- A byte other than the pattern characters loses its backslash. -/
theorem length_unescape_of_not_pattern {b : UInt8} (h : ¬(b = 37 ∨ b = 95)) :
    (unescape b).length = 1 := by
  unfold unescape
  rw [if_neg h]
  split_ifs <;> rfl

/-- Behind a quote, no literal with the quote in its value comes back. -/
theorem lex_quote_ne (v c : List UInt8) :
    lex escapes (.quote v) (c ++ [quote]) ≠ some [.str (v ++ quote :: c)] := by
  intro h
  cases c with
  | nil => simp [lex] at h
  | cons c cs =>
    rw [List.cons_append, lex] at h
    split at h
    · have := length_le_room h
      simp only [room, List.length_append, List.length_cons, List.length_nil] at this
      omega
    · simp at h

/-- A value between quotes is read back as one literal with this value exactly when it is
plain. -/
theorem lex_quoted_iff (w v : List UInt8) :
    lex escapes (.quoted v) (w ++ [quote]) = some [.str (v ++ w)] ↔ Plain escapes w := by
  fun_induction Plain escapes w generalizing v with
  | case1 => simp [lex]
  | case2 b =>
    by_cases hb : b = quote
    · simp [lex, hb]
    · by_cases hesc : escapes ∧ b = backslash
      · simp [lex, hesc.1, hesc.2]
      · simp [lex, hb, hesc]
  | case3 b c bs ihEscaped ihNext =>
    by_cases hesc : escapes ∧ b = backslash
    · rw [if_pos hesc]
      obtain ⟨hesc, rfl⟩ := hesc
      have hslash : backslash ≠ quote := by decide
      rw [List.cons_append, lex, if_neg hslash, if_pos ⟨hesc, rfl⟩, List.cons_append, lex]
      by_cases hc : c = 37 ∨ c = 95
      · have hvalue : v ++ backslash :: c :: bs = v ++ unescape c ++ bs := by
          have hunescape : unescape c = [backslash, c] := if_pos hc
          rw [hunescape, List.append_assoc]
          rfl
        rw [hvalue, ihEscaped]
        exact ⟨fun h => ⟨hslash, hc, h⟩, fun h => h.2.2⟩
      · -- the backslash is lost, and the value comes back too short
        refine iff_of_false (fun h => ?_) fun h => hc h.2.1
        have hlen := length_le_room h
        simp only [room, List.length_append, List.length_cons, List.length_nil,
          length_unescape_of_not_pattern hc] at hlen
        omega
    · rw [if_neg hesc]
      by_cases hb : b = quote
      · subst hb
        rw [List.cons_append, lex, if_pos rfl]
        exact iff_of_false (lex_quote_ne v (c :: bs)) fun h => h.1 rfl
      · rw [List.cons_append, lex, if_neg hb, if_neg hesc, List.append_cons v b (c :: bs),
          ihNext]
        exact ⟨fun h => ⟨hb, h⟩, fun h => h.2⟩

end SqlText
