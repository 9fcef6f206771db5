import Mathlib.Data.List.DropRight
import Mathlib.Tactic.Common

/-!
# Character columns

What a `CHAR` or `VARCHAR` column with the character set `utf8` keeps of a text. Widths are in
characters, and a character takes up to three bytes. Where a text does not fit, a server in
strict mode refuses it and any other cuts it off.
-/

namespace TextColumn

/-- The bytes of a text. -/
def utf8 (cs : List Char) : List UInt8 := cs.flatMap String.utf8EncodeChar

/-- The kinds of columns. -/
inductive Kind
  /-- `CHAR`, which loses its trailing blanks when it is read. -/
  | char
  /-- `VARCHAR`. -/
  | varchar
  deriving DecidableEq, Repr

/-- A column, with its width in characters. -/
structure Column where
  kind : Kind
  width : ℕ
  deriving DecidableEq, Repr

/-- A character that takes at most three bytes. A text is cut off in front of any other. -/
def isShort (c : Char) : Bool := c.toNat < 0x10000

/-- What is read from a column into which a text was stored. -/
def Column.keep (col : Column) (cs : List Char) : List Char :=
  let kept := (cs.takeWhile isShort).take col.width
  match col.kind with
  | .char => kept.rdropWhile (· = ' ')
  | .varchar => kept

/-- Nothing but blanks is cut off. -/
def Column.holds (col : Column) (cs : List Char) : Bool :=
  (cs.drop ((cs.takeWhile isShort).take col.width).length).all (· = ' ')

/-- What is kept is the front of the text. -/
theorem keep_isPrefix (col : Column) (cs : List Char) : col.keep cs <+: cs := by
  have hfront : (cs.takeWhile isShort).take col.width <+: cs :=
    (List.take_prefix _ _).trans (List.takeWhile_prefix _)
  rw [Column.keep]
  cases col.kind with
  | char => exact (List.rdropWhile_prefix _ _).trans hfront
  | varchar => exact hfront

/-- The bytes of a text that starts with another one. -/
theorem length_utf8_le_of_prefix {cs ds : List Char} (h : cs <+: ds) :
    (utf8 cs).length ≤ (utf8 ds).length := by
  obtain ⟨more, rfl⟩ := h
  rw [utf8, utf8, List.flatMap_append, List.length_append]
  exact Nat.le_add_right _ _

/-- A text of ASCII characters has as many bytes as characters. -/
theorem length_utf8_of_ascii {cs : List Char} (h : ∀ c ∈ cs, c.val ≤ 127) :
    (utf8 cs).length = cs.length := by
  induction cs with
  | nil => rfl
  | cons c cs ih =>
    obtain ⟨hc, hcs⟩ := List.forall_mem_cons.mp h
    have hone : (String.utf8EncodeChar c).length = 1 := by
      rw [String.length_utf8EncodeChar, Char.utf8Size_eq_one_iff]
      exact hc
    have hrest := ih hcs
    rw [utf8] at hrest ⊢
    rw [List.flatMap_cons, List.length_append, hone, hrest, List.length_cons, Nat.add_comm]

end TextColumn
