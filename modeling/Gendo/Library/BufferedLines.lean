import Mathlib.Data.List.Basic
import Mathlib.Tactic.Common

/-!
# Lines read through a buffer

What successive calls of `fgets` return for a text: each stops behind a line feed, or when its
buffer is full, or at the end of the text. So a long line comes in parts, and what is added
behind a text without a final line feed becomes part of its last line.

`lines_prefix_append` and `lines_suffix` cut a text between two of its lines; the other rules say
what becomes of bytes that are added at a cut.
-/

namespace BufferedLines

/-- The line feed. -/
def LF : UInt8 := 10

/-- The lines of a text that is read through buffers of `n` bytes, where `room` bytes are left in
the first one. -/
def lines (n : ℕ) : ℕ → List UInt8 → List (List UInt8)
  | _, [] => []
  | room, b :: bs =>
    if b = LF ∨ room ≤ 1 then [b] :: lines n n bs
    else
      match lines n (room - 1) bs with
      | [] => [[b]]
      | l :: ls => (b :: l) :: ls

variable {n room : ℕ} {b : UInt8} {bs cs l m : List UInt8} {ls pre post : List (List UInt8)}

/-- A byte behind which a read stops. -/
theorem lines_cons_of_stop (h : b = LF ∨ room ≤ 1) :
    lines n room (b :: bs) = [b] :: lines n n bs := by
  rw [lines, if_pos h]

/-- A byte behind which a read goes on. -/
theorem lines_cons_of_lines (h : ¬(b = LF ∨ room ≤ 1)) (hbs : lines n (room - 1) bs = l :: ls) :
    lines n room (b :: bs) = (b :: l) :: ls := by
  rw [lines, if_neg h, hbs]

/-- A byte behind which a read goes on, at the end of the text. -/
theorem lines_singleton (n room : ℕ) (b : UInt8) : lines n room [b] = [[b]] := by
  by_cases h : b = LF ∨ room ≤ 1
  · exact lines_cons_of_stop h
  · rw [lines, if_neg h]
    rfl

theorem lines_ne_nil (h : bs ≠ []) : lines n room bs ≠ [] := by
  cases bs with
  | nil => exact absurd rfl h
  | cons b bs =>
    rw [lines]
    split
    · simp
    · split
      · simp
      · simp

/-- The lines of a text make the text. -/
theorem flatten_lines (n room : ℕ) (bs : List UInt8) : (lines n room bs).flatten = bs := by
  induction bs generalizing room with
  | nil => rfl
  | cons b bs ih =>
    by_cases h : b = LF ∨ room ≤ 1
    · rw [lines_cons_of_stop h, List.flatten_cons, ih]
      rfl
    · -- the byte is the first of a line, or all that is left
      have hrest := ih (room - 1)
      rcases hbs : lines n (room - 1) bs with _ | ⟨l, ls⟩
      · rw [hbs] at hrest
        rw [← hrest]
        exact congrArg List.flatten (lines_singleton n room b)
      · rw [hbs] at hrest
        rw [lines_cons_of_lines h hbs, ← hrest]
        rfl

/-- A line is one of the rest of the text, or the first byte with the line behind it, if that byte
is no line feed, or the first byte alone. -/
theorem mem_lines_cons (h : l ∈ lines n room (b :: bs)) :
    (∃ room', l ∈ lines n room' bs) ∨ (b ≠ LF ∧ ∃ l' ∈ lines n (room - 1) bs, l = b :: l') ∨
      l = [b] := by
  by_cases hstop : b = LF ∨ room ≤ 1
  · rw [lines_cons_of_stop hstop] at h
    rcases List.mem_cons.mp h with rfl | h
    · exact .inr (.inr rfl)
    · exact .inl ⟨n, h⟩
  · rcases hbs : lines n (room - 1) bs with _ | ⟨l', ls⟩
    · rw [lines, if_neg hstop, hbs, List.mem_singleton] at h
      exact .inr (.inr h)
    · rw [lines_cons_of_lines hstop hbs] at h
      rcases List.mem_cons.mp h with rfl | h
      · exact .inr (.inl ⟨fun heq => hstop (.inl heq), l', List.mem_cons_self, rfl⟩)
      · exact .inl ⟨room - 1, hbs ▸ List.mem_cons_of_mem _ h⟩

/-- No line is empty. -/
theorem ne_nil_of_mem_lines (h : l ∈ lines n room bs) : l ≠ [] := by
  induction bs generalizing room l with
  | nil => cases h
  | cons b bs ih =>
    rcases mem_lines_cons h with ⟨room', hmem⟩ | ⟨-, l', -, rfl⟩ | rfl
    · exact ih hmem
    · exact List.cons_ne_nil b l'
    · exact List.cons_ne_nil b []

/-- A line fits the buffer, and the first one what is left of it. -/
theorem length_lines_le (hroom : 0 < room) (hle : room ≤ n) :
    (∀ l ∈ (lines n room bs).head?, l.length ≤ room) ∧ ∀ l ∈ lines n room bs, l.length ≤ n := by
  induction bs generalizing room with
  | nil => simp [lines]
  | cons b bs ih =>
    have hn : 0 < n := Nat.lt_of_lt_of_le hroom hle
    by_cases hstop : b = LF ∨ room ≤ 1
    · obtain ⟨-, hall⟩ := ih hn (Nat.le_refl n)
      rw [lines_cons_of_stop hstop]
      refine ⟨?_, List.forall_mem_cons.mpr ⟨hn, hall⟩⟩
      rintro l ⟨⟩
      exact hroom
    · have hroom' : 0 < room - 1 ∧ room - 1 ≤ n := by omega
      obtain ⟨hfirst, hall⟩ := ih hroom'.1 hroom'.2
      rcases hbs : lines n (room - 1) bs with _ | ⟨l', ls⟩
      · rw [lines, if_neg hstop, hbs]
        refine ⟨?_, List.forall_mem_singleton.mpr hn⟩
        rintro l ⟨⟩
        exact hroom
      · rw [hbs] at hfirst hall
        have hlen : l'.length ≤ room - 1 := hfirst l' rfl
        have hcons : (b :: l').length ≤ room := by
          rw [List.length_cons]
          omega
        rw [lines_cons_of_lines hstop hbs]
        refine ⟨?_, List.forall_mem_cons.mpr
          ⟨Nat.le_trans hcons hle, (List.forall_mem_cons.mp hall).2⟩⟩
        rintro l ⟨⟩
        exact hcons

/-- A line feed can only be the last byte of a line. -/
theorem lf_notMem_dropLast (h : l ∈ lines n room bs) : LF ∉ l.dropLast := by
  induction bs generalizing room l with
  | nil => cases h
  | cons b bs ih =>
    rcases mem_lines_cons h with ⟨room', hmem⟩ | ⟨hne, l', hmem, rfl⟩ | rfl
    · exact ih hmem
    · rw [List.dropLast_cons_of_ne_nil (ne_nil_of_mem_lines hmem), List.mem_cons, not_or]
      exact ⟨hne.symm, ih hmem⟩
    · exact List.not_mem_nil

/-! ## Cuts between lines -/

/-- Behind the first line, the others are the lines of the rest; and if there are others, the
first line stays as it is whatever follows it. -/
theorem lines_eq_cons (h : lines n room bs = l :: ls) :
    lines n n ls.flatten = ls ∧
      (ls ≠ [] → ∀ cs, lines n room (l ++ cs) = l :: lines n n cs) := by
  induction bs generalizing room l ls with
  | nil => cases h
  | cons b bs ih =>
    by_cases hstop : b = LF ∨ room ≤ 1
    · rw [lines_cons_of_stop hstop] at h
      obtain ⟨rfl, rfl⟩ := List.cons.inj h
      rw [flatten_lines]
      exact ⟨rfl, fun _ cs => lines_cons_of_stop hstop⟩
    · rcases hbs : lines n (room - 1) bs with _ | ⟨l', ls'⟩
      · rw [lines, if_neg hstop, hbs] at h
        obtain ⟨-, rfl⟩ := List.cons.inj h
        exact ⟨rfl, fun hne => absurd rfl hne⟩
      · rw [lines_cons_of_lines hstop hbs] at h
        obtain ⟨rfl, rfl⟩ := List.cons.inj h
        obtain ⟨hrest, hfirst⟩ := ih hbs
        exact ⟨hrest, fun hne cs => lines_cons_of_lines hstop (hfirst hne cs)⟩

/-- The lines in front of a cut stay as they are, whatever follows it. -/
theorem lines_prefix_append (h : lines n n bs = pre ++ post) (hpost : post ≠ [])
    (cs : List UInt8) : lines n n (pre.flatten ++ cs) = pre ++ lines n n cs := by
  induction pre generalizing bs with
  | nil => rfl
  | cons l pre ih =>
    obtain ⟨hrest, hfirst⟩ := lines_eq_cons h
    have hne : pre ++ post ≠ [] := by simp [hpost]
    rw [List.flatten_cons, List.append_assoc, hfirst hne, ih hrest]
    rfl

/-- The lines behind a cut are those of the text behind it. -/
theorem lines_suffix (h : lines n n bs = pre ++ post) : lines n n post.flatten = post := by
  induction pre generalizing bs with
  | nil =>
    rw [List.nil_append] at h
    rw [← h, flatten_lines]
  | cons l pre ih => exact ih (lines_eq_cons h).1

/-! ## What is added -/

/-- A line that fits the buffer is read as a whole. -/
theorem lines_append_lf (hm : LF ∉ m) (hlen : m.length < room) (cs : List UInt8) :
    lines n room (m ++ LF :: cs) = (m ++ [LF]) :: lines n n cs := by
  induction m generalizing room with
  | nil => exact lines_cons_of_stop (.inl rfl)
  | cons b m ih =>
    rw [List.mem_cons, not_or] at hm
    rw [List.length_cons] at hlen
    have hgo : ¬(b = LF ∨ room ≤ 1) := by
      rw [not_or]
      exact ⟨fun heq => hm.1 heq.symm, by omega⟩
    exact lines_cons_of_lines hgo (ih hm.2 (by omega))

/-- A short text without line feed is one line. -/
theorem lines_eq_singleton (hne : m ≠ []) (hm : LF ∉ m) (hlen : m.length ≤ room) :
    lines n room m = [m] := by
  induction m generalizing room with
  | nil => exact absurd rfl hne
  | cons b m ih =>
    rw [List.mem_cons, not_or] at hm
    rw [List.length_cons] at hlen
    rcases m.eq_nil_or_concat with rfl | ⟨_, _, hcons⟩
    · exact lines_singleton n room b
    · have hne : m ≠ [] := by simp [hcons]
      have hpos := List.length_pos_iff.mpr hne
      have hgo : ¬(b = LF ∨ room ≤ 1) := by
        rw [not_or]
        exact ⟨fun heq => hm.1 heq.symm, by omega⟩
      exact lines_cons_of_lines hgo (ih hne hm.2 (by omega))

/-- A line that does not fit comes in parts. -/
theorem lines_append_lf_of_le (hm : LF ∉ m) (hroom : 0 < room) (hlen : room ≤ m.length)
    (cs : List UInt8) :
    lines n room (m ++ LF :: cs) = m.take room :: lines n n (m.drop room ++ LF :: cs) := by
  induction m generalizing room with
  | nil => exact absurd hlen (Nat.not_le.mpr hroom)
  | cons b m ih =>
    rw [List.mem_cons, not_or] at hm
    rw [List.length_cons] at hlen
    obtain ⟨k, rfl⟩ : ∃ k, room = k + 1 := ⟨room - 1, by omega⟩
    rcases Nat.eq_zero_or_pos k with rfl | hk
    · exact lines_cons_of_stop (.inr (Nat.le_refl 1))
    · have hgo : ¬(b = LF ∨ k + 1 ≤ 1) := by
        rw [not_or]
        exact ⟨fun heq => hm.1 heq.symm, by omega⟩
      exact lines_cons_of_lines hgo (ih hm.2 hk (by omega))

/-- What is added behind a line feed makes lines of its own. -/
theorem lines_append_of_lf (bs cs : List UInt8) :
    lines n room (bs ++ LF :: cs) = lines n room (bs ++ [LF]) ++ lines n n cs := by
  induction bs generalizing room with
  | nil =>
    rw [List.nil_append, List.nil_append, lines_cons_of_stop (.inl rfl), lines_singleton]
    rfl
  | cons b bs ih =>
    rw [List.cons_append, List.cons_append]
    by_cases hstop : b = LF ∨ room ≤ 1
    · rw [lines_cons_of_stop hstop, lines_cons_of_stop hstop, ih]
      rfl
    · rcases hbs : lines n (room - 1) (bs ++ [LF]) with _ | ⟨l, ls⟩
      · exact absurd hbs (lines_ne_nil (by simp))
      · have hall : lines n (room - 1) (bs ++ LF :: cs) =
            lines n (room - 1) (bs ++ [LF]) ++ lines n n cs := ih
        rw [hbs] at hall
        rw [lines_cons_of_lines hstop hbs, lines_cons_of_lines hstop hall]
        rfl

/-- A line that fills the buffer ends with it, whatever follows. -/
theorem lines_append_of_length (hm : LF ∉ m.dropLast) (hne : m ≠ []) (hlen : m.length = room)
    (cs : List UInt8) : lines n room (m ++ cs) = m :: lines n n cs := by
  induction m generalizing room with
  | nil => exact absurd rfl hne
  | cons b m ih =>
    rw [List.length_cons] at hlen
    cases m with
    | nil => exact lines_cons_of_stop (.inr (Nat.le_of_eq hlen.symm))
    | cons b' m =>
      rw [List.dropLast_cons_of_ne_nil (List.cons_ne_nil b' m), List.mem_cons, not_or] at hm
      rw [List.length_cons] at hlen
      have hgo : ¬(b = LF ∨ room ≤ 1) := by
        rw [not_or]
        exact ⟨fun heq => hm.1 heq.symm, by omega⟩
      exact lines_cons_of_lines hgo
        (ih hm.2 (List.cons_ne_nil b' m) (by rw [List.length_cons]; omega))

/-- What is added behind a last line that fills the buffer makes lines of its own. -/
theorem lines_append_of_full (hbs : lines n n bs = pre ++ [l]) (hl : l.length = n)
    (cs : List UInt8) : lines n n (bs ++ cs) = pre ++ l :: lines n n cs := by
  have hflat := flatten_lines n n bs
  induction pre generalizing bs with
  | nil =>
    have hmem : l ∈ lines n n bs := hbs ▸ List.mem_cons_self
    rw [hbs, List.nil_append, List.flatten_singleton] at hflat
    rw [← hflat]
    exact lines_append_of_length (lf_notMem_dropLast hmem) (ne_nil_of_mem_lines hmem) hl cs
  | cons p pre ih =>
    obtain ⟨hrest, hfirst⟩ := lines_eq_cons hbs
    have hne : pre ++ [l] ≠ [] := by simp
    have hbehind : lines n n ((pre ++ [l]).flatten ++ cs) = pre ++ l :: lines n n cs :=
      ih hrest (flatten_lines n n _)
    rw [hbs, List.cons_append, List.flatten_cons] at hflat
    rw [← hflat, List.append_assoc, hfirst hne, hbehind]
    rfl

/-- A line stays as it is, whatever is added to the text, if it has an end: another line behind it,
a full buffer or a line feed. -/
theorem exists_lines_append (hn : 0 < n) (hbs : lines n n bs = pre ++ l :: post)
    (h : post ≠ [] ∨ l.length = n ∨ LF ∈ l) (cs : List UInt8) :
    ∃ ls, lines n n (bs ++ cs) = pre ++ l :: ls := by
  have hmem : l ∈ lines n n bs := hbs ▸ List.mem_append_right pre List.mem_cons_self
  have hcut : lines n n bs = (pre ++ [l]) ++ post := by rw [hbs, List.append_assoc]; rfl
  have hflat : bs = (pre ++ [l]).flatten ++ post.flatten := by
    rw [← List.flatten_append, ← hcut, flatten_lines]
  by_cases hpost : post = []
  · subst hpost
    rcases h.resolve_left (fun hne => hne rfl) with hfull | hlf
    · exact ⟨_, lines_append_of_full hbs hfull cs⟩
    · -- the line feed is its last byte
      obtain ⟨m, b, rfl⟩ : ∃ m b, l = m ++ [b] :=
        ⟨_, _, (List.dropLast_append_getLast (ne_nil_of_mem_lines hmem)).symm⟩
      have hm := lf_notMem_dropLast hmem
      have hlen := (length_lines_le hn (Nat.le_refl n)).2 _ hmem
      rw [List.dropLast_concat] at hm
      rw [List.length_append] at hlen
      obtain rfl : LF = b := by simpa [hm] using hlf
      refine ⟨lines n n cs, ?_⟩
      have hsplit : bs ++ cs = pre.flatten ++ (m ++ LF :: cs) := by rw [hflat]; simp
      rw [hsplit, lines_prefix_append hbs (by simp), lines_append_lf hm hlen]
  · refine ⟨lines n n (post.flatten ++ cs), ?_⟩
    rw [hflat, List.append_assoc, lines_prefix_append hcut hpost, List.append_assoc]
    rfl

/-- A line feed behind a text is a line of its own, or ends the last line. -/
theorem lines_concat_lf (n room : ℕ) (bs : List UInt8) :
    lines n room (bs ++ [LF]) = lines n room bs ++ [[LF]] ∨
      ∃ pre l, lines n room bs = pre ++ [l] ∧
        lines n room (bs ++ [LF]) = pre ++ [l ++ [LF]] := by
  induction bs generalizing room with
  | nil => exact .inl (lines_singleton n room LF)
  | cons b bs ih =>
    rw [List.cons_append]
    by_cases hstop : b = LF ∨ room ≤ 1
    · rw [lines_cons_of_stop hstop, lines_cons_of_stop hstop]
      rcases ih n with hown | ⟨pre, l, hbs, hlast⟩
      · exact .inl (by rw [hown]; rfl)
      · exact .inr ⟨[b] :: pre, l, by rw [hbs]; rfl, by rw [hlast]; rfl⟩
    · rcases hbs : lines n (room - 1) bs with _ | ⟨l, ls⟩
      · -- `b` is the last byte, and the line feed ends its line
        have hnil : bs = [] := by
          by_contra hne
          exact lines_ne_nil hne hbs
        subst hnil
        refine .inr ⟨[], [b], lines_singleton n room b, ?_⟩
        exact lines_cons_of_lines hstop (lines_singleton n (room - 1) LF)
      · rw [lines_cons_of_lines hstop hbs]
        rcases ih (room - 1) with hown | ⟨pre, l', hsplit, hlast⟩
        · rw [hbs] at hown
          exact .inl (lines_cons_of_lines hstop hown)
        · -- `b` goes in front of the last line if that is the only one, or of the first one
          rw [hbs] at hsplit
          cases pre with
          | nil =>
            obtain ⟨rfl, rfl⟩ := List.cons.inj hsplit
            exact .inr ⟨[], b :: l, rfl, lines_cons_of_lines hstop hlast⟩
          | cons p pre =>
            obtain ⟨rfl, rfl⟩ := List.cons.inj hsplit
            exact .inr ⟨(b :: l) :: pre, l', rfl, lines_cons_of_lines hstop hlast⟩

/-! ## One read -/

/-- One `fgets` with room for `n` bytes and a NUL: the line, and the text left; nothing at the end
of the text. -/
def readLine (n : ℕ) (text : List UInt8) : Option (List UInt8 × List UInt8) :=
  match lines n n text with
  | [] => none
  | l :: ls => some (l, ls.flatten)

/-- A line that fits the buffer is read, and the text behind it is left. -/
theorem readLine_append_lf (hm : LF ∉ m) (hlen : m.length < n) (cs : List UInt8) :
    readLine n (m ++ LF :: cs) = some (m ++ [LF], cs) := by
  rw [readLine, lines_append_lf hm hlen]
  dsimp only
  rw [flatten_lines]

/-- What is read is the front of the text. -/
theorem readLine_eq_some (h : readLine n bs = some (l, cs)) : l ≠ [] ∧ bs = l ++ cs := by
  have hflat := flatten_lines n n bs
  rw [readLine] at h
  rcases hbs : lines n n bs with _ | ⟨l', ls⟩
  · rw [hbs] at h
    cases h
  · rw [hbs] at h hflat
    cases h
    exact ⟨ne_nil_of_mem_lines (hbs ▸ List.mem_cons_self), hflat.symm⟩

/-- What is read fits the buffer. -/
theorem length_readLine_le (hn : 0 < n) (h : readLine n bs = some (l, cs)) : l.length ≤ n := by
  rw [readLine] at h
  rcases hbs : lines n n bs with _ | ⟨l', ls⟩
  · rw [hbs] at h
    cases h
  · rw [hbs] at h
    cases h
    exact (length_lines_le hn (Nat.le_refl n)).2 l (hbs ▸ List.mem_cons_self)

/-- Something is read unless the text is at its end. -/
theorem readLine_ne_none (h : bs ≠ []) : readLine n bs ≠ none := by
  rw [readLine]
  rcases hbs : lines n n bs with _ | ⟨l, ls⟩
  · exact absurd hbs (lines_ne_nil h)
  · simp

/-! ## Texts with short lines -/

/-- Every line of a text is shorter than this, without its line feed. -/
def ShortLines (n : ℕ) (text : List UInt8) : Prop :=
  ∀ m, m <:+: text → LF ∉ m → m.length < n

theorem ShortLines.of_infix (h : ShortLines n bs) (hcs : cs <:+: bs) : ShortLines n cs :=
  fun m hm hlf => h m (hm.trans hcs) hlf

/-- A text is short enough if it is short. -/
theorem shortLines_of_length (h : bs.length < n) : ShortLines n bs :=
  fun _ hm _ => Nat.lt_of_le_of_lt hm.length_le h

/-- The first of the short lines, as any large buffer reads it. -/
theorem ShortLines.exists_cons (h : ShortLines n bs) (hne : bs ≠ []) :
    ∃ l cs, bs = l ++ cs ∧ l ≠ [] ∧ ∀ k, n ≤ k → lines k k bs = l :: lines k k cs := by
  by_cases hlf : LF ∈ bs
  · obtain ⟨m, cs, rfl, hm⟩ := List.eq_append_cons_of_mem hlf
    have hlen : m.length < n := h m (List.prefix_append m (LF :: cs)).isInfix hm
    refine ⟨m ++ [LF], cs, by simp, by simp, fun k hk => ?_⟩
    exact lines_append_lf hm (Nat.lt_of_lt_of_le hlen hk) cs
  · have hlen : bs.length < n := h bs (List.infix_refl bs) hlf
    refine ⟨bs, [], (List.append_nil bs).symm, hne, fun k hk => ?_⟩
    exact lines_eq_singleton hne hlf (Nat.le_trans (Nat.le_of_lt hlen) hk)

end BufferedLines
