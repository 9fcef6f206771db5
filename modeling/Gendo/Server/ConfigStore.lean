import Gendo.Server.ConfigFile

/-!
# Laws of the config file

A file is read through its entries, what `GetLine` leaves of its lines: a key has the value of the
first entry that starts with it, or its default (`getPacos_eq`). Setting a key replaces that entry
(`entries_replaceLine`), or adds one at the end, unless the file ends in a carriage return
(`entries_appendLine`): `AppendLine` takes that for the end of a line, and `fgets` does not.
-/

namespace Gendo

open BufferedLines ByteMemory

variable {file str line t v : List UInt8} {pre post ls : List (List UInt8)}

/-- What `GetLine` returns of a file. -/
def entries (file : List UInt8) : List (List UInt8) := (fileLines file).filterMap lineContent

/-- An entry with this key. -/
def hasKey (str t : List UInt8) : Bool := getField t = some str

/-- A line with this key. -/
def LineHasKey (str line : List UInt8) : Prop := (lineContent line).bind getField = some str

instance (str line : List UInt8) : Decidable (LineHasKey str line) :=
  inferInstanceAs (Decidable (_ = _))

theorem lineHasKey_iff :
    LineHasKey str line ↔ ∃ t, lineContent line = some t ∧ hasKey str t = true := by
  simp only [LineHasKey, Option.bind_eq_some_iff, hasKey, decide_eq_true_eq]

/-- The first line with a key, if there is one. -/
theorem find_line (str : List UInt8) (ls : List (List UInt8)) :
    (∀ line ∈ ls, ¬LineHasKey str line) ∨
      ∃ pre line post, ls = pre ++ line :: post ∧ (∀ l ∈ pre, ¬LineHasKey str l) ∧
        LineHasKey str line := by
  induction ls with
  | nil => exact .inl fun line hline => absurd hline List.not_mem_nil
  | cons l ls ih =>
    by_cases hl : LineHasKey str l
    · exact .inr ⟨[], l, ls, rfl, fun _ h => absurd h List.not_mem_nil, hl⟩
    · rcases ih with hnone | ⟨pre, line, post, rfl, hpre, hline⟩
      · exact .inl (List.forall_mem_cons.mpr ⟨hl, hnone⟩)
      · exact .inr ⟨l :: pre, line, post, rfl, List.forall_mem_cons.mpr ⟨hl, hpre⟩, hline⟩

/-- Lines without a key make no entry with it. -/
theorem find_entry_of_none (h : ∀ line ∈ ls, ¬LineHasKey str line) :
    (ls.filterMap lineContent).find? (hasKey str) = none := by
  rw [List.find?_eq_none]
  intro t ht hkey
  obtain ⟨line, hline, hcontent⟩ := List.mem_filterMap.mp ht
  exact h line hline (lineHasKey_iff.mpr ⟨t, hcontent, hkey⟩)

/-- The entry of the first line with a key. -/
theorem find_entry_of_line (hpre : ∀ l ∈ pre, ¬LineHasKey str l)
    (hcontent : lineContent line = some t) (hkey : hasKey str t = true) :
    ((pre ++ line :: post).filterMap lineContent).find? (hasKey str) = some t := by
  rw [List.filterMap_append, List.find?_append, find_entry_of_none hpre, Option.none_or,
    List.filterMap_cons_some hcontent, List.find?_cons, hkey]

/-! ## Looking up -/

/-- The second pass finds the line at whose end the first one stopped. -/
theorem lineEndingAt_eq {place pos i : ℕ} (hne : ∀ l ∈ pre, l ≠ []) (hline : line ≠ [])
    (hplace : place = pos + pre.flatten.length + line.length) :
    lineEndingAt place pos i (pre ++ line :: post) = i + pre.length + 1 := by
  -- no line is empty, so no line in front ends at the same place
  induction pre generalizing pos i with
  | nil =>
    rw [List.nil_append, lineEndingAt, if_pos (by rw [hplace]; rfl)]
    rfl
  | cons l pre ih =>
    obtain ⟨-, hpre⟩ := List.forall_mem_cons.mp hne
    rw [List.flatten_cons, List.length_append] at hplace
    have hpos := List.length_pos_iff.mpr hline
    rw [List.cons_append, lineEndingAt, if_neg (by omega), ih hpre (by omega), List.length_cons]
    omega

theorem searchField_cons_of_key {all : List (List UInt8)} {pos : ℕ} (h : LineHasKey str line) :
    searchField all str pos (line :: ls) = lineEndingAt (pos + line.length) 0 0 all := if_pos h

theorem searchField_cons_of_not {all : List (List UInt8)} {pos : ℕ} (h : ¬LineHasKey str line) :
    searchField all str pos (line :: ls) = searchField all str (pos + line.length) ls := if_neg h

/-- The first pass from a line on. -/
theorem searchField_eq {all : List (List UInt8)} (hne : ∀ l ∈ all, l ≠ [])
    (pre : List (List UInt8)) (hall : all = pre ++ ls) :
    ((∀ line ∈ ls, ¬LineHasKey str line) →
      searchField all str pre.flatten.length ls = 0) ∧
    ∀ mid line post, ls = mid ++ line :: post → (∀ l ∈ mid, ¬LineHasKey str l) →
      LineHasKey str line →
      searchField all str pre.flatten.length ls = (pre ++ mid).length + 1 := by
  induction ls generalizing pre with
  | nil =>
    refine ⟨fun _ => rfl, fun mid line post hsplit => ?_⟩
    exact absurd hsplit (by simp)
  | cons l ls ih =>
    have hstep : all = (pre ++ [l]) ++ ls := by
      rw [hall, List.append_assoc]
      rfl
    have hlen : (pre ++ [l]).flatten.length = pre.flatten.length + l.length := by
      rw [List.flatten_append, List.length_append, List.flatten_singleton]
    -- the position after this line is the length of the lines up to it
    obtain ⟨hnone, hsome⟩ := ih (pre ++ [l]) hstep
    rw [hlen] at hnone hsome
    refine ⟨fun h => ?_, fun mid line post hsplit hmid hline => ?_⟩
    · obtain ⟨hl, hls⟩ := List.forall_mem_cons.mp h
      rw [searchField_cons_of_not hl, hnone hls]
    · cases mid with
      | nil =>
        obtain ⟨rfl, rfl⟩ := List.cons.inj hsplit
        have hpre : ∀ l ∈ pre, l ≠ [] := fun l hl =>
          hne l (hall ▸ List.mem_append_left _ hl)
        have hl : l ≠ [] := hne l (hall ▸ List.mem_append_right _ List.mem_cons_self)
        rw [searchField_cons_of_key hline, hall,
          lineEndingAt_eq hpre hl (by rw [Nat.zero_add]), List.append_nil, Nat.zero_add]
      | cons m mid =>
        obtain ⟨rfl, rfl⟩ := List.cons.inj hsplit
        obtain ⟨hl, hmid⟩ := List.forall_mem_cons.mp hmid
        rw [searchField_cons_of_not hl, hsome mid line post rfl hmid hline]
        simp only [List.length_append, List.length_cons, List.length_nil]
        omega

/-- The lines of a file make the file. -/
theorem flatten_of_fileLines (h : fileLines file = ls) : file = ls.flatten := by
  rw [← h, fileLines, flatten_lines]

/-- No line of a file is empty. -/
theorem ne_nil_of_mem_fileLines : ∀ l ∈ fileLines file, l ≠ [] :=
  fun _ hl => ne_nil_of_mem_lines hl

theorem isInFileField_of_none (h : ∀ line ∈ fileLines file, ¬LineHasKey str line) :
    isInFileField file str = 0 :=
  (searchField_eq ne_nil_of_mem_fileLines [] rfl).1 h

theorem isInFileField_of_line (hsplit : fileLines file = pre ++ line :: post)
    (hpre : ∀ l ∈ pre, ¬LineHasKey str l) (hline : LineHasKey str line) :
    isInFileField file str = pre.length + 1 :=
  (searchField_eq ne_nil_of_mem_fileLines [] rfl).2 pre line post hsplit hpre hline

/-- A key has the value of the first entry with it, or its default. -/
theorem getPacos_eq (file : List UInt8) (pacos : ConfigPacos) :
    getPacos file pacos = some (((entries file).find? (hasKey pacos.name)).elim
      pacos.defaultVal fun t => vgetw t LINE_BUF_LEN) := by
  rcases find_line pacos.name (fileLines file) with hnone | ⟨pre, line, post, hsplit, hpre, hline⟩
  · rw [getPacos, isInFileField_of_none hnone, entries, find_entry_of_none hnone]
    rfl
  · obtain ⟨t, hcontent, hkey⟩ := lineHasKey_iff.mp hline
    have hstream : fileToLine file (pre.length + 1) = line :: post := by
      rw [fileToLine, hsplit, Nat.add_sub_cancel, List.drop_left]
    have hget : getLine (line :: post) = some (t, post) := by
      rw [getLine, hcontent]
    rw [getPacos, isInFileField_of_line hsplit hpre hline, entries, hsplit,
      find_entry_of_line hpre hcontent hkey, if_pos (Nat.succ_ne_zero _), hstream, hget]
    rfl

theorem configGet_eq (file : List UInt8) (id : ConfigType) :
    configGet file id = getPacos file id.pacos := by
  rw [configGet, (find_cfgPacos id).1]

theorem configSet_eq (file : List UInt8) (id : ConfigType) (value : List UInt8) :
    configSet file id value = (OK, setPacos file value id.pacos) := by
  cases id <;> rfl

/-! ## A line that is set -/

theorem forall_mem_some {p : UInt8 → Prop} {b : UInt8} (h : p b) : ∀ c ∈ some b, p c := by
  intro c hc
  obtain rfl := Option.some.inj hc
  exact h

/-- A value as it can be asked for: on one line, without blanks around it. -/
structure PlainValue (v : List UInt8) : Prop where
  not_eol : ∀ c ∈ v, isEOL c = false
  head : ∀ c ∈ v.head?, isSpace c = false
  last : ∀ c ∈ v.getLast?, isSpace c = false

theorem notEOL_of_all (h : v.all (fun c => !isEOL c) = true) : ∀ c ∈ v, isEOL c = false := by
  intro c hc
  rw [← Bool.not_eq_true']
  exact List.all_eq_true.mp h c hc

/-- A key: a word that does not look like a comment. -/
def IsKey (word : List UInt8) : Prop := word ≠ [] ∧ ∀ c ∈ word, isNameByte c = true

section Line

variable {word : List UInt8}

theorem isNameByte_iff {c : UInt8} :
    isNameByte c = true ↔ isSep c = false ∧ isEOL c = false ∧ c ≠ 35 := by
  simp [isNameByte, and_assoc]

theorem isSpace_of_isSep {c : UInt8} (h : isSep c = false) : isSpace c = false := by
  simp only [isSep, isSpace, Bool.or_eq_false_iff] at h ⊢
  exact h.1.1

/-- The last byte of a key, or of a value behind it, is not taken off. -/
theorem rdropWhile_eq_self {bs : List UInt8}
    (h : ∀ c ∈ bs.getLast?, isSpace c = false ∧ isEOL c = false) :
    bs.rdropWhile (fun c => isSpace c || isEOL c) = bs := by
  rw [List.rdropWhile_eq_self_iff]
  intro hne
  obtain ⟨hspace, heol⟩ := h _ (List.getLast_mem_getLast? hne)
  rw [hspace, heol]
  decide

/-- What `GetLine` leaves of a line with a key and a value. -/
theorem lineContent_setting (hword : IsKey word) (hv : PlainValue v) :
    lineContent (word ++ 32 :: v ++ [LF]) =
      some (if v = [] then word else word ++ 32 :: v) := by
  obtain ⟨c, cs, rfl⟩ := List.exists_cons_of_ne_nil hword.1
  obtain ⟨hsep, heol, hnote⟩ := isNameByte_iff.mp (hword.2 c List.mem_cons_self)
  have hspace := isSpace_of_isSep hsep
  have hblank : c ≠ 32 := by
    rintro rfl
    exact absurd hspace (by decide)
  have hnot : isNoteLine (c :: cs ++ 32 :: v ++ [LF]) = false := by
    simp [isNoteLine, hblank, hnote]
  have hall : ∀ b ∈ c :: cs ++ 32 :: v, (!isEOL b) = true := by
    intro b hb
    rcases List.mem_append.mp hb with hb | hb
    · rw [(isNameByte_iff.mp (hword.2 b hb)).2.1]
      rfl
    · rcases List.mem_cons.mp hb with rfl | hb
      · decide
      · rw [hv.not_eol b hb]
        rfl
  have hhead : (c :: cs ++ 32 :: v ++ [LF]).takeWhile (fun b => !isEOL b) =
      c :: cs ++ 32 :: v := by
    rw [List.takeWhile_append_of_pos hall]
    exact List.append_nil _
  have hlast : ∀ b ∈ (c :: cs).getLast?, isSpace b = false ∧ isEOL b = false := by
    intro b hb
    have hbyte := isNameByte_iff.mp (hword.2 b (List.mem_of_getLast? hb))
    exact ⟨isSpace_of_isSep hbyte.1, hbyte.2.1⟩
  have hcontent : ((c :: cs ++ 32 :: v).rdropWhile fun b => isSpace b || isEOL b) =
      if v = [] then c :: cs else c :: cs ++ 32 :: v := by
    by_cases hnil : v = []
    · -- the blank in front of an empty value is taken off
      subst hnil
      rw [if_pos rfl, List.rdropWhile_concat_pos _ _ _ (by decide)]
      exact rdropWhile_eq_self hlast
    · rw [if_neg hnil]
      refine rdropWhile_eq_self fun b hb => ?_
      have hb' : b ∈ v.getLast? := by
        rwa [List.getLast?_append_of_ne_nil _ (by simp), List.getLast?_cons_of_ne_nil hnil] at hb
      exact ⟨hv.last b hb', hv.not_eol b (List.mem_of_getLast? hb')⟩
  have hfirst : ¬isEOL ((c :: cs ++ 32 :: v ++ [LF]).headD 0) = true := by
    show ¬isEOL c = true
    rw [heol]
    decide
  rw [lineContent, if_neg (by rw [hnot]; decide), if_neg hfirst]
  simp only [hhead, hcontent]
  by_cases hnil : v = []
  · simp [hnil, hspace]
  · simp [hnil, hspace]

/-- The key of an entry that starts with a word. -/
theorem getField_word (hword : IsKey word) (hlen : word.length < LINE_BUF_LEN)
    (rest : List UInt8) (hrest : ∀ c ∈ rest.head?, isSep c = true) :
    getField (word ++ rest) = some word := by
  obtain ⟨c, cs, rfl⟩ := List.exists_cons_of_ne_nil hword.1
  have hsep := (isNameByte_iff.mp (hword.2 c List.mem_cons_self)).1
  have hall : ∀ b ∈ c :: cs, (!isSep b) = true := by
    intro b hb
    rw [(isNameByte_iff.mp (hword.2 b hb)).1]
    rfl
  have hstop : rest.takeWhile (fun b => !isSep b) = [] := by
    cases rest with
    | nil => rfl
    | cons b rest => simp [hrest b rfl]
  have hfield : ((c :: cs ++ rest).dropWhile isSep).takeWhile (fun b => !isSep b) = c :: cs := by
    rw [List.cons_append, List.dropWhile_cons_of_neg (by simp [hsep]), ← List.cons_append,
      List.takeWhile_append_of_pos hall, hstop, List.append_nil]
  have htake : (c :: cs).take (LINE_BUF_LEN - 1) = c :: cs :=
    List.take_of_length_le (Nat.le_sub_one_of_lt hlen)
  rw [getField, hfield]
  simp only [reduceCtorEq, if_false, htake]

/-- The value of an entry. -/
theorem vgetw_word (hword : IsKey word) (hv : PlainValue v) (hlen : v.length < LINE_BUF_LEN) :
    vgetw (if v = [] then word else word ++ 32 :: v) LINE_BUF_LEN = v := by
  have hall : ∀ b ∈ word, (!isSep b) = true := by
    intro b hb
    rw [(isNameByte_iff.mp (hword.2 b hb)).1]
    rfl
  by_cases hnil : v = []
  · -- there is nothing behind the key
    subst hnil
    rw [if_pos rfl, vgetw, List.dropWhile_eq_nil_iff.mpr hall]
    rfl
  · -- the blank is skipped, and the value begins with another byte
    rw [if_neg hnil, vgetw, List.dropWhile_append_of_pos hall]
    obtain ⟨b, bs, rfl⟩ := List.exists_cons_of_ne_nil hnil
    have hb : isSpace b = false := hv.head b rfl
    have hdrop : ((32 :: b :: bs).dropWhile fun c => !isSep c).dropWhile isSpace = b :: bs := by
      have hblank : isSep 32 = true := rfl
      have hspace : isSpace 32 = true := rfl
      simp [hblank, hspace, hb]
    rw [hdrop]
    exact List.take_of_length_le (Nat.le_sub_one_of_lt hlen)

/-- The entry of a line that is set has its key, and its value. -/
theorem setting_entry (hword : IsKey word) (hv : PlainValue v)
    (hlen : word.length + 1 + v.length < LINE_BUF_LEN) :
    ∃ t, lineContent (word ++ 32 :: v ++ [LF]) = some t ∧ getField t = some word ∧
      vgetw t LINE_BUF_LEN = v := by
  have hbuf : LINE_BUF_LEN = 8192 := rfl
  refine ⟨_, lineContent_setting hword hv, ?_, vgetw_word hword hv (by omega)⟩
  by_cases hnil : v = []
  · rw [if_pos hnil]
    have hfield := getField_word hword (by omega) [] (by simp)
    rwa [List.append_nil] at hfield
  · rw [if_neg hnil]
    exact getField_word hword (by omega) (32 :: v) (forall_mem_some rfl)

end Line

/-! ## What is added to a line -/

section Append

variable {l bs : List UInt8}

/-- The bytes up to the first end of line, which is in `l` or follows it. -/
theorem takeWhile_append_of_eol
    (h : (∃ c ∈ l, isEOL c = true) ∨ ∀ c ∈ bs.head?, isEOL c = true) :
    (l ++ bs).takeWhile (fun c => !isEOL c) = l.takeWhile fun c => !isEOL c := by
  rw [List.takeWhile_append]
  split
  · next hlen =>
    have hall : l.takeWhile (fun c => !isEOL c) = l :=
      (List.takeWhile_prefix _).eq_of_length hlen
    rcases h with ⟨c, hc, heol⟩ | hstop
    · have hnot := List.takeWhile_eq_self_iff.mp hall c hc
      rw [heol] at hnot
      exact absurd hnot (by decide)
    · -- nothing is taken from what follows
      have hnil : bs.takeWhile (fun c => !isEOL c) = [] := by
        cases bs with
        | nil => rfl
        | cons c bs => simp [hstop c rfl]
      rw [hnil, hall, List.append_nil]
  · rfl

/-- An end of line starts no comment. -/
theorem isNoteLine_append_of_eol
    (h : (∃ c ∈ l, isEOL c = true) ∨ ∀ c ∈ bs.head?, isEOL c = true) :
    isNoteLine (l ++ bs) = isNoteLine l := by
  rw [isNoteLine, isNoteLine, List.dropWhile_append]
  split
  · next hempty =>
    -- the line is blank, so it has no end of line in it
    rw [List.isEmpty_iff] at hempty
    rcases h with ⟨c, hc, heol⟩ | hstop
    · have hblank := List.dropWhile_eq_nil_iff.mp hempty c hc
      rw [of_decide_eq_true hblank] at heol
      exact absurd heol (by decide)
    · cases bs with
      | nil => rw [hempty, List.dropWhile_nil]
      | cons c bs =>
        have heol : isEOL c = true := hstop c rfl
        have hne : c ≠ 32 ∧ c ≠ 35 := by
          refine ⟨?_, ?_⟩
          · rintro rfl
            exact absurd heol (by decide)
          · rintro rfl
            exact absurd heol (by decide)
        rw [hempty]
        simp [hne.1, hne.2]
  · next hne =>
    -- its first byte that is no blank decides
    have hdrop : l.dropWhile (fun c => decide (c = 32)) ≠ [] := fun heq =>
      hne (List.isEmpty_iff.mpr heq)
    obtain ⟨c, cs, hcons⟩ := List.exists_cons_of_ne_nil hdrop
    rw [hcons]
    rfl

/-- What `GetLine` leaves of a line is settled by its first end of line, and by the line itself if
an end of line follows. -/
theorem lineContent_append
    (h : (∃ c ∈ l, isEOL c = true) ∨ ∀ c ∈ bs.head?, isEOL c = true) :
    lineContent (l ++ bs) = lineContent l := by
  have hfirst : isEOL ((l ++ bs).headD 0) = isEOL (l.headD 0) := by
    cases l with
    | nil =>
      cases bs with
      | nil => rfl
      | cons c bs =>
        rcases h with ⟨c', hc', -⟩ | hstop
        · exact absurd hc' List.not_mem_nil
        · exact hstop c rfl
    | cons c l => rfl
  rw [lineContent, lineContent, takeWhile_append_of_eol h, isNoteLine_append_of_eol h, hfirst]

end Append

/-- A line feed at the end of a file adds no entry. -/
theorem entries_concat_lf (file : List UInt8) : entries (file ++ [LF]) = entries file := by
  have hcontent : ∀ l, lineContent (l ++ [LF]) = lineContent l := fun l =>
    lineContent_append (.inr (forall_mem_some rfl))
  have hnil : lineContent [LF] = none := hcontent []
  rw [entries, entries, fileLines, fileLines]
  rcases lines_concat_lf (LINE_BUF_LEN - 1) (LINE_BUF_LEN - 1) file with
    hown | ⟨pre, l, hlines, hlast⟩
  · -- a line of its own, which is empty
    rw [hown, List.filterMap_append, List.filterMap_cons_none hnil]
    exact List.append_nil _
  · -- the end of the last line
    rw [hlines, hlast, List.filterMap_append, List.filterMap_append]
    simp only [List.filterMap_cons, hcontent]

/-! ## Files after a change -/

section Change

variable {m : List UInt8}

/-- A line that fits the buffer is one line. -/
theorem fileLines_line (hm : LF ∉ m) (hlen : m.length < LINE_BUF_LEN - 1) (bs : List UInt8) :
    fileLines (m ++ LF :: bs) = (m ++ [LF]) :: fileLines bs := lines_append_lf hm hlen bs

/-- A line that fills the buffer is one line as well, and its end is an empty one. -/
theorem entries_line (hm : LF ∉ m) (hlen : m.length < LINE_BUF_LEN) (bs : List UInt8) :
    entries (m ++ LF :: bs) = [m ++ [LF]].filterMap lineContent ++ entries bs := by
  have hnil : lineContent [LF] = none := rfl
  rcases (Nat.le_sub_one_of_lt hlen).lt_or_eq with hlt | heq
  · have hcons : fileLines (m ++ LF :: bs) = [m ++ [LF]] ++ fileLines bs := fileLines_line hm hlt bs
    rw [entries, hcons, List.filterMap_append]
    rfl
  · have hne : m ≠ [] := by
      rintro rfl
      exact absurd heq (by decide)
    have hlines : fileLines (m ++ LF :: bs) = m :: [LF] :: fileLines bs := by
      show lines _ _ _ = _
      rw [lines_append_of_length (fun h => hm (List.dropLast_subset m h)) hne heq]
      exact congrArg _ (fileLines_line List.not_mem_nil (by decide) bs)
    have hcontent : lineContent (m ++ [LF]) = lineContent m :=
      lineContent_append (.inr (forall_mem_some rfl))
    rw [entries, hlines, List.filterMap_cons, List.filterMap_cons_none hnil, List.filterMap_cons,
      hcontent]
    cases lineContent m <;> rfl

/-- A text without NUL is printed as it is. -/
theorem printed_of_notMem (h : 0 ∉ line) : printed line = line := by
  rw [printed, List.takeWhile_eq_self_iff]
  intro c hc
  exact decide_eq_true fun heq => h (heq ▸ hc)

/-- The parts of a file around a line: what is copied as bytes, and the lines behind. -/
theorem parts_of_fileLines (hsplit : fileLines file = pre ++ line :: post) :
    file = pre.flatten ++ (line ++ post.flatten) ∧
      ((fileLines file).take (pre.length + 1 - 1)).flatten = pre.flatten ∧
      (fileToLine file (pre.length + 1)).drop 1 = post := by
  refine ⟨?_, ?_, ?_⟩
  · rw [flatten_of_fileLines hsplit, List.flatten_append, List.flatten_cons]
  · rw [hsplit, Nat.add_sub_cancel, List.take_left]
  · rw [fileToLine, hsplit, Nat.add_sub_cancel, List.drop_left]
    rfl

/-- `ReplaceLine` leaves the other lines of a text as they are. -/
theorem fileLines_replaceLine (hfile : 0 ∉ file) (hsplit : fileLines file = pre ++ line :: post)
    (hm : LF ∉ m) (hlen : m.length < LINE_BUF_LEN - 1) :
    fileLines (replaceLine file m (pre.length + 1)) = pre ++ (m ++ [LF]) :: post := by
  obtain ⟨hflat, hkept, hstream⟩ := parts_of_fileLines hsplit
  have hprinted : post.map printed = post := by
    refine (List.map_congr_left fun l hl => printed_of_notMem fun hzero => hfile ?_).trans
      (List.map_id post)
    rw [hflat]
    exact List.mem_append_right _ (List.mem_append_right _ (List.mem_flatten_of_mem hl hzero))
  have htake : file.take pre.flatten.length = pre.flatten := by
    rw [hflat, List.take_left]
  have hreplace : replaceLine file m (pre.length + 1) =
      pre.flatten ++ (m ++ LF :: post.flatten) := by
    rw [replaceLine, hstream, hprinted, hkept, htake]
    simp only [List.append_assoc, List.cons_append, List.nil_append]
  have hcut : fileLines file = (pre ++ [line]) ++ post := by
    rw [hsplit, List.append_assoc]
    rfl
  rw [hreplace]
  show lines _ _ _ = _
  rw [lines_prefix_append hsplit (by simp)]
  show pre ++ fileLines (m ++ LF :: post.flatten) = _
  rw [fileLines_line hm hlen]
  show pre ++ (m ++ [LF]) :: lines _ _ _ = _
  rw [lines_suffix hcut]

/-- The last line has room for more, and its last byte is one that `AppendLine` takes for the end
of a line, and `fgets` does not. -/
def Glues (file : List UInt8) : Prop :=
  ∃ l ∈ (fileLines file).getLast?, l.length < LINE_BUF_LEN - 1 ∧
    ∃ c ∈ l.getLast?, isEOL c = true ∧ c ≠ LF

instance (file : List UInt8) : Decidable (Glues file) :=
  inferInstanceAs (Decidable (∃ l ∈ _, _ ∧ ∃ c ∈ _, _))

/-- The last byte of a file is that of its last line. -/
theorem getLast?_of_fileLines {l : List UInt8} (hsplit : fileLines file = pre ++ [l]) :
    file = pre.flatten ++ l ∧ file.getLast? = l.getLast? := by
  have hflat : file = pre.flatten ++ l := by
    rw [flatten_of_fileLines hsplit, List.flatten_append, List.flatten_singleton]
  have hmem : l ∈ fileLines file := hsplit ▸ List.mem_append_right _ (List.mem_singleton_self l)
  refine ⟨hflat, ?_⟩
  rw [hflat, List.getLast?_append_of_ne_nil _ (ne_nil_of_mem_lines hmem)]

/-- Something that is added to a file is added to its last line, or makes lines of its own. -/
theorem exists_last_line (hne : file ≠ []) : ∃ pre l, fileLines file = pre ++ [l] :=
  ⟨_, _, (List.dropLast_append_getLast (lines_ne_nil hne)).symm⟩

/-- A text that does not end in a carriage return does not glue. -/
theorem not_glues_of (hfile : 0 ∉ file) (hcr : file.getLast? ≠ some 13) : ¬Glues file := by
  rintro ⟨l, hl, -, c, hc, heol, hne⟩
  obtain ⟨pre, hsplit⟩ := List.getLast?_eq_some_iff.mp hl
  have hlast : file.getLast? = some c := (getLast?_of_fileLines hsplit).2.trans hc
  simp only [isEOL, Bool.or_eq_true, decide_eq_true_eq] at heol
  rcases heol with (rfl | rfl) | rfl
  · exact hfile (List.mem_of_getLast? hlast)
  · exact hne rfl
  · exact hcr hlast

/-- `AppendLine` adds an entry to a file, if what it writes does not become part of the last
line. -/
theorem entries_appendLine (hglue : ¬Glues file) (hm : LF ∉ m)
    (hlen : m.length < LINE_BUF_LEN) :
    entries (appendLine file m) = (fileLines file ++ [m ++ [LF]]).filterMap lineContent := by
  have hone : entries (m ++ LF :: []) = [m ++ [LF]].filterMap lineContent := by
    rw [entries_line hm hlen]
    exact List.append_nil _
  have hbehind : ∀ bs, entries (bs ++ LF :: (m ++ [LF])) =
      entries (bs ++ [LF]) ++ [m ++ [LF]].filterMap lineContent := by
    intro bs
    rw [← hone, entries, fileLines, lines_append_of_lf, List.filterMap_append]
    rfl
  have hnew : entries (file ++ LF :: (m ++ [LF])) =
      (fileLines file ++ [m ++ [LF]]).filterMap lineContent := by
    rw [hbehind, entries_concat_lf, List.filterMap_append]
    rfl
  rw [appendLine]
  split
  · -- an empty file gets an empty line first
    rw [← hnew, List.append_assoc]
    rfl
  · next c hc =>
    obtain ⟨bs, rfl⟩ := List.getLast?_eq_some_iff.mp hc
    by_cases heol : isEOL c = true
    · rw [if_pos heol]
      by_cases hlf : c = LF
      · subst hlf
        rw [List.append_assoc, List.filterMap_append]
        exact hbehind bs
      · -- the last line is full
        have hne : bs ++ [c] ≠ [] := by simp
        obtain ⟨pre, l, hsplit⟩ := exists_last_line hne
        obtain ⟨-, hlast⟩ := getLast?_of_fileLines hsplit
        have hfull : l.length = LINE_BUF_LEN - 1 := by
          by_contra hne
          have hle := (length_lines_le (by decide) le_rfl).2 l
            (hsplit ▸ List.mem_append_right pre (List.mem_singleton_self l))
          refine hglue ⟨l, by simp [hsplit], lt_of_le_of_ne hle hne, c, ?_, heol, hlf⟩
          rw [← hlast, hc]
          rfl
        have hall : fileLines ((bs ++ [c]) ++ (m ++ LF :: [])) =
            pre ++ l :: fileLines (m ++ LF :: []) := lines_append_of_full hsplit hfull _
        have hcons : pre ++ l :: fileLines (m ++ LF :: []) =
            (pre ++ [l]) ++ fileLines (m ++ LF :: []) := by simp
        rw [List.filterMap_append, ← hone, hsplit, entries, entries, ← List.filterMap_append,
          ← hcons, ← hall]
    · -- the last line gets its end
      rw [if_neg heol, ← hnew, List.append_assoc]
      rfl

end Change

/-! ## The laws -/

/-- A key on the lines of a file. -/
def HasLine (file str : List UInt8) : Prop := ∃ line ∈ fileLines file, LineHasKey str line

instance (file str : List UInt8) : Decidable (HasLine file str) :=
  inferInstanceAs (Decidable (∃ line ∈ _, _))

/-- The line that is written fits the buffers. -/
def Fits (id : ConfigType) (v : List UInt8) : Prop :=
  id.pacos.name.length + 1 + v.length < LINE_BUF_LEN - 1

instance (id : ConfigType) (v : List UInt8) : Decidable (Fits id v) :=
  inferInstanceAs (Decidable (_ < _))

/-- A value that is set is got again, and no other value changes. -/
def SetLaws (file : List UInt8) (id : ConfigType) (v : List UInt8) : Prop :=
  (configSet file id v).1 = OK ∧ configGet (configSet file id v).2 id = some v ∧
    ∀ id', id' ≠ id → configGet (configSet file id v).2 id' = configGet file id'

section Laws

variable {id id' : ConfigType}

theorem name_isKey (id : ConfigType) : IsKey id.pacos.name :=
  ⟨(name_isWord id).1, (name_isWord id).2.1⟩

/-- Every name has an underscore. -/
theorem score_mem_name (id : ConfigType) : 95 ∈ id.pacos.name := by
  have hall : ∀ p ∈ cfgPacos, 95 ∈ p.name := by decide
  exact hall _ (mem_cfgPacos id)

/-- A line has one key at most. -/
theorem not_lineHasKey_of_ne {str' : List UInt8} (h : LineHasKey str line) (hne : str' ≠ str) :
    ¬LineHasKey str' line := fun h' => hne (Option.some.inj (h'.symm.trans h))

/-- A line that is set has no line feed in it. -/
theorem lf_notMem_setting {word : List UInt8} (hword : IsKey word) (hv : PlainValue v) :
    LF ∉ word ++ 32 :: v := by
  intro hmem
  rcases List.mem_append.mp hmem with hmem | hmem
  · exact absurd (isNameByte_iff.mp (hword.2 LF hmem)).2.1 (by decide)
  · rcases List.mem_cons.mp hmem with heq | hmem
    · exact absurd heq (by decide)
    · exact absurd (hv.not_eol LF hmem) (by decide)

/-- The laws hold if the new line takes the place of lines with its key, behind lines without. -/
theorem setLaws_of_entries (mid : List (List UInt8)) {new : List UInt8}
    (hnew : lineContent new = some t ∧ getField t = some id.pacos.name ∧
      vgetw t LINE_BUF_LEN = v)
    (hold : entries file = (pre ++ (mid ++ post)).filterMap lineContent)
    (hset : entries (setPacos file v id.pacos) = (pre ++ new :: post).filterMap lineContent)
    (hpre : ∀ l ∈ pre, ¬LineHasKey id.pacos.name l)
    (hmid : ∀ l ∈ mid, LineHasKey id.pacos.name l) : SetLaws file id v := by
  obtain ⟨hcontent, hfield, hvalue⟩ := hnew
  have hkey : hasKey id.pacos.name t = true := decide_eq_true hfield
  rw [SetLaws, configSet_eq]
  refine ⟨rfl, ?_, fun id' hid' => ?_⟩
  · rw [configGet_eq, getPacos_eq, hset, find_entry_of_line hpre hcontent hkey]
    exact congrArg some hvalue
  · -- neither the new line nor those it replaces have the other key
    have hname : id'.pacos.name ≠ id.pacos.name := fun heq => hid' (name_injective heq)
    have hline : LineHasKey id.pacos.name new := lineHasKey_iff.mpr ⟨t, hcontent, hkey⟩
    have hskip : ∀ ls : List (List UInt8), (∀ l ∈ ls, LineHasKey id.pacos.name l) →
        (ls.filterMap lineContent).find? (hasKey id'.pacos.name) = none := fun ls hls =>
      find_entry_of_none fun l hl => not_lineHasKey_of_ne (hls l hl) hname
    have hmid' := hskip mid hmid
    have hnew' := hskip [new] (List.forall_mem_singleton.mpr hline)
    have hcons : new :: post = [new] ++ post := rfl
    rw [configGet_eq, configGet_eq, getPacos_eq, getPacos_eq, hset, hold, hcons]
    simp only [List.filterMap_append, List.find?_append, hmid', hnew', Option.none_or]

/-- Setting a key that has a line, or one in a text that does not end in a carriage return. -/
theorem setLaws_of (hfile : 0 ∉ file) (hv : PlainValue v) (hfits : Fits id v)
    (h : HasLine file id.pacos.name ∨ file.getLast? ≠ some 13) : SetLaws file id v := by
  have hword := name_isKey id
  have hlf := lf_notMem_setting hword hv
  have hlen : (id.pacos.name ++ 32 :: v).length < LINE_BUF_LEN - 1 := by
    have hlt : id.pacos.name.length + 1 + v.length < LINE_BUF_LEN - 1 := hfits
    rw [List.length_append, List.length_cons]
    omega
  obtain ⟨t, hnew⟩ := setting_entry hword hv (hfits.trans (by decide))
  rcases find_line id.pacos.name (fileLines file) with
    hnone | ⟨pre, line, post, hsplit, hpre, hline⟩
  · -- the line is added at the end
    have hcr : file.getLast? ≠ some 13 := by
      refine h.resolve_left fun hhas => ?_
      obtain ⟨line, hline, hkey⟩ := hhas
      exact hnone line hline hkey
    have hglue : ¬Glues file := not_glues_of hfile hcr
    have hset : entries (setPacos file v id.pacos) =
        (fileLines file ++ [id.pacos.name ++ 32 :: v ++ [LF]]).filterMap lineContent := by
      rw [setPacos, isInFileField_of_none hnone]
      exact entries_appendLine hglue hlf (hlen.trans (by decide))
    refine setLaws_of_entries [] hnew ?_ hset hnone
      (fun l hl => absurd hl List.not_mem_nil)
    rw [entries, List.append_nil, List.append_nil]
  · -- the first line with the key is replaced
    have hset : entries (setPacos file v id.pacos) =
        (pre ++ (id.pacos.name ++ 32 :: v ++ [LF]) :: post).filterMap lineContent := by
      rw [setPacos, isInFileField_of_line hsplit hpre hline, if_pos (Nat.succ_ne_zero _), entries,
        fileLines_replaceLine hfile hsplit hlf hlen]
    refine setLaws_of_entries [line] hnew ?_ hset hpre
      (List.forall_mem_singleton.mpr hline)
    rw [entries, hsplit]
    rfl

/-! ## A carriage return at the end -/

/-- A value for a file in which it gets lost. -/
theorem plainValue_x : PlainValue (ascii "x") :=
  ⟨notEOL_of_all rfl, forall_mem_some rfl, forall_mem_some rfl⟩

/-- A key is part of its line. -/
theorem mem_of_lineHasKey (h : LineHasKey str line) {c : UInt8} (hc : c ∈ str) : c ∈ line := by
  obtain ⟨t, hcontent, hkey⟩ := lineHasKey_iff.mp h
  have hfield : getField t = some str := of_decide_eq_true hkey
  have hct : c ∈ t := by
    rw [getField] at hfield
    split_ifs at hfield
    rw [← Option.some.inj hfield] at hc
    exact (List.dropWhile_suffix _).subset
      ((List.takeWhile_prefix _).subset (List.mem_of_mem_take hc))
  rw [lineContent] at hcontent
  split_ifs at hcontent
  extract_lets head content at hcontent
  split_ifs at hcontent
  rw [← Option.some.inj hcontent] at hct
  exact (List.takeWhile_prefix _).subset
    ((List.rdropWhile_prefix _ _).subset ((List.dropWhile_suffix _).subset hct))

/-- The rest of a line that is set has a shorter key, or lacks a byte of the key. -/
theorem not_lineHasKey_drop {word : List UInt8} (hword : IsKey word) (hv : PlainValue v)
    (hlen : word.length + 1 + v.length < LINE_BUF_LEN) {b : UInt8} (hb : b ∈ word)
    (hbv : b ∉ 32 :: v ++ [LF]) {k : ℕ} (hk : 0 < k) :
    ¬LineHasKey word ((word ++ 32 :: v).drop k ++ [LF]) := by
  rcases Nat.lt_or_ge k word.length with hlt | hge
  · -- a part of the key is left
    have hrest : IsKey (word.drop k) := by
      refine ⟨?_, fun c hc => hword.2 c (List.mem_of_mem_drop hc)⟩
      rw [ne_eq, List.drop_eq_nil_iff]
      exact not_le.mpr hlt
    have hdrop : (word.drop k).length < word.length := by
      rw [List.length_drop]
      omega
    obtain ⟨t, hcontent, hfield, -⟩ := setting_entry hrest hv (by omega)
    rw [List.drop_append_of_le_length hlt.le, LineHasKey, hcontent]
    intro h
    have heq : word.drop k = word := Option.some.inj (hfield.symm.trans h)
    rw [heq] at hdrop
    exact lt_irrefl _ hdrop
  · obtain ⟨j, rfl⟩ : ∃ j, k = word.length + j := ⟨k - word.length, by omega⟩
    rw [List.drop_length_add_append]
    intro h
    rcases List.mem_append.mp (mem_of_lineHasKey h hb) with hmem | hmem
    · exact hbv (List.mem_append_left _ (List.mem_of_mem_drop hmem))
    · exact hbv (List.mem_append_right _ hmem)

/-- The last line of a file that glues: it has no line feed. -/
theorem Glues.last_line (h : Glues file) : ∃ pre l c, fileLines file = pre ++ [l] ∧ LF ∉ l ∧
    l.length < LINE_BUF_LEN - 1 ∧ c ∈ l ∧ isEOL c = true ∧ file.getLast? = some c := by
  obtain ⟨l, hl, hlen, c, hc, heol, hne⟩ := h
  obtain ⟨pre, hsplit⟩ := List.getLast?_eq_some_iff.mp hl
  have hmem : l ∈ fileLines file := hsplit ▸ List.mem_append_right _ (List.mem_singleton_self l)
  obtain ⟨l', rfl⟩ := List.getLast?_eq_some_iff.mp hc
  refine ⟨pre, l' ++ [c], c, hsplit, ?_, hlen, List.mem_append_right _ (List.mem_singleton_self c),
    heol, (getLast?_of_fileLines hsplit).2.trans hc⟩
  have hdrop := lf_notMem_dropLast hmem
  rw [List.dropLast_concat] at hdrop
  rw [List.mem_append, not_or]
  exact ⟨hdrop, fun hlf => hne (List.mem_singleton.mp hlf).symm⟩

/-- What is appended to a file that glues becomes part of the last line. -/
theorem fileLines_appendLine_of_glues {l e : List UInt8} {c : UInt8}
    (hsplit : fileLines file = pre ++ [l]) (hc : file.getLast? = some c) (heol : isEOL c = true) :
    fileLines (appendLine file e) = pre ++ fileLines (l ++ e ++ LF :: []) := by
  have happend : appendLine file e = pre.flatten ++ (l ++ e ++ LF :: []) := by
    rw [appendLine, hc]
    dsimp only
    rw [if_pos heol, (getLast?_of_fileLines hsplit).1]
    simp only [List.append_assoc]
  rw [happend]
  exact lines_prefix_append hsplit (by simp) _

/-- No line with the key is added to a file that glues. -/
theorem not_hasLine_appendLine {word : List UInt8} (hword : IsKey word)
    (hlen : word.length + 2 < LINE_BUF_LEN - 1) (hscore : 95 ∈ word)
    (hnone : ∀ line ∈ fileLines file, ¬LineHasKey word line) (hglue : Glues file) :
    ∀ line ∈ fileLines (appendLine file (word ++ 32 :: ascii "x")), ¬LineHasKey word line := by
  obtain ⟨pre, l, c, hsplit, hlf, hll, hmem, heol, hc⟩ := hglue.last_line
  -- whatever is written behind this byte is cut off with it
  have hglued : ∀ bs, ¬LineHasKey word (l ++ bs) := by
    intro bs h
    refine hnone l (hsplit ▸ List.mem_append_right _ (List.mem_singleton_self l)) ?_
    rwa [LineHasKey, lineContent_append (.inl ⟨c, hmem, heol⟩)] at h
  have hfirst : ∀ line ∈ pre, ¬LineHasKey word line := fun line hline =>
    hnone line (hsplit ▸ List.mem_append_left _ hline)
  generalize he : word ++ 32 :: ascii "x" = e
  have helf : LF ∉ e := by
    rw [← he]
    exact lf_notMem_setting hword plainValue_x
  have helen : e.length = word.length + 2 := by
    rw [← he, List.length_append]
    rfl
  have hboth : LF ∉ l ++ e := by
    rw [List.mem_append, not_or]
    exact ⟨hlf, helf⟩
  rw [fileLines_appendLine_of_glues hsplit hc heol, List.forall_mem_append]
  refine ⟨hfirst, ?_⟩
  rcases Nat.lt_or_ge (l ++ e).length (LINE_BUF_LEN - 1) with hlt | hge
  · -- the new line is part of the last one
    rw [fileLines_line hboth hlt, List.append_assoc]
    exact List.forall_mem_cons.mpr ⟨hglued _, fun line hline => absurd hline List.not_mem_nil⟩
  · -- its end comes as a line of its own
    have hbuf : LINE_BUF_LEN = 8192 := rfl
    obtain ⟨k, hk⟩ : ∃ k, LINE_BUF_LEN - 1 = l.length + k := ⟨LINE_BUF_LEN - 1 - l.length, by omega⟩
    have hsecond : (e.drop k).length < LINE_BUF_LEN - 1 := by
      rw [List.length_drop]
      omega
    have hdroplf : LF ∉ e.drop k := fun hmem => helf (List.mem_of_mem_drop hmem)
    have hparts : fileLines (l ++ e ++ LF :: []) = [l ++ e.take k, e.drop k ++ [LF]] := by
      show lines _ _ _ = _
      rw [lines_append_lf_of_le hboth (by omega) hge, hk, List.take_length_add_append,
        List.drop_length_add_append, ← hk]
      show _ :: fileLines (e.drop k ++ LF :: []) = _
      rw [fileLines_line hdroplf hsecond]
      rfl
    rw [hparts]
    refine List.forall_mem_cons.mpr ⟨hglued _, List.forall_mem_singleton.mpr ?_⟩
    rw [← he]
    exact not_lineHasKey_drop hword plainValue_x (hlen.trans (by decide)) hscore (by decide)
      (by omega)

/-- A file with short lines that ends in a carriage return glues. -/
theorem glues_of_cr (hcr : file.getLast? = some 13) (hshort : ShortLines (LINE_BUF_LEN - 1) file) :
    Glues file := by
  have hne : file ≠ [] := by
    rintro rfl
    cases hcr
  obtain ⟨pre, l, hsplit⟩ := exists_last_line hne
  obtain ⟨hflat, hlast⟩ := getLast?_of_fileLines hsplit
  have hmem : l ∈ fileLines file := hsplit ▸ List.mem_append_right _ (List.mem_singleton_self l)
  rw [hcr] at hlast
  obtain ⟨l', rfl⟩ := List.getLast?_eq_some_iff.mp hlast.symm
  have hlf : LF ∉ l' ++ [13] := by
    have hdrop := lf_notMem_dropLast hmem
    rw [List.dropLast_concat] at hdrop
    rw [List.mem_append, not_or]
    exact ⟨hdrop, by decide⟩
  have hlen := hshort _ ⟨pre.flatten, [], by rw [hflat, List.append_nil]⟩ hlf
  exact ⟨l' ++ [13], by simp [hsplit], hlen, 13, by simp, rfl, by decide⟩

/-- Behind a carriage return, a key that had no line has none after it was set either. -/
theorem not_setLaws (hshort : ShortLines (LINE_BUF_LEN - 1) file)
    (hnone : ¬HasLine file id.pacos.name) (hcr : file.getLast? = some 13) :
    ¬SetLaws file id (ascii "x") := by
  obtain ⟨-, -, -, hlen, hdefault⟩ := name_isWord id
  have hbuf : LINE_BUF_LEN = 8192 := rfl
  have hfree : ∀ line ∈ fileLines file, ¬LineHasKey id.pacos.name line :=
    fun line hline hkey => hnone ⟨line, hline, hkey⟩
  have hset : setPacos file (ascii "x") id.pacos =
      appendLine file (id.pacos.name ++ 32 :: ascii "x") := by
    rw [setPacos, isInFileField_of_none hfree]
    rfl
  have hafter := not_hasLine_appendLine (name_isKey id) (by omega) (score_mem_name id) hfree
    (glues_of_cr hcr hshort)
  intro h
  have hget := h.2.1
  rw [configSet_eq, configGet_eq, getPacos_eq, hset, entries, find_entry_of_none hafter] at hget
  exact hdefault (Option.some.inj hget)

end Laws

/-- For every text file whose lines do not fill a buffer: every value can be set for a key and got
again, with no effect on other keys, exactly if the key has a line, or the file does not end in a
carriage return. -/
theorem configLaws_iff (file : CString) (hshort : ShortLines (LINE_BUF_LEN - 1) file.1)
    (id : ConfigType) :
    (∀ v, PlainValue v → Fits id v → SetLaws file.1 id v) ↔
      HasLine file.1 id.pacos.name ∨ file.1.getLast? ≠ some 13 := by
  constructor
  · intro h
    by_contra hnot
    rw [not_or, not_not] at hnot
    have hbuf : LINE_BUF_LEN = 8192 := rfl
    have hfits : Fits id (ascii "x") := by
      have hlen := (name_isWord id).2.2.2.1
      have hone : (ascii "x").length = 1 := rfl
      rw [Fits]
      omega
    exact not_setLaws hshort hnot.1 hnot.2 (h _ plainValue_x hfits)
  · intro h v hv hfits
    exact setLaws_of file.2 hv hfits h

/-- A port that is set over an indented line without a line feed, behind a comment and another
key. -/
theorem configLaws_indentedLine :
    SetLaws (ascii "# servers\n\ngas_ip 10.0.0.1\n  gas_port\t99") .gasPort (ascii "7000") :=
  have hv : PlainValue (ascii "7000") :=
    ⟨notEOL_of_all rfl, forall_mem_some rfl, forall_mem_some rfl⟩
  (configLaws_iff ⟨ascii "# servers\n\ngas_ip 10.0.0.1\n  gas_port\t99", by decide⟩
    (shortLines_of_length (by decide)) .gasPort).mpr (.inr (by decide)) _ hv (by decide)

/-- The laws do not hold for every file: not for a comment that ends in a carriage return. -/
theorem not_configLaws_carriageReturn :
    ¬∀ (file : CString), ShortLines (LINE_BUF_LEN - 1) file.1 → ∀ (id : ConfigType)
      (v : List UInt8), PlainValue v → Fits id v → SetLaws file.1 id v := by
  intro h
  have hlaws := h ⟨ascii "#\r", by decide⟩ (shortLines_of_length (by decide)) .gasIp (ascii "x")
    plainValue_x (by decide)
  have hnone : ¬HasLine (ascii "#\r") ConfigType.gasIp.pacos.name := by decide
  exact not_setLaws (shortLines_of_length (by decide)) hnone (by decide) hlaws

end Gendo
