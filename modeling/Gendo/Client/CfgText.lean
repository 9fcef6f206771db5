import Gendo.Client.CfgBounds

/-!
# The text of an update configuration

A configuration as it is written: lines `name = value`, items with a header `item : CfgItem` and an
`end`, and blank lines. `Written` are the texts of it, with any pads, and `lineType_setting` and
`lineType_header` what `ParseLine` makes of their lines: a name that begins with `end` is taken for
the `end` of an item.
-/

namespace Gendo.Client.Cfg

open BufferedLines Shlwapi

/-! ## Configurations as they are written -/

/-- A line between two others: blank, or with a name and a value. -/
abbrev Setting : Type := Option (List UInt8 × List UInt8)

/-- A part of a configuration. -/
inductive Entry
  /-- A global line. -/
  | line (setting : Setting)
  /-- An item with the lines between its header and its `end`. -/
  | item (name : List UInt8) (body : List Setting)
  deriving DecidableEq, Repr

/-- A line of the text. -/
inductive Line
  | setting (setting : Setting)
  | header (name : List UInt8)
  | ends
  deriving DecidableEq, Repr

/-- The lines of a configuration, each with whether the file itself reads it. -/
def linesOf (es : List Entry) : List (Bool × Line) :=
  es.flatMap fun e =>
    match e with
    | .line setting => [(true, .setting setting)]
    | .item name body =>
      (true, .header name) :: (body.map fun setting => (false, .setting setting)) ++
        [(false, .ends)]

/-- Characters around a name or a value. -/
def Pad (pad : List UInt8) : Prop := ∀ c ∈ pad, c ∈ ([32, 9, 13] : List UInt8)

/-- What can stand between pads. -/
def IsText (text : List UInt8) : Prop := Trimmed blanks text ∧ ∀ c ∈ text, c ≠ 0 ∧ c ≠ LF

/-- A name and a value with a delimiter between them, and pads. The one in front of an empty name
is the whole pad in front of the delimiter. -/
def Keyed (delim : UInt8) (name value text : List UInt8) : Prop :=
  ∃ indent before after trail, Pad indent ∧ Pad before ∧ Pad after ∧ Pad trail ∧
    (name = [] → before = []) ∧
    text = indent ++ ((name ++ (before ++ delim :: (after ++ value))) ++ trail)

/-- The texts of a line, without the line feed. -/
def Line.Writes : Line → List UInt8 → Prop
  | setting none, text => Pad text
  | setting (some (name, value)), text =>
    IsText name ∧ 61 ∉ name ∧ IsText value ∧ value ≠ [] ∧ Keyed 61 name value text
  | header name, text => IsText name ∧ 61 ∉ name ∧ 58 ∉ name ∧ Keyed 58 name CFG_ITEM_KEY text
  | ends, text => ∃ indent trail, Pad indent ∧ Pad trail ∧ text = indent ++ (ascii "end" ++ trail)

/-- A line of the file or of an item fits `Line`, `Name` and `Value`. -/
def HoldsLine (ofFile : Bool) (text : List UInt8) : Prop :=
  if ofFile then text.length < 511 ∧ LineFits 128 (strTrimA text blanks) else text.length < 1022

/-- The texts with these lines. The last one need not have a line feed. -/
inductive Written : List (Bool × Line) → List UInt8 → Prop
  | nil : Written [] []
  | last {l : Bool × Line} {text : List UInt8} (hline : l.2.Writes text)
      (hholds : HoldsLine l.1 text) (hne : text ≠ []) : Written [l] text
  | cons {l : Bool × Line} {ls : List (Bool × Line)} {text rest : List UInt8}
      (hline : l.2.Writes text) (hholds : HoldsLine l.1 text) (hrest : Written ls rest) :
      Written (l :: ls) (text ++ LF :: rest)

/-- The value in a line with a name, up to letter case. -/
def valueOf (name : List UInt8) (setting : Setting) : Option (List UInt8) :=
  setting.bind fun s => if SameText s.1 name then some s.2 else none

/-- The values in the lines with a name. -/
def valuesOf (name : List UInt8) (settings : List Setting) : List (List UInt8) :=
  settings.filterMap (valueOf name)

/-- The value in the last line with a name. -/
def lastValue (name : List UInt8) (settings : List Setting) : Option (List UInt8) :=
  (valuesOf name settings).getLast?

/-- A global line. -/
def Entry.setting : Entry → Setting
  | line setting => setting
  | item _ _ => none

/-- The global lines. -/
def globals (es : List Entry) : List Setting := es.map Entry.setting

/-- The items, each with its name and its lines. -/
def items (es : List Entry) : List (List UInt8 × List Setting) :=
  es.filterMap fun e =>
    match e with
    | .line _ => none
    | .item name body => some (name, body)

section

variable {text stored rest pad name value before after core : List UInt8} {l : Bool × Line}
  {ls : List (Bool × Line)} {n : ℕ} {line : Line}

/-! ## Lines -/

theorem Pad.blanks (h : Pad pad) : ∀ c ∈ pad, c ∈ blanks := by
  intro c hc
  have hmem := h c hc
  simp only [List.mem_cons, List.not_mem_nil, or_false] at hmem
  rcases hmem with rfl | rfl | rfl <;> decide

theorem Pad.plain (h : Pad pad) : ∀ c ∈ pad, c ≠ 0 ∧ c ≠ LF := by
  intro c hc
  have hmem := h c hc
  simp only [List.mem_cons, List.not_mem_nil, or_false] at hmem
  rcases hmem with rfl | rfl | rfl <;> decide

theorem Keyed.plain {delim : UInt8} (h : Keyed delim name value text)
    (hname : ∀ c ∈ name, c ≠ 0 ∧ c ≠ LF) (hdelim : delim ≠ 0 ∧ delim ≠ LF)
    (hvalue : ∀ c ∈ value, c ≠ 0 ∧ c ≠ LF) : ∀ c ∈ text, c ≠ 0 ∧ c ≠ LF := by
  obtain ⟨_, _, _, _, hindent, hbefore, hafter, htrail, _, rfl⟩ := h
  intro c hc
  simp only [List.mem_append, List.mem_cons] at hc
  rcases hc with hc | (hc | hc | rfl | hc | hc) | hc
  · exact hindent.plain c hc
  · exact hname c hc
  · exact hbefore.plain c hc
  · exact hdelim
  · exact hafter.plain c hc
  · exact hvalue c hc
  · exact htrail.plain c hc

/-- No line has a NUL or a line feed in it. -/
theorem Line.Writes.plain (h : line.Writes text) : ∀ c ∈ text, c ≠ 0 ∧ c ≠ LF := by
  rcases line with ⟨_ | ⟨name, value⟩⟩ | name | _
  · exact Pad.plain h
  · obtain ⟨hname, _, hvalue, _, hkeyed⟩ := h
    exact hkeyed.plain hname.2 (by decide) hvalue.2
  · obtain ⟨hname, _, _, hkeyed⟩ := h
    exact hkeyed.plain hname.2 (by decide) (by decide +kernel)
  · obtain ⟨_, _, hindent, htrail, rfl⟩ := h
    intro c hc
    simp only [List.mem_append] at hc
    rcases hc with hc | hc | hc
    · exact hindent.plain c hc
    · have hend : ∀ c ∈ ascii "end", c ≠ 0 ∧ c ≠ LF := by decide +kernel
      exact hend c hc
    · exact htrail.plain c hc

/-- The loops read a line with its line feed, if it has one. -/
theorem Written.read (h : Written (l :: ls) text) (hn : ∀ t, HoldsLine l.1 t → t.length < n) :
    ∃ t stored rest, l.2.Writes t ∧ HoldsLine l.1 t ∧ readLine n text = some (stored, rest) ∧
      (stored = t ∨ stored = t ++ [LF]) ∧ Written ls rest ∧ rest.length < text.length := by
  cases h with
  | last hline hholds hne =>
    have hlf : LF ∉ text := fun hmem => (hline.plain LF hmem).2 rfl
    refine ⟨text, text, [], hline, hholds, ?_, .inl rfl, .nil, List.length_pos_of_ne_nil hne⟩
    rw [readLine, lines_eq_singleton hne hlf (Nat.le_of_lt (hn text hholds))]
    rfl
  | @cons _ _ t rest hline hholds hrest =>
    have hlf : LF ∉ t := fun hmem => (hline.plain LF hmem).2 rfl
    refine ⟨t, t ++ [LF], rest, hline, hholds, readLine_append_lf hlf (hn t hholds) rest,
      .inr rfl, hrest, ?_⟩
    rw [List.length_append, List.length_cons]
    omega

theorem Written.length_pos (h : Written (l :: ls) text) : 0 < text.length := by
  obtain ⟨_, _, rest, _, _, _, _, _, hlen⟩ := h.read (n := 1022) fun t ht => by
    rcases l with ⟨_ | _, _⟩
    · exact ht
    · exact Nat.lt_of_lt_of_le ht.1 (by decide)
  omega

/-- A short line fits. -/
theorem holdsLine_of_length (ofFile : Bool) (h : text.length + 2 ≤ 128) :
    HoldsLine ofFile text := by
  rcases ofFile with _ | _
  · exact Nat.lt_of_lt_of_le (Nat.lt_of_succ_lt h) (by decide)
  · refine ⟨Nat.lt_of_lt_of_le (Nat.lt_of_succ_lt h) (by decide), lineFits_of_length ?_⟩
    exact Nat.le_trans (Nat.add_le_add_right (length_strTrimA_le _ _) 2) h

/-- What is behind the pads is what `ParseLine` looks at. -/
theorem strTrimA_stored {indent trail : List UInt8} (hcore : ∀ c ∈ core, c ≠ 0)
    (htrimmed : Trimmed blanks core) (hindent : Pad indent) (htrail : Pad trail)
    (hstored : stored = indent ++ (core ++ trail) ∨ stored = indent ++ (core ++ trail) ++ [LF]) :
    strTrimA (cString stored) blanks = core := by
  have hnul : ∀ c ∈ indent ++ (core ++ trail), c ≠ 0 := by
    intro c hc
    simp only [List.mem_append] at hc
    rcases hc with hc | hc | hc
    · exact (hindent.plain c hc).1
    · exact hcore c hc
    · exact (htrail.plain c hc).1
  rcases hstored with rfl | rfl
  · have hstring : cString (indent ++ (core ++ trail)) = indent ++ (core ++ trail) := by
      rw [cString, List.takeWhile_eq_self_iff]
      simpa using hnul
    rw [hstring, strTrimA_append hindent.blanks htrail.blanks htrimmed]
  · have hstring : cString (indent ++ (core ++ trail) ++ [LF]) =
        indent ++ (core ++ (trail ++ [LF])) := by
      rw [cString, List.takeWhile_eq_self_iff.2]
      · simp
      · intro c hc
        rcases List.mem_append.1 hc with hc | hc
        · simpa using hnul c hc
        · rw [List.mem_singleton.1 hc]
          decide
    rw [hstring, strTrimA_append hindent.blanks ?_ htrimmed]
    intro c hc
    rcases List.mem_append.1 hc with hc | hc
    · exact htrail.blanks c hc
    · rw [List.mem_singleton.1 hc]
      decide

/-- What `ParseLine` looks at of a line with a name and a value. -/
theorem trimmed_keyed {delim : UInt8} (hname : IsText name) (hbefore : name = [] → before = [])
    (hdelim : delim ∉ blanks) (hvalue : IsText value) (hne : value ≠ []) :
    Trimmed blanks (name ++ (before ++ delim :: (after ++ value))) := by
  constructor
  · rcases name with _ | ⟨c, name⟩
    · rw [hbefore rfl]
      rintro c ⟨⟩
      exact hdelim
    · rintro _ ⟨⟩
      exact hname.1.1 c rfl
  · have hlast : (name ++ (before ++ delim :: (after ++ value))).getLast? = value.getLast? := by
      rw [List.getLast?_eq_some_getLast hne]
      simp [List.getLast?_append, List.getLast?_cons, List.getLast?_eq_some_getLast hne]
    rw [hlast]
    exact hvalue.1.2

/-- No `end` begins in front of a delimiter and ends behind it. -/
theorem abbreviates_keyed {delim : UInt8} (hbefore : Pad before) (hdelim : delim ∈ [61, 58])
    (back : List UInt8) :
    Abbreviates (ascii "end") (name ++ (before ++ delim :: back)) ↔
      Abbreviates (ascii "end") name := by
  have hletters : ∀ c ∈ ([32, 9, 13, 61, 58] : List UInt8), lower c ∉ (ascii "end").map lower := by
    decide +kernel
  apply abbreviates_append_iff
  intro c hc
  apply hletters
  rcases before with _ | ⟨b, before⟩
  · cases hc
    exact List.mem_append_right [32, 9, 13] hdelim
  · cases hc
    exact List.mem_append_left [61, 58] (hbefore _ List.mem_cons_self)

theorem Pad.delim_notMem {delim : UInt8} (h : Pad pad) (hdelim : delim ∈ [61, 58]) :
    delim ∉ pad := by
  intro hmem
  have hne : ∀ c ∈ ([61, 58] : List UInt8), c ∉ ([32, 9, 13] : List UInt8) := by
    decide +kernel
  exact hne delim hdelim (h delim hmem)

theorem IsText.strTrimA_before (hname : IsText name) (hbefore : Pad before) :
    strTrimA (name ++ before) blanks = name :=
  strTrimA_append (List.forall_mem_nil _) hbefore.blanks hname.1

theorem IsText.strTrimA_after (hvalue : IsText value) (hafter : Pad after) :
    strTrimA (after ++ value) blanks = value := by
  have htrim := strTrimA_append hafter.blanks (List.forall_mem_nil _) hvalue.1
  rwa [List.append_nil] at htrim

theorem drop_delim {α : Type*} (front : List α) (c : α) (back : List α) :
    (front ++ c :: back).drop (front.length + 1) = back := by
  rw [List.drop_append, List.drop_of_length_le (Nat.le_succ _), Nat.add_sub_cancel_left]
  rfl

/-- What `ParseLine` makes of a name, a delimiter and a value: the delimiter is the first. -/
theorem lineType_setting (hname : IsText name) (heq : 61 ∉ name) (hbefore : Pad before)
    (hafter : Pad after) (hvalue : IsText value) :
    lineType (name ++ (before ++ 61 :: (after ++ value))) =
      if Abbreviates (ascii "end") name then .ends else .param name value := by
  have hfirst : 61 ∉ name ++ before := by
    rw [List.mem_append, not_or]
    exact ⟨heq, hbefore.delim_notMem (by simp)⟩
  have hlen : ¬(name ++ (before ++ 61 :: (after ++ value))).length ≤ 0 := by simp
  rw [lineType, if_neg hlen]
  simp only [strCmpNIA_length_right (show (ascii "end").length = 3 by decide),
    abbreviates_keyed hbefore (show (61 : UInt8) ∈ [61, 58] by simp)]
  split_ifs with hend
  · rfl
  · rw [← List.append_assoc, strChrIA_append hfirst]
    dsimp only
    rw [List.take_left, drop_delim, hname.strTrimA_before hbefore, hvalue.strTrimA_after hafter]

theorem lineType_header (hname : IsText name) (heq : 61 ∉ name) (hcolon : 58 ∉ name)
    (hbefore : Pad before) (hafter : Pad after) :
    lineType (name ++ (before ++ 58 :: (after ++ CFG_ITEM_KEY))) =
      if Abbreviates (ascii "end") name then .ends else .item name CFG_ITEM_KEY := by
  have hfirst : 58 ∉ name ++ before := by
    rw [List.mem_append, not_or]
    exact ⟨hcolon, hbefore.delim_notMem (by simp)⟩
  have hnone : 61 ∉ name ++ (before ++ 58 :: (after ++ CFG_ITEM_KEY)) := by
    simp only [List.mem_append, List.mem_cons, not_or]
    exact ⟨heq, hbefore.delim_notMem (by simp), by decide, hafter.delim_notMem (by simp),
      by decide⟩
  have hkey : IsText CFG_ITEM_KEY := ⟨by decide, by decide +kernel⟩
  have hlen : ¬(name ++ (before ++ 58 :: (after ++ CFG_ITEM_KEY))).length ≤ 0 := by simp
  rw [lineType, if_neg hlen]
  simp only [strCmpNIA_length_right (show (ascii "end").length = 3 by decide),
    abbreviates_keyed hbefore (show (58 : UInt8) ∈ [61, 58] by simp)]
  split_ifs with hend
  · rfl
  · rw [strChrIA_eq_none hnone]
    dsimp only
    rw [← List.append_assoc, strChrIA_append hfirst]
    dsimp only
    rw [List.take_left, drop_delim, hname.strTrimA_before hbefore, hkey.strTrimA_after hafter]

end

end Gendo.Client.Cfg
