import Mathlib.Data.List.DropRight
import Mathlib.Data.List.Infix
import Mathlib.Data.List.TakeWhile
import Mathlib.Tactic.Common

/-!
# Strings of the Windows shell

The string functions of `shlwapi.dll`, on the bytes in front of the NUL.

A table of names that is searched with `StrCmpNIA` and the length of the key finds every name of
which the key is an abbreviation. `byAbbrev_eq_none_iff` and `byAbbrev_eq_some_of_sameText` say when
it finds what a search for equal names would find.
-/

namespace Shlwapi

/-- The bytes of a string literal. -/
def ascii (s : String) : List UInt8 := s.toList.map fun c => UInt8.ofNat c.toNat

/-- The small letter of a letter. -/
def lower (c : UInt8) : UInt8 := if 65 ≤ c ∧ c ≤ 90 then c + 32 else c

/-- `StrCmpNIA(a, b, n) == 0`: the strings are the same up to their `n`-th bytes and up to letter
case. -/
def strCmpNIA (a b : List UInt8) (n : ℕ) : Bool := (a.take n).map lower = (b.take n).map lower

/-- `StrTrimA`. -/
def strTrimA (text set : List UInt8) : List UInt8 :=
  (text.dropWhile fun c => set.contains c).rdropWhile fun c => set.contains c

/-- `StrChrIA` for a character that is not a letter: where it is first. -/
def strChrIA (text : List UInt8) (c : UInt8) : Option ℕ := text.findIdx? (· = c)

/-- What `StrCpyNA` copies into room for `n` bytes. -/
def strCpyNA (text : List UInt8) (n : ℕ) : List UInt8 := text.take (n - 1)

/-- The strings are the same up to letter case. -/
def SameText (a b : List UInt8) : Prop := a.map lower = b.map lower

instance (a b : List UInt8) : Decidable (SameText a b) :=
  inferInstanceAs (Decidable (a.map lower = b.map lower))

/-- The first string is how the second begins, up to letter case. -/
def Abbreviates (a b : List UInt8) : Prop := a.map lower <+: b.map lower

instance (a b : List UInt8) : Decidable (Abbreviates a b) :=
  inferInstanceAs (Decidable (a.map lower <+: b.map lower))

section

variable {a b text set set' front back key : List UInt8} {c : UInt8} {n : ℕ}

/-! ## Comparing -/

theorem SameText.abbreviates (h : SameText a b) : Abbreviates a b := by
  rw [Abbreviates, h]

theorem SameText.symm (h : SameText a b) : SameText b a := Eq.symm h

/-- A comparison up to the length of one string asks whether it begins the other. -/
theorem strCmpNIA_length : strCmpNIA a b a.length = true ↔ Abbreviates a b := by
  rw [strCmpNIA, decide_eq_true_iff, List.take_length, Abbreviates, List.prefix_iff_eq_take,
    List.length_map, ← List.map_take]

theorem strCmpNIA_length_right (h : b.length = n) :
    strCmpNIA a b n = true ↔ Abbreviates b a := by
  rw [strCmpNIA, decide_eq_true_iff, ← h, List.take_length, Abbreviates, List.prefix_iff_eq_take,
    List.length_map, ← List.map_take]
  exact eq_comm

/-- A string is not begun across a character that it does not have. -/
theorem abbreviates_append_iff (h : ∀ c ∈ back.head?, lower c ∉ key.map lower) :
    Abbreviates key (text ++ back) ↔ Abbreviates key text := by
  induction text generalizing key with
  | nil =>
    rcases key with _ | ⟨k, key⟩
    · simp [Abbreviates]
    · rcases back with _ | ⟨c, back⟩
      · rfl
      · simp only [Abbreviates, List.nil_append, List.map_cons, List.cons_prefix_cons,
          List.map_nil, List.prefix_nil, reduceCtorEq, iff_false, not_and]
        intro hkey
        exact absurd (hkey ▸ List.mem_cons_self) (h c rfl)
  | cons c text ih =>
    rcases key with _ | ⟨k, key⟩
    · simp [Abbreviates]
    · have hkey : ∀ c ∈ back.head?, lower c ∉ key.map lower :=
        fun c hc hmem => h c hc (List.mem_cons_of_mem _ hmem)
      have htail := ih hkey
      simp only [Abbreviates] at htail
      simp only [Abbreviates, List.cons_append, List.map_cons, List.cons_prefix_cons, htail]

/-! ## Trimming -/

/-- A string does not begin or end with one of the characters. -/
def Trimmed (set text : List UInt8) : Prop :=
  (∀ c ∈ text.head?, c ∉ set) ∧ ∀ c ∈ text.getLast?, c ∉ set

instance (set text : List UInt8) : Decidable (Trimmed set text) :=
  @instDecidableAnd _ _ text.head?.decidableForallMem text.getLast?.decidableForallMem

theorem Trimmed.mono (h : Trimmed set text) (hset : ∀ c ∈ set', c ∈ set) : Trimmed set' text :=
  ⟨fun c hc hmem => h.1 c hc (hset c hmem), fun c hc hmem => h.2 c hc (hset c hmem)⟩

theorem dropWhile_of_head (h : ∀ c ∈ text.head?, c ∉ set) :
    (text.dropWhile fun c => set.contains c) = text := by
  rcases text with _ | ⟨c, text⟩
  · rfl
  · apply List.dropWhile_cons_of_neg
    simpa using h c rfl

theorem dropWhile_append_of_subset (hfront : ∀ c ∈ front, c ∈ set) :
    ((front ++ text).dropWhile fun c => set.contains c) =
      text.dropWhile fun c => set.contains c := by
  rw [List.dropWhile_append_of_pos]
  intro c hc
  simpa using hfront c hc

/-- What is trimmed is what is around a trimmed string. -/
theorem strTrimA_append (hfront : ∀ c ∈ front, c ∈ set) (hback : ∀ c ∈ back, c ∈ set)
    (h : Trimmed set text) : strTrimA (front ++ (text ++ back)) set = text := by
  rw [strTrimA, dropWhile_append_of_subset hfront]
  rcases htext : text with _ | ⟨c, text'⟩
  · have hnil : (back.dropWhile fun c => set.contains c) = [] := by
      simpa [List.dropWhile_eq_nil_iff] using hback
    rw [List.nil_append, hnil, List.rdropWhile_nil]
  · rw [← htext, dropWhile_of_head, List.rdropWhile, List.reverse_append,
      dropWhile_append_of_subset, dropWhile_of_head, List.reverse_reverse]
    · rw [List.head?_reverse]
      exact h.2
    · intro c hc
      exact hback c (List.mem_reverse.1 hc)
    · intro c' hc'
      apply h.1
      rw [htext] at hc' ⊢
      exact hc'

/-- Characters that are trimmed make no difference at the end. -/
theorem strTrimA_append_right (hback : ∀ c ∈ back, c ∈ set) (text : List UInt8) :
    strTrimA (text ++ back) set = strTrimA text set := by
  have hreverse : ∀ c ∈ back.reverse, c ∈ set := fun c hc => hback c (List.mem_reverse.1 hc)
  have hright (text : List UInt8) : (text ++ back).rdropWhile (fun c => set.contains c) =
      text.rdropWhile fun c => set.contains c := by
    rw [List.rdropWhile, List.reverse_append, dropWhile_append_of_subset hreverse, List.rdropWhile]
  rw [strTrimA, strTrimA, List.dropWhile_append]
  split_ifs with hnil
  · rw [List.isEmpty_iff] at hnil
    have hall : (back.dropWhile fun c => set.contains c) = [] := by
      simpa [List.dropWhile_eq_nil_iff] using hback
    rw [hall, hnil]
  · exact hright _

theorem strTrimA_of_trimmed (h : Trimmed set text) : strTrimA text set = text := by
  have hnil : ∀ c ∈ ([] : List UInt8), c ∈ set := by simp
  have htrim := strTrimA_append hnil hnil h
  rwa [List.append_nil, List.nil_append] at htrim

/-- A string in front that does not begin or end with one of the characters is left. -/
theorem strTrimA_append_left (h : Trimmed set text) (hne : text ≠ []) (back : List UInt8) :
    ∃ rest, strTrimA (text ++ back) set = text ++ rest := by
  have hhead : ∀ c ∈ (text ++ back).head?, c ∉ set := by
    intro c hc
    rw [List.head?_append_of_ne_nil _ hne] at hc
    exact h.1 c hc
  have hlast : ∀ c ∈ text.reverse.head?, c ∉ set := by
    rw [List.head?_reverse]
    exact h.2
  rw [strTrimA, dropWhile_of_head hhead, List.rdropWhile, List.reverse_append,
    List.dropWhile_append, dropWhile_of_head hlast]
  split_ifs
  · exact ⟨[], by rw [List.reverse_reverse, List.append_nil]⟩
  · exact ⟨(back.reverse.dropWhile fun c => set.contains c).reverse, by simp⟩

/-- What is left has none of the characters at its ends. -/
theorem trimmed_strTrimA (text set : List UInt8) : Trimmed set (strTrimA text set) := by
  constructor
  · intro c hc
    obtain ⟨more, hmore⟩ := List.rdropWhile_prefix (fun c => set.contains c)
      (text.dropWhile fun c => set.contains c)
    rw [strTrimA] at hc
    have hhead : (text.dropWhile fun c => set.contains c).head? = some c := by
      rw [← hmore, List.head?_append, hc]
      rfl
    have hnot := List.head?_dropWhile_not (fun c => set.contains c) text
    rw [hhead] at hnot
    simpa using hnot
  · intro c hc
    have hne : strTrimA text set ≠ [] := by
      intro hnil
      rw [hnil] at hc
      cases hc
    have hnot := List.rdropWhile_last_not (fun c => set.contains c)
      (text.dropWhile fun c => set.contains c) hne
    rw [List.getLast?_eq_some_getLast hne] at hc
    cases hc
    simpa [strTrimA] using hnot

/-- What is trimmed twice is trimmed once. -/
theorem strTrimA_strTrimA (text set : List UInt8) :
    strTrimA (strTrimA text set) set = strTrimA text set :=
  strTrimA_of_trimmed (trimmed_strTrimA text set)

theorem strTrimA_isInfix (text set : List UInt8) : strTrimA text set <:+: text :=
  ((List.rdropWhile_prefix _ _).isInfix).trans (List.dropWhile_suffix _).isInfix

theorem length_strTrimA_le (text set : List UInt8) : (strTrimA text set).length ≤ text.length :=
  (strTrimA_isInfix text set).length_le

/-! ## Searching -/

/-- A character behind a string without it. -/
theorem strChrIA_append (h : c ∉ a) (b : List UInt8) :
    strChrIA (a ++ c :: b) c = some a.length := by
  rw [strChrIA, List.findIdx?_eq_some_iff_getElem]
  refine ⟨by simp, by simp, fun i hi => ?_⟩
  rw [List.getElem_append_left hi]
  have hne : a[i] ≠ c := fun hc => h (hc ▸ List.getElem_mem hi)
  simpa using hne

theorem strChrIA_eq_none (h : c ∉ text) : strChrIA text c = none := by
  rw [strChrIA, List.findIdx?_eq_none_iff]
  intro c' hc'
  simpa using fun heq : c' = c => h (heq ▸ hc')

theorem strChrIA_lt {i : ℕ} (h : strChrIA text c = some i) : i < text.length := by
  rw [strChrIA, List.findIdx?_eq_some_iff_getElem] at h
  exact h.1

end

/-! ## Tables of names -/

section

variable {κ : Type*} {table : List κ} {name : κ → List UInt8} {key : List UInt8} {k k' : κ}

/-- The first name of a table that a key abbreviates, as a chain of comparisons finds it. -/
def byAbbrev (table : List κ) (name : κ → List UInt8) (key : List UInt8) : Option κ :=
  table.find? fun k => strCmpNIA key (name k) key.length

/-- No name of a table begins another. -/
def Unambiguous (table : List κ) (name : κ → List UInt8) : Prop :=
  ∀ k ∈ table, ∀ k' ∈ table, Abbreviates (name k) (name k') → k = k'

theorem byAbbrev_eq_some (h : byAbbrev table name key = some k) :
    k ∈ table ∧ Abbreviates key (name k) := by
  rw [byAbbrev] at h
  have hcmp : strCmpNIA key (name k) key.length = true := by
    simpa using List.find?_some h
  exact ⟨List.mem_of_find?_eq_some h, strCmpNIA_length.1 hcmp⟩

theorem byAbbrev_eq_none_iff :
    byAbbrev table name key = none ↔ ∀ k ∈ table, ¬Abbreviates key (name k) := by
  simp only [byAbbrev, List.find?_eq_none, strCmpNIA_length]

/-- A key that is a name finds this name. -/
theorem byAbbrev_eq_some_of_sameText (htable : Unambiguous table name) (hk : k ∈ table)
    (h : SameText key (name k)) : byAbbrev table name key = some k := by
  rcases hfind : byAbbrev table name key with _ | k'
  · rw [byAbbrev_eq_none_iff] at hfind
    exact absurd h.abbreviates (hfind k hk)
  · obtain ⟨hk', habbr⟩ := byAbbrev_eq_some hfind
    have hname : Abbreviates (name k) (name k') := by
      rwa [Abbreviates, ← h]
    rw [htable k hk k' hk' hname]

end

/-! ## Settings -/

/-- After a run over the lines of a file, a setting has the value of the last line for it. The
invariant is about the state and the lines that are left. -/
theorem get_foldl {σ β ν α : Type*} (get : σ → α) (step : σ → β → σ) (value : β → Option ν)
    (val : ν → α) (inv : σ → List β → Prop)
    (hstep : ∀ s e es, inv s (e :: es) →
      inv (step s e) es ∧ get (step s e) = (value e).elim (get s) val)
    (es : List β) (s : σ) (h : inv s es) :
    get (es.foldl step s) = (es.filterMap value).getLast?.elim (get s) val := by
  induction es generalizing s with
  | nil => rfl
  | cons e es ih =>
    obtain ⟨hinv, hget⟩ := hstep s e es h
    rw [List.foldl_cons, ih (step s e) hinv, hget]
    rcases he : value e with _ | v
    · rw [List.filterMap_cons_none he]
      rfl
    · rw [List.filterMap_cons_some he, List.getLast?_cons]
      rcases (es.filterMap value).getLast? with _ | last
      · rfl
      · rfl

/-! ## Copies over each other -/

/-- What an array holds when a string was copied over another without its NUL. -/
def overlay (old new : List UInt8) : List UInt8 := new ++ old.drop new.length

theorem length_overlay_le {old new : List UInt8} {n : ℕ} :
    (overlay old new).length ≤ n ↔ old.length ≤ n ∧ new.length ≤ n := by
  rw [overlay, List.length_append, List.length_drop]
  omega

theorem length_foldl_overlay_le (news : List (List UInt8)) (old : List UInt8) {n : ℕ} :
    (news.foldl overlay old).length ≤ n ↔ old.length ≤ n ∧ ∀ new ∈ news, new.length ≤ n := by
  induction news generalizing old with
  | nil => simp
  | cons new news ih =>
    rw [List.foldl_cons, ih, length_overlay_le, List.forall_mem_cons, and_assoc]

/-- Copies leave the last string if and only if none of the others was longer. -/
theorem foldl_overlay_eq_iff (news : List (List UInt8)) (last : List UInt8)
    (hlast : news.getLast? = some last) :
    news.foldl overlay [] = last ↔ ∀ new ∈ news, new.length ≤ last.length := by
  obtain ⟨front, rfl⟩ := List.getLast?_eq_some_iff.1 hlast
  have hfront := @length_foldl_overlay_le front [] last.length
  rw [List.foldl_append, List.foldl_cons, List.foldl_nil, overlay, List.append_right_eq_self,
    List.drop_eq_nil_iff, hfront, List.forall_mem_append, List.forall_mem_singleton]
  simp

end Shlwapi
