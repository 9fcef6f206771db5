import Mathlib.Data.List.Basic

/-!
# Texts of fields

`text eq sep fields` is what programs sign, hash or send of a form: `key=value` for each field, with
a separator between two. `text_inj` says that it tells forms apart, as far as no key has one of the
two separators in it, and no value the one between fields.
-/

namespace FormText

variable {α : Type*} {eq sep : α}

/-- A key and a value that can be told from what is around them. -/
structure Plain (eq sep : α) (f : List α × List α) : Prop where
  eq_key : eq ∉ f.1
  sep_key : sep ∉ f.1
  sep_value : sep ∉ f.2

instance [DecidableEq α] (f : List α × List α) : Decidable (Plain eq sep f) :=
  decidable_of_iff (eq ∉ f.1 ∧ sep ∉ f.1 ∧ sep ∉ f.2)
    ⟨fun h => ⟨h.1, h.2.1, h.2.2⟩, fun h => ⟨h.eq_key, h.sep_key, h.sep_value⟩⟩

/-- A field, with a separator behind it. -/
def piece (eq sep : α) (f : List α × List α) : List α := f.1 ++ eq :: f.2 ++ [sep]

/-- The text of fields. -/
def text (eq sep : α) (fields : List (List α × List α)) : List α :=
  (fields.flatMap (piece eq sep)).dropLast

/-- What comes before the first separator, and what behind it. -/
theorem append_cons_inj {l l' r r' : List α} (h : sep ∉ l) (h' : sep ∉ l')
    (heq : l ++ sep :: r = l' ++ sep :: r') : l = l' ∧ r = r' := by
  induction l generalizing l' with
  | nil =>
    rcases l' with _ | ⟨b, l'⟩
    · exact ⟨rfl, (List.cons.inj heq).2⟩
    · exact absurd (List.cons.inj heq).1 fun hb => h' (hb ▸ List.mem_cons_self)
  | cons a l ih =>
    rcases l' with _ | ⟨b, l'⟩
    · exact absurd (List.cons.inj heq).1 fun ha => h (ha ▸ List.mem_cons_self)
    · obtain ⟨rfl, htail⟩ := List.cons.inj heq
      obtain ⟨rfl, rfl⟩ := ih (fun hl => h (List.mem_cons_of_mem _ hl))
        (fun hl => h' (List.mem_cons_of_mem _ hl)) htail
      exact ⟨rfl, rfl⟩

/-- A field can be read off the front of the text. -/
theorem piece_append_inj (hne : eq ≠ sep) {f g : List α × List α} (hf : Plain eq sep f)
    (hg : Plain eq sep g) {r r' : List α} (h : piece eq sep f ++ r = piece eq sep g ++ r') :
    f = g ∧ r = r' := by
  have hsep : ∀ {f : List α × List α}, Plain eq sep f → sep ∉ f.1 ++ eq :: f.2 := by
    intro f hf hmem
    rcases List.mem_append.mp hmem with hmem | hmem
    · exact hf.sep_key hmem
    · rcases List.mem_cons.mp hmem with hmem | hmem
      · exact hne hmem.symm
      · exact hf.sep_value hmem
  simp only [piece, List.append_assoc, List.singleton_append] at h
  simp only [← List.append_assoc] at h
  obtain ⟨hfield, rfl⟩ := append_cons_inj (hsep hf) (hsep hg) h
  obtain ⟨hkey, hvalue⟩ := append_cons_inj hf.eq_key hg.eq_key hfield
  exact ⟨Prod.ext hkey hvalue, rfl⟩

theorem flatMap_piece_inj (hne : eq ≠ sep) {fs gs : List (List α × List α)}
    (hf : ∀ f ∈ fs, Plain eq sep f) (hg : ∀ g ∈ gs, Plain eq sep g)
    (h : fs.flatMap (piece eq sep) = gs.flatMap (piece eq sep)) : fs = gs := by
  induction fs generalizing gs with
  | nil =>
    rcases gs with _ | ⟨g, gs⟩
    · rfl
    · simp [piece] at h
  | cons f fs ih =>
    rcases gs with _ | ⟨g, gs⟩
    · simp [piece] at h
    · obtain ⟨hf, hfs⟩ := List.forall_mem_cons.mp hf
      obtain ⟨hg, hgs⟩ := List.forall_mem_cons.mp hg
      rw [List.flatMap_cons, List.flatMap_cons] at h
      obtain ⟨rfl, hrest⟩ := piece_append_inj hne hf hg h
      rw [ih hfs hgs hrest]

/-- The separator behind the last field is the only one that the text lacks. -/
theorem flatMap_piece_eq {fields : List (List α × List α)} (h : fields ≠ []) :
    fields.flatMap (piece eq sep) = text eq sep fields ++ [sep] := by
  obtain ⟨front, f, rfl⟩ : ∃ front f, fields = front ++ [f] :=
    ⟨_, _, (List.dropLast_append_getLast h).symm⟩
  simp only [text, List.flatMap_append, List.flatMap_singleton, piece, ← List.append_assoc,
    List.dropLast_concat]

theorem text_eq_nil_iff {fields : List (List α × List α)} :
    text eq sep fields = [] ↔ fields = [] := by
  rcases fields with _ | ⟨f, fields⟩
  · simp [text]
  · have hlen := congrArg List.length (@flatMap_piece_eq _ eq sep _
      (List.cons_ne_nil f fields))
    refine ⟨fun h => ?_, fun h => absurd h (List.cons_ne_nil f fields)⟩
    rw [h] at hlen
    simp [piece] at hlen
    omega

/-- Forms of plain fields are told apart by their texts. -/
theorem text_inj (hne : eq ≠ sep) {fs gs : List (List α × List α)}
    (hf : ∀ f ∈ fs, Plain eq sep f) (hg : ∀ g ∈ gs, Plain eq sep g)
    (h : text eq sep fs = text eq sep gs) : fs = gs := by
  by_cases hfs : fs = []
  · have hgs : gs = [] := text_eq_nil_iff.mp (h ▸ text_eq_nil_iff.mpr hfs)
    rw [hfs, hgs]
  · have hgs : gs ≠ [] := fun hnil => hfs (text_eq_nil_iff.mp (h ▸ text_eq_nil_iff.mpr hnil))
    apply flatMap_piece_inj hne hf hg
    rw [flatMap_piece_eq hfs, flatMap_piece_eq hgs, h]

end FormText
