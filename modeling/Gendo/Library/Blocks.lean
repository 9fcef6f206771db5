import Mathlib.Data.Vector.Defs
import Mathlib.Tactic.Common

/-!
# Reading in pieces, working in blocks

`freads n` are the pieces in which a loop `while (!feof(fp))` reads a file with `fread`s of `n`
items: the end of the file is noticed only by a read that comes short, so that the last piece is
shorter than the others, and empty where they are all there is. `mapBlocks f` applies `f` to one
block of a fixed length after the other.

`mapBlocks_append` says that it does not matter in which pieces the blocks come, as long as no
piece ends inside a block; `pieces_induction` and `blocks_induction` follow the two functions.
-/

namespace Blocks

variable {α β : Type*} {n : ℕ} {l : List α}

/-- The pieces that are read, the last of which is a short one. -/
def freads (n : ℕ) (l : List α) : List (List α) :=
  if 0 < n ∧ n ≤ l.length then l.take n :: freads n (l.drop n) else [l]
termination_by l.length
decreasing_by
  rw [List.length_drop]
  omega

/-- `f` of one block after the other; what is left behind the last block is dropped. -/
def mapBlocks (f : List.Vector α n → List.Vector β n) (l : List α) : List β :=
  if h : 0 < n ∧ n ≤ l.length then
    (f ⟨l.take n, List.length_take_of_le h.2⟩).1 ++ mapBlocks f (l.drop n)
  else []
termination_by l.length
decreasing_by
  rw [List.length_drop]
  omega

/-! ## Pieces -/

theorem freads_of_lt (h : l.length < n) : freads n l = [l] := by
  rw [freads, if_neg (by omega)]

theorem freads_append (hn : 0 < n) (hl : l.length = n) (m : List α) :
    freads n (l ++ m) = l :: freads n m := by
  rw [freads, if_pos ⟨hn, by rw [List.length_append]; omega⟩, List.take_left' hl,
    List.drop_left' hl]

/-- A file is a short piece, or a full piece and a file behind it. -/
theorem pieces_induction {P : List α → Prop} (hn : 0 < n) (short : ∀ l, l.length < n → P l)
    (append : ∀ l m, l.length = n → P m → P (l ++ m)) (l : List α) : P l := by
  rcases Nat.lt_or_ge l.length n with hlt | hge
  · exact short l hlt
  · rw [← List.take_append_drop n l]
    exact append _ _ (List.length_take_of_le hge)
      (pieces_induction hn short append (l.drop n))
termination_by l.length
decreasing_by
  rw [List.length_drop]
  omega

/-! ## Blocks -/

variable {f : List.Vector α n → List.Vector β n} {g : List.Vector β n → List.Vector α n}

@[simp]
theorem mapBlocks_nil (f : List.Vector α n → List.Vector β n) : mapBlocks f [] = [] := by
  rw [mapBlocks, dif_neg]
  rintro ⟨hpos, hle⟩
  exact absurd hpos (Nat.not_lt.mpr hle)

theorem mapBlocks_block (hn : 0 < n) (b : List.Vector α n) (l : List α) :
    mapBlocks f (b.1 ++ l) = (f b).1 ++ mapBlocks f l := by
  have hle : n ≤ (b.1 ++ l).length := by
    rw [List.length_append, b.2]
    exact Nat.le_add_right _ _
  have htake : (⟨(b.1 ++ l).take n, List.length_take_of_le hle⟩ : List.Vector α n) = b :=
    Subtype.ext (List.take_left' b.2)
  rw [mapBlocks, dif_pos ⟨hn, hle⟩, htake, List.drop_left' b.2]

/-- What is made of blocks is empty, or a block and what is made of blocks behind it. -/
@[elab_as_elim]
theorem blocks_induction {P : List α → Prop} (hn : 0 < n) (nil : P [])
    (block : ∀ (b : List.Vector α n) l, n ∣ l.length → P l → P (b.1 ++ l)) {l : List α}
    (hl : n ∣ l.length) : P l := by
  induction l using pieces_induction hn with
  | short l hlt =>
    rw [List.length_eq_zero_iff.mp (Nat.eq_zero_of_dvd_of_lt hl hlt)]
    exact nil
  | append b l hb ih =>
    rw [List.length_append, hb, Nat.dvd_add_right (Nat.dvd_refl n)] at hl
    exact block ⟨b, hb⟩ l hl (ih hl)

theorem length_mapBlocks (hn : 0 < n) (hl : n ∣ l.length) :
    (mapBlocks f l).length = l.length := by
  refine blocks_induction hn ?_ (fun b l _ ih => ?_) hl
  · rw [mapBlocks_nil, List.length_nil, List.length_nil]
  · rw [mapBlocks_block hn, List.length_append, List.length_append, (f b).2, b.2, ih]

/-- A cut between two blocks makes no difference. -/
theorem mapBlocks_append (hn : 0 < n) (hl : n ∣ l.length) (m : List α) :
    mapBlocks f (l ++ m) = mapBlocks f l ++ mapBlocks f m := by
  refine blocks_induction hn ?_ (fun b l _ ih => ?_) hl
  · rw [mapBlocks_nil, List.nil_append, List.nil_append]
  · rw [List.append_assoc, mapBlocks_block hn, mapBlocks_block hn, ih, List.append_assoc]

/-- What is undone block by block is undone. -/
theorem mapBlocks_mapBlocks (hn : 0 < n) (hgf : ∀ b, g (f b) = b) (hl : n ∣ l.length) :
    mapBlocks g (mapBlocks f l) = l := by
  refine blocks_induction hn ?_ (fun b l _ ih => ?_) hl
  · rw [mapBlocks_nil, mapBlocks_nil]
  · rw [mapBlocks_block hn, mapBlocks_block hn, hgf, ih]

end Blocks
