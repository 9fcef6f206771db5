import Gendo.Client.Update

/-!
# Update detection

`RopCfgFile::CompareFile` marks the items of a new configuration that have to be downloaded. The
items of both configurations are objects on the heap, to which the vectors `m_vItem` point, and the
marks are written while the loop runs.

`compareFile_marks` says which items are marked: those of which the old configuration has no copy
with the same name and the same digest. `compareFile_map` is the refinement of the comparison of two
lists.
-/

namespace Gendo.Client

/-- A `RopCfgItem*`. -/
abbrev ItemPtr : Type := ℕ

/-- The items on the heap. -/
abbrev ItemHeap : Type := ItemPtr → RopCfgItem

/-- `RopCfgFile`, as far as two of them are compared. -/
structure RopCfgFile where
  vItem : List ItemPtr
  bNeedUpdate : Bool
  deriving DecidableEq, Repr

/-- `pItem->m_bNeedUpdate = true` -/
def ItemHeap.mark (heap : ItemHeap) (pItem : ItemPtr) : ItemHeap :=
  Function.update heap pItem { heap pItem with bNeedUpdate := true }

namespace RopCfgFile

section

variable {φ : Type*} (win : Windows φ)

/-- The loop of `CompareFile`, with the heap and the flag of the new configuration. -/
def compareLoop (pOld : RopCfgFile) : List ItemPtr → ItemHeap → Bool → ItemHeap × Bool
  | [], heap, bNeedUpdate => (heap, bNeedUpdate)
  | pNewItem :: iter, heap, bNeedUpdate =>
    if findItem win (pOld.vItem.map heap) (heap pNewItem) then
      if isItemSync win (pOld.vItem.map heap) (heap pNewItem) then
        compareLoop pOld iter (heap.mark pNewItem) true
      else compareLoop pOld iter heap bNeedUpdate
    else compareLoop pOld iter (heap.mark pNewItem) true

/-- `pNew->CompareFile(pOld)`: what it returns, the new configuration and the heap. -/
def compareFile (pNew pOld : RopCfgFile) (heap : ItemHeap) : Bool × RopCfgFile × ItemHeap :=
  let loop := compareLoop win pOld pNew.vItem heap pNew.bNeedUpdate
  (loop.2, { pNew with bNeedUpdate := loop.2 }, loop.1)

end

end RopCfgFile

/-- `StrCmpNIA` compares two strings up to their `n`-th characters, and does not see a difference
between letters that `fold` takes to one. -/
def Windows.IgnoresCase {φ : Type*} (win : Windows φ) (fold : Char → Char) : Prop :=
  ∀ a b n, win.strCmpNIA a b n = true ↔ (a.take n).map fold = (b.take n).map fold

/-- Two names are the same up to letter case. -/
def SameName (fold : Char → Char) (a b : Path) : Prop := a.map fold = b.map fold

instance (fold : Char → Char) (a b : Path) : Decidable (SameName fold a b) :=
  inferInstanceAs (Decidable (a.map fold = b.map fold))

/-- Two states of the heap have the same items but for their marks. -/
def SameItems (heap heap' : ItemHeap) : Prop :=
  ∀ p, { heap' p with bNeedUpdate := (heap p).bNeedUpdate } = heap p

section

variable {φ : Type*} {win : Windows φ} {fold : Char → Char} {heap heap' : ItemHeap}
  {pNew pOld : RopCfgFile} {p q : ItemPtr} {item tmpItem : RopCfgItem} {items : List RopCfgItem}

/-! ## Names -/

/-- A comparison up to the length of one of two names of the same length sees all of both. -/
theorem strCmpNIA_iff (hwin : win.IgnoresCase fold) {a b : Path} {n : ℕ} (hn : n = a.length) :
    win.strCmpNIA a b n = true ∧ a.length = b.length ↔ SameName fold a b := by
  rw [hwin]
  constructor
  · rintro ⟨hcmp, hlen⟩
    rwa [hn, List.take_length, hlen, List.take_length] at hcmp
  · intro hsame
    have hlen : a.length = b.length := by simpa using congrArg List.length hsame
    refine ⟨?_, hlen⟩
    rw [hn, List.take_length, hlen, List.take_length]
    exact hsame

theorem findItem_iff (hwin : win.IgnoresCase fold) :
    findItem win items item = true ↔ ∃ tmpItem ∈ items, SameName fold item.name tmpItem.name := by
  simp only [findItem, List.any_eq_true, Bool.and_eq_true, decide_eq_true_eq,
    strCmpNIA_iff hwin rfl]

/-- The comparison in `IsItemSync`, which takes the length of the other name. -/
theorem isItemSync_iff (hwin : win.IgnoresCase fold) :
    isItemSync win items item = true ↔
      ¬∃ tmpItem ∈ items, SameName fold item.name tmpItem.name ∧
        item.md5.take (MD5_DIGEST_LENGTH * 2) = tmpItem.md5.take (MD5_DIGEST_LENGTH * 2) := by
  have hname (tmpItem : RopCfgItem) :
      win.strCmpNIA item.name tmpItem.name tmpItem.name.length = true ∧
        item.name.length = tmpItem.name.length ↔ SameName fold item.name tmpItem.name := by
    constructor
    · rintro ⟨hcmp, hlen⟩
      exact (strCmpNIA_iff hwin hlen.symm).1 ⟨hcmp, hlen⟩
    · intro hsame
      have hlen : item.name.length = tmpItem.name.length := by
        simpa using congrArg List.length hsame
      exact (strCmpNIA_iff hwin hlen.symm).2 hsame
  simp only [isItemSync, Bool.not_eq_true', ← Bool.not_eq_true, List.any_eq_true,
    Bool.and_eq_true, decide_eq_true_eq, hname]

/-- An item is marked unless one of the others has its name and its digest. -/
theorem marked_iff (hwin : win.IgnoresCase fold) :
    (!findItem win items item || isItemSync win items item) = true ↔
      ¬∃ tmpItem ∈ items, SameName fold item.name tmpItem.name ∧
        item.md5.take (MD5_DIGEST_LENGTH * 2) = tmpItem.md5.take (MD5_DIGEST_LENGTH * 2) := by
  rw [Bool.or_eq_true, isItemSync_iff hwin, Bool.not_eq_true', ← Bool.not_eq_true,
    findItem_iff hwin]
  constructor
  · rintro (hfind | hsync)
    · rintro ⟨tmpItem, hmem, hname, _⟩
      exact hfind ⟨tmpItem, hmem, hname⟩
    · exact hsync
  · exact .inr

/-! ## The heap -/

theorem SameItems.refl (heap : ItemHeap) : SameItems heap heap := fun _ => rfl

theorem SameItems.name_eq (h : SameItems heap heap') (p : ItemPtr) :
    (heap' p).name = (heap p).name := by
  rw [← h p]

theorem SameItems.md5_eq (h : SameItems heap heap') (p : ItemPtr) :
    (heap' p).md5 = (heap p).md5 := by
  rw [← h p]

theorem SameItems.mark (h : SameItems heap heap') (p : ItemPtr) :
    SameItems heap (heap'.mark p) := by
  intro q
  rw [← h q, ItemHeap.mark]
  by_cases hq : q = p
  · rw [hq, Function.update_self]
  · rw [Function.update_of_ne hq]

/-- What is compared does not depend on the marks. -/
theorem SameItems.marked_eq (hwin : win.IgnoresCase fold) (h : SameItems heap heap')
    (ps : List ItemPtr) (p : ItemPtr) :
    (!findItem win (ps.map heap') (heap' p) || isItemSync win (ps.map heap') (heap' p)) =
      (!findItem win (ps.map heap) (heap p) || isItemSync win (ps.map heap) (heap p)) := by
  rw [Bool.eq_iff_iff, marked_iff hwin, marked_iff hwin]
  simp only [List.mem_map, exists_exists_and_eq_and, h.name_eq, h.md5_eq]

@[simp]
theorem ItemHeap.mark_bNeedUpdate (heap : ItemHeap) (p q : ItemPtr) :
    (heap.mark p q).bNeedUpdate = (decide (q = p) || (heap q).bNeedUpdate) := by
  rw [ItemHeap.mark]
  by_cases hq : q = p
  · simp [hq]
  · simp [hq]

/-! ## The loop -/

/-- Whether `CompareFile` marks an item, as it finds it. -/
def RopCfgFile.marks (win : Windows φ) (pOld : RopCfgFile) (heap : ItemHeap) (p : ItemPtr) : Bool :=
  !findItem win (pOld.vItem.map heap) (heap p) || isItemSync win (pOld.vItem.map heap) (heap p)

/-- One round of the loop: the item is marked, or nothing happens. -/
theorem compareLoop_cons (p : ItemPtr) (iter : List ItemPtr) (heap : ItemHeap) (b : Bool) :
    RopCfgFile.compareLoop win pOld (p :: iter) heap b =
      if pOld.marks win heap p then RopCfgFile.compareLoop win pOld iter (heap.mark p) true
      else RopCfgFile.compareLoop win pOld iter heap b := by
  rw [RopCfgFile.compareLoop, RopCfgFile.marks]
  rcases hfind : findItem win (pOld.vItem.map heap) (heap p) with _ | _
  · rfl
  · rfl

/-- The loop changes nothing but marks, and marks the items that it would mark if it met them
first. -/
theorem compareLoop_spec (hwin : win.IgnoresCase fold) (pOld : RopCfgFile)
    (h : SameItems heap heap') (b : Bool) (iter : List ItemPtr) :
    SameItems heap (RopCfgFile.compareLoop win pOld iter heap' b).1 ∧
      (∀ q, ((RopCfgFile.compareLoop win pOld iter heap' b).1 q).bNeedUpdate =
        ((decide (q ∈ iter) && pOld.marks win heap q) || (heap' q).bNeedUpdate)) ∧
      (RopCfgFile.compareLoop win pOld iter heap' b).2 = (iter.any (pOld.marks win heap) || b) := by
  induction iter generalizing heap' b with
  | nil =>
    refine ⟨h, fun q => ?_, ?_⟩
    · simp [RopCfgFile.compareLoop]
    · simp [RopCfgFile.compareLoop]
  | cons p iter ih =>
    have hmarks : pOld.marks win heap' p = pOld.marks win heap p := h.marked_eq hwin pOld.vItem p
    rw [compareLoop_cons, hmarks]
    by_cases hp : pOld.marks win heap p = true
    · rw [if_pos hp]
      obtain ⟨hsame, hflag, hret⟩ := ih (h.mark p) true
      refine ⟨hsame, fun q => ?_, ?_⟩
      · rw [hflag, ItemHeap.mark_bNeedUpdate]
        by_cases hq : q = p
        · simp [hq, hp]
        · simp [hq]
      · rw [hret]
        simp [hp]
    · rw [if_neg hp]
      obtain ⟨hsame, hflag, hret⟩ := ih h b
      refine ⟨hsame, fun q => ?_, ?_⟩
      · rw [hflag]
        by_cases hq : q = p
        · simp [hq, hp]
        · simp [hq]
      · rw [hret]
        simp [hp]

/-- An item that is neither new nor marked before is as it was. -/
theorem compareLoop_frame (hwin : win.IgnoresCase fold) (iter : List ItemPtr) (b : Bool)
    (hq : q ∉ iter) : (RopCfgFile.compareLoop win pOld iter heap b).1 q = heap q := by
  obtain ⟨hsame, hflag, _⟩ := compareLoop_spec hwin pOld (SameItems.refl heap) b iter
  have hmark : ((RopCfgFile.compareLoop win pOld iter heap b).1 q).bNeedUpdate =
      (heap q).bNeedUpdate := by
    rw [hflag]
    simp [hq]
  have hitem := hsame q
  rwa [← hmark] at hitem

/-- With the vectors read as lists, the objects are compared as `compareFile` compares two lists. -/
theorem compareFile_map (hwin : win.IgnoresCase fold) (pNew pOld : RopCfgFile) (heap : ItemHeap)
    (hflag : pNew.bNeedUpdate = false) :
    (pNew.vItem.map (pNew.compareFile win pOld heap).2.2, (pNew.compareFile win pOld heap).1) =
      compareFile win (pOld.vItem.map heap) (pNew.vItem.map heap) := by
  obtain ⟨hsame, hmark, hret⟩ :=
    compareLoop_spec hwin pOld (SameItems.refl heap) pNew.bNeedUpdate pNew.vItem
  apply Prod.ext
  · rw [compareFile, List.map_map]
    apply List.map_congr_left
    intro p hp
    have hitem := hsame p
    have hbit := hmark p
    dsimp only [RopCfgFile.compareFile, Function.comp]
    split
    · next hmarked =>
      rw [RopCfgFile.marks, hmarked] at hbit
      simp only [hp, decide_true, Bool.and_self, Bool.true_or] at hbit
      rw [← hitem, ← hbit]
    · next hmarked =>
      rw [RopCfgFile.marks, Bool.eq_false_iff.2 hmarked] at hbit
      simp only [Bool.and_false, Bool.false_or] at hbit
      rwa [← hbit] at hitem
  · dsimp only [RopCfgFile.compareFile]
    rw [hret, hflag, Bool.or_false, compareFile, List.any_map]
    rfl

/-- `CompareFile` marks the items of which the old configuration has no copy, up to the letter case
of the name; it returns whether there is one, and leaves the old configuration alone. -/
theorem compareFile_marks (hwin : win.IgnoresCase fold) (pNew pOld : RopCfgFile) (heap : ItemHeap)
    (hfile : pNew.bNeedUpdate = false) (hflags : ∀ p ∈ pNew.vItem, (heap p).bNeedUpdate = false)
    (hmd5 : ∀ p ∈ pNew.vItem ++ pOld.vItem, (heap p).md5.length = MD5_DIGEST_LENGTH * 2)
    (hdisj : ∀ p ∈ pNew.vItem, p ∉ pOld.vItem) :
    (∀ p ∈ pNew.vItem, ((pNew.compareFile win pOld heap).2.2 p).bNeedUpdate = true ↔
      ¬∃ q ∈ pOld.vItem, SameName fold (heap p).name (heap q).name ∧
        (heap p).md5 = (heap q).md5) ∧
    ((pNew.compareFile win pOld heap).1 = true ↔
      ∃ p ∈ pNew.vItem, ((pNew.compareFile win pOld heap).2.2 p).bNeedUpdate = true) ∧
    ∀ q ∈ pOld.vItem, (pNew.compareFile win pOld heap).2.2 q = heap q := by
  obtain ⟨_, hmark, hret⟩ :=
    compareLoop_spec hwin pOld (SameItems.refl heap) pNew.bNeedUpdate pNew.vItem
  have hbit (p : ItemPtr) (hp : p ∈ pNew.vItem) :
      ((pNew.compareFile win pOld heap).2.2 p).bNeedUpdate = pOld.marks win heap p := by
    dsimp only [RopCfgFile.compareFile]
    rw [hmark, hflags p hp]
    simp [hp]
  -- the digests are compared as far as they go
  have hdigest (p : ItemPtr) (hp : p ∈ pNew.vItem ++ pOld.vItem) :
      (heap p).md5.take (MD5_DIGEST_LENGTH * 2) = (heap p).md5 :=
    List.take_of_length_le (Nat.le_of_eq (hmd5 p hp))
  refine ⟨fun p hp => ?_, ?_, fun q hq => ?_⟩
  · rw [hbit p hp, RopCfgFile.marks, marked_iff hwin, hdigest p (List.mem_append_left _ hp)]
    simp only [List.mem_map, exists_exists_and_eq_and]
    apply not_congr
    apply exists_congr
    intro q
    apply and_congr_right
    intro hq
    rw [hdigest q (List.mem_append_right _ hq)]
  · have hany : (pNew.compareFile win pOld heap).1 = pNew.vItem.any (pOld.marks win heap) := by
      dsimp only [RopCfgFile.compareFile]
      rw [hret, hfile, Bool.or_false]
    rw [hany, List.any_eq_true]
    apply exists_congr
    intro p
    apply and_congr_right
    intro hp
    rw [hbit p hp]
  · exact compareLoop_frame hwin pNew.vItem pNew.bNeedUpdate fun hq' => hdisj q hq' hq

end

/-- Names compared as they are on a disk where letter case does not matter. -/
def foldingDisk : Windows Path :=
  ⟨id, fun a b n => (a.take n).map Char.toLower = (b.take n).map Char.toLower⟩

/-- Two items of the new configuration, at 0 and 1, and two of the old one: one is a prefix of the
other, and has the digest of the item that is looked for. -/
def detectionHeap : ItemHeap
  | 0 => ⟨['G', 'e', 'n'], List.replicate 32 1, [], [], [], false⟩
  | 1 => ⟨['g', 'e', 'n', 'd'], List.replicate 32 2, [], [], [], false⟩
  | 2 => ⟨['g', 'e', 'n'], List.replicate 32 1, [], [], [], false⟩
  | _ => ⟨['g', 'e', 'n', 'd'], List.replicate 32 1, [], [], [], false⟩

theorem compareFile_marks_twoItems :
    (∀ p ∈ [0, 1], ((RopCfgFile.compareFile foldingDisk ⟨[0, 1], false⟩ ⟨[3, 2], false⟩
      detectionHeap).2.2 p).bNeedUpdate = true ↔
      ¬∃ q ∈ [3, 2], SameName Char.toLower (detectionHeap p).name (detectionHeap q).name ∧
        (detectionHeap p).md5 = (detectionHeap q).md5) ∧
    ((RopCfgFile.compareFile foldingDisk ⟨[0, 1], false⟩ ⟨[3, 2], false⟩
      detectionHeap).1 = true ↔
      ∃ p ∈ [0, 1], ((RopCfgFile.compareFile foldingDisk ⟨[0, 1], false⟩ ⟨[3, 2], false⟩
        detectionHeap).2.2 p).bNeedUpdate = true) ∧
    ∀ q ∈ [3, 2], (RopCfgFile.compareFile foldingDisk ⟨[0, 1], false⟩ ⟨[3, 2], false⟩
      detectionHeap).2.2 q = detectionHeap q :=
  compareFile_marks (fun _ _ _ => decide_eq_true_iff) ⟨[0, 1], false⟩ ⟨[3, 2], false⟩
    detectionHeap rfl (by decide) (by decide) (by decide)

end Gendo.Client
