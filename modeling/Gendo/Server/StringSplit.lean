import Gendo.Library.Pieces
import Mathlib.Algebra.Group.Int.Defs
import Mathlib.Algebra.Group.Nat.Defs
import Mathlib.Data.Int.Init

/-!
# Splitting strings

`lib_string_split` and its copy in the client cut a string at a separator into an array. Their
loop compares the capacity with the index before it is used, but with `<`, and what is behind the
last separator is stored without any comparison. `libStringSplit_iff` says when nothing is stored
behind the array: exactly if all pieces fit.
-/

namespace Gendo

open Pieces

/-- What `memcpy` writes to an item of the array. The length goes through an `int`, and becomes
another one from 2 ^ 31 on; `none` is what is written then. -/
structure SplitWrite where
  item : ℕ
  bytes : Option (List UInt8)
  deriving DecidableEq, Repr

/-- What is returned, `*n`, and what was written. -/
structure SplitCall where
  ret : ℤ
  n : ℤ
  dst : List SplitWrite
  deriving DecidableEq, Repr

/-- `memcpy(dst[i], start, (int)(end - start))`, and `terminator` behind it. -/
def splitWrite (terminator : List UInt8) (i : ℕ) (bytes : List UInt8) : SplitWrite :=
  ⟨i, if bytes.length < 2 ^ 31 then some (bytes ++ terminator) else none⟩

/-- The loop of both functions, and what follows it. -/
def splitLoop (terminator : List UInt8) (split : UInt8) (n : ℤ) (i : ℕ) (start : List UInt8)
    (dst : List SplitWrite) : SplitCall :=
  if _h : split ∈ start then
    let mid := start.idxOf split
    if n < i then ⟨-1, n, dst⟩
    else splitLoop terminator split n (i + 1) (start.drop (mid + 1))
      (dst ++ [splitWrite terminator i (start.take mid)])
  else if start ≠ [] then ⟨0, i + 1, dst ++ [splitWrite terminator i start]⟩
  else ⟨0, i, dst⟩
termination_by start.length
decreasing_by
  have hlt := List.idxOf_lt_length_of_mem _h
  rw [List.length_drop]
  omega

/-- `lib_string_split`, where no pointer is null. -/
def libStringSplit (src : List UInt8) (split : UInt8) (n : ℤ) : SplitCall :=
  if split = 0 then ⟨-1, n, []⟩ else splitLoop [] split n 0 src []

/-- `StringSplit`, where no pointer is null; an item is a row, which it terminates. -/
def stringSplit (src : List UInt8) (split : UInt8) (n : ℤ) : SplitCall :=
  if split = 0 then ⟨-1, n, []⟩ else splitLoop [0] split n 0 src []

/-- Splitting with room for `n` pieces: only these are written, if 0 is returned they are pieces
that give back the source up to a separator at its end, and otherwise it is the number of pieces
that does not fit. -/
structure SplitOk (terminator src : List UInt8) (split : UInt8) (n : ℕ) (call : SplitCall) :
    Prop where
  inside : ∀ w ∈ call.dst, w.item < n
  joined : call.ret = 0 → ∃ ps : List (List UInt8),
    call.dst = ps.mapIdx (fun i p => ⟨i, some (p ++ terminator)⟩) ∧ call.n = ps.length ∧
      ([split].intercalate ps = src ∨ [split].intercalate ps ++ [split] = src)
  full : n < (pieces split src).length → call.ret = -1

/-! ## The loop -/

section Loop

variable {terminator : List UInt8} {split : UInt8} {n : ℤ} {i : ℕ} {dst : List SplitWrite}

theorem splitLoop_single {start : List UInt8} (h : split ∉ start) :
    splitLoop terminator split n i start dst =
      if start ≠ [] then ⟨0, i + 1, dst ++ [splitWrite terminator i start]⟩ else ⟨0, i, dst⟩ := by
  rw [splitLoop, dif_neg h]

theorem splitLoop_cut {front : List UInt8} (h : split ∉ front) (rest : List UInt8) :
    splitLoop terminator split n i (front ++ split :: rest) dst =
      if n < i then ⟨-1, n, dst⟩
      else splitLoop terminator split n (i + 1) rest (dst ++ [splitWrite terminator i front]) := by
  have hidx : (front ++ split :: rest).idxOf split = front.length := by
    rw [List.idxOf_append_of_notMem h, List.idxOf_cons_self, Nat.add_zero]
  rw [splitLoop, dif_pos (by simp)]
  dsimp only
  rw [hidx, List.take_left, List.drop_append, List.drop_of_length_le (Nat.le_succ _),
    Nat.add_sub_cancel_left]
  rfl

/-- What was written stays. -/
theorem mem_splitLoop {start : List UInt8} {w : SplitWrite} (hw : w ∈ dst) :
    w ∈ (splitLoop terminator split n i start dst).dst := by
  induction start using pieces_induction split generalizing i dst with
  | single start h =>
    rw [splitLoop_single h]
    split_ifs
    · exact List.mem_append_left _ hw
    · exact hw
  | cut front rest h ih =>
    rw [splitLoop_cut h]
    split_ifs
    · exact hw
    · exact ih (List.mem_append_left _ hw)

/-- With room for the pieces, they are all written. -/
theorem splitLoop_of_le {start : List UInt8} (h : (i + (pieces split start).length : ℤ) ≤ n) :
    splitLoop terminator split n i start dst =
      ⟨0, i + (pieces split start).length,
        dst ++ (pieces split start).mapIdx fun j p => splitWrite terminator (i + j) p⟩ := by
  induction start using pieces_induction split generalizing i dst with
  | single start hstart =>
    rw [splitLoop_single hstart, pieces_of_not_mem hstart]
    by_cases hnil : start = [] <;> simp [hnil]
  | cut front rest hfront ih =>
    rw [pieces_append_cons hfront, List.length_cons] at h
    rw [splitLoop_cut hfront, if_neg (by omega), ih (by push_cast at h ⊢; omega),
      pieces_append_cons hfront, List.length_cons, List.mapIdx_cons]
    have hcount : ((i + 1 : ℕ) : ℤ) + (pieces split rest).length =
        i + ((pieces split rest).length + 1 : ℕ) := by omega
    have hwrites : ((pieces split rest).mapIdx fun j p => splitWrite terminator (i + 1 + j) p) =
        (pieces split rest).mapIdx fun j p => splitWrite terminator (i + (j + 1)) p := by
      refine List.mapIdx_eq_mapIdx_iff.mpr fun j _ => ?_
      rw [Nat.add_assoc, Nat.add_comm 1]
    rw [hcount, hwrites, List.append_assoc]
    rfl

/-- Without room for the pieces, something is written behind the last item. -/
theorem exists_mem_splitLoop {start : List UInt8} (hi : (i : ℤ) ≤ n)
    (h : n < i + (pieces split start).length) :
    ∃ j p, splitWrite terminator j p ∈ (splitLoop terminator split n i start dst).dst ∧
      n ≤ (j : ℤ) := by
  induction start using pieces_induction split generalizing i dst with
  | single start hstart =>
    rw [pieces_of_not_mem hstart] at h
    rw [splitLoop_single hstart]
    by_cases hnil : start = []
    · rw [if_pos hnil, List.length_nil] at h
      omega
    · rw [if_neg hnil, List.length_singleton] at h
      exact ⟨i, start, by simp [hnil], by omega⟩
  | cut front rest hfront ih =>
    rw [pieces_append_cons hfront, List.length_cons] at h
    rw [splitLoop_cut hfront, if_neg (by omega)]
    by_cases heq : (i : ℤ) = n
    · exact ⟨i, front, mem_splitLoop (by simp), Int.le_of_eq heq.symm⟩
    · exact ih (by push_cast; omega) (by push_cast at h ⊢; omega)

/-- The loop is right exactly if there is room for the pieces and their lengths fit an `int`. -/
theorem splitOk_splitLoop_iff {src : List UInt8} {n : ℕ} :
    SplitOk terminator src split n (splitLoop terminator split n 0 src []) ↔
      (pieces split src).length ≤ n ∧ ∀ p ∈ pieces split src, p.length < 2 ^ 31 := by
  rcases Nat.lt_or_ge n (pieces split src).length with hlt | hle
  · refine iff_of_false (fun h => ?_) fun h => absurd h.1 (Nat.not_le.mpr hlt)
    obtain ⟨j, p, hw, hj⟩ : ∃ j p, splitWrite terminator j p ∈
        (splitLoop terminator split n 0 src []).dst ∧ (n : ℤ) ≤ (j : ℤ) :=
      exists_mem_splitLoop (by simp) (by simpa using hlt)
    have hinside : j < n := h.inside _ hw
    omega
  · rw [and_iff_right hle, splitLoop_of_le (by simpa using hle)]
    simp only [Nat.zero_add, List.nil_append]
    constructor
    · intro h p hp
      obtain ⟨ps, hps, -⟩ := h.joined rfl
      obtain ⟨j, hj, rfl⟩ := List.mem_iff_getElem.mp hp
      have hmem : splitWrite terminator j (pieces split src)[j] ∈
          (pieces split src).mapIdx fun j p => splitWrite terminator j p :=
        List.mem_mapIdx.mpr ⟨j, hj, rfl⟩
      rw [show List.mapIdx _ _ = _ from hps] at hmem
      obtain ⟨k, hk, hwrite⟩ := List.mem_mapIdx.mp hmem
      by_contra hlong
      rw [splitWrite, if_neg hlong] at hwrite
      exact absurd (congrArg SplitWrite.bytes hwrite) (by simp)
    · intro hlen
      refine ⟨fun w hw => ?_, fun _ => ⟨pieces split src, ?_, by simp, intercalate_pieces src⟩,
        fun hlt => absurd hlt (Nat.not_lt.mpr hle)⟩
      · obtain ⟨j, hj, rfl⟩ := List.mem_mapIdx.mp hw
        exact Nat.lt_of_lt_of_le hj hle
      · refine List.mapIdx_eq_mapIdx_iff.mpr fun j hj => ?_
        rw [splitWrite, if_pos (hlen _ (List.getElem_mem hj))]

/-- Nothing is written where the separator is refused. -/
theorem splitOk_refused {src : List UInt8} {n : ℕ} :
    SplitOk terminator src split n ⟨-1, n, []⟩ where
  inside _ hw := absurd hw List.not_mem_nil
  joined h := absurd (show (-1 : ℤ) = 0 from h) (by decide)
  full _ := rfl

end Loop

/-- `lib_string_split` does what it is to do exactly if there is room for the pieces, and each has
a length that fits an `int`. The separator 0 is refused. -/
theorem libStringSplit_iff (src : List UInt8) (split : UInt8) (n : ℕ) :
    SplitOk [] src split n (libStringSplit src split n) ↔
      split = 0 ∨ (pieces split src).length ≤ n ∧ ∀ p ∈ pieces split src, p.length < 2 ^ 31 := by
  rw [libStringSplit]
  split_ifs with hzero
  · exact iff_of_true splitOk_refused (.inl hzero)
  · rw [or_iff_right hzero]
    exact splitOk_splitLoop_iff

/-- And so does `StringSplit`. -/
theorem stringSplit_iff (src : List UInt8) (split : UInt8) (n : ℕ) :
    SplitOk [0] src split n (stringSplit src split n) ↔
      split = 0 ∨ (pieces split src).length ≤ n ∧ ∀ p ∈ pieces split src, p.length < 2 ^ 31 := by
  rw [stringSplit]
  split_ifs with hzero
  · exact iff_of_true splitOk_refused (.inl hzero)
  · rw [or_iff_right hzero]
    exact splitOk_splitLoop_iff

/-- `a,b` has no room in an array of one item. -/
theorem not_splitOk_oneItem : ¬∀ (src : List UInt8) (split : UInt8) (n : ℕ),
    SplitOk [] src split n (libStringSplit src split n) := by
  intro h
  have hwrite : ⟨1, some [98]⟩ ∈ (libStringSplit [97, 44, 98] 44 1).dst := by
    have hcut : (97 : UInt8) :: [44, 98] = [97] ++ 44 :: [98] := rfl
    rw [libStringSplit, if_neg (by decide), hcut, splitLoop_cut (by decide), if_neg (by decide),
      splitLoop_single (by decide), if_pos (by decide)]
    simp [splitWrite]
  exact absurd ((h [97, 44, 98] 44 1).inside _ hwrite) (by decide)

end Gendo
