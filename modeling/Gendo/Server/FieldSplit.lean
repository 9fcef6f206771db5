import Gendo.Library.PointerScan
import Gendo.Library.Runs
import Gendo.Server.IpMask

/-!
# Splitting a line into fields

`GetField`, `vgetw` and `get_word` of `lib-file.c` with their pointers, for every number of a field.
From the front, the loop tests for the terminator before it goes on, and finds what `getFieldBy` and
`vgetwBy` say. From the end (`f` is -1), it reads a character before it compares the pointer with
the start of the line.

`fieldsOk_iff` says when this is no matter: exactly if there is a separator in front of the last
field.
-/

namespace Gendo

namespace FieldSplit

open ByteMemory (CString)
open PointerScan
open Runs

/-! ## The functions -/

/-- The separators. -/
def separators (spchar : Option CString) : CString :=
  match spchar with
  | some sp => if sp.1 = [] then ⟨[32, 9, 10, 13], by decide⟩ else sp
  | none => ⟨[32, 9, 10, 13], by decide⟩

/-- The variables of the loops. A pointer is an offset into the line; where `p1` and `p2` are null,
all that counts is that they are the same. -/
structure Scan where
  i : ℤ
  line : ℤ
  p1 : ℤ
  p2 : ℤ

/-- Behind the loops: the ends of the field, if there are enough of them. -/
def Scan.ends (st : Scan) (f : ℤ) : Option (ℤ × ℤ) :=
  if st.i ≠ f ∨ st.p2 - st.p1 ≤ 0 then none else some (st.p1, st.p2)

/-- One turn of the loop from the front. -/
def fieldStep (sp s : CString) (st : Scan) : Option Scan := do
  -- the head sep
  let p1 ← scanForward s (fun c => c ≠ 0 && strchr sp c) st.line
  let p2 ← scanForward s (fun c => c ≠ 0 && !strchr sp c) p1
  let c ← charAt s p2
  return ⟨st.i + 1, if c ≠ 0 then p2 + 1 else p2, p1, p2⟩

/-- The loop from the front, where `f - i` is given. -/
def fieldLoop (sp s : CString) : ℕ → Scan → Option Scan
  | 0, st => some st
  | k + 1, st => do
    let c ← charAt s st.line
    if c ≠ 0 then fieldLoop sp s k (← fieldStep sp s st) else return st

/-- The last field. -/
def lastField (sp s : CString) : Option Scan := do
  -- the last sep
  let p2 ← scanBack s (strchr sp) (s.1.length - 1)
  let p1 ← scanBack s (fun c => !strchr sp c) p2
  return ⟨-1, 0, p1 + 1, p2 + 1⟩

/-- What the three functions have in common: where a field begins and ends, if there is one. -/
def fieldEnds (sp s : CString) (f : ℤ) : Option (Option (ℤ × ℤ)) := do
  let st ← if f = -1 then lastField sp s else fieldLoop sp s f.toNat ⟨0, 0, 0, 0⟩
  return st.ends f

/-- What they do then: `size` characters of the field at most are copied. -/
def copyField (s : CString) (ends : Option (ℤ × ℤ)) (size : ℤ) : Option (Option (List UInt8)) :=
  match ends with
  | none => some none
  | some (p1, p2) => (strncpy s p1 (min (p2 - p1) size).toNat).map some

/-- `GetField`: the string in `field`, or `NULL`. -/
def getField (spchar : Option CString) (line : CString) (f : ℤ) : Option (Option (List UInt8)) := do
  copyField line (← fieldEnds (separators spchar) line f) (LINE_BUF_LEN - 1)

/-- `vgetw`: the string in `field`, which has `len` bytes, or `NULL`. -/
def vgetw (spchar : Option CString) (line : CString) (f len : ℤ) :
    Option (Option (List UInt8)) := do
  if f = 0 then
    -- until space
    let name ← scanForward line (fun c => c ≠ 0 && !strchr (separators spchar) c) 0
    -- skip space between name and value
    let value ← scanForward line isSpace name
    (strncpy line value (min (len - 1) (line.1.length - value)).toNat).map some
  else
    copyField line (← fieldEnds (separators spchar) line f) (len - 1)

/-- `get_word`: the string in `field`, or `false`. All of the field is copied. -/
def getWord (spchar : Option CString) (line : CString) (f : ℤ) : Option (Option (List UInt8)) := do
  match ← fieldEnds (separators spchar) line f with
  | none => some none
  | some (p1, p2) => (strncpy line p1 (p2 - p1).toNat).map some

/-! ## What they are for -/

/-- The field of a line with a number: the runs count from 1 on, and -1 is the last one. -/
def fieldOf (sp line : List UInt8) (f : ℤ) : Option (List UInt8) :=
  if f = -1 then (runs sp.contains line).getLast?
  else if 1 ≤ f then (runs sp.contains line)[(f - 1).toNat]?
  else none

/-- No character outside of the line is read, and the field is returned, as far as there is room for
it. For 0, `vgetw` returns something else. -/
structure FieldsOk (spchar : Option CString) (line : CString) (f : ℤ) : Prop where
  getField : getField spchar line f =
    some ((fieldOf (separators spchar).1 line.1 f).map fun run => run.take (LINE_BUF_LEN - 1))
  vgetw : ∀ len : ℕ, 0 < len → ∃ r, vgetw spchar line f len = some r ∧
    (f ≠ 0 → r = (fieldOf (separators spchar).1 line.1 f).map fun run => run.take (len - 1))
  getWord : getWord spchar line f = some (fieldOf (separators spchar).1 line.1 f)

/-- The line without the separators at its end. -/
def trimmed (sp s : CString) : List UInt8 := s.1.rdropWhile sp.1.contains

/-! ## From the front -/

section Front

variable {sp s : CString} {front rest : List UInt8} {st : Scan}

theorem ne_zero_of_mem (s : CString) {c : UInt8} (hc : c ∈ s.1) : c ≠ 0 :=
  fun hzero => s.2 (hzero ▸ hc)

/-- What is looked for behind a part of the line. -/
theorem scanForward_sep (hs : s.1 = front ++ rest) :
    scanForward s (fun c => c ≠ 0 && strchr sp c) front.length =
      some ((front ++ rest.takeWhile sp.1.contains).length : ℤ) := by
  refine scanForward_eq hs rfl fun c hc => ?_
  have hne : c ≠ 0 := ne_zero_of_mem s (by rw [hs]; exact List.mem_append_right _ hc)
  simp [hne, strchr_of_ne_zero sp hne]

theorem scanForward_notSep (hs : s.1 = front ++ rest) :
    scanForward s (fun c => c ≠ 0 && !strchr sp c) front.length =
      some ((front ++ rest.takeWhile fun c => !sp.1.contains c).length : ℤ) := by
  refine scanForward_eq hs rfl fun c hc => ?_
  have hne : c ≠ 0 := ne_zero_of_mem s (by rw [hs]; exact List.mem_append_right _ hc)
  simp [hne, strchr_of_ne_zero sp hne]

/-- The ends of a field in the line, or none. -/
def Delimits (s : CString) (ends : Option (ℤ × ℤ)) : Option (List UInt8) → Prop
  | none => ends = none
  | some run => ∃ front back, s.1 = front ++ (run ++ back) ∧ run ≠ [] ∧
      ends = some (↑front.length, ↑(front ++ run).length)

theorem lt_of_delimits {p1 p2 : ℤ} {r : Option (List UInt8)} (h : Delimits s (some (p1, p2)) r) :
    p1 < p2 := by
  rcases r with _ | run
  · contradiction
  · obtain ⟨front, back, -, hne, hends⟩ := h
    obtain ⟨rfl, rfl⟩ := Prod.mk.inj (Option.some_inj.1 hends)
    have hpos := List.length_pos_iff.2 hne
    rw [List.length_append]
    omega

/-- One turn goes over separators, a run and the separator behind it. The run is what `fieldAt`
finds, and it goes on behind that separator. -/
theorem fieldStep_eq (sp : CString) (hs : s.1 = front ++ rest) (hline : st.line = front.length) :
    ∃ head run back, s.1 = head ++ (run ++ back) ∧
      fieldStep sp s st = some ⟨st.i + 1, ↑(head ++ (run ++ back.take 1)).length, ↑head.length,
        ↑(head ++ run).length⟩ ∧
      (fieldAt sp.1 0 rest = if run = [] then none else some run) ∧
      ∀ k, fieldAt sp.1 (k + 1) rest = fieldAt sp.1 k (back.drop 1) := by
  let head := front ++ rest.takeWhile sp.1.contains
  let body := rest.dropWhile sp.1.contains
  let run := body.takeWhile fun c => !sp.1.contains c
  let back := body.dropWhile fun c => !sp.1.contains c
  have hbody : s.1 = head ++ body := by
    rw [hs, List.append_assoc, List.takeWhile_append_dropWhile]
  have hcut : run ++ back = body := List.takeWhile_append_dropWhile
  have hback : s.1 = (head ++ run) ++ back := by
    rw [hbody, ← hcut, ← List.append_assoc head run back]
  refine ⟨head, run, back, by rw [hbody, hcut], ?_, rfl, fun k => rfl⟩
  simp only [fieldStep, hline, scanForward_sep hs, Option.bind_eq_bind, Option.bind_some]
  rw [scanForward_notSep hbody, Option.bind_some, charAt_length hback, Option.bind_some]
  -- behind the run there is a separator to step over, or the terminator
  rcases hcases : back with _ | ⟨c, back'⟩
  · rw [List.take_nil, List.append_nil]
    rfl
  · have hne : c ≠ 0 := ne_zero_of_mem s (by rw [hback, hcases]; simp)
    have hlen : ((head ++ (run ++ [c])).length : ℤ) = (head ++ run).length + 1 := by
      rw [← List.append_assoc, List.length_append, List.length_singleton, Nat.cast_add,
        Nat.cast_one]
    rw [List.take_succ_cons, List.take_zero, hlen, List.headD_cons, if_pos hne]
    rfl

@[simp]
theorem fieldAt_nil (sep : List UInt8) (f : ℕ) : fieldAt sep f [] = none := by
  induction f with
  | zero => rfl
  | succ f ih => exact ih

/-- At the end of the line the loop stops, with a turn left. -/
theorem fieldLoop_stop (sp : CString) (k : ℕ) (hs : s.1 = front) (hline : st.line = front.length) :
    fieldLoop sp s (k + 1) st = some st ∧ st.ends (st.i + (k + 1 : ℕ)) = none := by
  have hread : charAt s st.line = some 0 := by
    rw [hline]
    exact charAt_length (by rw [hs, List.append_nil])
  constructor
  · rw [fieldLoop, hread]
    rfl
  · exact if_pos (.inl (by omega))

theorem fieldLoop_turn {c : UInt8} (k : ℕ) (hs : s.1 = front ++ c :: rest)
    (hline : st.line = front.length) :
    fieldLoop sp s (k + 1) st = (fieldStep sp s st).bind (fieldLoop sp s k) := by
  have hne : c ≠ 0 := ne_zero_of_mem s (by rw [hs]; simp)
  have hread : charAt s st.line = some c := by
    rw [hline]
    exact charAt_length hs
  simp [fieldLoop, hread, hne]

/-- The loop finds what `fieldAt` finds. The induction is on the turns, and the line is cut at the
pointer. -/
theorem fieldLoop_eq (sp : CString) (st : Scan) (k : ℕ) (hs : s.1 = front ++ rest)
    (hline : st.line = front.length) :
    ∃ st', fieldLoop sp s (k + 1) st = some st' ∧
      Delimits s (st'.ends (st.i + (k + 1 : ℕ))) (fieldAt sp.1 k rest) := by
  induction k generalizing front rest st with
  | zero =>
    rcases rest with _ | ⟨c, rest⟩
    · obtain ⟨hloop, hends⟩ := fieldLoop_stop sp 0 (by simpa using hs) hline
      rw [fieldAt_nil]
      exact ⟨st, hloop, hends⟩
    · obtain ⟨head, run, back, hcut, hstep, hfield, -⟩ := fieldStep_eq sp hs hline
      refine ⟨_, by rw [fieldLoop_turn 0 hs hline, hstep]; rfl, ?_⟩
      rw [hfield]
      -- an empty run was read up to the terminator, and the lengths are the same
      split_ifs with hrun
      · exact if_pos (.inr (by simp [hrun]))
      · have hpos := List.length_pos_iff.2 hrun
        refine ⟨head, back, hcut, hrun, if_neg ?_⟩
        have hlen : (head ++ run).length = head.length + run.length := List.length_append
        dsimp only
        omega
  | succ k ih =>
    rcases rest with _ | ⟨c, rest⟩
    · obtain ⟨hloop, hends⟩ := fieldLoop_stop sp (k + 1) (by simpa using hs) hline
      rw [fieldAt_nil]
      exact ⟨st, hloop, hends⟩
    · obtain ⟨head, run, back, hcut, hstep, -, hfield⟩ := fieldStep_eq sp hs hline
      have hnext : s.1 = (head ++ (run ++ back.take 1)) ++ back.drop 1 := by
        rw [hcut, List.append_assoc, List.append_assoc, List.take_append_drop]
      rw [fieldLoop_turn (k + 1) hs hline, hstep, hfield, Option.bind_some, Nat.cast_succ (k + 1),
        add_comm ((k + 1 : ℕ) : ℤ), ← add_assoc]
      exact ih _ hnext rfl

end Front

/-! ## From the end -/

section Last

variable {sp s : CString}

/-- What stands in front of the last run, if there is one. -/
def beforeLast (sp s : CString) : List UInt8 := (trimmed sp s).rdropWhile fun c => !sp.1.contains c

/-- Behind it stand the separators. -/
theorem trimmed_append (sp s : CString) :
    s.1 = trimmed sp s ++ s.1.rtakeWhile sp.1.contains := List.rdropWhile_append_rtakeWhile.symm

theorem strchr_of_mem {front rest : List UInt8} (sp : CString) (hs : s.1 = front ++ rest) :
    ∀ c ∈ front, strchr sp c = sp.1.contains c := by
  intro c hc
  exact strchr_of_ne_zero sp (ne_zero_of_mem s (by rw [hs]; exact List.mem_append_left _ hc))

/-- From the end, the first loop goes over the separators there, and the second one over the last
run. Each needs a character in front of them to stop at. -/
theorem lastField_eq (sp s : CString) :
    lastField sp s = if beforeLast sp s = [] then none
      else some ⟨-1, 0, (beforeLast sp s).length, (trimmed sp s).length⟩ := by
  have hall : s.1 = s.1 ++ [] := (List.append_nil s.1).symm
  have htrim := trimmed_append sp s
  have hend : scanBack s (strchr sp) (s.1.length - 1) =
      if trimmed sp s = [] then none else some ((trimmed sp s).length - 1 : ℤ) :=
    scanBack_eq hall (strchr_of_mem sp hall)
  have hfront : scanBack s (fun c => !strchr sp c) ((trimmed sp s).length - 1) =
      if beforeLast sp s = [] then none else some ((beforeLast sp s).length - 1 : ℤ) :=
    scanBack_eq htrim fun c hc => congrArg (!·) (strchr_of_mem sp htrim c hc)
  rw [lastField, hend]
  -- where the line has separators only, the first loop passes its start, else the second one may
  by_cases hnil : trimmed sp s = []
  · rw [if_pos hnil, if_pos (by simp [beforeLast, hnil])]
    rfl
  · rw [if_neg hnil, Option.bind_eq_bind, Option.bind_some, hfront]
    split_ifs with hnone
    · rfl
    · simp

/-- Where it stops in the line, it has found the ends of the last run. -/
theorem delimits_last (h : beforeLast sp s ≠ []) :
    Delimits s (some (↑(beforeLast sp s).length, ↑(trimmed sp s).length))
      (runs sp.1.contains s.1).getLast? := by
  have hne : trimmed sp s ≠ [] := fun hnil => h (by simp [beforeLast, hnil])
  have hlast := getLast?_runs hne
  have hcut : beforeLast sp s ++ (trimmed sp s).rtakeWhile (fun c => !sp.1.contains c) =
      trimmed sp s := List.rdropWhile_append_rtakeWhile
  rw [hlast]
  have hrun := ne_nil_of_mem_runs (List.mem_of_getLast? hlast)
  refine ⟨beforeLast sp s, s.1.rtakeWhile sp.1.contains, ?_, hrun, ?_⟩
  · rw [← List.append_assoc]
    exact (trimmed_append sp s).trans (congrArg (· ++ s.1.rtakeWhile sp.1.contains) hcut.symm)
  · exact congrArg (fun l : List UInt8 => some (_, (l.length : ℤ))) hcut.symm

/-- Something stands in front of the last run exactly if a separator does. -/
theorem beforeLast_eq_nil_iff : beforeLast sp s = [] ↔ ∀ c ∈ trimmed sp s, c ∉ sp.1 := by
  simp [beforeLast, List.rdropWhile_eq_nil_iff]

end Last

/-! ## The three functions -/

section Fields

variable {spchar : Option CString} {line : CString} {f : ℤ}

/-- `fieldAt` finds the runs. -/
theorem fieldAt_eq_runs (sep : List UInt8) (f : ℕ) (line : List UInt8) :
    fieldAt sep f line = (runs sep.contains line)[f]? := by
  induction f generalizing line with
  | zero =>
    rw [runs_eq, fieldAt]
    split_ifs <;> rfl
  | succ f ih =>
    rw [runs_eq, fieldAt, ih]
    split_ifs with hrun
    · rw [dropWhile_eq_nil_of_takeWhile hrun]
      simp
    · rfl

/-- From the front, the ends of every field are found. -/
theorem fieldEnds_of_ne (sp s : CString) (hf : f ≠ -1) :
    ∃ ends, fieldEnds sp s f = some ends ∧ Delimits s ends (fieldOf sp.1 s.1 f) := by
  rw [fieldEnds, if_neg hf, fieldOf, if_neg hf]
  split_ifs with hpos
  · obtain ⟨k, rfl⟩ : ∃ k : ℕ, f = (k + 1 : ℕ) := ⟨(f - 1).toNat, by omega⟩
    obtain ⟨st, hloop, hends⟩ := fieldLoop_eq sp ⟨0, 0, 0, 0⟩ k (List.nil_append s.1).symm rfl
    rw [zero_add, fieldAt_eq_runs] at hends
    refine ⟨st.ends (k + 1 : ℕ), ?_, by simpa using hends⟩
    rw [Int.toNat_natCast, hloop]
    rfl
  · have hzero : f.toNat = 0 := by omega
    rw [hzero]
    exact ⟨_, rfl, if_pos (.inr le_rfl)⟩

/-- From the end, the first character of the line is passed if no separator is in front. -/
theorem fieldEnds_last_of_nil {sp s : CString} (h : beforeLast sp s = []) :
    fieldEnds sp s (-1) = none := by
  rw [fieldEnds, if_pos rfl, lastField_eq, if_pos h]
  rfl

theorem fieldEnds_last {sp s : CString} (h : beforeLast sp s ≠ []) :
    ∃ ends, fieldEnds sp s (-1) = some ends ∧ Delimits s ends (fieldOf sp.1 s.1 (-1)) := by
  have hdel := delimits_last h
  have hlt := lt_of_delimits hdel
  refine ⟨some (↑(beforeLast sp s).length, ↑(trimmed sp s).length), ?_, hdel⟩
  rw [fieldEnds, if_pos rfl, lastField_eq, if_neg h]
  refine congrArg some (if_neg ?_)
  dsimp only
  omega

/-- Between its ends, a field is copied as far as there is room. -/
theorem copyField_eq {s : CString} {ends : Option (ℤ × ℤ)} {r : Option (List UInt8)}
    (h : Delimits s ends r) (size : ℕ) :
    copyField s ends size = some (r.map fun run => run.take size) := by
  rcases r with _ | run
  · rw [show ends = none from h]
    rfl
  · obtain ⟨front, back, hs, -, rfl⟩ := h
    have hlen : min (((front ++ run).length : ℤ) - front.length) size =
        (min run.length size : ℕ) := by
      rw [List.length_append]
      omega
    rw [copyField, hlen, Int.toNat_natCast, strncpy_length hs, Option.map_some, Option.map_some,
      List.take_append_of_le_length (min_le_left _ _), min_comm, ← List.take_take, List.take_length]

/-- Without a bound, all of it is copied. -/
theorem getWord_of_ends {ends : Option (ℤ × ℤ)} {r : Option (List UInt8)}
    (hends : fieldEnds (separators spchar) line f = some ends) (h : Delimits line ends r) :
    getWord spchar line f = some r := by
  rw [getWord, hends]
  rcases r with _ | run
  · rw [show ends = none from h]
    rfl
  · obtain ⟨front, back, hs, -, rfl⟩ := h
    have hlen : (((front ++ run).length : ℤ) - front.length).toNat = run.length := by
      rw [List.length_append]
      omega
    rw [Option.bind_eq_bind, Option.bind_some]
    dsimp only
    rw [hlen, strncpy_length hs, List.take_left, Option.map_some]

/-- The ends of a field are found, but for the last one without a separator in front. -/
theorem fieldEnds_eq (sp s : CString) (h : f = -1 → beforeLast sp s ≠ []) :
    ∃ ends, fieldEnds sp s f = some ends ∧ Delimits s ends (fieldOf sp.1 s.1 f) := by
  by_cases hf : f = -1
  · subst hf
    exact fieldEnds_last (h rfl)
  · exact fieldEnds_of_ne sp s hf

/-- For 0, `vgetw` returns what stands behind the name. -/
theorem vgetw_zero (spchar : Option CString) (line : CString) {len : ℕ} (hlen : 0 < len) :
    vgetw spchar line 0 len = some (some
      (((line.1.dropWhile fun c => !(separators spchar).1.contains c).dropWhile isSpace).take
        (len - 1))) := by
  let name := line.1.takeWhile fun c => !(separators spchar).1.contains c
  let rest := line.1.dropWhile fun c => !(separators spchar).1.contains c
  have hrest : line.1 = name ++ rest := List.takeWhile_append_dropWhile.symm
  have hvalue : line.1 = (name ++ rest.takeWhile isSpace) ++ rest.dropWhile isSpace := by
    rw [List.append_assoc, List.takeWhile_append_dropWhile, ← hrest]
  have hname : scanForward line (fun c => c ≠ 0 && !strchr (separators spchar) c) 0 =
      some (name.length : ℤ) := scanForward_notSep (List.nil_append line.1).symm
  have hspace : scanForward line isSpace name.length =
      some ((name ++ rest.takeWhile isSpace).length : ℤ) :=
    scanForward_eq hrest rfl fun _ _ => rfl
  -- what is left of the line is copied with its terminator, if the buffer has room
  have hsize : min ((len : ℤ) - 1) (line.1.length - (name ++ rest.takeWhile isSpace).length) =
      (min (len - 1) (rest.dropWhile isSpace).length : ℕ) := by
    have hsum := congrArg List.length hvalue
    rw [List.length_append] at hsum
    omega
  rw [vgetw, if_pos rfl, hname, Option.bind_eq_bind, Option.bind_some, hspace, Option.bind_some,
    hsize, Int.toNat_natCast, strncpy_length hvalue, Option.map_some, ← List.take_take,
    List.take_length]

/-- Where the ends are found, the fields are as they should be. -/
theorem fieldsOk_of_ends {ends : Option (ℤ × ℤ)}
    (hends : fieldEnds (separators spchar) line f = some ends)
    (hdel : Delimits line ends (fieldOf (separators spchar).1 line.1 f)) :
    FieldsOk spchar line f where
  getField := by
    rw [getField, hends]
    exact copyField_eq hdel _
  vgetw len hlen := by
    by_cases hzero : f = 0
    · subst hzero
      exact ⟨_, vgetw_zero spchar line hlen, fun h => absurd rfl h⟩
    · refine ⟨_, ?_, fun _ => rfl⟩
      rw [vgetw, if_neg hzero, hends, Option.bind_eq_bind, Option.bind_some,
        ← Nat.cast_pred hlen]
      exact copyField_eq hdel _
  getWord := getWord_of_ends hends hdel

/-- From the front, `GetField` is what the reader of addresses takes it for. -/
theorem getField_succ (spchar : Option CString) (line : CString) (f : ℕ) :
    getField spchar line (f + 1) = some (getFieldBy (separators spchar).1 f line.1) := by
  obtain ⟨ends, hends, hdel⟩ := fieldEnds_of_ne (f := f + 1) (separators spchar) line (by omega)
  rw [(fieldsOk_of_ends hends hdel).getField, fieldOf, if_neg (by omega), if_pos (by omega),
    getFieldBy, fieldAt_eq_runs, add_sub_cancel_right, Int.toNat_natCast]

/-- `vgetw` as well; and for 0 it is what the reader of the config takes it for. -/
theorem vgetw_succ (spchar : Option CString) (line : CString) (f : ℕ) {len : ℕ} (hlen : 0 < len) :
    vgetw spchar line (f + 1) len = some (vgetwBy (separators spchar).1 f line.1 len) := by
  obtain ⟨ends, hends, hdel⟩ := fieldEnds_of_ne (f := f + 1) (separators spchar) line (by omega)
  obtain ⟨r, hr, hfield⟩ := (fieldsOk_of_ends hends hdel).vgetw len hlen
  rw [hr, hfield (by omega), fieldOf, if_neg (by omega), if_pos (by omega), vgetwBy,
    fieldAt_eq_runs, add_sub_cancel_right, Int.toNat_natCast]

theorem vgetw_none_zero (line : CString) {len : ℕ} (hlen : 0 < len) :
    vgetw none line 0 len = some (some (Gendo.vgetw line.1 len)) := by
  have hsep : (fun c => !(separators none).1.contains c) = fun c => !isSep c := by
    funext c
    simp [separators, isSep, Bool.or_assoc]
  rw [vgetw_zero none line hlen, hsep]
  rfl

/-- Without a separator in front of the last field, the functions read outside of the line. -/
theorem not_fieldsOk_last (h : beforeLast (separators spchar) line = []) :
    ¬FieldsOk spchar line (-1) := by
  intro hok
  have hread := hok.getWord
  rw [getWord, fieldEnds_last_of_nil h] at hread
  contradiction

/-- The fields of a line are split off exactly if it is not the last one that is looked for, or if a
separator is in front of the last one. -/
theorem fieldsOk_iff (spchar : Option CString) (line : CString) (f : ℤ) :
    FieldsOk spchar line f ↔
      (f = -1 → ∃ c ∈ trimmed (separators spchar) line, c ∈ (separators spchar).1) := by
  constructor
  · rintro hok rfl
    by_contra hnone
    push Not at hnone
    exact not_fieldsOk_last (beforeLast_eq_nil_iff.2 hnone) hok
  · intro hsep
    have hstop : f = -1 → beforeLast (separators spchar) line ≠ [] := by
      intro hf hnil
      obtain ⟨c, hc, hmem⟩ := hsep hf
      exact beforeLast_eq_nil_iff.1 hnil c hc hmem
    obtain ⟨ends, hends, hdel⟩ := fieldEnds_eq (separators spchar) line hstop
    exact fieldsOk_of_ends hends hdel

/-- No field is split off from the end of a line that is one field. -/
theorem not_fieldsOk : ¬∀ (sp line : CString) (f : ℤ), sp.1 ≠ [] → FieldsOk (some sp) line f := by
  intro h
  refine not_fieldsOk_last ?_ (h ⟨[32], by decide⟩ ⟨[97, 98, 99], by decide⟩ (-1) (by decide))
  decide

end Fields

end FieldSplit

end Gendo
