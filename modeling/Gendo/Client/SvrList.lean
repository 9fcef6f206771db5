import Gendo.Library.StepSystem
import Mathlib.Data.Int.Basic
import Mathlib.Data.List.Perm.Basic

/-!
# The list of servers

`CGendoSvrList`, a vector of pointers to the records that `Insert` makes. The loop of `Remove` has
no body of its own: the statement behind it, which erases an element, is its body. So it erases
every other element in front of its end, and none where it ends at once.

`asSequence_iff` says which runs behave as a plain sequence: those that remove an element of the
list only where it is the first of two.
-/

namespace Gendo.Client

open StepSystem

/-- A `GendoSvr`: the number of its allocation, and what `Insert` stores in it. -/
structure GendoSvr (α : Type*) where
  addr : ℕ
  info : α
  deriving DecidableEq, Repr

/-- `CGendoSvrList`, with the records that were deleted. -/
structure CGendoSvrList (α : Type*) where
  /-- `m_pDuiList` -/
  duiList : Option ℕ
  /-- `m_pSvrList` -/
  svrs : List (GendoSvr α)
  freed : List (GendoSvr α)
  allocated : ℕ
  deriving DecidableEq, Repr

/-- The operations. -/
inductive SvrOp (α : Type*)
  | insert (pList : Option ℕ) (info : α)
  | remove (index : ℤ)
  | removeAll
  | get (index : ℤ)
  deriving DecidableEq, Repr

/-- What an operation returns: a number, or a pointer that may be NULL. -/
inductive SvrAnswer (α : Type*)
  | ret (r : ℤ)
  | svr (p : Option (GendoSvr α))
  deriving DecidableEq, Repr

namespace CGendoSvrList

variable {α : Type*}

/-- A list that was constructed. -/
def empty : CGendoSvrList α := ⟨none, [], [], 0⟩

/-- `Insert` -/
def insert (s : CGendoSvrList α) (pList : Option ℕ) (info : α) : CGendoSvrList α where
  duiList := s.duiList <|> pList
  svrs := s.svrs ++ [⟨s.allocated, info⟩]
  freed := s.freed
  allocated := s.allocated + 1

/-- The loop of `Remove`, with what the vector holds from the iterator on: what is left of it, and
what was deleted; or `none` when the iterator is moved past the end. -/
def removeLoop (index : ℤ) : ℤ → List (GendoSvr α) → Option (List (GendoSvr α) × List (GendoSvr α))
  | _, [] => some ([], [])
  | i, [pSvr] => if i = index - 1 then some ([pSvr], []) else none
  | i, pSvr :: next :: rest =>
    if i = index - 1 then some (pSvr :: next :: rest, [])
    else
      -- when the element is erased, the iterator is at the next one, and is moved on
      (removeLoop index (i + 1) rest).map fun r => (next :: r.1, pSvr :: r.2)

/-- `Remove`; `none` where its behaviour is undefined. -/
def remove (s : CGendoSvrList α) (index : ℤ) : Option (CGendoSvrList α) :=
  if index < 0 ∨ s.svrs.length ≤ index then some s
  else
    (removeLoop index 0 s.svrs).map fun r => { s with svrs := r.1, freed := s.freed ++ r.2 }

/-- The loop of `RemoveAll`: what is deleted. -/
def removeAllLoop : List (GendoSvr α) → List (GendoSvr α)
  | [] => []
  | pSvr :: rest => pSvr :: removeAllLoop rest

/-- `RemoveAll` -/
def removeAll (s : CGendoSvrList α) : CGendoSvrList α :=
  { s with svrs := [], freed := s.freed ++ removeAllLoop s.svrs }

/-- `Get` -/
def get (s : CGendoSvrList α) (index : ℤ) : Option (GendoSvr α) :=
  if index < 0 ∨ s.svrs.length ≤ index then none else s.svrs[index.toNat]?

/-- The list behind an operation. -/
def next (s : CGendoSvrList α) : SvrOp α → Option (CGendoSvrList α)
  | .insert pList info => some (s.insert pList info)
  | .remove index => s.remove index
  | .removeAll => some s.removeAll
  | .get _ => some s

/-- What an operation returns. -/
def answer (s : CGendoSvrList α) : SvrOp α → SvrAnswer α
  | .get index => .svr (s.get index)
  | _ => .ret 0

/-- Every record that was made is in the list, or was deleted, once. -/
def FreedOnce (s : CGendoSvrList α) : Prop :=
  ((s.svrs ++ s.freed).map GendoSvr.addr).Perm (List.range s.allocated)

end CGendoSvrList

/-! ## A plain sequence -/

section

variable {α β : Type*}

/-- A plain sequence behind an operation, where `new` is the element that is inserted. -/
def plainNext (new : α → β) (xs : List β) : SvrOp α → List β
  | .insert _ info => xs ++ [new info]
  | .remove i => if 0 ≤ i ∧ i < xs.length then xs.eraseIdx i.toNat else xs
  | .removeAll => []
  | .get _ => xs

/-- What an operation on a plain sequence returns. -/
def plainAnswer (xs : List (GendoSvr α)) : SvrOp α → SvrAnswer α
  | .get i => .svr (if 0 ≤ i then xs[i.toNat]? else none)
  | _ => .ret 0

/-- An operation does what it does to a plain sequence, and every record stays freed at most
once. -/
def AsSequence (s : Option (CGendoSvrList α)) (op : SvrOp α) (t : Option (CGendoSvrList α)) :
    Prop :=
  ∃ l l', s = some l ∧ t = some l' ∧ l'.svrs = plainNext (.mk l.allocated) l.svrs op ∧
    l.answer op = plainAnswer l.svrs op ∧ l'.FreedOnce

/-- The steps of the list; there are none behind undefined behaviour. -/
def SvrStep (s : Option (CGendoSvrList α)) (op : SvrOp α) (t : Option (CGendoSvrList α)) : Prop :=
  ∃ l, s = some l ∧ t = l.next op

/-- The run of some operations. -/
def svrRun (ops : List (SvrOp α)) : List (SvrOp α × Option (CGendoSvrList α)) :=
  runOf (fun s op => s.bind fun l => l.next op) (some .empty) ops

/-- An element is removed only where it is the first of two. -/
def FirstOfTwo (s : Option (CGendoSvrList α)) (op : SvrOp α) : Prop :=
  ∀ l i, s = some l → op = .remove i → 0 ≤ i → i < l.svrs.length → i = 0 ∧ l.svrs.length = 2

end

namespace CGendoSvrList

variable {α : Type*} {s t : CGendoSvrList α} {op : SvrOp α} {index i : ℤ}
  {svrs kept deleted : List (GendoSvr α)}

/-- With the first index the loop goes on to the end, and keeps every other element. -/
theorem length_of_removeLoop_zero (hi : 0 ≤ i)
    (h : removeLoop 0 i svrs = some (kept, deleted)) : svrs.length = 2 * kept.length := by
  fun_induction removeLoop 0 i svrs generalizing kept deleted with
  | case1 i =>
    cases h
    rfl
  | case2 pSvr => omega
  | case3 i pSvr hgo => cases h
  | case4 pSvr next rest => omega
  | case5 i pSvr next rest hgo ih =>
    obtain ⟨⟨kept', deleted'⟩, hrest, heq⟩ := Option.map_eq_some_iff.mp h
    cases heq
    have hlength := ih (by omega) hrest
    simp only [List.length_cons]
    omega

/-- With the second one it ends at once. -/
theorem removeLoop_one (svrs : List (GendoSvr α)) : removeLoop 1 0 svrs = some (svrs, []) := by
  rcases svrs with _ | ⟨pSvr, _ | ⟨next, rest⟩⟩
  · rfl
  · rw [removeLoop, if_pos (by decide)]
  · rw [removeLoop, if_pos (by decide)]

/-- With a later one, the first element is erased. -/
theorem head_of_removeLoop {pSvr : GendoSvr α} (hindex : 1 < index)
    (h : removeLoop index 0 (pSvr :: svrs) = some (kept, deleted)) : kept.head? = svrs.head? := by
  cases svrs with
  | nil =>
    rw [removeLoop, if_neg (by omega)] at h
    cases h
  | cons next rest =>
    rw [removeLoop, if_neg (by omega)] at h
    obtain ⟨r, -, heq⟩ := Option.map_eq_some_iff.mp h
    cases heq
    rfl

theorem removeAllLoop_eq (svrs : List (GendoSvr α)) : removeAllLoop svrs = svrs := by
  induction svrs with
  | nil => rfl
  | cons pSvr rest ih => rw [removeAllLoop, ih]

/-- The records of the list are different ones. -/
theorem FreedOnce.nodup (h : s.FreedOnce) : (s.svrs.map GendoSvr.addr).Nodup := by
  have hall := h.nodup_iff.mpr List.nodup_range
  rw [List.map_append] at hall
  exact (List.nodup_append.mp hall).1

theorem FreedOnce.insert (h : s.FreedOnce) (pList : Option ℕ) (info : α) :
    (s.insert pList info).FreedOnce := by
  obtain ⟨pSvr, hpSvr⟩ : ∃ pSvr : GendoSvr α, pSvr = ⟨s.allocated, info⟩ := ⟨_, rfl⟩
  have hmove : (s.svrs ++ [pSvr] ++ s.freed).Perm (s.svrs ++ s.freed ++ [pSvr]) := by
    rw [List.append_assoc, List.append_assoc]
    exact List.perm_append_comm.append_left s.svrs
  have haddr : ((s.svrs ++ s.freed ++ [pSvr]).map GendoSvr.addr).Perm
      (List.range (s.allocated + 1)) := by
    rw [List.map_append, hpSvr, List.range_succ]
    exact h.append_right [s.allocated]
  rw [FreedOnce, CGendoSvrList.insert, ← hpSvr]
  exact (hmove.map GendoSvr.addr).trans haddr

/-- Elements that go from the list to the deleted ones. -/
theorem FreedOnce.delete (h : s.FreedOnce) (hperm : (kept ++ deleted).Perm s.svrs) :
    FreedOnce { s with svrs := kept, freed := s.freed ++ deleted } := by
  have hmove : (kept ++ (s.freed ++ deleted)).Perm (s.svrs ++ s.freed) := by
    refine (List.perm_append_comm.append_left kept).trans ?_
    rw [← List.append_assoc]
    exact hperm.append_right s.freed
  exact (hmove.map GendoSvr.addr).trans h

/-- `Get` is that of the plain sequence. -/
theorem answer_eq (s : CGendoSvrList α) (op : SvrOp α) : s.answer op = plainAnswer s.svrs op := by
  cases op with
  | insert pList info => rfl
  | remove index => rfl
  | removeAll => rfl
  | get index =>
    rw [answer, plainAnswer, get]
    split_ifs with hout hpos
    · -- behind the end there is none
      rw [List.getElem?_eq_none (by omega)]
    · rfl
    · rfl
    · omega

/-- Where an element is removed only if it is the first of two, an operation does what it does to
a plain sequence. -/
theorem FreedOnce.asSequence (h : s.FreedOnce) (hop : FirstOfTwo (some s) op) :
    AsSequence (some s) op (s.next op) := by
  cases op with
  | insert pList info => exact ⟨s, _, rfl, rfl, rfl, answer_eq s _, h.insert pList info⟩
  | removeAll =>
    refine ⟨s, _, rfl, rfl, rfl, answer_eq s _, h.delete ?_⟩
    rw [removeAllLoop_eq, List.nil_append]
  | get index => exact ⟨s, s, rfl, rfl, rfl, answer_eq s _, h⟩
  | remove index =>
    by_cases hin : 0 ≤ index ∧ index < s.svrs.length
    · obtain ⟨rfl, htwo⟩ := hop s index rfl rfl hin.1 hin.2
      obtain ⟨p, q, hsvrs⟩ := List.length_eq_two.mp htwo
      have hloop : removeLoop 0 0 s.svrs = some ([q], [p]) := by
        rw [hsvrs]
        rfl
      refine ⟨s, { s with svrs := [q], freed := s.freed ++ [p] }, rfl, ?_, ?_, answer_eq s _,
        h.delete ?_⟩
      · rw [next, remove, if_neg (by omega), hloop]
        rfl
      · rw [plainNext, if_pos hin, hsvrs]
        rfl
      · rw [hsvrs]
        exact List.Perm.swap p q []
    · refine ⟨s, s, rfl, ?_, ?_, answer_eq s _, h⟩
      · rw [next, remove, if_pos (by omega)]
      · rw [plainNext, if_neg hin]

/-- An element that is removed as it is from a plain sequence was the first of two. -/
theorem FreedOnce.firstOfTwo (h : s.FreedOnce) (hplain : AsSequence (some s) op (s.next op)) :
    FirstOfTwo (some s) op := by
  rintro l index ⟨⟩ rfl hpos hlt
  obtain ⟨l, l', ⟨⟩, hnext, hsvrs, -, -⟩ := hplain
  rw [next, remove, if_neg (by omega)] at hnext
  obtain ⟨⟨kept, deleted⟩, hloop, rfl⟩ := Option.map_eq_some_iff.mp hnext
  rw [plainNext, if_pos ⟨hpos, hlt⟩] at hsvrs
  have hlength := congrArg List.length hsvrs
  rw [List.length_eraseIdx_of_lt (by omega)] at hlength
  rcases (by omega : index = 0 ∨ index = 1 ∨ 1 < index) with rfl | rfl | hlater
  · have hhalf := length_of_removeLoop_zero (Int.le_refl 0) hloop
    simp only at hlength
    omega
  · -- nothing was erased
    rw [removeLoop_one] at hloop
    cases hloop
    simp only at hlength
    omega
  · -- the first element was, and it is not the next one
    rcases hlist : s.svrs with _ | ⟨p, rest⟩
    · simp [hlist] at hlt
      omega
    · have hnodup := h.nodup
      rw [hlist] at hloop hsvrs hnodup
      have hhead := head_of_removeLoop hlater hloop
      obtain ⟨k, hk⟩ : ∃ k, index.toNat = k + 1 := ⟨index.toNat - 1, by omega⟩
      simp only [hk, List.eraseIdx_cons_succ] at hsvrs
      rw [hsvrs, List.head?_cons] at hhead
      have hmem : p ∈ rest := List.mem_of_head? hhead.symm
      rw [List.map_cons, List.nodup_cons] at hnodup
      exact absurd (List.mem_map_of_mem hmem) hnodup.1

end CGendoSvrList

open CGendoSvrList

variable {α : Type*}

theorem freedOnce_empty : (CGendoSvrList.empty : CGendoSvrList α).FreedOnce := by
  exact List.Perm.refl []

/-- A run of operations behaves as a plain sequence, with every record freed at most once, exactly
if elements are removed only where they are the first of two. -/
theorem asSequence_iff {r : List (SvrOp α × Option (CGendoSvrList α))}
    (hr : IsRun SvrStep (some .empty) r) :
    Along AsSequence (some .empty) r ↔ Guarded FirstOfTwo (some .empty) r := by
  have hguard : ∀ (s : Option (CGendoSvrList α)) op t, (∀ l ∈ s, l.FreedOnce) → SvrStep s op t →
      FirstOfTwo s op → AsSequence s op t ∧ ∀ l ∈ t, l.FreedOnce := by
    rintro s op t hs ⟨l, rfl, rfl⟩ hop
    have hplain := (hs l rfl).asSequence hop
    refine ⟨hplain, ?_⟩
    obtain ⟨-, l', -, hnext, -, -, hfreed⟩ := hplain
    rw [hnext]
    rintro _ ⟨⟩
    exact hfreed
  have hback : ∀ (s : Option (CGendoSvrList α)) op t, (∀ l ∈ s, l.FreedOnce) → SvrStep s op t →
      AsSequence s op t → FirstOfTwo s op := by
    rintro s op t hs ⟨l, rfl, rfl⟩ hplain
    exact (hs l rfl).firstOfTwo hplain
  refine along_iff_guarded hguard hback ?_ hr
  rintro _ ⟨⟩
  exact freedOnce_empty

/-- The first of two servers is removed, and one that is not there. -/
def twoServers : List (SvrOp ℕ) :=
  [.insert (some 1) 7, .insert (some 1) 8, .get 1, .remove 0, .remove 3, .removeAll]

theorem asSequence_iff_twoServers :
    Along AsSequence (some .empty) (svrRun twoServers) ↔
      Guarded FirstOfTwo (some .empty) (svrRun twoServers) :=
  asSequence_iff ⟨⟨_, rfl, rfl⟩, ⟨_, rfl, rfl⟩, ⟨_, rfl, rfl⟩, ⟨_, rfl, rfl⟩, ⟨_, rfl, rfl⟩,
    ⟨_, rfl, rfl⟩, trivial⟩

/-- The second of two servers is removed. -/
theorem not_asSequence_second :
    ¬∀ r : List (SvrOp ℕ × Option (CGendoSvrList ℕ)),
      IsRun SvrStep (some .empty) r → Along AsSequence (some .empty) r := by
  intro h
  obtain ⟨-, -, ⟨l, l', ⟨⟩, ⟨⟩, hsvrs, -, -⟩, -⟩ :=
    h (svrRun [.insert none 7, .insert none 8, .remove 1])
      ⟨⟨_, rfl, rfl⟩, ⟨_, rfl, rfl⟩, ⟨_, rfl, rfl⟩, trivial⟩
  exact absurd hsvrs (by decide)

end Gendo.Client
