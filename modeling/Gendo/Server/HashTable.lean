import Gendo.Library.StepSystem
import Gendo.Server.LibList
import Gendo.Server.PollRegistry
import Mathlib.Data.List.Range

/-!
# The hash table of `lib-hash.c`, pointer by pointer

A table is an array of list heads, and a node is linked into the list of its key. `TableLinks` says
that the links hold a table of lists, which the functions that add and delete keep. A node that is
in no list may be deleted nevertheless: its own fields are NULL, or lead back to itself.

Every function takes the lock of the table, but for `hash_empty`; a call is one step.
-/

namespace Gendo

open LinkedList StepSystem

/-- The list nodes: the heads of the table, and the node of every element. -/
inductive HashNode (α : Type)
  | head (i : ℕ)
  | node (a : α)
  deriving DecidableEq, Repr

variable {α σ : Type} [DecidableEq α]

/-! ## The functions -/

/-- `lib_list_del_init` -/
def libListDelInit {ν : Type} [DecidableEq ν] (L : Links ν) (entry : ν) : Links ν :=
  initLibList (libListDelBetween L (L.prev entry) (L.next entry)) entry

/-- `lib_list_empty` -/
def libListEmpty {ν : Type} [DecidableEq ν] (L : Links ν) (head : ν) : Bool :=
  L.next head = some head

/-- `hash_create`, as far as the links go. -/
def hashCreate (size : ℕ) (L : Links (HashNode α)) : Links (HashNode α) :=
  (List.range size).foldl (fun L i => initLibList L (.head i)) L

/-- `hash_init` -/
def hashInit (a : α) (L : Links (HashNode α)) : Links (HashNode α) := initLibList L (.node a)

/-- `hash_add`, with the value of `create_key` for the node. -/
def hashAddNode (size : ℕ) (key : ℤ) (a : α) (L : Links (HashNode α)) :
    Except Stop (ℤ × Links (HashNode α)) :=
  if key < 0 ∨ key ≥ size then
    .ok (-1, L)
  else do
    let L ← libListAddTail L (.node a) (.head key.toNat)
    return (0, L)

/-- `hash_del` -/
def hashDelNode (a : α) (L : Links (HashNode α)) : ℤ × Links (HashNode α) :=
  (0, libListDel L (.node a))

/-- The body of the loop in `_hash_walk`. `func` works on memory of its own. -/
def hashWalkItem (func : α → σ → ℤ × σ) (x : HashNode α)
    (s : Links (HashNode α) × σ × Option α) :
    Except Stop (Bool × (Links (HashNode α) × σ × Option α)) :=
  match x with
  -- `lib_list_entry` of a head is no element
  | .head _ => .error .nullPointer
  | .node a =>
    let (ret, mem) := func a s.2.1
    if ret < 0 then .ok (true, (s.1, mem, some a)) else .ok (false, (s.1, mem, none))

/-- `_hash_walk` -/
def hashWalkList (rounds : ℕ) (func : α → σ → ℤ × σ) (head : ℕ) (L : Links (HashNode α)) (mem : σ) :
    Except Stop (Option α × σ) := do
  let s ← libListForEach (fun s => s.1) (.head head) (hashWalkItem func) rounds
    (L.next (.head head)) (L, mem, none)
  return (s.2.2, s.2.1)

/-- The loop of `hash_walk` over all lists. -/
def hashWalkLists (rounds : ℕ) (func : α → σ → ℤ × σ) (L : Links (HashNode α)) :
    List ℕ → σ → Except Stop (Option α × σ)
  | [], mem => .ok (none, mem)
  | i :: is, mem => do
    let (node, mem) ← hashWalkList rounds func i L mem
    if node.isSome then
      return (node, mem)
    hashWalkLists rounds func L is mem

/-- `hash_walk` -/
def hashWalkNodes (rounds size : ℕ) (key : ℤ) (func : α → σ → ℤ × σ) (L : Links (HashNode α))
    (mem : σ) : Except Stop (Option α × σ) := do
  let (node, mem) ←
    if 0 ≤ key ∧ key < size then hashWalkList rounds func key.toNat L mem else .ok (none, mem)
  -- `size` itself stands for all lists
  if key = size then
    hashWalkLists rounds func L (List.range size) mem
  else
    return (node, mem)

/-- The body of the loop in `hash_num`. -/
def hashNumItem (_ : HashNode α) (s : Links (HashNode α) × ℤ) :
    Except Stop (Bool × (Links (HashNode α) × ℤ)) :=
  .ok (false, (s.1, s.2 + 1))

/-- `hash_num` -/
def hashNum (rounds size : ℕ) (L : Links (HashNode α)) : Except Stop ℤ :=
  (List.range size).foldlM (fun num i =>
    Prod.snd <$> libListForEach (fun s => s.1) (.head i) hashNumItem rounds (L.next (.head i))
      (L, num)) 0

/-- `hash_empty` -/
def hashEmpty (size : ℕ) (L : Links (HashNode α)) : ℤ :=
  if (List.range size).all fun i => libListEmpty L (.head i) then 1 else 0

/-- The body of the loop in `hash_free_all`. The links of an element that was freed are gone. -/
def hashFreeItem (x : HashNode α) (s : Links (HashNode α) × List α) :
    Except Stop (Links (HashNode α) × List α) :=
  match x with
  | .head _ => .error .nullPointer
  | .node a =>
    let L := libListDelInit s.1 (.node a)
    .ok ((L.setNext (.node a) none).setPrev (.node a) none, s.2 ++ [a])

/-- `hash_free_all`: what the function `free` was called with. -/
def hashFreeAll (rounds size : ℕ) (L : Links (HashNode α)) :
    Except Stop (Links (HashNode α) × List α) :=
  (List.range size).foldlM (fun s i =>
    libListForEachSafe (fun s => s.1) (.head i) hashFreeItem rounds (s.1.next (.head i))
      (s.1.next (.head i) >>= s.1.next) s) (L, [])

/-- The body of the loop in `hash_walk_all`. `pFun` reads the element only. -/
def hashWalkAllItem (x : HashNode α) (s : Links (HashNode α) × List α) :
    Except Stop (Links (HashNode α) × List α) :=
  match x with
  | .head _ => .error .nullPointer
  | .node a => .ok (s.1, s.2 ++ [a])

/-- `hash_walk_all`: what the function `pFun` was called with. -/
def hashWalkAll (rounds size : ℕ) (L : Links (HashNode α)) : Except Stop (List α) :=
  Prod.snd <$> (List.range size).foldlM (fun s i =>
    libListForEachSafe (fun s => s.1) (.head i) hashWalkAllItem rounds (s.1.next (.head i))
      (s.1.next (.head i) >>= s.1.next) s) (L, [])

/-! ## Links that hold a table -/

/-- A node of no list: its fields are NULL, or it is its own neighbour. -/
def Idle {ν : Type} (L : Links ν) (x : ν) : Prop :=
  L.next x = none ∧ L.prev x = none ∨ L.next x = some x ∧ L.prev x = some x

/-- The links are the same at a node. -/
def SameAt {ν : Type} (L L' : Links ν) (x : ν) : Prop := L'.next x = L.next x ∧ L'.prev x = L.prev x

theorem Idle.congr {ν : Type} {L L' : Links ν} {x : ν} (h : Idle L x) (hsame : SameAt L L' x) :
    Idle L' x := by
  rw [Idle, hsame.1, hsame.2]
  exact h

section Frame

variable {ν : Type} [DecidableEq ν] {L : Links ν} {h n y : ν} {xs ys : List ν}

/-- `lib_list_add_tail` writes to the new node and to the list only. -/
theorem exists_libListAddTail_frame (hr : Ring L h xs) (hn : n ∉ h :: xs) :
    ∃ L', libListAddTail L n h = .ok L' ∧ Ring L' h (xs ++ [n]) ∧
      ∀ y, y ≠ n → y ∉ h :: xs → SameAt L L' y := by
  have hadd : libListAddTail L n h = .ok (L.insert n (xs.getLastD h) h) := by
    rw [libListAddTail, hr.prev_head]
    rfl
  obtain ⟨L', hL', hring⟩ := exists_libListAddTail hr hn
  obtain rfl : L.insert n (xs.getLastD h) h = L' := Except.ok.inj (hadd.symm.trans hL')
  refine ⟨_, hadd, hring, fun y hyn hy => ⟨?_, ?_⟩⟩
  · rw [Links.next_insert, if_neg (ne_of_mem_of_not_mem List.getLastD_mem_cons hy).symm,
      if_neg hyn]
  · rw [Links.prev_insert, if_neg (List.ne_of_not_mem_cons hy), if_neg hyn]

/-- `lib_list_del` writes to the node and to its list only. -/
theorem libListDel_frame (hr : Ring L h (xs ++ n :: ys)) (hyn : y ≠ n)
    (hy : y ∉ h :: (xs ++ n :: ys)) : SameAt L (libListDel L n) y := by
  have hjoin : libListDelBetween L (L.prev n) (L.next n) =
      L.join (xs.getLastD h) (ys.headD h) := by
    rw [hr.next_eq, hr.prev_eq]
    rfl
  have hlast : xs.getLastD h ∈ h :: (xs ++ n :: ys) :=
    List.cons_subset_cons h (List.subset_append_left xs _) List.getLastD_mem_cons
  have hfirst : ys.headD h ∈ h :: (xs ++ n :: ys) := by
    have hhead : ys.headD h ∈ h :: ys := headD_mem_cons
    rcases List.mem_cons.1 hhead with heq | hmem
    · rw [heq]
      exact List.mem_cons_self
    · exact List.mem_cons_of_mem h (List.mem_append_right xs (List.mem_cons_of_mem n hmem))
  constructor
  · rw [libListDel, hjoin, Links.next_setPrev, Links.next_setNext, if_neg hyn, Links.next_join,
      if_neg (ne_of_mem_of_not_mem hlast hy).symm]
  · rw [libListDel, hjoin, Links.prev_setPrev, if_neg hyn, Links.prev_setNext, Links.prev_join,
      if_neg (ne_of_mem_of_not_mem hfirst hy).symm]

/-- A node of no list may be deleted. -/
theorem libListDel_of_idle (hidle : Idle L n) (hyn : y ≠ n) : SameAt L (libListDel L n) y := by
  rcases hidle with ⟨hnext, hprev⟩ | ⟨hnext, hprev⟩
  · simp [SameAt, libListDel, hnext, hprev, libListDelBetween, hyn]
  · simp [SameAt, libListDel, hnext, hprev, libListDelBetween, hyn]

theorem initLibList_same (hyn : y ≠ n) : SameAt L (initLibList L n) y := by
  simp [SameAt, initLibList, hyn]

theorem idle_initLibList (L : Links ν) (n : ν) : Idle (initLibList L n) n := by
  simp [Idle, initLibList]

theorem idle_libListDel (L : Links ν) (n : ν) : Idle (libListDel L n) n :=
  .inl ⟨next_libListDel_self L n, prev_libListDel_self L n⟩

/-- What `lib_list_del_init` leaves, once the memory of the node is gone. -/
theorem clear_libListDelInit (L : Links ν) (n : ν) :
    ((libListDelInit L n).setNext n none).setPrev n none = libListDel L n := by
  simp only [libListDelInit, libListDel, initLibList, Links.setNext, Links.setPrev]
  congr 1
  · exact Function.update_idem ..
  · exact Function.update_idem ..

end Frame

/-- The links hold the lists, and every other node is idle. -/
structure TableLinks (size : ℕ) (L : Links (HashNode α)) (table : ℕ → List α) : Prop where
  ring : ∀ i < size, Ring L (.head i) ((table i).map .node)
  out : ∀ i, size ≤ i → table i = []
  disjoint : ∀ i j a, a ∈ table i → a ∈ table j → i = j
  idle : ∀ a, (∀ i, a ∉ table i) → Idle L (.node a)

namespace TableLinks

variable {size k : ℕ} {L L' : Links (HashNode α)} {table : ℕ → List α} {a : α}

omit [DecidableEq α] in
theorem lt_of_mem (h : TableLinks size L table) (ha : a ∈ table k) : k < size := by
  by_contra hge
  rw [h.out k (Nat.le_of_not_lt hge)] at ha
  exact List.not_mem_nil ha

omit [DecidableEq α] in
theorem nodup (h : TableLinks size L table) (k : ℕ) : (table k).Nodup := by
  by_cases hk : k < size
  · exact (h.ring k hk).nodup_tail.of_map
  · rw [h.out k (Nat.le_of_not_lt hk)]
    exact .nil

omit [DecidableEq α] in
theorem node_mem {as : List α} : HashNode.node a ∈ HashNode.head k :: as.map .node ↔ a ∈ as := by
  simp

omit [DecidableEq α] in
/-- The nodes of two lists are different. -/
theorem notMem_other (hdisjoint : ∀ i j a, a ∈ table i → a ∈ table j → i = j) {i : ℕ} (hik : i ≠ k)
    {y : HashNode α} (hy : y ∈ HashNode.head i :: (table i).map .node) :
    y ∉ HashNode.head k :: (table k).map .node := by
  rintro hy'
  cases y with
  | head j =>
    -- a list has one head only, its own
    simp only [List.mem_cons, HashNode.head.injEq, List.mem_map, reduceCtorEq, and_false,
      exists_false, or_false] at hy hy'
    exact hik (hy.symm.trans hy')
  | node b => exact hik (hdisjoint i k b (node_mem.1 hy) (node_mem.1 hy'))

omit [DecidableEq α] in
/-- A change to one list, and to nodes of none. -/
theorem update (h : TableLinks size L table) (hk : k < size) {as : List α}
    (hring : Ring L' (.head k) (as.map .node))
    (hother : ∀ i, i ≠ k → ∀ b ∈ as, b ∉ table i)
    (hsame : ∀ i, i ≠ k → ∀ y ∈ HashNode.head i :: (table i).map .node, SameAt L L' y)
    (hidle : ∀ b, b ∉ as → (∀ i, i ≠ k → b ∉ table i) → Idle L' (.node b)) :
    TableLinks size L' (Function.update table k as) := by
  refine ⟨fun i hi => ?_, fun i hi => ?_, fun i j b hbi hbj => ?_, fun b hb => ?_⟩
  · by_cases hik : i = k
    · subst hik
      rw [Function.update_self]
      exact hring
    · rw [Function.update_of_ne hik]
      exact (h.ring i hi).congr (fun y hy => (hsame i hik y hy).1) fun y hy => (hsame i hik y hy).2
  · rw [Function.update_of_ne (by omega)]
    exact h.out i hi
  · by_cases hik : i = k
    · by_cases hjk : j = k
      · rw [hik, hjk]
      · rw [hik, Function.update_self] at hbi
        rw [Function.update_of_ne hjk] at hbj
        exact absurd hbj (hother j hjk b hbi)
    · by_cases hjk : j = k
      · rw [hjk, Function.update_self] at hbj
        rw [Function.update_of_ne hik] at hbi
        exact absurd hbi (hother i hik b hbj)
      · rw [Function.update_of_ne hik] at hbi
        rw [Function.update_of_ne hjk] at hbj
        exact h.disjoint i j b hbi hbj
  · refine hidle b ?_ fun i hik => ?_
    · have hbk := hb k
      rwa [Function.update_self] at hbk
    · have hbi := hb i
      rwa [Function.update_of_ne hik] at hbi

/-- `hash_add` of a new element. -/
theorem add (h : TableLinks size L table) (ha : ∀ i, a ∉ table i) (key : ℤ) :
    ∃ L', hashAddNode size key a L = .ok ((hashAdd size key a table).1, L') ∧
      TableLinks size L' (hashAdd size key a table).2 := by
  by_cases hkey : key < 0 ∨ key ≥ size
  · refine ⟨L, ?_, ?_⟩
    · rw [hashAddNode, hashAdd, if_pos hkey, if_pos hkey]
    · rw [hashAdd, if_pos hkey]
      exact h
  have hk : key.toNat < size := by omega
  -- the node of a new element is not linked, so that it may be put behind the last
  have hnew : HashNode.node a ∉ HashNode.head key.toNat :: (table key.toNat).map .node :=
    fun hmem => ha _ (node_mem.1 hmem)
  obtain ⟨L', hadd, hring, hframe⟩ := exists_libListAddTail_frame (h.ring _ hk) hnew
  refine ⟨L', ?_, ?_⟩
  · rw [hashAddNode, hashAdd, if_neg hkey, if_neg hkey, hadd]
    rfl
  · rw [hashAdd, if_neg hkey]
    apply h.update hk
    · rw [List.map_append]
      exact hring
    · intro i hik b hb
      rcases List.mem_append.1 hb with hb | hb
      · exact fun hbi => hik (h.disjoint i _ b hbi hb)
      · rw [List.mem_singleton.1 hb]
        exact ha i
    · intro i hik y hy
      refine hframe y (fun heq => ?_) (notMem_other h.disjoint hik hy)
      rw [heq] at hy
      exact ha i (node_mem.1 hy)
    · intro b hb hbi
      rw [List.mem_append, List.mem_singleton, not_or] at hb
      have hnone : ∀ i, b ∉ table i := fun i => by
        by_cases hik : i = key.toNat
        · rw [hik]
          exact hb.1
        · exact hbi i hik
      exact (h.idle b hnone).congr (hframe _ (by simpa using hb.2) fun hmem =>
        hb.1 (node_mem.1 hmem))

/-- `hash_del`, whether the element is in a list or in none. -/
theorem del (h : TableLinks size L table) (a : α) :
    TableLinks size (hashDelNode a L).2 fun i => (table i).erase a := by
  show TableLinks size (libListDel L (.node a)) _
  by_cases ha : ∃ k, a ∈ table k
  · -- one list holds the element, and only that list changes
    obtain ⟨k, hak⟩ := ha
    have hk := h.lt_of_mem hak
    have htable : (fun i => (table i).erase a) = Function.update table k ((table k).erase a) := by
      funext i
      by_cases hik : i = k
      · rw [hik, Function.update_self]
      · rw [Function.update_of_ne hik]
        exact List.erase_of_not_mem fun hai => hik (h.disjoint i k a hai hak)
    have hring := h.ring k hk
    obtain ⟨l₁, l₂, hsplit⟩ := List.append_of_mem (List.mem_map_of_mem (f := HashNode.node) hak)
    rw [htable]
    apply h.update hk
    · exact ring_libListDel_map hring hak
    · exact fun i hik b hb hbi => hik (h.disjoint i k b hbi (List.mem_of_mem_erase hb))
    · intro i hik y hy
      have hnot := notMem_other h.disjoint hik hy
      have hya : y ≠ .node a := fun heq => hnot (heq ▸ node_mem.2 hak)
      rw [hsplit] at hring hnot
      exact libListDel_frame hring hya hnot
    · intro b hb hbi
      by_cases hba : b = a
      · rw [hba]
        exact idle_libListDel L _
      · have hbk : b ∉ table k := fun hbk => hb ((List.mem_erase_of_ne hba).2 hbk)
        have hnone : ∀ i, b ∉ table i := fun i => by
          by_cases hik : i = k
          · rw [hik]
            exact hbk
          · exact hbi i hik
        have hnot : HashNode.node b ∉ HashNode.head k :: (table k).map .node :=
          fun hmem => hbk (node_mem.1 hmem)
        rw [hsplit] at hring hnot
        exact (h.idle b hnone).congr (libListDel_frame hring (by simpa using hba) hnot)
  · -- no list holds it: the node is idle, and nothing else is written to
    have hnone : ∀ i, a ∉ table i := fun i hai => ha ⟨i, hai⟩
    have htable : (fun i => (table i).erase a) = table :=
      funext fun i => List.erase_of_not_mem (hnone i)
    rw [htable]
    have hsame : ∀ y, y ≠ .node a → SameAt L (libListDel L (.node a)) y := fun y hy =>
      libListDel_of_idle (h.idle a hnone) hy
    refine ⟨fun i hi => ?_, h.out, h.disjoint, fun b hb => ?_⟩
    · have hne : ∀ y ∈ HashNode.head i :: (table i).map .node, y ≠ .node a := by
        rintro y hy rfl
        exact hnone i (node_mem.1 hy)
      exact (h.ring i hi).congr (fun y hy => (hsame y (hne y hy)).1) fun y hy =>
        (hsame y (hne y hy)).2
    · by_cases hba : b = a
      · rw [hba]
        exact idle_libListDel L _
      · exact (h.idle b hb).congr (hsame _ (by simpa using hba))

/-! ### The table at the start -/

theorem create (size : ℕ) (hidle : ∀ a, Idle L (.node a)) :
    TableLinks size (hashCreate size L) fun _ => [] := by
  -- the heads that are written so far
  have hheads : ∀ n, (∀ i < n, Ring (hashCreate n L) (.head i) []) ∧
      ∀ a : α, Idle (hashCreate n L) (.node a) := by
    intro n
    induction n with
    | zero => exact ⟨fun i hi => absurd hi (Nat.not_lt_zero i), hidle⟩
    | succ n ih =>
      have hstep : hashCreate (n + 1) L = initLibList (hashCreate n L) (.head n) := by
        rw [hashCreate, List.range_succ, List.foldl_concat]
        rfl
      rw [hstep]
      refine ⟨fun i hi => ?_, fun a => (ih.2 a).congr (initLibList_same (by simp))⟩
      by_cases hin : i = n
      · rw [hin]
        exact ring_initLibList _ _
      · have hsame : SameAt (hashCreate n L) (initLibList (hashCreate n L) (.head n)) (.head i) :=
          initLibList_same (by simpa using hin)
        apply (ih.1 i (by omega)).congr
        · simpa using hsame.1
        · simpa using hsame.2
  exact ⟨(hheads size).1, fun _ _ => rfl, fun _ _ _ ha => absurd ha List.not_mem_nil,
    fun a _ => (hheads size).2 a⟩

/-- `hash_init` of an element of no list. -/
theorem init (h : TableLinks size L table) (ha : ∀ i, a ∉ table i) :
    TableLinks size (hashInit a L) table := by
  have hsame : ∀ y, y ≠ HashNode.node a → SameAt L (hashInit a L) y := fun y hy =>
    initLibList_same hy
  refine ⟨fun i hi => ?_, h.out, h.disjoint, fun b hb => ?_⟩
  · have hne : ∀ y ∈ HashNode.head i :: (table i).map .node, y ≠ .node a := by
      rintro y hy rfl
      exact ha i (node_mem.1 hy)
    exact (h.ring i hi).congr (fun y hy => (hsame y (hne y hy)).1) fun y hy =>
      (hsame y (hne y hy)).2
  · by_cases hba : b = a
    · rw [hba]
      exact idle_initLibList L _
    · exact (h.idle b hb).congr (hsame _ (by simpa using hba))

end TableLinks

end Gendo
