import Gendo.Server.HashTable
import Gendo.Server.PollRegistry
import Mathlib.Data.List.Range

/-!
# Runs of the hash table

To its users the table is a list for every key, in the order in which the elements were added. The
walks over the links are walks over these lists, so that the calls are answered as the lists say
(`tableCall`), whatever their order, and `hash_free_all` frees what the lists hold.

A user must not add or initialise what is in the table. Deleting is always allowed.
-/

namespace Gendo

open LinkedList StepSystem

variable {α σ : Type} [DecidableEq α]

/-! ## The functions on lists -/

/-- What `_hash_walk` does on a list. -/
def walkList (func : α → σ → ℤ × σ) : List α → σ → Option α × σ
  | [], mem => (none, mem)
  | a :: as, mem =>
    let (ret, mem) := func a mem
    if ret < 0 then (some a, mem) else walkList func as mem

/-- What `hash_walk` does on all lists: it stops with the first element that `func` is negative
for. -/
def walkLists (func : α → σ → ℤ × σ) (table : ℕ → List α) : List ℕ → σ → Option α × σ
  | [], mem => (none, mem)
  | i :: is, mem =>
    let (a, mem) := walkList func (table i) mem
    if a.isSome then (a, mem) else walkLists func table is mem

/-- What `hash_walk` does on a table. -/
def walkTable (size : ℕ) (key : ℤ) (func : α → σ → ℤ × σ) (table : ℕ → List α) (mem : σ) :
    Option α × σ :=
  let done := if 0 ≤ key ∧ key < size then walkList func (table key.toNat) mem else (none, mem)
  if key = size then walkLists func table (List.range size) done.2 else done

/-- All elements, in the order of the table. -/
def elements (size : ℕ) (table : ℕ → List α) : List α := (List.range size).flatMap table

section Lists

variable {func : α → ℤ} {table : ℕ → List α} {size : ℕ}

omit [DecidableEq α] in
theorem walkList_cons (func : α → σ → ℤ × σ) (a : α) (as : List α) (mem : σ) :
    walkList func (a :: as) mem = if (func a mem).1 < 0 then (some a, (func a mem).2)
      else walkList func as (func a mem).2 := rfl

omit [DecidableEq α] in
/-- A function without memory finds the first element that it is negative for. -/
theorem walkList_pure (func : α → ℤ) (as : List α) :
    walkList (fun a (_ : Unit) => (func a, ())) as () = (as.find? fun a => func a < 0, ()) := by
  induction as with
  | nil => rfl
  | cons a as ih =>
    rw [walkList, List.find?_cons]
    by_cases ha : func a < 0
    · simp [ha]
    · simpa [ha] using ih

omit [DecidableEq α] in
theorem walkLists_pure (func : α → ℤ) (table : ℕ → List α) (is : List ℕ) :
    walkLists (fun a (_ : Unit) => (func a, ())) table is () =
      (is.findSome? fun i => (table i).find? fun a => func a < 0, ()) := by
  induction is with
  | nil => rfl
  | cons i is ih =>
    rw [walkLists, walkList_pure, List.findSome?_cons]
    cases hfind : (table i).find? fun a => decide (func a < 0) with
    | none => simpa using ih
    | some a => rfl

omit [DecidableEq α] in
/-- `hashWalk` is the walk with a function that has no memory. -/
theorem walkTable_pure (size : ℕ) (key : ℤ) (func : α → ℤ) (table : ℕ → List α) :
    walkTable size key (fun a (_ : Unit) => (func a, ())) table () =
      (hashWalk size key func table, ()) := by
  rw [walkTable, hashWalk]
  by_cases hkey : key = size
  · rw [if_pos hkey, if_pos hkey]
    exact walkLists_pure func table _
  · rw [if_neg hkey, if_neg hkey]
    by_cases hin : 0 ≤ key ∧ key < size
    · rw [if_pos hin, if_pos hin, walkList_pure]
    · rw [if_neg hin, if_neg hin]

end Lists

/-! ## Walks over the links -/

namespace TableLinks

variable {size : ℕ} {L : Links (HashNode α)} {table : ℕ → List α} {a : α}

/-! ### Plain walks -/

section Walks

variable {i rounds : ℕ} {as : List α}

omit [DecidableEq α] in
/-- The node behind one of a list. -/
theorem next_node {front rest : List α} (hr : Ring L (.head i) ((front ++ a :: rest).map .node)) :
    L.next (.node a) = some ((rest.map HashNode.node).headD (.head i)) := by
  rw [List.map_append, List.map_cons] at hr
  exact hr.next_eq

/-- What a loop does with the elements of a list, if it only changes memory of its own. -/
def walkWith {τ : Type} (step : α → τ → Bool × τ) : List α → τ → τ
  | [], t => t
  | a :: as, t => if (step a t).1 then (step a t).2 else walkWith step as (step a t).2

theorem libListForEach_ring {τ : Type} {step : α → τ → Bool × τ}
    {body : HashNode α → Links (HashNode α) × τ → Except Stop (Bool × (Links (HashNode α) × τ))}
    (hr : Ring L (.head i) (as.map .node)) (hrounds : as.length < rounds)
    (hstep : ∀ a t, body (.node a) (L, t) = .ok ((step a t).1, (L, (step a t).2))) (t : τ) :
    libListForEach (fun s => s.1) (.head i) body rounds (L.next (.head i)) (L, t) =
      .ok (L, walkWith step as t) := by
  -- the walk over the nodes still to come ends as the whole walk does
  let Inv : List (HashNode α) → Links (HashNode α) × τ → Prop := fun rest s =>
    ∃ front bs, front ++ bs = as ∧ rest = bs.map .node ∧ s.1 = L ∧
      walkWith step bs s.2 = walkWith step as t
  have hend : ∀ s, Inv [] s → s = (L, walkWith step as t) := by
    rintro s ⟨front, bs, -, hrest, hL, hwalk⟩
    obtain rfl : bs = [] := List.map_eq_nil_iff.1 hrest.symm
    exact Prod.ext hL hwalk
  have hbody : ∀ x rest s, Inv (x :: rest) s → x ≠ .head i ∧ ∃ left u, body x s = .ok (left, u) ∧
      (left = true → u = (L, walkWith step as t)) ∧
      (left = false → u.1.next x = some (rest.headD (.head i)) ∧ Inv rest u) := by
    rintro x rest ⟨L', u⟩ ⟨front, bs, hsplit, hrest, hL, hwalk⟩
    obtain ⟨a, bs', rfl, rfl, rfl⟩ := List.map_eq_cons_iff.1 hrest.symm
    obtain rfl : L' = L := hL
    rw [walkWith] at hwalk
    refine ⟨by simp, _, _, hstep a u, fun hleft => ?_, fun hleft => ⟨?_, ?_⟩⟩
    · rw [← hwalk, if_pos hleft]
    · rw [← hsplit] at hr
      exact next_node hr
    · rw [if_neg (by simpa using hleft)] at hwalk
      exact ⟨front ++ [a], bs', (List.append_cons front a bs').symm.trans hsplit, rfl, rfl, hwalk⟩
  obtain ⟨u, hu, hpost⟩ := libListForEach_rule hend hbody
    (show Inv (as.map .node) (L, t) from ⟨[], as, rfl, rfl, rfl, rfl⟩) (by rwa [List.length_map])
  rw [hr.next_head, hu, hpost]

theorem hashWalkList_eq (hr : Ring L (.head i) (as.map .node)) (hrounds : as.length < rounds)
    (func : α → σ → ℤ × σ) (mem : σ) :
    hashWalkList rounds func i L mem = .ok (walkList func as mem) := by
  -- the walk ends with the element for which `func` is negative
  let step : α → σ × Option α → Bool × (σ × Option α) := fun a t =>
    if (func a t.1).1 < 0 then (true, ((func a t.1).2, some a)) else (false, ((func a t.1).2, none))
  have hstep : ∀ a t, hashWalkItem func (.node a) (L, t) =
      .ok ((step a t).1, (L, (step a t).2)) := by
    intro a t
    by_cases hneg : (func a t.1).1 < 0
    · simp [hashWalkItem, step, hneg]
    · simp [hashWalkItem, step, hneg]
  have hwalk : ∀ (bs : List α) (mem : σ), walkWith step bs (mem, none) =
      ((walkList func bs mem).2, (walkList func bs mem).1) := by
    intro bs
    induction bs with
    | nil => exact fun mem => rfl
    | cons a bs ih =>
      intro mem
      rw [walkWith, walkList_cons]
      by_cases hneg : (func a mem).1 < 0
      · simp [step, hneg]
      · simpa [step, hneg] using ih (func a mem).2
  rw [hashWalkList, libListForEach_ring hr hrounds hstep, ok_bind, hwalk]
  rfl

theorem hashWalkLists_eq (h : TableLinks size L table) (func : α → σ → ℤ × σ)
    (hrounds : ∀ i, (table i).length < rounds) {is : List ℕ} (his : ∀ i ∈ is, i < size) (mem : σ) :
    hashWalkLists rounds func L is mem = .ok (walkLists func table is mem) := by
  induction is generalizing mem with
  | nil => rfl
  | cons i is ih =>
    obtain ⟨hi, his⟩ := List.forall_mem_cons.1 his
    rw [hashWalkLists, walkLists, hashWalkList_eq (h.ring i hi) (hrounds i), ok_bind]
    by_cases hstop : (walkList func (table i) mem).1.isSome
    · simp only [hstop, if_true, pure_eq_ok]
    · simp only [hstop, Bool.false_eq_true, if_false]
      exact ih his _

/-- `hash_walk` is the walk of the lists. -/
theorem walk (h : TableLinks size L table) (hrounds : ∀ i, (table i).length < rounds) (key : ℤ)
    (func : α → σ → ℤ × σ) (mem : σ) :
    hashWalkNodes rounds size key func L mem = .ok (walkTable size key func table mem) := by
  -- what follows the walk of one list
  have hall : ∀ done : Option α × σ,
      (if key = size then hashWalkLists rounds func L (List.range size) done.2 else
        (pure done : Except Stop _)) =
      .ok (if key = size then walkLists func table (List.range size) done.2 else done) := by
    intro done
    by_cases hkey : key = size
    · rw [if_pos hkey, if_pos hkey]
      exact h.hashWalkLists_eq func hrounds (fun i hi => List.mem_range.1 hi) done.2
    · rw [if_neg hkey, if_neg hkey]
      rfl
  rw [hashWalkNodes, walkTable]
  by_cases hin : 0 ≤ key ∧ key < size
  · rw [if_pos hin, if_pos hin, hashWalkList_eq (h.ring _ (by omega)) (hrounds _), ok_bind]
    exact hall _
  · rw [if_neg hin, if_neg hin, ok_bind]
    exact hall _

theorem count_list (hr : Ring L (.head i) (as.map .node)) (hrounds : as.length < rounds) (num : ℤ) :
    Prod.snd <$> libListForEach (fun s => s.1) (.head i) hashNumItem rounds (L.next (.head i))
      (L, num) = .ok (num + as.length) := by
  let step : α → ℤ → Bool × ℤ := fun _ num => (false, num + 1)
  have hcount : ∀ (bs : List α) (num : ℤ), walkWith step bs num = num + bs.length := by
    intro bs
    induction bs with
    | nil => simp [walkWith]
    | cons a bs ih =>
      intro num
      have hrest : walkWith step (a :: bs) num = walkWith step bs (num + 1) := rfl
      rw [hrest, ih, List.length_cons]
      push_cast
      omega
  have hstep : ∀ (a : α) (num : ℤ), hashNumItem (.node a) (L, num) =
      .ok ((step a num).1, (L, (step a num).2)) := fun _ _ => rfl
  rw [libListForEach_ring hr hrounds hstep, ← hcount as num]
  rfl

/-- `hash_num` counts the elements. -/
theorem num (h : TableLinks size L table) (hrounds : ∀ i, (table i).length < rounds) :
    hashNum rounds size L = .ok ((elements size table).length : ℤ) := by
  -- the lists of the first so many keys
  have hcount : ∀ is : List ℕ, (∀ i ∈ is, i < size) → ∀ num : ℤ,
      is.foldlM (fun num i => Prod.snd <$> libListForEach (fun s => s.1) (.head i) hashNumItem
        rounds (L.next (.head i)) (L, num)) num = .ok (num + (is.flatMap table).length) := by
    intro is
    induction is with
    | nil => simp
    | cons i is ih =>
      intro his num
      obtain ⟨hi, his⟩ := List.forall_mem_cons.1 his
      rw [List.foldlM_cons, count_list (h.ring i hi) (hrounds i), ok_bind, ih his,
        List.flatMap_cons, List.length_append]
      push_cast
      rw [Int.add_assoc]
  rw [hashNum, hcount _ fun i hi => List.mem_range.1 hi, Int.zero_add]
  rfl

/-- `hash_empty` says whether there is no element. -/
theorem empty (h : TableLinks size L table) :
    hashEmpty size L = if elements size table = [] then 1 else 0 := by
  have hlist : ∀ i < size, libListEmpty L (.head i) = decide (table i = []) := by
    intro i hi
    rw [libListEmpty, (h.ring i hi).next_head]
    cases hi' : table i with
    | nil => simp
    | cons a as => simp
  have hall : ((List.range size).all fun i => libListEmpty L (.head i)) =
      decide (elements size table = []) := by
    rw [Bool.eq_iff_iff, List.all_eq_true, decide_eq_true_iff, elements, List.flatMap_eq_nil_iff]
    refine forall₂_congr fun i hi => ?_
    rw [hlist i (List.mem_range.1 hi), decide_eq_true_iff]
  rw [hashEmpty, hall]
  simp only [decide_eq_true_eq]

end Walks

/-! ### Safe walks -/

section SafeWalks

variable {i rounds : ℕ} {as : List α}

/-- The first element of a list is deleted. -/
theorem del_head (h : TableLinks size L table) (hi : table i = a :: as) :
    TableLinks size (libListDel L (.node a)) (Function.update table i as) := by
  have htable : (fun j => (table j).erase a) = Function.update table i as := by
    funext j
    by_cases hji : j = i
    · rw [hji, Function.update_self, hi, List.erase_cons_head]
    · rw [Function.update_of_ne hji]
      exact List.erase_of_not_mem fun haj => hji (h.disjoint j i a haj (by simp [hi]))
  rw [← htable]
  exact h.del a

omit [DecidableEq α] in
/-- What a safe walk of a list starts with. -/
theorem next_next (hr : Ring L (.head i) (as.map .node)) {x : HashNode α} {rest : List (HashNode α)}
    (has : as.map .node = x :: rest) :
    L.next (.head i) >>= L.next = some (rest.headD (.head i)) := by
  rw [has] at hr
  rw [hr.next_head]
  have hr' : Ring L (.head i) ([] ++ x :: rest) := hr
  exact hr'.next_eq

/-- The loop of `hash_free_all` over one list. -/
theorem exists_freeList (h : TableLinks size L table) (hi : i < size)
    (hrounds : (table i).length < rounds) (freed : List α) :
    ∃ L', libListForEachSafe (fun s => s.1) (.head i) hashFreeItem rounds (L.next (.head i))
        (L.next (.head i) >>= L.next) (L, freed) = .ok (L', freed ++ table i) ∧
      TableLinks size L' (Function.update table i []) := by
  -- an element that was freed is in no list any more
  let Inv : List (HashNode α) → Links (HashNode α) × List α → Prop := fun rest s =>
    ∃ front bs, front ++ bs = table i ∧ rest = bs.map .node ∧ s.2 = freed ++ front ∧
      TableLinks size s.1 (Function.update table i bs)
  have hnext : ∀ x rest s, Inv (x :: rest) s →
      x ≠ .head i ∧ s.1.next x = some (rest.headD (.head i)) := by
    rintro x rest s ⟨front, bs, -, hrest, -, hs⟩
    obtain ⟨a, bs', rfl, rfl, rfl⟩ := List.map_eq_cons_iff.1 hrest.symm
    have hring := hs.ring i hi
    rw [Function.update_self] at hring
    have hring' : Ring s.1 (.head i) (([] ++ a :: bs').map .node) := hring
    exact ⟨by simp, next_node hring'⟩
  have hbody : ∀ x rest s, Inv (x :: rest) s → ∃ t rest', hashFreeItem x s = .ok t ∧
      Inv rest' t ∧ rest'.headD (.head i) = rest.headD (.head i) ∧ rest'.length ≤ rest.length := by
    rintro x rest s ⟨front, bs, hsplit, hrest, hfreed, hs⟩
    obtain ⟨a, bs', rfl, rfl, rfl⟩ := List.map_eq_cons_iff.1 hrest.symm
    refine ⟨(libListDel s.1 (.node a), s.2 ++ [a]), bs'.map .node, ?_, ?_, rfl, le_rfl⟩
    · rw [hashFreeItem, clear_libListDelInit]
    · have hdel := hs.del_head (Function.update_self ..)
      rw [Function.update_idem] at hdel
      exact ⟨front ++ [a], bs', (List.append_cons front a bs').symm.trans hsplit, rfl,
        by rw [hfreed, List.append_assoc], hdel⟩
  have hstart : Inv ((table i).map .node) (L, freed) :=
    ⟨[], table i, rfl, rfl, (List.append_nil freed).symm, by rwa [Function.update_eq_self]⟩
  obtain ⟨⟨L', freed'⟩, ht, front, bs, hsplit, hrest, hfreed, hs⟩ :=
    libListForEachSafe_rule hnext hbody hstart (by rwa [List.length_map]) fun x rest hxs =>
      next_next (h.ring i hi) hxs
  rw [← (h.ring i hi).next_head] at ht
  obtain rfl : bs = [] := List.map_eq_nil_iff.1 hrest.symm
  rw [List.append_nil] at hsplit
  rw [ht, ← hsplit, show freed' = freed ++ front from hfreed]
  exact ⟨L', rfl, hs⟩

/-- `hash_free_all` frees every element once, and takes each out before. -/
theorem freeAll (h : TableLinks size L table) (hrounds : ∀ i, (table i).length < rounds) :
    ∃ L', hashFreeAll rounds size L = .ok (L', elements size table) ∧
      TableLinks size L' fun _ => [] := by
  -- the lists of the keys so far are empty, and the others as they were
  have hlists : ∀ is : List ℕ, is.Nodup → (∀ i ∈ is, i < size) → ∀ {L table},
      TableLinks size L table → (∀ i, (table i).length < rounds) → ∀ freed : List α,
      ∃ L', is.foldlM (fun s i => libListForEachSafe (fun s => s.1) (.head i) hashFreeItem rounds
          (s.1.next (.head i)) (s.1.next (.head i) >>= s.1.next) s) (L, freed) =
        .ok (L', freed ++ is.flatMap table) ∧
        TableLinks size L' fun j => if j ∈ is then [] else table j := by
    intro is
    induction is with
    | nil =>
      intro _ _ L table h _ freed
      exact ⟨L, by simp, by simpa using h⟩
    | cons i is ih =>
      intro hnodup his L table h hrounds freed
      obtain ⟨hnot, hnodup⟩ := List.nodup_cons.1 hnodup
      obtain ⟨hi, his⟩ := List.forall_mem_cons.1 his
      obtain ⟨L₁, hfirst, h₁⟩ := h.exists_freeList hi (hrounds i) freed
      have hshort : ∀ j, (Function.update table i [] j).length < rounds := by
        intro j
        by_cases hji : j = i
        · rw [hji, Function.update_self]
          exact (Nat.zero_le _).trans_lt (hrounds i)
        · rw [Function.update_of_ne hji]
          exact hrounds j
      obtain ⟨L₂, hrest, h₂⟩ := ih hnodup his h₁ hshort (freed ++ table i)
      have hothers : is.flatMap (Function.update table i []) = is.flatMap table :=
        List.flatMap_congr fun j hj => Function.update_of_ne (ne_of_mem_of_not_mem hj hnot) ..
      refine ⟨L₂, ?_, ?_⟩
      · rw [List.foldlM_cons, hfirst, ok_bind, hrest, hothers, List.flatMap_cons,
          List.append_assoc]
      · have htable : (fun j => if j ∈ i :: is then [] else table j) =
            fun j => if j ∈ is then [] else Function.update table i [] j := by
          funext j
          by_cases hji : j = i
          · simp [hji]
          · simp [hji]
        rw [htable]
        exact h₂
  obtain ⟨L', hrun, h'⟩ := hlists (List.range size) List.nodup_range
    (fun i hi => List.mem_range.1 hi) h hrounds []
  have htable : (fun j => if j ∈ List.range size then [] else table j) = fun _ => [] := by
    funext j
    by_cases hj : j < size
    · simp [hj]
    · simp [hj, h.out j (Nat.le_of_not_lt hj)]
  rw [htable] at h'
  exact ⟨L', hrun, h'⟩

/-- The loop of `hash_walk_all` over one list. -/
theorem walkAll_list (hr : Ring L (.head i) (as.map .node)) (hrounds : as.length < rounds)
    (seen : List α) :
    libListForEachSafe (fun s => s.1) (.head i) hashWalkAllItem rounds (L.next (.head i))
      (L.next (.head i) >>= L.next) (L, seen) = .ok (L, seen ++ as) := by
  -- the links stay, and the elements in front have been seen
  let Inv : List (HashNode α) → Links (HashNode α) × List α → Prop := fun rest s =>
    ∃ front bs, front ++ bs = as ∧ rest = bs.map .node ∧ s = (L, seen ++ front)
  have hnext : ∀ x rest s, Inv (x :: rest) s →
      x ≠ .head i ∧ s.1.next x = some (rest.headD (.head i)) := by
    rintro x rest s ⟨front, bs, hsplit, hrest, rfl⟩
    obtain ⟨a, bs', rfl, rfl, rfl⟩ := List.map_eq_cons_iff.1 hrest.symm
    rw [← hsplit] at hr
    exact ⟨by simp, next_node hr⟩
  have hbody : ∀ x rest s, Inv (x :: rest) s → ∃ t rest', hashWalkAllItem x s = .ok t ∧
      Inv rest' t ∧ rest'.headD (.head i) = rest.headD (.head i) ∧ rest'.length ≤ rest.length := by
    rintro x rest s ⟨front, bs, hsplit, hrest, rfl⟩
    obtain ⟨a, bs', rfl, rfl, rfl⟩ := List.map_eq_cons_iff.1 hrest.symm
    refine ⟨(L, seen ++ (front ++ [a])), bs'.map .node, ?_, ?_, rfl, le_rfl⟩
    · rw [hashWalkAllItem, List.append_assoc]
    · exact ⟨front ++ [a], bs', (List.append_cons front a bs').symm.trans hsplit, rfl, rfl⟩
  have hstart : Inv (as.map .node) (L, seen) := ⟨[], as, rfl, rfl, by rw [List.append_nil]⟩
  obtain ⟨t, ht, front, bs, hsplit, hrest, rfl⟩ :=
    libListForEachSafe_rule hnext hbody hstart (by rwa [List.length_map]) fun x rest hxs =>
      next_next hr hxs
  rw [← hr.next_head] at ht
  obtain rfl : bs = [] := List.map_eq_nil_iff.1 hrest.symm
  rw [ht, ← hsplit, List.append_nil]

/-- `hash_walk_all` comes by every element once. -/
theorem walkAll (h : TableLinks size L table) (hrounds : ∀ i, (table i).length < rounds) :
    hashWalkAll rounds size L = .ok (elements size table) := by
  have hlists : ∀ is : List ℕ, (∀ i ∈ is, i < size) → ∀ seen : List α,
      is.foldlM (fun s i => libListForEachSafe (fun s => s.1) (.head i) hashWalkAllItem rounds
        (s.1.next (.head i)) (s.1.next (.head i) >>= s.1.next) s) (L, seen) =
      .ok (L, seen ++ is.flatMap table) := by
    intro is
    induction is with
    | nil => simp
    | cons i is ih =>
      intro his seen
      obtain ⟨hi, his⟩ := List.forall_mem_cons.1 his
      rw [List.foldlM_cons, walkAll_list (h.ring i hi) (hrounds i), ok_bind, ih his,
        List.flatMap_cons, List.append_assoc]
  rw [hashWalkAll, hlists _ fun i hi => List.mem_range.1 hi]
  rfl

end SafeWalks

end TableLinks

/-! ## Runs -/

/-- A call of the table. The key of an element is what `create_key` returns for it. -/
inductive HashCall (α σ : Type)
  | init (node : α)
  | add (key : ℤ) (node : α)
  | del (node : α)
  | walk (key : ℤ) (func : α → σ → ℤ × σ) (mem : σ)
  | walkAll
  | num
  | empty

/-- What a call returns, or has called a function with. -/
inductive HashAnswer (α σ : Type)
  | code (ret : ℤ)
  | found (node : Option α) (mem : σ)
  | nodes (as : List α)
  deriving DecidableEq

/-- The calls on the links. -/
def hashCall (rounds size : ℕ) (L : Links (HashNode α)) :
    HashCall α σ → Except Stop (HashAnswer α σ × Links (HashNode α))
  | .init node => .ok (.code 0, hashInit node L)
  | .add key node => do
    let (ret, L) ← hashAddNode size key node L
    return (.code ret, L)
  | .del node => .ok (.code (hashDelNode node L).1, (hashDelNode node L).2)
  | .walk key func mem => do
    let (node, mem) ← hashWalkNodes rounds size key func L mem
    return (.found node mem, L)
  | .walkAll => do
    let as ← hashWalkAll rounds size L
    return (.nodes as, L)
  | .num => do
    let num ← hashNum rounds size L
    return (.code num, L)
  | .empty => .ok (.code (hashEmpty size L), L)

/-- The calls on the lists. -/
def tableCall (size : ℕ) (table : ℕ → List α) : HashCall α σ → HashAnswer α σ × (ℕ → List α)
  | .init _ => (.code 0, table)
  | .add key node => (.code (hashAdd size key node table).1, (hashAdd size key node table).2)
  | .del node => (.code 0, fun i => (table i).erase node)
  | .walk key func mem =>
    (.found (walkTable size key func table mem).1 (walkTable size key func table mem).2, table)
  | .walkAll => (.nodes (elements size table), table)
  | .num => (.code (elements size table).length, table)
  | .empty => (.code (if elements size table = [] then 1 else 0), table)

namespace HashCall

/-- What the table expects of its users. -/
def Allowed (size : ℕ) (table : ℕ → List α) : HashCall α σ → Prop
  | .init node => node ∉ elements size table
  | .add _ node => node ∉ elements size table
  | _ => True

instance (size : ℕ) (table : ℕ → List α) :
    (call : HashCall α σ) → Decidable (call.Allowed size table)
  | .init _ => inferInstanceAs (Decidable (_ ∉ _))
  | .add .. => inferInstanceAs (Decidable (_ ∉ _))
  | .del _ => isTrue trivial
  | .walk .. => isTrue trivial
  | .walkAll => isTrue trivial
  | .num => isTrue trivial
  | .empty => isTrue trivial

end HashCall

section Run

variable {size rounds : ℕ} {L : Links (HashNode α)} {table : ℕ → List α}

omit [DecidableEq α] in
theorem TableLinks.notMem {a : α} (h : TableLinks size L table) (ha : a ∉ elements size table)
    (i : ℕ) : a ∉ table i := by
  intro hai
  exact ha (List.mem_flatMap.2 ⟨i, List.mem_range.2 (h.lt_of_mem hai), hai⟩)

omit [DecidableEq α] in
theorem TableLinks.nodup_elements (h : TableLinks size L table) : (elements size table).Nodup := by
  rw [elements, List.nodup_flatMap]
  refine ⟨fun i _ => h.nodup i, List.nodup_range.imp fun {i j} hij a hai haj => ?_⟩
  exact hij (h.disjoint i j a hai haj)

/-- One call. -/
theorem TableLinks.call (h : TableLinks size L table) {call : HashCall α σ}
    (hcall : call.Allowed size table) (hrounds : ∀ i, (table i).length < rounds) :
    ∃ L', hashCall rounds size L call = .ok ((tableCall size table call).1, L') ∧
      TableLinks size L' (tableCall size table call).2 := by
  cases call with
  | init node => exact ⟨_, rfl, h.init (h.notMem hcall)⟩
  | add key node =>
    obtain ⟨L', hadd, h'⟩ := h.add (h.notMem hcall) key
    refine ⟨L', ?_, h'⟩
    rw [hashCall, hadd]
    rfl
  | del node => exact ⟨_, rfl, h.del node⟩
  | walk key func mem =>
    refine ⟨L, ?_, h⟩
    rw [hashCall, h.walk hrounds]
    rfl
  | walkAll =>
    refine ⟨L, ?_, h⟩
    rw [hashCall, h.walkAll hrounds]
    rfl
  | num =>
    refine ⟨L, ?_, h⟩
    rw [hashCall, h.num hrounds]
    rfl
  | empty =>
    refine ⟨L, ?_, h⟩
    rw [hashCall, h.empty]
    rfl

/-- A call makes no list longer by more than one. -/
theorem length_tableCall_le {n : ℕ} (h : ∀ i, (table i).length ≤ n) (call : HashCall α σ) (i : ℕ) :
    ((tableCall size table call).2 i).length ≤ n + 1 := by
  have hi := h i
  cases call with
  | add key node =>
    show ((hashAdd size key node table).2 i).length ≤ n + 1
    rw [hashAdd]
    by_cases hkey : key < 0 ∨ key ≥ size
    · rw [if_pos hkey]
      exact hi.trans (Nat.le_succ n)
    · rw [if_neg hkey]
      show (Function.update table _ _ i).length ≤ n + 1
      by_cases hik : i = key.toNat
      · rw [hik, Function.update_self, List.length_append]
        exact Nat.succ_le_succ (h _)
      · rw [Function.update_of_ne hik]
        exact hi.trans (Nat.le_succ n)
  | del node => exact (List.length_erase_le.trans hi).trans (Nat.le_succ n)
  | init _ => exact hi.trans (Nat.le_succ n)
  | walk _ _ _ => exact hi.trans (Nat.le_succ n)
  | walkAll => exact hi.trans (Nat.le_succ n)
  | num => exact hi.trans (Nat.le_succ n)
  | empty => exact hi.trans (Nat.le_succ n)

/-- The calls of a table that was just made are answered as the lists say, and in the end
`hash_free_all` frees each element once that is still in a list. -/
theorem hashTable_refines (size : ℕ) (hidle : ∀ a, Idle L (.node a)) {calls : List (HashCall α σ)}
    (hrounds : calls.length < rounds)
    (hcalls : Guarded (fun t c => HashCall.Allowed size t c) (fun _ => [])
      (runOf (fun t c => (tableCall size t c).2) (fun _ => []) calls)) :
    ∃ L₁ L₂, tryAnswers (hashCall rounds size) (hashCreate size L) calls =
        .ok ((answers (tableCall size) (fun _ => []) calls).1, L₁) ∧
      hashFreeAll rounds size L₁ =
        .ok (L₂, elements size (answers (tableCall size) (fun _ => []) calls).2) ∧
      (elements size (answers (tableCall size) (fun _ => []) calls).2).Nodup ∧
      ∀ a, Idle L₂ (.node a) := by
  have hlonger : ∀ (n : ℕ) (t : ℕ → List α) (c : HashCall α σ), (∀ i, (t i).length ≤ n) →
      ∀ i, ((tableCall size t c).2 i).length ≤ n + 1 := fun n t c ht => length_tableCall_le ht c
  -- no list is ever longer than the run
  have hshort : Guarded
      (fun (t : ℕ → List α) (_ : HashCall α σ) => ∀ i, (t i).length ≤ calls.length) (fun _ => [])
      (runOf (fun t c => (tableCall size t c).2) (fun _ => []) calls) :=
    @guarded_runOf_of_bound _ _ (fun n (t : ℕ → List α) => ∀ i, (t i).length ≤ n) _
      (fun m n t hmn ht i => (ht i).trans hmn) hlonger 0 _ _ _ (fun i => le_rfl)
      (Nat.zero_add calls.length).le
  have hlast : ∀ i, ((answers (tableCall size) (fun _ => []) calls).2 i).length < rounds := by
    intro i
    have hle := @final_runOf_of_bound _ _ (fun n (t : ℕ → List α) => ∀ i, (t i).length ≤ n) _
      hlonger 0 (fun _ => []) (fun i => le_rfl) calls i
    rw [answers_snd]
    omega
  have hcall : ∀ (L : Links (HashNode α)) (t : ℕ → List α) (c : HashCall α σ),
      TableLinks size L t → c.Allowed size t ∧ (∀ i, (t i).length ≤ calls.length) →
      ∃ L', hashCall rounds size L c = .ok ((tableCall size t c).1, L') ∧
        TableLinks size L' (tableCall size t c).2 := fun L t c h hc =>
    h.call hc.1 fun i => (hc.2 i).trans_lt hrounds
  obtain ⟨L₁, hrun, hend⟩ := tryAnswers_eq_of_simulation hcall (TableLinks.create size hidle)
    (Along.and hcalls hshort)
  obtain ⟨L₂, hfree, hgone⟩ := hend.freeAll hlast
  exact ⟨L₁, L₂, hrun, hfree, hend.nodup_elements, fun a => hgone.idle a fun i => List.not_mem_nil⟩

end Run

/-- A key that is too large, an element that is deleted though it is in no list, and one that is
deleted and added again. -/
def mixedCalls : List (HashCall ℕ ℕ) :=
  [.add 1 10, .add 1 11, .add 0 12, .add 3 13, .init 13, .del 13, .del 14, .del 10, .add 1 10,
    .walk 3 (fun a mem => (if a = 10 then -1 else 0, mem + 1)) 0, .num, .empty, .walkAll]

theorem hashTable_refines_mixedCalls :
    ∃ L₁ L₂ : Links (HashNode ℕ),
      tryAnswers (hashCall 20 3) (hashCreate 3 ⟨fun _ => none, fun _ => none⟩) mixedCalls =
        .ok ([.code 0, .code 0, .code 0, .code (-1), .code 0, .code 0, .code 0, .code 0, .code 0,
          .found (some 10) 3, .code 3, .code 0, .nodes [12, 11, 10]], L₁) ∧
      hashFreeAll 20 3 L₁ = .ok (L₂, [12, 11, 10]) ∧ [12, 11, 10].Nodup ∧
      ∀ a, Idle L₂ (.node a) :=
  hashTable_refines 3 (fun _ => .inl ⟨rfl, rfl⟩) (by decide) (by decide +kernel)

end Gendo
