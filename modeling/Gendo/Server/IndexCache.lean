import Gendo.Library.OrderedMap
import Gendo.Library.StepSystem
import Gendo.Server.LibList
import Mathlib.Data.List.Range

/-!
# The index cache

The cache of `lib-index-cache.c`: an array of slots that ids index, a list through the occupied
slots, and a counter. An item is known by its address. The abstract cache is a partial map from
ids to items that keeps the order in which the ids came, and `IdxOp.spec` is what each operation
should do to it.

Three things keep the cache from being that map. `idx_cache_delete` counts down also where the
slot is empty; `idx_cache_put` and `idx_cache_update` take NULL for an item, and `update` fills
empty slots; `idx_cache_clear` takes an id that is out of range for another one. And the assertion
in `idx_cache_put` fails when the last slot is filled. `behavesAsMap_iff` says that there is
nothing else.
-/

namespace Gendo

open LinkedList StepSystem

/-- `IDX_CACHE_MAX`. -/
def IDX_CACHE_MAX : ℕ := 10000000

/-- The list nodes of a cache: the head, and the node of every slot. -/
inductive IdxNode
  | list
  | ary (i : ℕ)
  deriving DecidableEq, Repr

/-- `idx_cache_t`, with the fields of the slots by their index. `deleted` are the items that
`fun_on_delete` was called with. -/
structure IdxCache (δ : Type) where
  max : ℕ
  cur : ℤ
  funOnDelete : Bool
  links : Links IdxNode
  data : ℕ → Option δ
  deleted : List δ

variable {δ : Type}

namespace IdxCache

/-- `idx_cache_init`, where the memory that `mem_malloc` returns is zero. -/
def idxCacheInit (max : ℕ) (funOnDelete : Bool) : Option (IdxCache δ) :=
  if IDX_CACHE_MAX < max then none
  else
    some
      { max := max
        cur := 0
        funOnDelete := funOnDelete
        links := initLibList ⟨fun _ => none, fun _ => none⟩ .list
        data := fun _ => none
        deleted := [] }

/-- The call of `fun_on_delete`, where there is one and the slot had an item. -/
def onDelete (ic : IdxCache δ) (p : Option δ) : IdxCache δ :=
  if ic.funOnDelete then { ic with deleted := ic.deleted ++ p.toList } else ic

/-- The `data` field of a slot set. -/
def setData (ic : IdxCache δ) (i : ℕ) (p : Option δ) : IdxCache δ :=
  { ic with data := Function.update ic.data i p }

/-- A slot emptied, taken out of the list and counted off. -/
def dropSlot (ic : IdxCache δ) (i : ℕ) : IdxCache δ :=
  { ic with
    data := Function.update ic.data i none
    links := libListDel ic.links (.ary i)
    cur := ic.cur - 1 }

/-- `idx_cache_delete_internal`. -/
def idxCacheDeleteInternal (ic : IdxCache δ) (id : UInt32) : IdxCache δ :=
  if ic.max ≤ id.toNat then ic
  else
    let p := ic.data (id.toNat % ic.max)
    (ic.dropSlot (id.toNat % ic.max)).onDelete p

/-- `idx_cache_delete`, which takes the lock around the same. -/
def idxCacheDelete (ic : IdxCache δ) (id : UInt32) : IdxCache δ := ic.idxCacheDeleteInternal id

/-- `idx_cache_get`. -/
def idxCacheGet (ic : IdxCache δ) (id : UInt32) : Option δ :=
  if ic.max ≤ id.toNat then none else ic.data (id.toNat % ic.max)

/-- `idx_cache_update`. An id out of range is answered with NULL, which is `OK`, too. -/
def idxCacheUpdate (ic : IdxCache δ) (id : UInt32) (dataUpdated : Option δ) : ℤ × IdxCache δ :=
  if ic.max ≤ id.toNat then (OK, ic)
  else (OK, ic.setData (id.toNat % ic.max) dataUpdated)

/-- `idx_cache_put`. -/
def idxCachePut (ic : IdxCache δ) (id : UInt32) (param : Option δ) :
    Except Stop (ℤ × IdxCache δ) :=
  if ic.max ≤ id.toNat then .ok (ERROR, ic)
  else if (ic.data (id.toNat % ic.max)).isSome then .ok (ERROR, ic)
  else do
    let data := Function.update ic.data (id.toNat % ic.max) param
    let links ← libListAddTail ic.links (.ary (id.toNat % ic.max)) .list
    let cur := ic.cur + 1
    libAssert (cur < ic.max)
    return (OK, { ic with data := data, links := links, cur := cur })

/-- `idx_cache_clear`. -/
def idxCacheClear (ic : IdxCache δ) (id : UInt32) : IdxCache δ :=
  if (ic.data (id.toNat % ic.max)).isSome then ic.dropSlot (id.toNat % ic.max) else ic

/-- One round of the loop in `idx_cache_flush`. -/
def flushSlot (ic : IdxCache δ) (i : ℕ) : IdxCache δ :=
  let p := ic.data i
  let ic := if p.isSome then ic.dropSlot i else ic
  ic.onDelete p

/-- `idx_cache_flush`. -/
def idxCacheFlush (ic : IdxCache δ) : IdxCache δ :=
  (List.range ic.max).foldl flushSlot ic

end IdxCache

/-- The operations, with the id or pointer arguments of the call. -/
inductive IdxOp (δ : Type)
  | put (id : UInt32) (param : Option δ)
  | update (id : UInt32) (dataUpdated : Option δ)
  | delete (id : UInt32)
  | deleteInternal (id : UInt32)
  | clear (id : UInt32)
  | flush
  deriving DecidableEq

namespace IdxOp

/-- The cache after the operation. -/
def run (ic : IdxCache δ) : IdxOp δ → Except Stop (IdxCache δ)
  | put id param => Prod.snd <$> ic.idxCachePut id param
  | update id dataUpdated => .ok (ic.idxCacheUpdate id dataUpdated).2
  | delete id => .ok (ic.idxCacheDelete id)
  | deleteInternal id => .ok (ic.idxCacheDeleteInternal id)
  | clear id => .ok (ic.idxCacheClear id)
  | flush => .ok ic.idxCacheFlush

/-- What the operation should do to the map, where NULL is no item. -/
def spec (max : ℕ) (m : OrderedMap ℕ δ) : IdxOp δ → OrderedMap ℕ δ
  | put _ none => m
  | put id (some item) => if id.toNat < max then m.insert id.toNat item else m
  | update id none => m.erase id.toNat
  | update id (some item) => m.replace id.toNat item
  | delete id | deleteInternal id | clear id => m.erase id.toNat
  | flush => .empty

/-- The id that an operation is on. `idx_cache_flush` is on all of them. -/
def target : IdxOp δ → Option UInt32
  | put id _ | update id _ | delete id | deleteInternal id | clear id => some id
  | flush => none

/-- Where the operation finds nothing to do: its id is out of range, or its slot is empty and
it does not put an item there. -/
def Void (max : ℕ) (m : OrderedMap ℕ δ) : IdxOp δ → Prop
  | put id _ => max ≤ id.toNat
  | update id _ | delete id | deleteInternal id | clear id =>
    max ≤ id.toNat ∨ m.get id.toNat = none
  | flush => False

/-- Where the operation does what it should. -/
def guard (ic : IdxCache δ) : IdxOp δ → Prop
  -- an empty slot is given an item, and is not the last one
  | put id param => id.toNat < ic.max → ic.data id.toNat = none →
      param ≠ none ∧ ic.cur + 1 < ic.max
  -- the item of an occupied slot is replaced by another
  | update id dataUpdated => id.toNat < ic.max → (dataUpdated = none ↔ ic.data id.toNat = none)
  | delete id | deleteInternal id => id.toNat < ic.max → ic.data id.toNat ≠ none
  | clear id => ic.max ≤ id.toNat → ic.data (id.toNat % ic.max) = none
  | flush => True

instance (ic : IdxCache δ) : (op : IdxOp δ) → Decidable (op.guard ic)
  | put _ _ => inferInstanceAs (Decidable (_ → _ → _ ∧ _))
  | update _ _ => inferInstanceAs (Decidable (_ → (_ ↔ _)))
  | delete _ | deleteInternal _ => inferInstanceAs (Decidable (_ → _ ≠ _))
  | clear _ => inferInstanceAs (Decidable (_ → _ = _))
  | flush => inferInstanceAs (Decidable True)

end IdxOp

/-- The cache holds the map: the array, the list and the counter say the same. -/
structure IdxCache.Represents (ic : IdxCache δ) (max : ℕ) (m : OrderedMap ℕ δ) : Prop where
  max_eq : ic.max = max
  lt_max : ∀ k ∈ m.order, k < max
  data : ic.data = m.get
  cur : ic.cur = m.order.length
  list : Ring ic.links .list (m.order.map .ary)

/-- The cache, unless the process has ended, and the map that it should be. -/
abbrev IdxState (δ : Type) := Except Stop (IdxCache δ) × OrderedMap ℕ δ

namespace IdxOp

/-- An operation on the cache, next to what it should do. -/
def next (max : ℕ) (s : IdxState δ) (op : IdxOp δ) : IdxState δ :=
  (s.1 >>= fun ic => op.run ic, op.spec max s.2)

/-- The operation returns, and leaves the cache holding the map that it should; it does not
change what other ids get, and changes nothing where it has nothing to do. -/
def BehavesAsMap (max : ℕ) (s : IdxState δ) (op : IdxOp δ) (t : IdxState δ) : Prop :=
  ∃ ic ic', s.1 = .ok ic ∧ t.1 = .ok ic' ∧ ic'.Represents max t.2 ∧
    (∀ k, op.target = some k → ∀ id ≠ k, ic'.idxCacheGet id = ic.idxCacheGet id) ∧
    (op.Void max s.2 → ic' = ic)

/-- The guard of an operation where the cache is still there. -/
def Allowed (s : IdxState δ) (op : IdxOp δ) : Prop :=
  match s.1 with
  | .ok ic => op.guard ic
  | .error _ => False

instance : (s : IdxState δ) → (op : IdxOp δ) → Decidable (op.Allowed s)
  | (.ok ic, _), op => inferInstanceAs (Decidable (op.guard ic))
  | (.error _, _), _ => inferInstanceAs (Decidable False)

end IdxOp

@[simp]
theorem data_setData (ic : IdxCache δ) (i : ℕ) (p : Option δ) :
    (ic.setData i p).data = Function.update ic.data i p := rfl

@[simp]
theorem cur_dropSlot (ic : IdxCache δ) (i : ℕ) : (ic.dropSlot i).cur = ic.cur - 1 := rfl

@[simp]
theorem cur_onDelete (ic : IdxCache δ) (p : Option δ) : (ic.onDelete p).cur = ic.cur := by
  rw [IdxCache.onDelete]
  split <;> rfl

@[simp]
theorem links_onDelete (ic : IdxCache δ) (p : Option δ) : (ic.onDelete p).links = ic.links := by
  rw [IdxCache.onDelete]
  split <;> rfl

theorem IdxCache.represents_init {max : ℕ} {funOnDelete : Bool} {ic : IdxCache δ}
    (hinit : idxCacheInit max funOnDelete = some ic) : ic.Represents max .empty := by
  rw [idxCacheInit] at hinit
  split_ifs at hinit
  cases hinit
  exact ⟨rfl, by simp, rfl, rfl, ring_initLibList _ _⟩

/-- The node of an empty slot is not in the list. -/
theorem notMem_nodes {m : OrderedMap ℕ δ} {k : ℕ} (hk : m.get k = none) :
    IdxNode.ary k ∉ IdxNode.list :: m.order.map IdxNode.ary := by
  simpa using OrderedMap.notMem_order.2 hk

namespace IdxCache.Represents

variable {ic ic' : IdxCache δ} {max k : ℕ} {m m' : OrderedMap ℕ δ} {id : UInt32}

/-- The map has no keys that are out of range. -/
theorem get_of_le (h : ic.Represents max m) (hk : max ≤ k) : m.get k = none :=
  OrderedMap.notMem_order.1 fun hmem => Nat.not_lt_of_le hk (h.lt_max k hmem)

/-- What the map is for ids, the array is for indices. -/
theorem idxCacheGet_eq (h : ic.Represents max m) (id : UInt32) :
    ic.idxCacheGet id = m.get id.toNat := by
  rw [idxCacheGet, h.max_eq]
  split_ifs with hid
  · rw [h.get_of_le hid]
  · rw [Nat.mod_eq_of_lt (by omega), h.data]

theorem onDelete (h : ic.Represents max m) (p : Option δ) : (ic.onDelete p).Represents max m := by
  rw [IdxCache.onDelete]
  split
  · exact ⟨h.max_eq, h.lt_max, h.data, h.cur, h.list⟩
  · exact h

theorem dropSlot (h : ic.Represents max m) (hk : m.get k ≠ none) :
    (ic.dropSlot k).Represents max (m.erase k) := by
  have hmem : k ∈ m.order := (m.mem_order k).2 hk
  refine ⟨h.max_eq, ?_, ?_, ?_, ring_libListDel_map h.list hmem⟩
  · intro j hj
    exact h.lt_max j (List.mem_of_mem_erase hj)
  · rw [IdxCache.dropSlot, h.data, OrderedMap.get_erase]
  · have hcur := h.cur
    have hlength := List.length_erase_add_one hmem
    rw [cur_dropSlot, OrderedMap.order_erase]
    omega

/-- An item set in an occupied slot. -/
theorem setData (h : ic.Represents max m) (hk : m.get k ≠ none) (item : δ) :
    (ic.setData k (some item)).Represents max (m.replace k item) := by
  refine ⟨h.max_eq, ?_, ?_, ?_, ?_⟩
  · rw [OrderedMap.order_replace]
    exact h.lt_max
  · rw [OrderedMap.get_replace hk, IdxCache.setData, h.data]
  · rw [OrderedMap.order_replace]
    exact h.cur
  · rw [OrderedMap.order_replace]
    exact h.list

/-- `idx_cache_put` on an empty slot, up to the assertion. -/
theorem idxCachePut_eq (h : ic.Represents max m) (hid : id.toNat < max)
    (hk : m.get id.toNat = none) (param : Option δ) :
    ∃ links, Ring links .list ((m.order ++ [id.toNat]).map .ary) ∧
      ic.idxCachePut id param =
        if ic.cur + 1 < max then
          .ok (OK, { ic with data := Function.update ic.data id.toNat param, links := links,
                             cur := ic.cur + 1 })
        else .error .assertion := by
  obtain ⟨links, hadd, hring⟩ := exists_libListAddTail h.list (notMem_nodes hk)
  refine ⟨links, by simpa using hring, ?_⟩
  rw [idxCachePut, h.max_eq, if_neg (by omega), Nat.mod_eq_of_lt hid, h.data, hk,
    if_neg (by simp), hadd, ok_bind]
  by_cases hcur : ic.cur + 1 < max
  · rw [if_pos hcur]
    simp only [libAssert, hcur, if_true, ok_bind]
    rfl
  · rw [if_neg hcur]
    simp only [libAssert, hcur, if_false]
    rfl

theorem idxCachePut_of_lt (h : ic.Represents max m) (hid : id.toNat < max)
    (hk : m.get id.toNat = none) (item : δ) (hcur : ic.cur + 1 < max) :
    ∃ ic', ic.idxCachePut id (some item) = .ok (OK, ic') ∧
      ic'.Represents max (m.insert id.toNat item) := by
  obtain ⟨links, hring, hput⟩ := h.idxCachePut_eq hid hk (some item)
  rw [if_pos hcur] at hput
  refine ⟨_, hput, h.max_eq, ?_, ?_, ?_, ?_⟩
  · rw [OrderedMap.order_insert hk]
    intro j hj
    obtain hj | hj := List.mem_append.1 hj
    · exact h.lt_max j hj
    · rwa [List.mem_singleton.1 hj]
  · rw [OrderedMap.get_insert hk, h.data]
  · rw [OrderedMap.order_insert hk, List.length_append, h.cur]
    rfl
  · rw [OrderedMap.order_insert hk]
    exact hring

/-- `idx_cache_update` with an item for an item, or with NULL for NULL. -/
theorem idxCacheUpdate (h : ic.Represents max m) {dataUpdated : Option δ}
    (hk : id.toNat < max → (dataUpdated = none ↔ m.get id.toNat = none)) :
    (ic.idxCacheUpdate id dataUpdated).2.Represents max
        ((IdxOp.update id dataUpdated).spec max m) ∧
      ((IdxOp.update id dataUpdated).Void max m → (ic.idxCacheUpdate id dataUpdated).2 = ic) := by
  have hsame : m.get id.toNat = none → (IdxOp.update id dataUpdated).spec max m = m := by
    intro hnone
    cases dataUpdated with
    | none => exact OrderedMap.erase_of_get hnone
    | some item => exact OrderedMap.replace_of_get hnone
  rw [IdxCache.idxCacheUpdate, h.max_eq]
  split_ifs with hid
  · rw [hsame (h.get_of_le hid)]
    exact ⟨h, fun _ => rfl⟩
  · rw [Nat.mod_eq_of_lt (by omega)]
    by_cases hnone : m.get id.toNat = none
    · have heq : ic.setData id.toNat dataUpdated = ic := by
        rw [IdxCache.setData, (hk (by omega)).2 hnone,
          Function.update_eq_self_iff.2 (by rw [h.data, hnone])]
      rw [hsame hnone, heq]
      exact ⟨h, fun _ => rfl⟩
    · obtain ⟨item, rfl⟩ := Option.ne_none_iff_exists'.1 (mt (hk (by omega)).1 hnone)
      exact ⟨h.setData hnone item, fun hvoid => absurd hvoid (by simp [IdxOp.Void, hid, hnone])⟩

theorem idxCacheDeleteInternal (h : ic.Represents max m)
    (hk : id.toNat < max → m.get id.toNat ≠ none) :
    (ic.idxCacheDeleteInternal id).Represents max (m.erase id.toNat) := by
  rw [IdxCache.idxCacheDeleteInternal, h.max_eq]
  split_ifs with hid
  · rw [OrderedMap.erase_of_get (h.get_of_le hid)]
    exact h
  · rw [Nat.mod_eq_of_lt (by omega)]
    exact (h.dropSlot (hk (by omega))).onDelete _

theorem idxCacheClear (h : ic.Represents max m)
    (hk : max ≤ id.toNat → m.get (id.toNat % max) = none) :
    (ic.idxCacheClear id).Represents max (m.erase id.toNat) := by
  rw [IdxCache.idxCacheClear, h.max_eq, h.data]
  split_ifs with hitem
  · have hid : id.toNat < max := by
      by_contra hid
      rw [hk (by omega)] at hitem
      cases hitem
    rw [Nat.mod_eq_of_lt hid] at hitem ⊢
    exact h.dropSlot (Option.isSome_iff_ne_none.1 hitem)
  · have hnone : m.get id.toNat = none := by
      by_cases hid : id.toNat < max
      · rw [Nat.mod_eq_of_lt hid] at hitem
        exact Option.not_isSome_iff_eq_none.1 hitem
      · exact h.get_of_le (by omega)
    rw [OrderedMap.erase_of_get hnone]
    exact h

/-- One round of `idx_cache_flush` takes its slot out of the map. -/
theorem flushSlot (h : ic.Represents max m) (i : ℕ) :
    (ic.flushSlot i).Represents max (m.erase i) := by
  rw [IdxCache.flushSlot]
  apply onDelete
  by_cases hi : m.get i = none
  · rw [h.data, hi, if_neg (by simp), OrderedMap.erase_of_get hi]
    exact h
  · rw [h.data, if_pos (Option.isSome_iff_ne_none.2 hi)]
    exact h.dropSlot hi

theorem foldl_flushSlot (h : ic.Represents max m) (l : List ℕ) :
    (l.foldl IdxCache.flushSlot ic).Represents max (l.foldl OrderedMap.erase m) := by
  induction l generalizing ic m with
  | nil => exact h
  | cons i l ih => exact ih (h.flushSlot i)

/-- `idx_cache_flush` comes to every slot. -/
theorem idxCacheFlush (h : ic.Represents max m) : ic.idxCacheFlush.Represents max .empty := by
  have hflush := h.foldl_flushSlot (List.range max)
  have hempty : (List.range max).foldl OrderedMap.erase m = .empty :=
    OrderedMap.foldl_erase_eq_empty fun k hk => List.mem_range.2 (h.lt_max k hk)
  rw [hempty] at hflush
  rw [IdxCache.idxCacheFlush, h.max_eq]
  exact hflush

end IdxCache.Represents

namespace IdxOp

variable {ic ic' : IdxCache δ} {max : ℕ} {m : OrderedMap ℕ δ} {op : IdxOp δ}

/-- What an allowed operation does. -/
theorem run_of_guard (h : ic.Represents max m) (hguard : op.guard ic) :
    ∃ ic', op.run ic = .ok ic' ∧ ic'.Represents max (op.spec max m) ∧
      (op.Void max m → ic' = ic) := by
  cases op with
  | put id param =>
    rw [guard, h.max_eq, h.data] at hguard
    by_cases hid : max ≤ id.toNat
    · -- the id is refused
      have hput : ic.idxCachePut id param = .ok (ERROR, ic) := by
        rw [IdxCache.idxCachePut, h.max_eq, if_pos hid]
      refine ⟨ic, by rw [run, hput]; rfl, ?_, fun _ => rfl⟩
      cases param with
      | none => exact h
      | some item => rwa [spec, if_neg (by omega)]
    · by_cases hk : m.get id.toNat = none
      · obtain ⟨hparam, hcur⟩ := hguard (by omega) hk
        obtain ⟨item, rfl⟩ := Option.ne_none_iff_exists'.1 hparam
        obtain ⟨ic', hput, h'⟩ := h.idxCachePut_of_lt (by omega) hk item hcur
        refine ⟨ic', by rw [run, hput]; rfl, ?_, fun hvoid => absurd hvoid hid⟩
        rwa [spec, if_pos (by omega)]
      · -- the slot is taken
        have hput : ic.idxCachePut id param = .ok (ERROR, ic) := by
          rw [IdxCache.idxCachePut, h.max_eq, if_neg hid, Nat.mod_eq_of_lt (by omega), h.data,
            if_pos (Option.isSome_iff_ne_none.2 hk)]
        refine ⟨ic, by rw [run, hput]; rfl, ?_, fun _ => rfl⟩
        cases param with
        | none => exact h
        | some item => rwa [spec, if_pos (by omega), OrderedMap.insert_of_get hk]
  | update id dataUpdated =>
    rw [guard, h.max_eq, h.data] at hguard
    refine ⟨_, rfl, h.idxCacheUpdate hguard⟩
  | delete id | deleteInternal id =>
    rw [guard, h.max_eq, h.data] at hguard
    refine ⟨_, rfl, h.idxCacheDeleteInternal hguard, fun hvoid => ?_⟩
    have hid : max ≤ id.toNat := hvoid.elim (fun hid => hid) fun hk => by
      by_contra hid
      exact hguard (by omega) hk
    show ic.idxCacheDeleteInternal id = ic
    rw [IdxCache.idxCacheDeleteInternal, h.max_eq, if_pos hid]
  | clear id =>
    rw [guard, h.max_eq, h.data] at hguard
    refine ⟨_, rfl, h.idxCacheClear hguard, fun hvoid => ?_⟩
    have hslot : m.get (id.toNat % max) = none := by
      by_cases hid : max ≤ id.toNat
      · exact hguard hid
      · rw [Nat.mod_eq_of_lt (by omega)]
        exact hvoid.resolve_left hid
    rw [IdxCache.idxCacheClear, h.max_eq, h.data, hslot, if_neg (by simp)]
  | flush => exact ⟨_, rfl, h.idxCacheFlush, False.elim⟩

/-- An operation that does what it should was allowed. -/
theorem guard_of_run (h : ic.Represents max m) (hrun : op.run ic = .ok ic')
    (h' : ic'.Represents max (op.spec max m)) : op.guard ic := by
  have hcur := h.cur
  have hcur' := h'.cur
  have hdata' := h'.data
  cases op with
  | put id param =>
    rw [guard, h.max_eq, h.data]
    intro hid hk
    obtain ⟨links, -, hput⟩ := h.idxCachePut_eq hid hk param
    rw [run, hput] at hrun
    split_ifs at hrun with hlast
    · refine ⟨?_, hlast⟩
      -- NULL is counted, but is no item of the map
      rintro rfl
      cases hrun
      simp only [spec] at hcur'
      omega
    · cases hrun
  | update id dataUpdated =>
    rw [guard, h.max_eq, h.data]
    intro hid
    have hrun' : ic.setData id.toNat dataUpdated = ic' := by
      rw [run, IdxCache.idxCacheUpdate, h.max_eq, if_neg (by omega), Nat.mod_eq_of_lt hid] at hrun
      exact Except.ok.inj hrun
    subst hrun'
    cases dataUpdated with
    | none =>
      refine iff_of_true rfl ?_
      by_contra hk
      -- the emptied slot is still counted
      have hmem : id.toNat ∈ m.order := (m.mem_order _).2 hk
      have hlength := List.length_erase_add_one hmem
      simp only [IdxCache.setData, spec, OrderedMap.order_erase] at hcur'
      omega
    | some item =>
      refine iff_of_false (by simp) fun hk => ?_
      rw [spec, OrderedMap.replace_of_get hk] at hdata'
      have hitem := congrFun hdata' id.toNat
      rw [data_setData, Function.update_self, hk] at hitem
      cases hitem
  | delete id | deleteInternal id =>
    rw [guard, h.max_eq, h.data]
    intro hid hk
    have hrun' : (ic.idxCacheDeleteInternal id).cur = ic'.cur := by
      rw [← Except.ok.inj hrun] <;> rfl
    rw [IdxCache.idxCacheDeleteInternal, h.max_eq, if_neg (by omega), cur_onDelete,
      cur_dropSlot] at hrun'
    rw [spec, OrderedMap.erase_of_get hk] at hcur'
    omega
  | clear id =>
    rw [guard, h.max_eq, h.data]
    intro hid
    by_contra hk
    have hrun' : (ic.idxCacheClear id).cur = ic'.cur := by
      rw [← Except.ok.inj hrun]
    rw [IdxCache.idxCacheClear, h.max_eq, h.data, if_pos (Option.isSome_iff_ne_none.2 hk),
      cur_dropSlot] at hrun'
    rw [spec, OrderedMap.erase_of_get (h.get_of_le hid)] at hcur'
    omega
  | flush => trivial

/-- The other keys of the map keep their items. -/
theorem get_spec (max : ℕ) (m : OrderedMap ℕ δ) {k : UInt32} (hk : op.target = some k) {j : ℕ}
    (hj : j ≠ k.toNat) : (op.spec max m).get j = m.get j := by
  cases op with
  | put id param =>
    cases hk
    cases param with
    | none => rfl
    | some item =>
      rw [spec]
      split
      · exact OrderedMap.get_insert_of_ne hj
      · rfl
  | update id dataUpdated =>
    cases hk
    cases dataUpdated with
    | none => exact Function.update_of_ne hj _ _
    | some item => exact OrderedMap.get_replace_of_ne hj
  | delete id | deleteInternal id | clear id =>
    cases hk
    exact Function.update_of_ne hj _ _
  | flush => cases hk

theorem behavesAsMap_of_guard (h : ic.Represents max m) (hguard : op.guard ic) :
    BehavesAsMap max (.ok ic, m) op (next max (.ok ic, m) op) := by
  obtain ⟨ic', hrun, h', hvoid⟩ := run_of_guard h hguard
  refine ⟨ic, ic', rfl, hrun, h', ?_, hvoid⟩
  intro k hk id hne
  rw [h'.idxCacheGet_eq, h.idxCacheGet_eq, get_spec max m hk]
  rwa [Ne, UInt32.toNat_inj]

/-- The cache is there and holds the map. -/
def Held (max : ℕ) (s : IdxState δ) : Prop := ∃ ic, s.1 = .ok ic ∧ ic.Represents max s.2

/-- The cache is the partial map that it should be in exactly the runs in which no NULL is put or
updated into it, no empty slot is updated or deleted, no id out of range is cleared for an
occupied slot, and the last free slot is never filled. -/
theorem behavesAsMap_iff {funOnDelete : Bool}
    (hinit : IdxCache.idxCacheInit max funOnDelete = some ic) (ops : List (IdxOp δ)) :
    Along (BehavesAsMap max) (.ok ic, .empty) (runOf (next max) (.ok ic, .empty) ops) ↔
      Guarded Allowed (.ok ic, .empty) (runOf (next max) (.ok ic, .empty) ops) := by
  have hgood : ∀ (s : IdxState δ) op t, Held max s → t = next max s op → Allowed s op →
      BehavesAsMap max s op t ∧ Held max t := by
    rintro ⟨-, m⟩ op t ⟨ic, rfl, h⟩ rfl hguard
    have hmap := behavesAsMap_of_guard h hguard
    obtain ⟨-, ic', -, hrun, h', -⟩ := id hmap
    exact ⟨hmap, ic', hrun, h'⟩
  have hbad : ∀ (s : IdxState δ) op t, Held max s → t = next max s op → BehavesAsMap max s op t →
      Allowed s op := by
    rintro ⟨-, m⟩ op t ⟨ic, rfl, h⟩ rfl ⟨-, ic', -, hrun, h', -⟩
    exact guard_of_run h hrun h'
  exact along_iff_guarded hgood hbad ⟨ic, rfl, IdxCache.represents_init hinit⟩ (isRun_runOf _ _ _)

/-- Operations on a cache of three slots that all do what they should. -/
theorem behavesAsMap_threeSlots : ∃ ic : IdxCache ℕ, IdxCache.idxCacheInit 3 true = some ic ∧
    Along (BehavesAsMap 3) (.ok ic, .empty) (runOf (next 3) (.ok ic, .empty)
      [.put 2 (some 70), .put 0 (some 71), .put 5 (some 72), .update 2 (some 73), .delete 0,
        .clear 1, .put 1 (some 74), .deleteInternal 2, .flush]) :=
  ⟨_, rfl, (behavesAsMap_iff rfl _).2 (by decide)⟩

/-- The last slot cannot be filled, and a deletion of nothing is counted. -/
theorem not_behavesAsMap : ∃ ic : IdxCache ℕ, IdxCache.idxCacheInit 1 true = some ic ∧
    ¬ Along (BehavesAsMap 1) (.ok ic, .empty)
      (runOf (next 1) (.ok ic, .empty) [.put 0 (some 70)]) ∧
    ¬ Along (BehavesAsMap 1) (.ok ic, .empty)
      (runOf (next 1) (.ok ic, .empty) [.delete 0]) := by
  refine ⟨_, rfl, ?_, ?_⟩
  · rintro ⟨⟨-, ic', -, hrun, -⟩, -⟩
    cases hrun
  · rintro ⟨⟨-, ic', -, hrun, h', -⟩, -⟩
    cases hrun
    have hcur := h'.cur
    revert hcur
    decide

end IdxOp

end Gendo
