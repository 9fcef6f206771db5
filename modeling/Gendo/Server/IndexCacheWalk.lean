import Gendo.Server.IndexCache

/-!
# Walking the index cache

`idx_cache_walk` of `lib-index-cache.c`: every item of the list is shown to a compare function,
and the items that match are given to a job, which may delete the item it is given. Both work on
the memory of the caller. `walkSpec` is the walk as it should be, over the ids that were there at
its start.

The loop reads `next` of the node after the job has run. `lib_list_del` has cleared it by then if
the job deleted the item, so the walk goes on at NULL. `walks_iff` says that it is right where it
stops after its first match anyway, or where no job deletes, and nowhere else.
-/

namespace Gendo

open LinkedList

variable {δ σ : Type}

/-- `pfn_idx_cache_walk_cmp`, which may change the memory of the caller. -/
abbrev WalkCmp (δ σ : Type) := Option δ → σ → ℤ × σ

/-- `pfn_idx_cache_walk_job`. A job that is given the item of a slot says whether it calls
`idx_cache_delete_internal` on it. -/
abbrev WalkJob (δ σ : Type) := ℕ → Option δ → σ → Bool × σ

/-- The cache, the memory of the caller, and the slots whose items the job was called on. -/
structure WalkState (δ σ : Type) where
  ic : IdxCache δ
  caller : σ
  jobs : List ℕ

/-- The link fields that the loop reads. -/
def WalkState.links (s : WalkState δ σ) : Links IdxNode := s.ic.links

/-- `found` for an item, which is 1 all along where there is no compare function. -/
def walkFound (cmp : Option (WalkCmp δ σ)) (item : Option δ) (caller : σ) : ℤ × σ :=
  match cmp with
  | some cmp => cmp item caller
  | none => (1, caller)

/-- The call of the job on the item of a slot. -/
def walkCall (job : WalkJob δ σ) (i : ℕ) (s : WalkState δ σ) : WalkState δ σ :=
  let (deletes, caller) := job i (s.ic.data i) s.caller
  { ic := if deletes then s.ic.idxCacheDeleteInternal (.ofNat i) else s.ic
    caller := caller
    jobs := s.jobs ++ [i] }

/-- What is done where an item matches. -/
def walkMatch (job : Option (WalkJob δ σ)) (i : ℕ) (s : WalkState δ σ) : WalkState δ σ :=
  match job with
  | some job => walkCall job i s
  | none => s

/-- The body of the loop in `idx_cache_walk`, and whether it breaks. -/
def walkItem (cmp : Option (WalkCmp δ σ)) (job : Option (WalkJob δ σ)) (once : ℤ) :
    IdxNode → WalkState δ σ → Except Stop (Bool × WalkState δ σ)
  -- the loop ends before it would take its head for an item
  | .list, _ => .error .nullPointer
  | .ary i, s =>
    let (found, caller) := walkFound cmp (s.ic.data i) s.caller
    let s := { s with caller := caller }
    let s := if found ≠ 0 then walkMatch job i s else s
    .ok (decide (found ≠ 0 ∧ once ≠ 0), s)

/-- `idx_cache_walk`, with so many rounds for its loop. -/
def idxCacheWalk (rounds : ℕ) (ic : IdxCache δ) (cmp : Option (WalkCmp δ σ))
    (job : Option (WalkJob δ σ)) (caller : σ) (once : ℤ) : Except Stop (WalkState δ σ) :=
  libListForEach WalkState.links .list (walkItem cmp job once) rounds
    (ic.links.next .list) ⟨ic, caller, []⟩

/-- What a walk leaves behind: the map, the memory of the caller, and the ids of the items that
the job was called on. -/
structure Walked (δ σ : Type) where
  map : OrderedMap ℕ δ
  caller : σ
  jobs : List ℕ

/-- Whether the job deletes the item, and the memory of the caller; without a job, nothing
happens. -/
def jobSpec (job : Option (WalkJob δ σ)) (i : ℕ) (item : Option δ) (caller : σ) : Bool × σ :=
  match job with
  | some job => job i item caller
  | none => (false, caller)

/-- What the walk should do with these ids. -/
def walkSpec (cmp : Option (WalkCmp δ σ)) (job : Option (WalkJob δ σ)) (once : ℤ) :
    List ℕ → OrderedMap ℕ δ → σ → Walked δ σ
  | [], m, caller => ⟨m, caller, []⟩
  | i :: ids, m, caller =>
    let (found, caller) := walkFound cmp (m.get i) caller
    if found = 0 then walkSpec cmp job once ids m caller
    else
      let (deletes, caller) := jobSpec job i (m.get i) caller
      let m := if deletes then m.erase i else m
      let rest := if once ≠ 0 then ⟨m, caller, []⟩ else walkSpec cmp job once ids m caller
      { rest with jobs := (if job.isSome then [i] else []) ++ rest.jobs }

/-- No job that a whole walk comes to deletes its item. -/
def SparesItems (cmp : Option (WalkCmp δ σ)) (job : Option (WalkJob δ σ)) :
    List ℕ → OrderedMap ℕ δ → σ → Prop
  | [], _, _ => True
  | i :: ids, m, caller =>
    let (found, caller) := walkFound cmp (m.get i) caller
    if found = 0 then SparesItems cmp job ids m caller
    else
      let (deletes, caller) := jobSpec job i (m.get i) caller
      deletes = false ∧ SparesItems cmp job ids m caller

/-- The walk returns, and has done to the cache what it should. -/
def Walks (ic : IdxCache δ) (max : ℕ) (m : OrderedMap ℕ δ) (cmp : Option (WalkCmp δ σ))
    (job : Option (WalkJob δ σ)) (caller : σ) (once : ℤ) : Prop :=
  ∃ rounds t, idxCacheWalk rounds ic cmp job caller once = .ok t ∧
    t.ic.Represents max (walkSpec cmp job once m.order m caller).map ∧
    t.caller = (walkSpec cmp job once m.order m caller).caller ∧
    t.jobs = (walkSpec cmp job once m.order m caller).jobs

variable {cmp : Option (WalkCmp δ σ)} {job : Option (WalkJob δ σ)} {once : ℤ} {max : ℕ}

theorem ic_walkMatch (i : ℕ) (s : WalkState δ σ) :
    (walkMatch job i s).ic =
      if (jobSpec job i (s.ic.data i) s.caller).1 then s.ic.idxCacheDeleteInternal (.ofNat i)
      else s.ic := by
  cases job <;> rfl

theorem caller_walkMatch (i : ℕ) (s : WalkState δ σ) :
    (walkMatch job i s).caller = (jobSpec job i (s.ic.data i) s.caller).2 := by
  cases job <;> rfl

theorem jobs_walkMatch (i : ℕ) (s : WalkState δ σ) :
    (walkMatch job i s).jobs = s.jobs ++ if job.isSome then [i] else [] := by
  cases job with
  | none => exact (List.append_nil _).symm
  | some job => rfl

theorem IdxCache.Represents.next_ary {ic : IdxCache δ} {m : OrderedMap ℕ δ} {i : ℕ} {ids : List ℕ}
    (h : ic.Represents max m) (hids : i :: ids <:+ m.order) :
    ic.links.next (.ary i) = some ((ids.map IdxNode.ary).headD .list) := by
  obtain ⟨before, horder⟩ := hids
  have hring := h.list
  rw [← horder, List.map_append, List.map_cons] at hring
  exact hring.next_eq

theorem IdxCache.Represents.toNat_ofNat {ic : IdxCache δ} {m : OrderedMap ℕ δ} {i : ℕ}
    (h : ic.Represents max m) (hmax : max ≤ IDX_CACHE_MAX) (hi : i ∈ m.order) :
    (UInt32.ofNat i).toNat = i := by
  apply UInt32.toNat_ofNat_of_lt'
  have hlt := h.lt_max i hi
  have hbound : IDX_CACHE_MAX < UInt32.size := by decide
  omega

/-- A node has no neighbours once its item is deleted. -/
theorem IdxCache.Represents.next_deleted {ic : IdxCache δ} {m : OrderedMap ℕ δ} {i : ℕ}
    (h : ic.Represents max m) (hmax : max ≤ IDX_CACHE_MAX) (hi : i ∈ m.order) :
    (ic.idxCacheDeleteInternal (.ofNat i)).links.next (.ary i) = none := by
  have hlt := h.lt_max i hi
  rw [IdxCache.idxCacheDeleteInternal, h.max_eq, h.toNat_ofNat hmax hi, if_neg (by omega),
    Nat.mod_eq_of_lt hlt, links_onDelete]
  exact next_libListDel_self _ _

/-- A job that deletes the item of an occupied slot takes it out of the map. -/
theorem represents_walkMatch (job : Option (WalkJob δ σ)) {m : OrderedMap ℕ δ} {i : ℕ}
    {s : WalkState δ σ}
    (h : s.ic.Represents max m) (hmax : max ≤ IDX_CACHE_MAX) (hi : i ∈ m.order) :
    (walkMatch job i s).ic.Represents max
      (if (jobSpec job i (m.get i) s.caller).1 then m.erase i else m) := by
  rw [ic_walkMatch, h.data]
  split
  · have hid := h.toNat_ofNat hmax hi
    have herase : (s.ic.idxCacheDeleteInternal (.ofNat i)).Represents max
        (m.erase (UInt32.ofNat i).toNat) := by
      apply h.idxCacheDeleteInternal
      rw [hid]
      exact fun _ => (m.mem_order i).1 hi
    rwa [hid] at herase
  · exact h

/-- Between two rounds: the walk has so far done what it should, with these ids still to come. -/
structure WalkInv (ic : IdxCache δ) (m : OrderedMap ℕ δ) (cmp : Option (WalkCmp δ σ))
    (job : Option (WalkJob δ σ)) (once : ℤ) (goal : Walked δ σ) (ids : List ℕ)
    (s : WalkState δ σ) : Prop where
  ic_eq : s.ic = ic
  suffix : ids <:+ m.order
  spares : once ≠ 0 ∨ SparesItems cmp job ids m s.caller
  map : (walkSpec cmp job once ids m s.caller).map = goal.map
  caller : (walkSpec cmp job once ids m s.caller).caller = goal.caller
  jobs : s.jobs ++ (walkSpec cmp job once ids m s.caller).jobs = goal.jobs

/-- The same, with the list nodes that are still to come. -/
def WalkRest (ic : IdxCache δ) (m : OrderedMap ℕ δ) (cmp : Option (WalkCmp δ σ))
    (job : Option (WalkJob δ σ)) (once : ℤ) (goal : Walked δ σ) (nodes : List IdxNode)
    (s : WalkState δ σ) : Prop :=
  ∃ ids, nodes = ids.map .ary ∧ WalkInv ic m cmp job once goal ids s

/-- The walk has done what it should. -/
structure WalkDone (max : ℕ) (goal : Walked δ σ) (t : WalkState δ σ) : Prop where
  represents : t.ic.Represents max goal.map
  caller : t.caller = goal.caller
  jobs : t.jobs = goal.jobs

section Spec

variable {m : OrderedMap ℕ δ} {i : ℕ} {ids : List ℕ} {caller : σ}

theorem walkSpec_of_eq (hf : (walkFound cmp (m.get i) caller).1 = 0) :
    walkSpec cmp job once (i :: ids) m caller =
      walkSpec cmp job once ids m (walkFound cmp (m.get i) caller).2 := by
  rw [walkSpec]
  exact if_pos hf

theorem walkSpec_of_ne (hf : (walkFound cmp (m.get i) caller).1 ≠ 0) {deletes : Bool} {caller' : σ}
    (hj : jobSpec job i (m.get i) (walkFound cmp (m.get i) caller).2 = (deletes, caller')) :
    walkSpec cmp job once (i :: ids) m caller =
      let m := if deletes then m.erase i else m
      let rest := if once ≠ 0 then ⟨m, caller', []⟩ else walkSpec cmp job once ids m caller'
      { rest with jobs := (if job.isSome then [i] else []) ++ rest.jobs } := by
  rw [walkSpec]
  simp only [hj]
  exact if_neg hf

theorem sparesItems_of_eq (hf : (walkFound cmp (m.get i) caller).1 = 0) :
    SparesItems cmp job (i :: ids) m caller ↔
      SparesItems cmp job ids m (walkFound cmp (m.get i) caller).2 := by
  rw [SparesItems]
  exact iff_of_eq (if_pos hf)

theorem sparesItems_of_ne (hf : (walkFound cmp (m.get i) caller).1 ≠ 0) {deletes : Bool}
    {caller' : σ}
    (hj : jobSpec job i (m.get i) (walkFound cmp (m.get i) caller).2 = (deletes, caller')) :
    SparesItems cmp job (i :: ids) m caller ↔
      deletes = false ∧ SparesItems cmp job ids m caller' := by
  rw [SparesItems]
  simp only [hj]
  exact iff_of_eq (if_neg hf)

end Spec

/-- Where the compare function does not depend on the memory of the caller, the job is called on
the matching items in the order in which they came, each once. -/
theorem jobs_walkSpec {f : Option δ → ℤ}
    (hf : ∀ item caller, (walkFound cmp item caller).1 = f item)
    (job : WalkJob δ σ) {ids : List ℕ} (hids : ids.Nodup) (m : OrderedMap ℕ δ) (caller : σ) :
    (walkSpec cmp (some job) 0 ids m caller).jobs = ids.filter fun i => f (m.get i) ≠ 0 := by
  induction ids generalizing m caller with
  | nil => rfl
  | cons i ids ih =>
    obtain ⟨hi, hids⟩ := List.nodup_cons.1 hids
    by_cases hfound : (walkFound cmp (m.get i) caller).1 = 0
    · rw [walkSpec_of_eq hfound, ih hids, List.filter_cons_of_neg]
      rw [hf] at hfound
      simp [hfound]
    · obtain ⟨⟨deletes, caller'⟩, hj⟩ :
        ∃ p, jobSpec (some job) i (m.get i) (walkFound cmp (m.get i) caller).2 = p := ⟨_, rfl⟩
      rw [walkSpec_of_ne hfound hj]
      rw [hf] at hfound
      rw [List.filter_cons_of_pos (by simpa using hfound)]
      show [i] ++
        (walkSpec cmp (some job) 0 ids (if deletes then m.erase i else m) caller').jobs = _
      rw [ih hids, List.singleton_append, List.cons_inj_right]
      apply List.filter_congr
      intro j hj
      have hne : j ≠ i := ne_of_mem_of_not_mem hj hi
      split
      · rw [OrderedMap.get_erase, Function.update_of_ne hne]
      · rfl

/-- With `once`, it is called on the first of them. -/
theorem jobs_walkSpec_once {f : Option δ → ℤ}
    (hf : ∀ item caller, (walkFound cmp item caller).1 = f item) (hone : once ≠ 0)
    (job : WalkJob δ σ) (ids : List ℕ) (m : OrderedMap ℕ δ) (caller : σ) :
    (walkSpec cmp (some job) once ids m caller).jobs =
      (ids.find? fun i => f (m.get i) ≠ 0).toList := by
  induction ids generalizing caller with
  | nil => rfl
  | cons i ids ih =>
    by_cases hfound : (walkFound cmp (m.get i) caller).1 = 0
    · rw [walkSpec_of_eq hfound, ih, List.find?_cons_of_neg]
      rw [hf] at hfound
      simp [hfound]
    · rw [walkSpec_of_ne hfound rfl]
      rw [hf] at hfound
      rw [List.find?_cons_of_pos (by simpa using hfound)]
      simp only [if_pos hone]
      rfl

/-- One round of the loop. -/
theorem WalkInv.round {ic : IdxCache δ} {m : OrderedMap ℕ δ} {goal : Walked δ σ} {i : ℕ}
    {ids : List ℕ} {s : WalkState δ σ} (h : ic.Represents max m) (hmax : max ≤ IDX_CACHE_MAX)
    (hs : WalkInv ic m cmp job once goal (i :: ids) s) :
    ∃ left t, walkItem cmp job once (.ary i) s = .ok (left, t) ∧
      (left = true → WalkDone max goal t) ∧
      (left = false → WalkInv ic m cmp job once goal ids t) := by
  obtain ⟨rfl, hsuffix, hspares, hmap, hcaller, hjobs⟩ := hs
  have hi : i ∈ m.order := hsuffix.mem List.mem_cons_self
  have hids : ids <:+ m.order := (List.suffix_cons i ids).trans hsuffix
  rw [walkItem, h.data]
  obtain ⟨⟨found, caller⟩, hf⟩ : ∃ p, walkFound cmp (m.get i) s.caller = p := ⟨_, rfl⟩
  by_cases hfound : found = 0
  · subst hfound
    rw [walkSpec_of_eq (by rw [hf]), hf] at hmap hcaller hjobs
    rw [sparesItems_of_eq (by rw [hf]), hf] at hspares
    rw [hf]
    exact ⟨_, _, rfl, by simp, fun _ => ⟨rfl, hids, hspares, hmap, hcaller, hjobs⟩⟩
  · obtain ⟨⟨deletes, caller'⟩, hj⟩ : ∃ p, jobSpec job i (m.get i) caller = p := ⟨_, rfl⟩
    have hne : (walkFound cmp (m.get i) s.caller).1 ≠ 0 := by rwa [hf]
    have hcall : jobSpec job i (m.get i) (walkFound cmp (m.get i) s.caller).2 =
        (deletes, caller') := by rw [hf, hj]
    rw [walkSpec_of_ne hne hcall] at hmap hcaller hjobs
    rw [sparesItems_of_ne hne hcall] at hspares
    rw [hf]
    -- the state in which the job is called
    obtain ⟨s', hs'⟩ : ∃ s' : WalkState δ σ, s' = { s with caller := caller } := ⟨_, rfl⟩
    have hic' : s'.ic = s.ic := by rw [hs']
    have hcaller' : s'.caller = caller := by rw [hs']
    have hjobs' : s'.jobs = s.jobs := by rw [hs']
    rw [← hic'] at h
    have hmemory : (walkMatch job i s').caller = caller' := by
      rw [caller_walkMatch, h.data, hcaller', hj]
    have hcalled : (walkMatch job i s').ic.Represents max (if deletes then m.erase i else m) := by
      have hcalled := represents_walkMatch job h hmax hi
      rwa [hcaller', hj] at hcalled
    refine ⟨decide (found ≠ 0 ∧ once ≠ 0), walkMatch job i s', ?_, fun hleft => ?_,
      fun hleft => ?_⟩
    · simp [hfound, hs']
    · have honce : once ≠ 0 := (of_decide_eq_true hleft).2
      simp only [if_pos honce, List.append_nil] at hmap hcaller hjobs
      exact ⟨hmap ▸ hcalled, hmemory.trans hcaller, by rw [jobs_walkMatch, hjobs', hjobs]⟩
    · have honce : once = 0 := by
        by_contra honce
        exact of_decide_eq_false hleft ⟨hfound, honce⟩
      obtain ⟨rfl, hrest⟩ := hspares.resolve_left (not_not_intro honce)
      subst honce
      simp only [ne_eq, not_true_eq_false, if_false, Bool.false_eq_true] at hmap hcaller hjobs
      rw [← hmemory] at hrest hmap hcaller hjobs
      refine ⟨?_, hids, .inr hrest, hmap, hcaller, ?_⟩
      · rw [ic_walkMatch, h.data, hcaller', hj, if_neg Bool.false_ne_true, hic']
      · rw [jobs_walkMatch, hjobs', List.append_assoc, hjobs]

/-- The loop, by its rule. -/
theorem walk_ok {ic : IdxCache δ} {m : OrderedMap ℕ δ} {goal : Walked δ σ}
    (h : ic.Represents max m) (hmax : max ≤ IDX_CACHE_MAX) {caller : σ}
    (hstart : WalkInv ic m cmp job once goal m.order ⟨ic, caller, []⟩) :
    ∃ t, idxCacheWalk (m.order.length + 1) ic cmp job caller once = .ok t ∧
      WalkDone max goal t := by
  have hnil : ∀ s, WalkRest ic m cmp job once goal [] s → WalkDone max goal s := by
    rintro s ⟨ids, hids, hs⟩
    rw [eq_comm, List.map_eq_nil_iff] at hids
    subst hids
    obtain ⟨rfl, -, -, hmap, hcaller, hjobs⟩ := hs
    exact ⟨hmap ▸ h, hcaller, (List.append_nil _).symm.trans hjobs⟩
  have hcons : ∀ x rest s, WalkRest ic m cmp job once goal (x :: rest) s → x ≠ IdxNode.list ∧
      ∃ left t, walkItem cmp job once x s = .ok (left, t) ∧
        (left = true → WalkDone max goal t) ∧
        (left = false → t.links.next x = some (rest.headD .list) ∧
          WalkRest ic m cmp job once goal rest t) := by
    rintro x rest s ⟨ids, hids, hs⟩
    cases ids with
    | nil => cases hids
    | cons i ids =>
      obtain ⟨rfl, rfl⟩ := List.cons.inj hids
      obtain ⟨left, t, hitem, hleft, hgoes⟩ := hs.round h hmax
      refine ⟨by simp, left, t, hitem, hleft, fun hno => ⟨?_, ids, rfl, hgoes hno⟩⟩
      rw [WalkState.links, (hgoes hno).ic_eq]
      exact h.next_ary hs.suffix
  have hrest : WalkRest ic m cmp job once goal (m.order.map IdxNode.ary) ⟨ic, caller, []⟩ :=
    ⟨m.order, rfl, hstart⟩
  have hrounds : (m.order.map IdxNode.ary).length < m.order.length + 1 := by simp
  obtain ⟨t, hrun, hdone⟩ := libListForEach_rule hnil hcons hrest hrounds
  refine ⟨t, ?_, hdone⟩
  rw [idxCacheWalk, h.list.next_head]
  exact hrun

/-- The loop stops at NULL where a job deletes an item and the loop goes on. -/
theorem walk_ne_ok {ic : IdxCache δ} {m : OrderedMap ℕ δ} (h : ic.Represents max m)
    (hmax : max ≤ IDX_CACHE_MAX) {ids : List ℕ} (hids : ids <:+ m.order) {s : WalkState δ σ}
    (hic : s.ic = ic)
    (hdeletes : ¬ SparesItems cmp job ids m s.caller) (rounds : ℕ) (t : WalkState δ σ) :
    libListForEach WalkState.links .list (walkItem cmp job 0) rounds
      (some ((ids.map .ary).headD .list)) s ≠ .ok t := by
  induction ids generalizing s rounds with
  | nil => exact absurd trivial hdeletes
  | cons i ids ih =>
    cases rounds with
    | zero => exact fun hrun => by cases hrun
    | succ rounds =>
      have hids' : ids <:+ m.order := (List.suffix_cons i ids).trans hids
      -- the body leaves the loop only where `once` is set
      have hbody : walkItem cmp job 0 (.ary i) s = .ok (false,
          let s' := { s with caller := (walkFound cmp (m.get i) s.caller).2 }
          if (walkFound cmp (m.get i) s.caller).1 ≠ 0 then walkMatch job i s' else s') := by
        rw [walkItem, hic, h.data]
        simp
      rw [List.map_cons, List.headD_cons, libListForEach, if_neg (by simp), deref_some, ok_bind,
        hbody, ok_bind]
      show libListForEach _ _ _ rounds _ _ ≠ _
      by_cases hfound : (walkFound cmp (m.get i) s.caller).1 = 0
      · rw [sparesItems_of_eq hfound] at hdeletes
        simp only [hfound, ne_eq, not_true_eq_false, if_false, WalkState.links, hic,
          h.next_ary hids]
        exact ih hids' rfl hdeletes rounds
      · obtain ⟨⟨deletes, caller⟩, hj⟩ :
          ∃ p, jobSpec job i (m.get i) (walkFound cmp (m.get i) s.caller).2 = p := ⟨_, rfl⟩
        rw [sparesItems_of_ne hfound hj] at hdeletes
        rw [if_pos hfound]
        obtain ⟨s', hs'⟩ : ∃ s' : WalkState δ σ,
          s' = { s with caller := (walkFound cmp (m.get i) s.caller).2 } := ⟨_, rfl⟩
        rw [← hs']
        have hdata : s'.ic.data i = m.get i := by rw [hs', hic, h.data]
        have hcaller' : s'.caller = (walkFound cmp (m.get i) s.caller).2 := by rw [hs']
        have hic' : (walkMatch job i s').ic =
            if deletes then s'.ic.idxCacheDeleteInternal (.ofNat i) else s'.ic := by
          rw [ic_walkMatch, hdata, hcaller', hj]
        cases deletes with
        | false =>
          have hkept : (walkMatch job i s').ic = ic := by
            rw [hic', if_neg Bool.false_ne_true, hs', hic]
          have hmemory : (walkMatch job i s').caller = caller := by
            rw [caller_walkMatch, hdata, hcaller', hj]
          rw [WalkState.links, hkept, h.next_ary hids]
          apply ih hids' hkept
          rw [hmemory]
          exact fun hrest => hdeletes ⟨rfl, hrest⟩
        | true =>
          have hnext : (walkMatch job i s').links.next (.ary i) = none := by
            rw [WalkState.links, hic', if_pos rfl, hs', hic]
            exact h.next_deleted hmax (hids.mem List.mem_cons_self)
          rw [hnext]
          cases rounds with
          | zero => exact fun hrun => by cases hrun
          | succ rounds => exact fun hrun => by cases hrun

/-- `idx_cache_walk` is right if it is called with `once` set, or if no job that it comes to
deletes its item, and not otherwise. -/
theorem walks_iff {ic : IdxCache δ} {m : OrderedMap ℕ δ} (h : ic.Represents max m)
    (hmax : max ≤ IDX_CACHE_MAX) (cmp : Option (WalkCmp δ σ)) (job : Option (WalkJob δ σ))
    (caller : σ) (once : ℤ) :
    Walks ic max m cmp job caller once ↔ once ≠ 0 ∨ SparesItems cmp job m.order m caller := by
  have hhead : ic.links.next .list = some ((m.order.map IdxNode.ary).headD .list) :=
    h.list.next_head
  constructor
  · rintro ⟨rounds, t, hrun, -⟩
    by_contra hno
    obtain ⟨honce, hdeletes⟩ := not_or.1 hno
    rw [not_not] at honce
    subst honce
    rw [idxCacheWalk, hhead] at hrun
    exact walk_ne_ok h hmax List.suffix_rfl rfl hdeletes rounds t hrun
  · intro hspares
    have hstart : WalkInv ic m cmp job once (walkSpec cmp job once m.order m caller) m.order
        ⟨ic, caller, []⟩ := ⟨rfl, List.suffix_rfl, hspares, rfl, rfl, rfl⟩
    obtain ⟨t, hrun, hdone⟩ := walk_ok h hmax hstart
    exact ⟨_, t, hrun, hdone.represents, hdone.caller, hdone.jobs⟩

/-- Slots 2 and 0 filled, one after the other. -/
private theorem exists_represents : ∃ (ic : IdxCache ℕ) (m : OrderedMap ℕ ℕ),
    ic.Represents 3 m ∧ m.order = [2, 0] := by
  have hinit : IdxCache.idxCacheInit 3 false = some (_ : IdxCache ℕ) := rfl
  have h := IdxCache.represents_init hinit
  obtain ⟨ic, -, h'⟩ := h.idxCachePut_of_lt (by decide : (2 : UInt32).toNat < 3) rfl 70 (by decide)
  have hcur : ic.cur + 1 < 3 := by
    rw [h'.cur]
    decide
  obtain ⟨ic', -, h''⟩ :=
    h'.idxCachePut_of_lt (by decide : (0 : UInt32).toNat < 3) (by decide) 71 hcur
  exact ⟨ic', _, h'', by decide⟩

/-- A walk over two items with a job that counts its calls. -/
theorem walks_counting : ∃ (ic : IdxCache ℕ) (m : OrderedMap ℕ ℕ), m.order = [2, 0] ∧
    Walks ic 3 m none (some fun _ _ calls => (false, calls + 1)) (0 : ℕ) 0 := by
  obtain ⟨ic, m, h, horder⟩ := exists_represents
  refine ⟨ic, m, horder, (walks_iff h (by decide) _ _ _ _).2 (.inr ?_)⟩
  rw [horder]
  exact ⟨rfl, rfl, trivial⟩

/-- A job that deletes every item it is given stops the walk at the first of two. -/
theorem not_walks_deleting : ∃ (ic : IdxCache ℕ) (m : OrderedMap ℕ ℕ), m.order = [2, 0] ∧
    ¬ Walks ic 3 m none (some fun _ _ calls => (true, calls + 1)) (0 : ℕ) 0 := by
  obtain ⟨ic, m, h, horder⟩ := exists_represents
  refine ⟨ic, m, horder, ?_⟩
  rintro ⟨rounds, t, hrun, -⟩
  rw [idxCacheWalk, h.list.next_head] at hrun
  refine walk_ne_ok h (by decide) List.suffix_rfl rfl ?_ rounds t hrun
  rw [horder]
  exact fun hspares => absurd hspares.1 (by decide)

end Gendo
