import Gendo.Library.LinkedList
import Gendo.Server.LibTypes

/-!
# The lists of `lib-list.h`

The list operations that the server modules share, on the link fields of the nodes. A node
address that may be NULL is an option. The two loop macros differ in when they read `next`: the
plain one after the body, from the node the body was run for, the safe one before it. Their
rules say what a body must leave of the nodes still to come.
-/

namespace Gendo

open LinkedList

variable {ν σ : Type} [DecidableEq ν]

/-- `INIT_LIB_LIST` -/
def initLibList (L : Links ν) (ptr : ν) : Links ν :=
  let L := L.setNext ptr (some ptr)
  L.setPrev ptr (some ptr)

/-- `__lib_list_add` with a node for every pointer. -/
def libListAddBetween (L : Links ν) (new prev next : ν) : Links ν :=
  let L := L.setNext new (some next)
  let L := L.setPrev new (some prev)
  let L := L.setNext prev (some new)
  L.setPrev next (some new)

/-- `lib_list_add` -/
def libListAdd (L : Links ν) (new head : ν) : Except Stop (Links ν) := do
  let next ← deref (L.next head)
  return libListAddBetween L new head next

/-- `lib_list_add_tail` -/
def libListAddTail (L : Links ν) (new head : ν) : Except Stop (Links ν) := do
  let prev ← deref (L.prev head)
  return libListAddBetween L new prev head

/-- `__lib_list_del`, which leaves everything as it is where a pointer is NULL. -/
def libListDelBetween (L : Links ν) (prev next : Option ν) : Links ν :=
  match prev, next with
  | some p, some n =>
    let L := L.setPrev n (some p)
    L.setNext p (some n)
  | _, _ => L

/-- `lib_list_del` -/
def libListDel (L : Links ν) (entry : ν) : Links ν :=
  let L := libListDelBetween L (L.prev entry) (L.next entry)
  let L := L.setNext entry none
  L.setPrev entry none

/-- `lib_list_for_each` from `pos` on. The body says whether it leaves the loop; `links` are the
link fields in the memory `σ` that the body works on. -/
def libListForEach (links : σ → Links ν) (head : ν) (body : ν → σ → Except Stop (Bool × σ)) :
    ℕ → Option ν → σ → Except Stop σ
  | 0, _, _ => .error .rounds
  | rounds + 1, pos, s =>
    if pos = some head then
      .ok s
    else do
      let x ← deref pos
      let (left, s) ← body x s
      if left then
        return s
      libListForEach links head body rounds ((links s).next x) s

/-- `lib_list_for_each_safe` from `pos` on, with the node `n` read before the body. -/
def libListForEachSafe (links : σ → Links ν) (head : ν) (body : ν → σ → Except Stop σ) :
    ℕ → Option ν → Option ν → σ → Except Stop σ
  | 0, _, _, _ => .error .rounds
  | rounds + 1, pos, n, s =>
    if pos = some head then
      .ok s
    else do
      let x ← deref pos
      let s ← body x s
      let y ← deref n
      libListForEachSafe links head body rounds (some y) ((links s).next y) s

section Lists

variable {L : Links ν} {h n : ν} {xs ys : List ν}

theorem ring_initLibList (L : Links ν) (ptr : ν) : Ring (initLibList L ptr) ptr [] := by
  rw [Ring.nil_iff]
  simp [initLibList]

theorem libListAdd_eq (hr : Ring L h xs) (n : ν) :
    libListAdd L n h = .ok (L.insert n h (xs.headD h)) := by
  rw [libListAdd, hr.next_head]
  rfl

/-- `lib_list_add` puts the node before all others. -/
theorem exists_libListAdd (hr : Ring L h xs) (hn : n ∉ h :: xs) :
    ∃ L', libListAdd L n h = .ok L' ∧ Ring L' h (n :: xs) := by
  have hfront : Ring (L.insert n (List.getLastD [] h) (xs.headD h)) h ([] ++ n :: xs) :=
    Ring.insert hr hn
  exact ⟨_, libListAdd_eq hr n, hfront⟩

/-- `lib_list_add_tail` puts it behind them. -/
theorem exists_libListAddTail (hr : Ring L h xs) (hn : n ∉ h :: xs) :
    ∃ L', libListAddTail L n h = .ok L' ∧ Ring L' h (xs ++ [n]) := by
  refine ⟨L.insert n (xs.getLastD h) h, ?_, ?_⟩
  · rw [libListAddTail, hr.prev_head]
    rfl
  · rw [← List.append_nil xs] at hr hn
    exact Ring.insert hr hn

/-- `lib_list_del` of a node of the list takes it out, and clears its own fields. -/
theorem ring_libListDel (hr : Ring L h (xs ++ n :: ys)) : Ring (libListDel L n) h (xs ++ ys) := by
  have hn : n ∉ h :: (xs ++ ys) := by
    have hperm : (h :: (xs ++ n :: ys)).Perm (n :: h :: (xs ++ ys)) :=
      (List.perm_middle.cons h).trans (List.Perm.swap n h _)
    exact (List.nodup_cons.1 (hperm.nodup_iff.1 hr.nodup)).1
  have hjoin : libListDelBetween L (L.prev n) (L.next n) =
      L.join (xs.getLastD h) (ys.headD h) := by
    rw [hr.next_eq, hr.prev_eq]
    rfl
  apply (Ring.remove hr).congr
  · intro y hy
    rw [libListDel, hjoin, Links.next_setPrev, Links.next_setNext,
      if_neg (ne_of_mem_of_not_mem hy hn)]
  · intro y hy
    rw [libListDel, hjoin, Links.prev_setPrev, Links.prev_setNext,
      if_neg (ne_of_mem_of_not_mem hy hn)]

/-- The same for a list whose nodes belong to the members of another one. -/
theorem ring_libListDel_map {α : Type} [DecidableEq α] {f : α → ν} {x : α} {xs : List α}
    (hr : Ring L h (xs.map f)) (hx : x ∈ xs) :
    Ring (libListDel L (f x)) h ((xs.erase x).map f) := by
  obtain ⟨l₁, l₂, -, hxs, herase⟩ := List.exists_erase_eq hx
  rw [hxs, List.map_append, List.map_cons] at hr
  rw [herase, List.map_append]
  exact ring_libListDel hr

@[simp]
theorem next_libListDel_self (L : Links ν) (n : ν) : (libListDel L n).next n = none := by
  simp [libListDel]

@[simp]
theorem prev_libListDel_self (L : Links ν) (n : ν) : (libListDel L n).prev n = none := by
  simp [libListDel]

end Lists

section Loops

variable {links : σ → Links ν} {head : ν}

/-- The rule of the plain loop. `Inv` says what holds with these nodes still to come. Where the
body goes on, it must leave the node it was run for linked to the next of them. -/
theorem libListForEach_rule {body : ν → σ → Except Stop (Bool × σ)} {Inv : List ν → σ → Prop}
    {Post : σ → Prop} (hnil : ∀ s, Inv [] s → Post s)
    (hcons : ∀ x rest s, Inv (x :: rest) s → x ≠ head ∧ ∃ left t, body x s = .ok (left, t) ∧
      (left = true → Post t) ∧
      (left = false → (links t).next x = some (rest.headD head) ∧ Inv rest t))
    {xs : List ν} {s : σ} (hs : Inv xs s) {rounds : ℕ} (hrounds : xs.length < rounds) :
    ∃ t, libListForEach links head body rounds (some (xs.headD head)) s = .ok t ∧ Post t := by
  induction xs generalizing s rounds with
  | nil =>
    obtain ⟨r, rfl⟩ := Nat.exists_eq_add_of_lt hrounds
    refine ⟨s, ?_, hnil s hs⟩
    rw [libListForEach, List.headD_nil, if_pos rfl]
  | cons x xs ih =>
    obtain ⟨r, rfl⟩ := Nat.exists_eq_add_of_lt hrounds
    obtain ⟨hx, left, t, hbody, hleft, hgoes⟩ := hcons x xs s hs
    rw [libListForEach, List.headD_cons, if_neg (by simpa using hx), deref_some, ok_bind, hbody,
      ok_bind]
    cases left with
    | true => exact ⟨t, rfl, hleft rfl⟩
    | false =>
      obtain ⟨hnext, ht⟩ := hgoes rfl
      have hlength : xs.length < (x :: xs).length + r := by
        rw [List.length_cons]
        omega
      obtain ⟨u, hu, hpost⟩ := ih ht hlength
      refine ⟨u, ?_, hpost⟩
      show libListForEach links head body ((x :: xs).length + r) ((links t).next x) t = .ok u
      rw [hnext]
      exact hu

/-- More rounds than a loop needs change nothing. -/
theorem libListForEach_of_le {body : ν → σ → Except Stop (Bool × σ)} {pos : Option ν} {s : σ}
    {t : Except Stop σ} {rounds rounds' : ℕ}
    (hrun : libListForEach links head body rounds pos s = t) (ht : t ≠ .error .rounds)
    (hle : rounds ≤ rounds') : libListForEach links head body rounds' pos s = t := by
  induction rounds generalizing pos s rounds' with
  | zero => exact absurd hrun.symm ht
  | succ rounds ih =>
    obtain ⟨r, rfl⟩ := Nat.exists_eq_add_of_le' hle
    rw [← Nat.add_assoc]
    rw [libListForEach] at hrun ⊢
    by_cases hpos : pos = some head
    · rwa [if_pos hpos] at hrun ⊢
    · rw [if_neg hpos] at hrun ⊢
      cases pos with
      | none => exact hrun
      | some x =>
        rw [deref_some, ok_bind] at hrun ⊢
        cases hbody : body x s with
        | error e => rwa [hbody] at hrun
        | ok p =>
          obtain ⟨left, s'⟩ := p
          rw [hbody, ok_bind] at hrun
          rw [ok_bind]
          cases left with
          | true => exact hrun
          | false => exact ih hrun (Nat.le_add_left rounds r)

/-- A loop that does not run out of rounds has one result, however many it was given. -/
theorem libListForEach_unique {body : ν → σ → Except Stop (Bool × σ)} {pos : Option ν} {s : σ}
    {t t' : Except Stop σ} {rounds rounds' : ℕ}
    (hrun : libListForEach links head body rounds pos s = t) (ht : t ≠ .error .rounds)
    (hrun' : libListForEach links head body rounds' pos s = t') (ht' : t' ≠ .error .rounds) :
    t = t' := by
  rw [← libListForEach_of_le hrun ht (Nat.le_max_left rounds rounds'),
    libListForEach_of_le hrun' ht' (Nat.le_max_right rounds rounds')]

/-- The rule of the safe loop. The body may take nodes out that are still to come, but not the
next of them, and may put others in before the node it was run for. -/
theorem libListForEachSafe_rule {body : ν → σ → Except Stop σ} {Inv : List ν → σ → Prop}
    (hnext : ∀ x rest s, Inv (x :: rest) s → x ≠ head ∧ (links s).next x = some (rest.headD head))
    (hcons : ∀ x rest s, Inv (x :: rest) s → ∃ t rest', body x s = .ok t ∧ Inv rest' t ∧
      rest'.headD head = rest.headD head ∧ rest'.length ≤ rest.length)
    {xs : List ν} {s : σ} (hs : Inv xs s) {rounds : ℕ} (hrounds : xs.length < rounds)
    {n : Option ν} (hn : ∀ x rest, xs = x :: rest → n = some (rest.headD head)) :
    ∃ t, libListForEachSafe links head body rounds (some (xs.headD head)) n s = .ok t ∧
      Inv [] t := by
  induction rounds generalizing xs s n with
  | zero => exact absurd hrounds (Nat.not_lt_zero _)
  | succ rounds ih =>
    cases xs with
    | nil => exact ⟨s, by rw [libListForEachSafe, List.headD_nil, if_pos rfl], hs⟩
    | cons x rest =>
      obtain ⟨t, rest', hbody, ht, hhead, hlength⟩ := hcons x rest s hs
      have hx : x ≠ head := (hnext x rest s hs).1
      rw [libListForEachSafe, List.headD_cons, if_neg (by simpa using hx), deref_some, ok_bind,
        hbody, ok_bind, hn x rest rfl, deref_some, ok_bind, ← hhead]
      apply ih ht
      · rw [List.length_cons] at hrounds
        omega
      · rintro y rest'' rfl
        exact (hnext y rest'' t ht).2

end Loops

end Gendo
