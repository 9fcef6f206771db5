import Mathlib.Data.List.Nodup
import Mathlib.Logic.Function.Basic
import Mathlib.Tactic.Common

/-!
# Circular doubly linked lists

A heap of nodes with two link fields each, and what it means that some of these nodes form a list:
from a head node the `next` fields lead through the nodes of the list, in its order, back to the
head, and the `prev` fields lead the same way backwards. `Segment` is a stretch of such a list and
`Ring` the whole of it. Four writes put a node between two neighbours (`Ring.insert`), and two
writes take one out (`Ring.remove`), wherever in the list the place is.
-/

namespace LinkedList

/-- The link fields of every node. A field that names no node is NULL. -/
structure Links (ν : Type*) where
  next : ν → Option ν
  prev : ν → Option ν

variable {ν : Type*} {L L' : Links ν} {a b h n x : ν} {xs ys : List ν}

/-- From `a` the links lead through these nodes to `b`, and back. -/
def Segment (L : Links ν) : ν → List ν → ν → Prop
  | a, [], b => L.next a = some b ∧ L.prev b = some a
  | a, x :: xs, b => (L.next a = some x ∧ L.prev x = some a) ∧ Segment L x xs b

/-- The nodes of the circular list of `head`, in order. -/
structure Ring (L : Links ν) (head : ν) (xs : List ν) : Prop where
  nodup : (head :: xs).Nodup
  segment : Segment L head xs head

theorem headD_mem_cons : ys.headD b ∈ b :: ys := by
  cases ys with
  | nil => exact List.mem_singleton_self b
  | cons y ys => exact List.mem_cons_of_mem b List.mem_cons_self

namespace Segment

theorem next_eq (hs : Segment L a xs b) : L.next a = some (xs.headD b) := by
  cases xs with
  | nil => exact hs.1
  | cons x xs => exact hs.1.1

theorem prev_eq (hs : Segment L a xs b) : L.prev b = some (xs.getLastD a) := by
  induction xs generalizing a with
  | nil => exact hs.2
  | cons x xs ih => rw [ih hs.2, List.getLastD_cons]

theorem append_iff :
    Segment L a (xs ++ x :: ys) b ↔ Segment L a xs x ∧ Segment L x ys b := by
  induction xs generalizing a with
  | nil => exact Iff.rfl
  | cons y xs ih =>
    show _ ∧ Segment L y (xs ++ x :: ys) b ↔ (_ ∧ Segment L y xs x) ∧ _
    rw [ih]
    exact and_assoc.symm

/-- A segment is unchanged by writes to other fields than those on its way. -/
theorem congr (hs : Segment L a xs b) (hnext : ∀ y ∈ a :: xs, L'.next y = L.next y)
    (hprev : ∀ y ∈ xs ++ [b], L'.prev y = L.prev y) : Segment L' a xs b := by
  induction xs generalizing a with
  | nil => exact ⟨(hnext a (by simp)).trans hs.1, (hprev b (by simp)).trans hs.2⟩
  | cons x xs ih =>
    refine ⟨⟨(hnext a (by simp)).trans hs.1.1, (hprev x (by simp)).trans hs.1.2⟩, ?_⟩
    apply ih hs.2
    · intro y hy
      exact hnext y (List.mem_cons_of_mem a hy)
    · intro y hy
      exact hprev y (List.mem_cons_of_mem x hy)

end Segment

namespace Ring

theorem head_notMem (hr : Ring L h xs) : h ∉ xs := (List.nodup_cons.1 hr.nodup).1

theorem nodup_tail (hr : Ring L h xs) : xs.Nodup := (List.nodup_cons.1 hr.nodup).2

/-- The head of an empty list is its own neighbour. -/
theorem nil_iff : Ring L h [] ↔ L.next h = some h ∧ L.prev h = some h :=
  ⟨fun hr => hr.segment, fun hs => ⟨List.nodup_singleton h, hs⟩⟩

theorem next_head (hr : Ring L h xs) : L.next h = some (xs.headD h) := hr.segment.next_eq

theorem prev_head (hr : Ring L h xs) : L.prev h = some (xs.getLastD h) := hr.segment.prev_eq

theorem next_eq (hr : Ring L h (xs ++ x :: ys)) : L.next x = some (ys.headD h) :=
  (Segment.append_iff.1 hr.segment).2.next_eq

theorem prev_eq (hr : Ring L h (xs ++ x :: ys)) : L.prev x = some (xs.getLastD h) :=
  (Segment.append_iff.1 hr.segment).1.prev_eq

/-- A list is unchanged by writes to the fields of other nodes. -/
theorem congr (hr : Ring L h xs) (hnext : ∀ y ∈ h :: xs, L'.next y = L.next y)
    (hprev : ∀ y ∈ h :: xs, L'.prev y = L.prev y) : Ring L' h xs := by
  refine ⟨hr.nodup, hr.segment.congr hnext fun y hy => hprev y ?_⟩
  rw [List.mem_append, List.mem_singleton] at hy
  exact List.mem_cons.2 hy.symm

end Ring

section Writes

variable [DecidableEq ν]

namespace Links

/-- A write to the `next` field of a node. -/
def setNext (L : Links ν) (a : ν) (p : Option ν) : Links ν :=
  { L with next := Function.update L.next a p }

/-- A write to the `prev` field of a node. -/
def setPrev (L : Links ν) (a : ν) (p : Option ν) : Links ν :=
  { L with prev := Function.update L.prev a p }

@[simp]
theorem next_setNext (p : Option ν) :
    (L.setNext a p).next x = if x = a then p else L.next x := Function.update_apply ..

@[simp]
theorem prev_setNext (p : Option ν) : (L.setNext a p).prev = L.prev := rfl

@[simp]
theorem next_setPrev (p : Option ν) : (L.setPrev a p).next = L.next := rfl

@[simp]
theorem prev_setPrev (p : Option ν) :
    (L.setPrev a p).prev x = if x = a then p else L.prev x := Function.update_apply ..

/-- A node put between two others: its own fields first, then theirs. -/
def insert (L : Links ν) (n p q : ν) : Links ν :=
  (((L.setNext n (some q)).setPrev n (some p)).setNext p (some n)).setPrev q (some n)

/-- Two nodes made neighbours. -/
def join (L : Links ν) (p q : ν) : Links ν := (L.setPrev q (some p)).setNext p (some q)

theorem next_insert (n p q : ν) :
    (L.insert n p q).next x = if x = p then some n else if x = n then some q else L.next x := by
  simp [insert]

theorem prev_insert (n p q : ν) :
    (L.insert n p q).prev x = if x = q then some n else if x = n then some p else L.prev x := by
  simp [insert]

theorem next_join (p q : ν) :
    (L.join p q).next x = if x = p then some q else L.next x := by
  simp [join]

theorem prev_join (p q : ν) :
    (L.join p q).prev x = if x = q then some p else L.prev x := by
  simp [join]

end Links

namespace Segment

/-- A new node between the neighbours at the place where `ys` begins. -/
theorem insert (hs : Segment L a (xs ++ ys) b) (ha : a ∉ xs ++ ys) (hb : b ∉ xs ++ ys)
    (hnodup : (xs ++ ys).Nodup) (hn : n ∉ xs ++ ys) (hna : n ≠ a) (hnb : n ≠ b) :
    Segment (L.insert n (xs.getLastD a) (ys.headD b)) a (xs ++ n :: ys) b := by
  induction xs generalizing a with
  | nil =>
    rw [List.nil_append] at ha hb hn hnodup hs
    rw [List.getLastD_nil]
    have hfirst : n ≠ ys.headD b :=
      (ne_of_mem_of_not_mem headD_mem_cons (List.not_mem_cons_of_ne_of_not_mem hnb hn)).symm
    refine ⟨⟨?_, ?_⟩, ?_⟩
    · rw [Links.next_insert, if_pos rfl]
    · rw [Links.prev_insert, if_neg hfirst, if_pos rfl]
    · cases ys with
      | nil =>
        constructor
        · rw [Links.next_insert, if_neg hna, if_pos rfl, List.headD_nil]
        · rw [Links.prev_insert, List.headD_nil, if_pos rfl]
      | cons y ys =>
        refine ⟨⟨?_, ?_⟩, ?_⟩
        · rw [Links.next_insert, if_neg hna, if_pos rfl, List.headD_cons]
        · rw [Links.prev_insert, List.headD_cons, if_pos rfl]
        · apply hs.2.congr
          · intro z hz
            rw [Links.next_insert, if_neg (ne_of_mem_of_not_mem hz ha),
              if_neg (ne_of_mem_of_not_mem hz hn)]
          · intro z hz
            rw [Links.prev_insert, List.headD_cons, if_neg (by grind), if_neg (by grind)]
  | cons x xs ih =>
    simp only [List.cons_append, List.mem_cons, not_or, List.nodup_cons] at ha hb hn hnodup
    have hrest := ih hs.2 hnodup.1 hb.2 hnodup.2 hn.2 hn.1
    have hlast : xs.getLastD x ∈ x :: xs := List.getLastD_mem_cons
    have hfirst : ys.headD b ∈ b :: ys := headD_mem_cons
    rw [List.getLastD_cons]
    refine ⟨⟨?_, ?_⟩, hrest⟩
    · -- the place is behind `x`, so the field of `a` is not among those written
      rw [Links.next_insert, if_neg (by grind), if_neg hna.symm, hs.1.1]
    · rw [Links.prev_insert, if_neg (by grind), if_neg (by grind), hs.1.2]

/-- The neighbours of `n` made neighbours of each other. -/
theorem remove (hs : Segment L a (xs ++ n :: ys) b) (ha : a ∉ xs ++ n :: ys)
    (hb : b ∉ xs ++ n :: ys) (hnodup : (xs ++ n :: ys).Nodup) :
    Segment (L.join (xs.getLastD a) (ys.headD b)) a (xs ++ ys) b := by
  induction xs generalizing a with
  | nil =>
    rw [List.nil_append] at ha hb hnodup hs
    rw [List.getLastD_nil]
    cases ys with
    | nil =>
      constructor
      · rw [Links.next_join, if_pos rfl, List.headD_nil]
      · rw [Links.prev_join, List.headD_nil, if_pos rfl]
    | cons y ys =>
      refine ⟨⟨?_, ?_⟩, ?_⟩
      · rw [Links.next_join, if_pos rfl, List.headD_cons]
      · rw [Links.prev_join, List.headD_cons, if_pos rfl]
      · apply hs.2.2.congr
        · intro z hz
          rw [Links.next_join, if_neg (by grind)]
        · intro z hz
          rw [Links.prev_join, List.headD_cons, if_neg (by grind)]
  | cons x xs ih =>
    simp only [List.cons_append, List.mem_cons, not_or, List.nodup_cons] at ha hb hnodup
    have hrest := ih hs.2 hnodup.1 hb.2 hnodup.2
    have hlast : xs.getLastD x ∈ x :: xs := List.getLastD_mem_cons
    have hfirst : ys.headD b ∈ b :: ys := headD_mem_cons
    rw [List.getLastD_cons]
    refine ⟨⟨?_, ?_⟩, hrest⟩
    · rw [Links.next_join, if_neg (by grind), hs.1.1]
    · rw [Links.prev_join, if_neg (by grind), hs.1.2]

end Segment

namespace Ring

/-- A new node put at any place of the list. -/
theorem insert (hr : Ring L h (xs ++ ys)) (hn : n ∉ h :: (xs ++ ys)) :
    Ring (L.insert n (xs.getLastD h) (ys.headD h)) h (xs ++ n :: ys) := by
  rw [List.mem_cons, not_or] at hn
  refine ⟨?_, hr.segment.insert hr.head_notMem hr.head_notMem hr.nodup_tail hn.2 hn.1 hn.1⟩
  have hperm : (n :: h :: (xs ++ ys)).Perm (h :: (xs ++ n :: ys)) :=
    (List.Perm.swap h n _).trans (List.perm_middle.symm.cons h)
  exact hperm.nodup_iff.1 (List.nodup_cons.2 ⟨by simpa using hn, hr.nodup⟩)

/-- A node taken out of the list. -/
theorem remove (hr : Ring L h (xs ++ n :: ys)) :
    Ring (L.join (xs.getLastD h) (ys.headD h)) h (xs ++ ys) := by
  refine ⟨?_, hr.segment.remove hr.head_notMem hr.head_notMem hr.nodup_tail⟩
  exact hr.nodup.sublist (((List.sublist_cons_self n ys).append_left xs).cons_cons h)

end Ring

end Writes

end LinkedList
