import Gendo.Library.ByteMemory

/-!
# Layouts of C structures

A C type is an integer, an array or a structure of other types. An `Abi` says how integers are
aligned, and with it every type has a size, an alignment and a list of leaves: the integers and
character arrays in it, each with its offset. A value is the bytes of its leaves, in order.

Two compilers that share a header share the type, but not the `Abi`. `agrees_of_leaves_eq` says
that a value stored by one is read back by the other if they give the leaves the same offsets,
and `off_eq_of_agrees` that nothing less will do.
-/

namespace CLayout

open ByteMemory

mutual

/-- A C type. -/
inductive CType
  /-- An integer of so many bytes. -/
  | int (size : ℕ)
  /-- An array of characters. -/
  | chars (count : ℕ)
  /-- An array of anything. -/
  | array (count : ℕ) (elem : CType)
  | struct (fields : CFields)

/-- The fields of a structure, in order. -/
inductive CFields
  | nil
  | cons (field : CType) (rest : CFields)

end

/-- Fields from a list. -/
def CFields.ofList : List CType → CFields
  | [] => .nil
  | field :: rest => .cons field (.ofList rest)

/-- How integers are aligned, by their size. -/
structure Abi where
  align : ℕ → ℕ
  align_pos : ∀ size, 0 < align size

/-- Integers are aligned to their size, but to no more than `pack` bytes. -/
def Abi.packed (pack : ℕ) : Abi := ⟨fun size => max 1 (min size pack), fun _ => by simp⟩

/-- The next multiple of `a`. -/
def alignUp (n a : ℕ) : ℕ := (n + (a - 1)) / a * a

theorem le_alignUp (n : ℕ) {a : ℕ} (ha : 0 < a) : n ≤ alignUp n a := by
  have hdiv := Nat.div_add_mod (n + (a - 1)) a
  have hmod := Nat.mod_lt (n + (a - 1)) ha
  rw [alignUp, Nat.mul_comm]
  omega

/-- An integer or a character array inside a type. -/
structure Leaf where
  off : ℕ
  size : ℕ
  deriving DecidableEq, Repr

mutual

/-- The alignment of a type. -/
def CType.align (abi : Abi) : CType → ℕ
  | .int size => abi.align size
  | .chars _ => 1
  | .array _ elem => elem.align abi
  | .struct fields => fields.align abi

/-- The largest alignment of some fields. -/
def CFields.align (abi : Abi) : CFields → ℕ
  | .nil => 1
  | .cons field rest => max (field.align abi) (rest.align abi)

end

mutual

/-- `sizeof`. -/
def CType.size (abi : Abi) : CType → ℕ
  | .int size => size
  | .chars count => count
  | .array count elem => count * elem.size abi
  -- padded at the end, so that the next one in an array is aligned
  | .struct fields => alignUp (fields.stop abi 0) (fields.align abi)

/-- Where fields end that begin at `cur`. -/
def CFields.stop (abi : Abi) (cur : ℕ) : CFields → ℕ
  | .nil => cur
  | .cons field rest => rest.stop abi (alignUp cur (field.align abi) + field.size abi)

end

mutual

/-- The leaves of a type that lies at `off`. -/
def CType.leaves (abi : Abi) (off : ℕ) : CType → List Leaf
  | .int size => [⟨off, size⟩]
  | .chars count => [⟨off, count⟩]
  | .array count elem =>
    (List.range count).flatMap fun i => elem.leaves abi (off + i * elem.size abi)
  | .struct fields => fields.leaves abi off 0

/-- The leaves of fields that begin at `cur` in a structure at `base`. -/
def CFields.leaves (abi : Abi) (base cur : ℕ) : CFields → List Leaf
  | .nil => []
  | .cons field rest =>
    field.leaves abi (base + alignUp cur (field.align abi)) ++
      rest.leaves abi base (alignUp cur (field.align abi) + field.size abi)

end

/-- The writes that store values to leaves. -/
def patches (ls : List Leaf) (vs : List (List UInt8)) : List Patch :=
  List.zipWith (fun l v => ⟨l.off, v⟩) ls vs

namespace CType

/-- A value is stored; the padding keeps what was there. -/
def store (t : CType) (abi : Abi) (vs : List (List UInt8)) (stale : Mem) : Mem :=
  applyAll (patches (t.leaves abi 0) vs) stale

/-- The bytes of a stored value. -/
def send (t : CType) (abi : Abi) (vs : List (List UInt8)) (stale : Mem) : List UInt8 :=
  read (t.store abi vs stale) 0 (t.size abi)

/-- The value that lies in memory. -/
def load (t : CType) (abi : Abi) (m : Mem) : List (List UInt8) :=
  (t.leaves abi 0).map fun l => read m l.off l.size

/-- Every value that is stored and sent under one layout is read back under the other. -/
def Agrees (t : CType) (a b : Abi) : Prop :=
  ∀ (vs : List (List UInt8)) (stale stale' : Mem),
    vs.map List.length = (t.leaves a 0).map Leaf.size →
    t.load b (overlay (t.send a vs stale) stale') = vs

end CType

/-! ## Where the leaves are -/

/-- Leaves one behind the other, between two offsets. -/
def Ordered (lo hi : ℕ) : List Leaf → Prop
  | [] => lo ≤ hi
  | l :: ls => lo ≤ l.off ∧ Ordered (l.off + l.size) hi ls

namespace Ordered

variable {lo mid hi : ℕ} {ls ls' : List Leaf}

theorem le (h : Ordered lo hi ls) : lo ≤ hi := by
  induction ls generalizing lo with
  | nil => exact h
  | cons l ls ih =>
    have hrest := ih h.2
    have hl := h.1
    omega

theorem mono {lo' hi' : ℕ} (h : Ordered lo hi ls) (hlo : lo' ≤ lo) (hhi : hi ≤ hi') :
    Ordered lo' hi' ls := by
  induction ls generalizing lo lo' with
  | nil => exact hlo.trans (le_trans h hhi)
  | cons l ls ih => exact ⟨hlo.trans h.1, ih h.2 le_rfl⟩

theorem append (h : Ordered lo mid ls) (h' : Ordered mid hi ls') : Ordered lo hi (ls ++ ls') := by
  induction ls generalizing lo with
  | nil => exact h'.mono h le_rfl
  | cons l ls ih => exact ⟨h.1, ih h.2⟩

/-- A leaf lies between the offsets. -/
theorem mem (h : Ordered lo hi ls) {l : Leaf} (hl : l ∈ ls) : lo ≤ l.off ∧ l.off + l.size ≤ hi := by
  induction ls generalizing lo with
  | nil => cases hl
  | cons l' ls ih =>
    rcases List.mem_cons.mp hl with rfl | hl
    · exact ⟨h.1, h.2.le⟩
    · have hrest := ih h.2 hl
      have hl' := h.1
      omega

end Ordered

mutual

theorem CType.align_pos (abi : Abi) : ∀ t : CType, 0 < t.align abi
  | .int size => by
    rw [CType.align]
    exact abi.align_pos size
  | .chars _ => by
    rw [CType.align]
    exact Nat.one_pos
  | .array _ elem => by
    rw [CType.align]
    exact elem.align_pos abi
  | .struct fields => by
    rw [CType.align]
    exact fields.align_pos abi

theorem CFields.align_pos (abi : Abi) : ∀ fields : CFields, 0 < fields.align abi
  | .nil => by
    rw [CFields.align]
    exact Nat.one_pos
  | .cons field rest => by
    rw [CFields.align]
    exact lt_max_of_lt_left (field.align_pos abi)

end

mutual

/-- The leaves of a type lie one behind the other, inside its size. -/
theorem CType.leaves_ordered (abi : Abi) (off : ℕ) :
    ∀ t : CType, Ordered off (off + t.size abi) (t.leaves abi off)
  | .int size => by
    rw [CType.leaves, CType.size]
    exact ⟨le_rfl, le_rfl⟩
  | .chars count => by
    rw [CType.leaves, CType.size]
    exact ⟨le_rfl, le_rfl⟩
  | .array count elem => by
    rw [CType.leaves, CType.size]
    have helem := fun off => elem.leaves_ordered abi off
    -- the elements lie one behind the other, each with its leaves in order
    induction count with
    | zero =>
      rw [Nat.zero_mul]
      exact le_rfl
    | succ n ih =>
      rw [List.range_succ, List.flatMap_append, Nat.succ_mul, ← Nat.add_assoc]
      refine ih.append ?_
      rw [List.flatMap_singleton]
      exact helem _
  | .struct fields => by
    rw [CType.leaves, CType.size]
    have hfields := fields.leaves_ordered abi off 0
    exact hfields.mono le_rfl (Nat.add_le_add_left (le_alignUp _ (fields.align_pos abi)) off)

theorem CFields.leaves_ordered (abi : Abi) (base cur : ℕ) :
    ∀ fields : CFields,
      Ordered (base + cur) (base + fields.stop abi cur) (fields.leaves abi base cur)
  | .nil => by
    rw [CFields.leaves, CFields.stop]
    exact le_rfl
  | .cons field rest => by
    rw [CFields.leaves, CFields.stop]
    have hfield := field.leaves_ordered abi (base + alignUp cur (field.align abi))
    have hrest := rest.leaves_ordered abi base (alignUp cur (field.align abi) + field.size abi)
    rw [← Nat.add_assoc] at hrest
    exact (hfield.mono (Nat.add_le_add_left (le_alignUp _ (field.align_pos abi)) base)
      le_rfl).append hrest

end

/-! ## Reading back -/

/-- Stored leaves are read back. -/
theorem read_patches {lo hi : ℕ} {ls : List Leaf} (h : Ordered lo hi ls)
    {vs : List (List UInt8)} (hvs : vs.map List.length = ls.map Leaf.size) (m : Mem) :
    (ls.map fun l => read (applyAll (patches ls vs) m) l.off l.size) = vs := by
  induction ls generalizing vs lo m with
  | nil => exact (List.map_eq_nil_iff.mp hvs).symm
  | cons l ls ih =>
    cases vs with
    | nil => cases hvs
    | cons v vs =>
      obtain ⟨hv, hvs⟩ := List.cons.inj hvs
      -- the later writes are behind the first leaf
      have hlater : ∀ p ∈ patches ls vs, ∀ i < l.size, ¬p.Covers (l.off + i) := by
        intro p hp i hi hcov
        obtain ⟨j, hj, rfl⟩ := List.mem_iff_getElem.mp hp
        have hlen : j < ls.length := by
          rw [patches, List.length_zipWith] at hj
          omega
        have hmem := (h.2.mem (List.getElem_mem hlen)).1
        have hoff : (patches ls vs)[j].off = ls[j].off := by simp [patches]
        have hle := hcov.1
        omega
      have hpatches : patches (l :: ls) (v :: vs) = ⟨l.off, v⟩ :: patches ls vs := rfl
      rw [List.map_cons, hpatches, applyAll_cons, ih h.2 hvs,
        read_applyAll_of_not_covered hlater, ← hv, read_apply_self ⟨l.off, v⟩]

/-- Layouts with the same offsets agree. -/
theorem agrees_of_leaves_eq {t : CType} {a b : Abi} (h : t.leaves a 0 = t.leaves b 0) :
    t.Agrees a b := by
  intro vs stale stale' hvs
  have hordered := t.leaves_ordered a 0
  rw [CType.load, ← h]
  have hread : ∀ l ∈ t.leaves a 0, read (overlay (t.send a vs stale) stale') l.off l.size =
      read (t.store a vs stale) l.off l.size := by
    intro l hl
    have hinside := (hordered.mem hl).2
    rw [Nat.zero_add] at hinside
    exact read_overlay_read hinside stale'
  rw [List.map_congr_left hread]
  exact read_patches hordered hvs stale

/-- All leaves zero but for the first byte of one of them. -/
def mark (ls : List Leaf) (i : ℕ) : List (List UInt8) :=
  ls.mapIdx fun j l =>
    if j = i then 1 :: List.replicate (l.size - 1) 0 else List.replicate l.size 0

/-- A mark fits its leaves. -/
theorem length_mark {ls : List Leaf} (h : ∀ l ∈ ls, 0 < l.size) (i : ℕ) :
    (mark ls i).map List.length = ls.map Leaf.size := by
  refine List.ext_getElem (by simp [mark]) fun j _ hj => ?_
  simp only [mark, List.getElem_map, List.getElem_mapIdx]
  have hpos := h _ (List.getElem_mem (by simpa using hj))
  split
  · simp only [List.length_cons, List.length_replicate]
    omega
  · exact List.length_replicate

theorem getElem?_mark {ls : List Leaf} {i : ℕ} {l : Leaf} (h : ls[i]? = some l) :
    (mark ls i)[i]? = some (1 :: List.replicate (l.size - 1) 0) := by
  simp [mark, h]

/-- The one byte that is not zero is at the offset of its leaf. -/
theorem off_of_mark {ls : List Leaf} {i k : ℕ} {l : Leaf} (hi : ls[i]? = some l)
    (hk : applyAll (patches ls (mark ls i)) (fun _ => 0) k = 1) : k = l.off := by
  rcases applyAll_eq_or_mem (patches ls (mark ls i)) (fun _ => 0) k with heq | ⟨p, hp, hle, hbyte⟩
  · rw [heq] at hk
    cases hk
  · rw [hk] at hbyte
    obtain ⟨j, hj, rfl⟩ := List.mem_iff_getElem.mp hp
    simp only [patches, mark, List.getElem_zipWith, List.getElem_mapIdx] at hle hbyte
    split at hbyte
    · next hij =>
      subst hij
      obtain ⟨hlt, hl⟩ := List.getElem?_eq_some_iff.mp hi
      rw [hl] at hle hbyte
      rcases Nat.eq_zero_or_pos (k - l.off) with hzero | hpos
      · omega
      · -- behind its first byte the leaf is zero
        obtain ⟨n, hn⟩ := Nat.exists_eq_succ_of_ne_zero hpos.ne'
        rw [hn, List.getElem?_cons_succ] at hbyte
        have hmem := List.mem_of_getElem? hbyte
        rw [List.mem_replicate] at hmem
        cases hmem.2
    · -- every other leaf is zero
      have hmem := List.mem_of_getElem? hbyte
      rw [List.mem_replicate] at hmem
      cases hmem.2

/-- Layouts that agree give every leaf the same offset. -/
theorem off_eq_of_agrees {t : CType} {a b : Abi} (h : t.Agrees a b) {i : ℕ} {la lb : Leaf}
    (hla : (t.leaves a 0)[i]? = some la) (hlb : (t.leaves b 0)[i]? = some lb)
    (hpos : 0 < lb.size) (hsize : ∀ l ∈ t.leaves a 0, 0 < l.size) : lb.off = la.off := by
  have hload := h (mark (t.leaves a 0) i) (fun _ => 0) (fun _ => 0) (length_mark hsize i)
  -- the reader finds the mark at the front of its own leaf
  have hith := congrArg (·[i]?) hload
  simp only [CType.load, List.getElem?_map, hlb, getElem?_mark hla, Option.map_some,
    Option.some.injEq] at hith
  have hfirst := congrArg List.head? hith
  obtain ⟨n, hn⟩ := Nat.exists_eq_succ_of_ne_zero hpos.ne'
  simp only [hn, ByteMemory.read, List.range_succ_eq_map, List.map_cons, List.head?_cons,
    Option.some.injEq, Nat.add_zero] at hfirst
  -- it was sent, and so it is at the sender's leaf
  by_cases hsent : lb.off < (t.send a (mark (t.leaves a 0) i) fun _ => 0).length
  · rw [overlay_of_lt hsent] at hfirst
    simp only [CType.send, ByteMemory.read, List.getElem_map, List.getElem_range,
      Nat.zero_add] at hfirst
    exact off_of_mark hla hfirst
  · -- what was not sent is stale, and not the mark
    rw [overlay_of_ge (not_lt.mp hsent)] at hfirst
    cases hfirst

/-! ## Alignments that matter -/

mutual

/-- The sizes of the integers in a type. -/
def CType.ints : CType → List ℕ
  | .int size => [size]
  | .chars _ => []
  | .array _ elem => elem.ints
  | .struct fields => fields.ints

def CFields.ints : CFields → List ℕ
  | .nil => []
  | .cons field rest => field.ints ++ rest.ints

end

/-- Two ABIs align the integers of these sizes alike. -/
def SameAlign (a b : Abi) (sizes : List ℕ) : Prop := ∀ size ∈ sizes, a.align size = b.align size

mutual

/-- The layout of a type depends only on how its integers are aligned. -/
theorem CType.layout_congr {a b : Abi} : ∀ t : CType, SameAlign a b t.ints →
    t.align a = t.align b ∧ t.size a = t.size b ∧ ∀ off, t.leaves a off = t.leaves b off
  | .int size, h => by
    rw [CType.ints] at h
    simp only [CType.align, CType.size, CType.leaves, h size List.mem_cons_self, true_and,
      implies_true]
  | .chars _, _ => by
    simp only [CType.align, CType.size, CType.leaves, true_and, implies_true]
  | .array count elem, h => by
    rw [CType.ints] at h
    obtain ⟨halign, hsize, hleaves⟩ := elem.layout_congr h
    simp only [CType.align, CType.size, CType.leaves, halign, hsize, hleaves, true_and,
      implies_true]
  | .struct fields, h => by
    rw [CType.ints] at h
    obtain ⟨halign, hstop, hleaves⟩ := fields.layout_congr h
    simp only [CType.align, CType.size, CType.leaves, halign, hstop, hleaves, true_and,
      implies_true]

theorem CFields.layout_congr {a b : Abi} : ∀ fields : CFields, SameAlign a b fields.ints →
    fields.align a = fields.align b ∧ (∀ cur, fields.stop a cur = fields.stop b cur) ∧
      ∀ base cur, fields.leaves a base cur = fields.leaves b base cur
  | .nil, _ => by
    simp only [CFields.align, CFields.stop, CFields.leaves, true_and, implies_true]
  | .cons field rest, h => by
    rw [CFields.ints] at h
    obtain ⟨halign, hsize, hleaves⟩ :=
      field.layout_congr fun size hmem => h size (List.mem_append_left _ hmem)
    obtain ⟨halign', hstop', hleaves'⟩ :=
      rest.layout_congr fun size hmem => h size (List.mem_append_right _ hmem)
    simp only [CFields.align, CFields.stop, CFields.leaves, halign, hsize, hleaves, halign',
      hstop', hleaves', true_and, implies_true]

end

/-- Compilers that align a type's integers alike agree on it. -/
theorem agrees_of_sameAlign {t : CType} {a b : Abi} (h : SameAlign a b t.ints) : t.Agrees a b :=
  agrees_of_leaves_eq ((t.layout_congr h).2.2 0)

end CLayout
