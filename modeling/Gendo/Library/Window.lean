import Gendo.Library.ByteMemory

/-!
# Windows of memory

A program that writes only inside the memory it was given changes what a window on that memory
shows, and nothing that other windows show. What it shows then is what it showed before with the
bytes put in their place (`splice`), so that a window can be followed without the memory.
-/

namespace ByteMemory

/-- Bytes written over others, from a place on. -/
def splice (w : List UInt8) (i : ℕ) (bs : List UInt8) : List UInt8 :=
  w.take i ++ bs ++ w.drop (i + bs.length)

variable {w bs : List UInt8} {i k : ℕ}

/-- A splice inside the bytes does not change how many there are. -/
theorem length_splice (h : i + bs.length ≤ w.length) : (splice w i bs).length = w.length := by
  rw [splice, List.length_append, List.length_append, List.length_take, List.length_drop,
    Nat.min_eq_left (by omega)]
  omega

/-- The bytes before the place stay. -/
theorem take_splice (h : i ≤ w.length) (hk : k ≤ i) : (splice w i bs).take k = w.take k := by
  have hle : k ≤ (w.take i).length := by
    rw [List.length_take]
    omega
  rw [splice, List.append_assoc, List.take_append_of_le_length hle, List.take_take,
    Nat.min_eq_left hk]

/-- The bytes behind the new ones stay. -/
theorem drop_splice (h : i + bs.length ≤ w.length) (hk : i + bs.length ≤ k) :
    (splice w i bs).drop k = w.drop k := by
  have hlen : (w.take i ++ bs).length = i + bs.length := by
    rw [List.length_append, List.length_take, Nat.min_eq_left (by omega)]
  obtain ⟨d, rfl⟩ := Nat.exists_eq_add_of_le hk
  rw [splice, List.drop_append, List.drop_of_length_le (by omega), hlen, List.nil_append,
    List.drop_drop, Nat.add_sub_cancel_left]

/-- A splice inside a part of the bytes is a splice of the part. -/
theorem take_drop_splice {a n : ℕ} (hi : a ≤ i) (hn : i + bs.length ≤ a + n)
    (hw : a + n ≤ w.length) :
    ((splice w i bs).drop a).take n = splice ((w.drop a).take n) (i - a) bs := by
  obtain ⟨j, rfl⟩ := Nat.exists_eq_add_of_le hi
  obtain ⟨k, rfl⟩ : ∃ k, n = j + bs.length + k := ⟨n - (j + bs.length), by omega⟩
  have hfront : a ≤ (w.take (a + j)).length := by
    rw [List.length_take]
    omega
  have hpart : (w.take (a + j)).drop a = (w.drop a).take j := by
    rw [List.drop_take, Nat.add_sub_cancel_left]
  have hlen : ((w.drop a).take j ++ bs).length = j + bs.length := by
    rw [List.length_append, List.length_take, List.length_drop, Nat.min_eq_left (by omega)]
  have hback : (w.drop (a + j + bs.length)).take k =
      ((w.drop a).take (j + bs.length + k)).drop (j + bs.length) := by
    rw [List.drop_take, List.drop_drop, Nat.add_sub_cancel_left, ← Nat.add_assoc]
  rw [splice, splice, Nat.add_sub_cancel_left, List.append_assoc,
    List.drop_append_of_le_length hfront, hpart, ← List.append_assoc, ← hlen, List.take_append,
    List.take_of_length_le (by omega), Nat.add_sub_cancel_left, hlen, hback, List.take_take,
    Nat.min_eq_left (by omega)]

/-- What a window shows after a patch inside it. -/
theorem read_apply_eq_splice {p : Patch} {a n : ℕ} (hlo : a ≤ p.off)
    (hhi : p.off + p.bytes.length ≤ a + n) (m : Mem) :
    read (p.apply m) a n = splice (read m a n) (p.off - a) p.bytes := by
  obtain ⟨j, hj⟩ := Nat.exists_eq_add_of_le hlo
  obtain ⟨k, rfl⟩ : ∃ k, n = j + p.bytes.length + k := ⟨n - (j + p.bytes.length), by omega⟩
  have hfront : read (p.apply m) a j = read m a j :=
    read_apply_of_disjoint (fun i hi hcovers => by have := hcovers.1; omega) m
  have hback : read (p.apply m) (a + (j + p.bytes.length)) k =
      read m (a + (j + p.bytes.length)) k :=
    read_apply_of_disjoint (fun i hi hcovers => by have := hcovers.2; omega) m
  rw [splice, hj, Nat.add_sub_cancel_left, take_read m a (by omega), drop_read m a (by omega),
    Nat.add_sub_cancel_left, read_add, read_add, hfront, hback, ← hj, read_apply_self]

/-- What a window shows after a patch outside it. -/
theorem read_apply_of_apart {p : Patch} {a n : ℕ}
    (h : a + n ≤ p.off ∨ p.off + p.bytes.length ≤ a) (m : Mem) :
    read (p.apply m) a n = read m a n := by
  refine read_apply_of_disjoint (fun i hi hcovers => ?_) m
  have hlo := hcovers.1
  have hhi := hcovers.2
  omega

variable {ps qs : List Patch} {p : Patch} {a n : ℕ}

theorem read_applyAll_of_apart (h : ∀ p ∈ ps, a + n ≤ p.off ∨ p.off + p.bytes.length ≤ a)
    (m : Mem) : read (applyAll ps m) a n = read m a n := by
  induction ps generalizing m with
  | nil => rfl
  | cons p ps ih =>
    obtain ⟨hp, hps⟩ := List.forall_mem_cons.mp h
    rw [applyAll_cons, ih hps, read_apply_of_apart hp]

/-- A patch that no later one reaches can be read back. -/
theorem read_applyAll_of_last
    (h : ∀ q ∈ qs, p.off + p.bytes.length ≤ q.off ∨ q.off + q.bytes.length ≤ p.off) (m : Mem) :
    read (applyAll (ps ++ p :: qs) m) p.off p.bytes.length = p.bytes := by
  rw [applyAll_append, applyAll_cons, read_applyAll_of_apart h, read_apply_self]

end ByteMemory
