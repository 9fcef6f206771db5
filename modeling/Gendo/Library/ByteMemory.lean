import Mathlib.Data.Nat.Digits.Defs
import Mathlib.Tactic.Ring

/-!
# Byte memory

A region of memory is a function from offsets to bytes, and an update of it is a list of patches
applied in order. What a program leaves of the old contents is a question about the patches
alone: `applyAll_eq_applyAll_iff` says that a byte is the same for two old contents exactly when
a patch covers it or the two agree there.

Numbers are stored in a fixed number of bytes, least significant first (`leBytes`), and read back
with Mathlib's `Nat.ofDigits`. A C string in memory is the bytes before the first NUL.
-/

namespace ByteMemory

/-! ## Little endian -/

/-- The `w` low bytes of a number, least significant first. -/
def leBytes : ℕ → ℕ → List UInt8
  | 0, _ => []
  | w + 1, n => UInt8.ofNat n :: leBytes w (n / 256)

/-- The number that bytes stand for, least significant first. -/
def leNat (bs : List UInt8) : ℕ := Nat.ofDigits 256 (bs.map UInt8.toNat)

@[simp]
theorem length_leBytes (w n : ℕ) : (leBytes w n).length = w := by
  induction w generalizing n with
  | zero => rfl
  | succ w ih => simp [leBytes, ih]

@[simp]
theorem leNat_nil : leNat [] = 0 := rfl

@[simp]
theorem leNat_cons (b : UInt8) (bs : List UInt8) : leNat (b :: bs) = b.toNat + 256 * leNat bs := by
  simp [leNat, Nat.ofDigits_cons]

/-- Reading back what was stored gives the number modulo what the bytes can hold. -/
theorem leNat_leBytes (w n : ℕ) : leNat (leBytes w n) = n % 256 ^ w := by
  induction w generalizing n with
  | zero => simp [leBytes, Nat.mod_one]
  | succ w ih =>
    rw [leBytes, leNat_cons, ih, UInt8.toNat_ofNat', pow_succ' 256 w, Nat.mod_mul]

/-- Storing what was read gives the bytes back. -/
theorem leBytes_leNat (bs : List UInt8) : leBytes bs.length (leNat bs) = bs := by
  induction bs with
  | nil => rfl
  | cons b bs ih =>
    have hb : b.toNat < 256 := b.toNat_lt
    have hlow : UInt8.ofNat (b.toNat + 256 * leNat bs) = b := by
      rw [← UInt8.toNat_inj, UInt8.toNat_ofNat', Nat.add_mul_mod_self_left, Nat.mod_eq_of_lt hb]
    have hhigh : (b.toNat + 256 * leNat bs) / 256 = leNat bs := by omega
    rw [List.length_cons, leNat_cons, leBytes, hlow, hhigh, ih]

/-- The number that some bytes stand for is less than what they can hold. -/
theorem leNat_lt (bs : List UInt8) : leNat bs < 256 ^ bs.length := by
  rw [← leBytes_leNat bs, leNat_leBytes, length_leBytes]
  exact Nat.mod_lt _ (by positivity)

theorem leNat_append (as bs : List UInt8) :
    leNat (as ++ bs) = leNat as + 256 ^ as.length * leNat bs := by
  simp [leNat, Nat.ofDigits_append]

/-- Zeros behind some bytes do not count. -/
theorem leNat_append_replicate (bs : List UInt8) (n : ℕ) :
    leNat (bs ++ List.replicate n 0) = leNat bs := by
  have hzeros : leNat (List.replicate n 0) = 0 := by
    induction n with
    | zero => rfl
    | succ n ih => simp [List.replicate_succ, ih]
  rw [leNat_append, hzeros, Nat.mul_zero, Nat.add_zero]

/-- The low bytes, and the bytes behind them. -/
theorem leBytes_add (v w n : ℕ) : leBytes (v + w) n = leBytes v n ++ leBytes w (n / 256 ^ v) := by
  induction v generalizing n with
  | zero => simp [leBytes]
  | succ v ih =>
    rw [Nat.succ_add, leBytes, ih, leBytes, Nat.div_div_eq_div_mul, ← pow_succ']
    rfl

/-! ## Memory and patches -/

/-- The bytes of a region, by offset. -/
abbrev Mem := ℕ → UInt8

/-- Bytes to be written at an offset. -/
structure Patch where
  off : ℕ
  bytes : List UInt8
  deriving DecidableEq, Repr

namespace Patch

/-- The patch writes the byte at `i`. -/
def Covers (p : Patch) (i : ℕ) : Prop := p.off ≤ i ∧ i < p.off + p.bytes.length

instance (p : Patch) (i : ℕ) : Decidable (p.Covers i) :=
  inferInstanceAs (Decidable (_ ∧ _))

/-- The memory with the patch written. -/
def apply (p : Patch) (m : Mem) : Mem :=
  fun i => if p.off ≤ i then (p.bytes[i - p.off]?).getD (m i) else m i

/-- A byte that the patch covers is the patch's own. -/
theorem apply_of_covers {p : Patch} {i : ℕ} (h : p.Covers i) (m m' : Mem) :
    p.apply m i = p.apply m' i := by
  have hlt : i - p.off < p.bytes.length := by
    have := h.1
    have := h.2
    omega
  simp [apply, h.1, List.getElem?_eq_getElem hlt]

/-- A byte that the patch does not cover stays. -/
theorem apply_of_not_covers {p : Patch} {i : ℕ} (h : ¬p.Covers i) (m : Mem) :
    p.apply m i = m i := by
  by_cases hle : p.off ≤ i
  · have hlen : p.bytes.length ≤ i - p.off := by
      by_contra hlt
      exact h ⟨hle, by omega⟩
    simp [apply, hle, List.getElem?_eq_none hlen]
  · simp [apply, hle]

end Patch

/-- The memory after the patches, written in order. -/
def applyAll (ps : List Patch) (m : Mem) : Mem := ps.foldl (fun m p => p.apply m) m

/-- One of the patches writes the byte at `i`. -/
def Covered (ps : List Patch) (i : ℕ) : Prop := ∃ p ∈ ps, p.Covers i

instance (ps : List Patch) (i : ℕ) : Decidable (Covered ps i) :=
  inferInstanceAs (Decidable (∃ p ∈ ps, p.Covers i))

@[simp]
theorem applyAll_nil (m : Mem) : applyAll [] m = m := rfl

@[simp]
theorem applyAll_cons (p : Patch) (ps : List Patch) (m : Mem) :
    applyAll (p :: ps) m = applyAll ps (p.apply m) := rfl

theorem applyAll_append (ps qs : List Patch) (m : Mem) :
    applyAll (ps ++ qs) m = applyAll qs (applyAll ps m) := List.foldl_append

@[simp]
theorem not_covered_nil (i : ℕ) : ¬Covered [] i := by simp [Covered]

@[simp]
theorem covered_cons {p : Patch} {ps : List Patch} {i : ℕ} :
    Covered (p :: ps) i ↔ p.Covers i ∨ Covered ps i := by simp [Covered]

/-- After the patches, a byte is the same for two old contents exactly when a patch covers it or
the old contents agree there. -/
theorem applyAll_eq_applyAll_iff (ps : List Patch) (m m' : Mem) (i : ℕ) :
    applyAll ps m i = applyAll ps m' i ↔ Covered ps i ∨ m i = m' i := by
  induction ps generalizing m m' with
  | nil => simp
  | cons p ps ih =>
    rw [applyAll_cons, applyAll_cons, ih, covered_cons]
    by_cases hp : p.Covers i
    · simp [hp, p.apply_of_covers hp m m']
    · simp [hp, p.apply_of_not_covers hp]

/-- `n` bytes of memory, from an offset on. -/
def read (m : Mem) (off n : ℕ) : List UInt8 := (List.range n).map fun i => m (off + i)

@[simp]
theorem length_read (m : Mem) (off n : ℕ) : (read m off n).length = n := by simp [read]

/-- Two memories read the same exactly when they agree on the region. -/
theorem read_eq_read_iff {m m' : Mem} {off n : ℕ} :
    read m off n = read m' off n ↔ ∀ i < n, m (off + i) = m' (off + i) := by
  simp [read]

theorem read_add (m : Mem) (off n k : ℕ) :
    read m off (n + k) = read m off n ++ read m (off + n) k := by
  simp [read, List.range_add, Function.comp_def, Nat.add_assoc]

/-- The first bytes of a region. -/
theorem take_read (m : Mem) (off : ℕ) {n k : ℕ} (h : k ≤ n) :
    (read m off n).take k = read m off k := by
  obtain ⟨rest, rfl⟩ := Nat.exists_eq_add_of_le h
  rw [read_add]
  exact List.take_left' (length_read m off k)

/-- What follows the first bytes of a region. -/
theorem drop_read (m : Mem) (off : ℕ) {n k : ℕ} (h : k ≤ n) :
    (read m off n).drop k = read m (off + k) (n - k) := by
  obtain ⟨rest, rfl⟩ := Nat.exists_eq_add_of_le h
  rw [read_add, Nat.add_sub_cancel_left]
  exact List.drop_left' (length_read m off k)

/-- A region reads as zeros exactly when it is zero. -/
theorem read_eq_replicate_iff {m : Mem} {off n : ℕ} :
    read m off n = List.replicate n 0 ↔ ∀ i < n, m (off + i) = 0 := by
  simp [List.eq_replicate_iff, ByteMemory.read]

/-- A patch reads back as its own bytes. -/
theorem read_apply_self (p : Patch) (m : Mem) :
    read (p.apply m) p.off p.bytes.length = p.bytes := by
  refine List.ext_getElem (by simp) fun i h₁ h₂ => ?_
  simp [read, Patch.apply, h₂]

/-- A patch next to a region leaves what is read there. -/
theorem read_apply_of_disjoint {p : Patch} {off n : ℕ} (h : ∀ i < n, ¬p.Covers (off + i))
    (m : Mem) : read (p.apply m) off n = read m off n :=
  read_eq_read_iff.mpr fun i hi => p.apply_of_not_covers (h i hi) m

/-- What no patch reaches reads as before. -/
theorem read_applyAll_of_not_covered {ps : List Patch} {off n : ℕ}
    (h : ∀ p ∈ ps, ∀ i < n, ¬p.Covers (off + i)) (m : Mem) :
    read (applyAll ps m) off n = read m off n := by
  induction ps generalizing m with
  | nil => rfl
  | cons p ps ih =>
    obtain ⟨hp, hps⟩ := List.forall_mem_cons.mp h
    rw [applyAll_cons, ih hps, read_apply_of_disjoint hp]

/-- What lies behind a patch does not change its first bytes. -/
theorem read_applyAll_cons {p : Patch} {ps : List Patch} {k : ℕ} (hk : k ≤ p.bytes.length)
    (h : ∀ q ∈ ps, p.off + k ≤ q.off) (m : Mem) :
    read (applyAll (p :: ps) m) p.off k = p.bytes.take k := by
  have hpatches : ∀ q ∈ ps, ∀ i < k, ¬q.Covers (p.off + i) := by
    intro q hq i hi hcovers
    have hle := h q hq
    have hcov := hcovers.1
    omega
  rw [applyAll_cons, read_applyAll_of_not_covered hpatches, ← take_read _ _ hk, read_apply_self]

/-- Patches in a region, one behind the other. -/
structure Laid (lo hi : ℕ) (ps : List Patch) : Prop where
  inside : ∀ p ∈ ps, lo ≤ p.off ∧ p.off + p.bytes.length ≤ hi
  ascending : ps.Pairwise fun p q => p.off + p.bytes.length ≤ q.off

namespace Laid

variable {lo mid hi : ℕ} {ps qs : List Patch} {p : Patch}

theorem nil : Laid lo hi [] := ⟨fun _ h => absurd h List.not_mem_nil, .nil⟩

/-- Two regions one behind the other. -/
theorem append (hp : Laid lo mid ps) (hq : Laid mid hi qs) (hlo : lo ≤ mid) (hhi : mid ≤ hi) :
    Laid lo hi (ps ++ qs) := by
  refine ⟨fun p h => ?_, List.pairwise_append.mpr ⟨hp.ascending, hq.ascending, ?_⟩⟩
  · rcases List.mem_append.mp h with h | h
    · have hin := hp.inside p h
      omega
    · have hin := hq.inside p h
      omega
  · intro p h q h'
    exact (hp.inside p h).2.trans (hq.inside q h').1

/-- Each patch can be read back. -/
theorem read (h : Laid lo hi ps) (hp : p ∈ ps) (m : Mem) :
    ByteMemory.read (applyAll ps m) p.off p.bytes.length = p.bytes := by
  obtain ⟨front, back, rfl⟩ := List.append_of_mem hp
  obtain ⟨-, hback, -⟩ := List.pairwise_append.mp h.ascending
  rw [applyAll_append, read_applyAll_cons le_rfl (List.pairwise_cons.mp hback).1,
    List.take_length]

end Laid

/-- A byte is either an old one or one of a patch. -/
theorem applyAll_eq_or_mem (ps : List Patch) (m : Mem) (i : ℕ) :
    applyAll ps m i = m i ∨
      ∃ p ∈ ps, p.off ≤ i ∧ p.bytes[i - p.off]? = some (applyAll ps m i) := by
  induction ps generalizing m with
  | nil => exact .inl rfl
  | cons p ps ih =>
    rw [applyAll_cons]
    rcases ih (p.apply m) with heq | ⟨q, hq, hqi⟩
    · by_cases hp : p.Covers i
      · refine .inr ⟨p, List.mem_cons_self, hp.1, ?_⟩
        have hlt : i - p.off < p.bytes.length := by
          have hle := hp.1
          have hcov := hp.2
          omega
        rw [heq, Patch.apply, if_pos hp.1, List.getElem?_eq_getElem hlt, Option.getD_some]
      · rw [heq, p.apply_of_not_covers hp]
        exact .inl rfl
    · exact .inr ⟨q, List.mem_cons_of_mem _ hq, hqi⟩

/-- Elements for places one behind the other: the first one, and those behind it. -/
theorem mapIdx_add_cons {α β : Type*} (f : ℕ → α → β) (k : ℕ) (x : α) (xs : List α) :
    ((x :: xs).mapIdx fun j y => f (k + j) y) = f k x :: xs.mapIdx fun j y => f (k + 1 + j) y := by
  rw [List.mapIdx_cons]
  refine congrArg₂ List.cons rfl (List.mapIdx_eq_mapIdx_iff.mpr fun j _ => ?_)
  rw [Nat.add_assoc, Nat.add_comm 1]

/-! ## Old contents behind new ones -/

/-- A buffer whose first bytes were just written and whose others are from before. -/
def overlay (bs : List UInt8) (stale : Mem) : Mem := fun i => (bs[i]?).getD (stale i)

@[simp]
theorem overlay_of_lt {bs : List UInt8} {i : ℕ} (h : i < bs.length) (stale : Mem) :
    overlay bs stale i = bs[i] := by simp [overlay, h]

@[simp]
theorem overlay_of_ge {bs : List UInt8} {i : ℕ} (h : bs.length ≤ i) (stale : Mem) :
    overlay bs stale i = stale i := by simp [overlay, h]

/-- Reading a buffer gives what was written in the region, and old contents for the rest. -/
theorem read_overlay (bs : List UInt8) (stale : Mem) (off n : ℕ) :
    read (overlay bs stale) off n = (bs.drop off).take n ++
      read stale (off + ((bs.drop off).take n).length) (n - ((bs.drop off).take n).length) := by
  refine List.ext_getElem (by simp) fun i h₁ h₂ => ?_
  have hi : i < n := by simpa using h₁
  rw [List.getElem_append]
  split
  · next hlt =>
    have hbs : off + i < bs.length := by simp at hlt; omega
    simp [read, overlay_of_lt hbs]
  · next hge =>
    have hbs : bs.length ≤ off + i := by simp at hge; omega
    simp only [read, List.getElem_map, List.getElem_range, overlay_of_ge hbs]
    congr 1
    omega

/-- What was copied to the front of a buffer reads the same there. -/
theorem read_overlay_read {m : Mem} {len off n : ℕ} (h : off + n ≤ len) (stale : Mem) :
    read (overlay (read m 0 len) stale) off n = read m off n := by
  refine read_eq_read_iff.mpr fun i hi => ?_
  have hlt : off + i < (read m 0 len).length := by
    rw [length_read]
    omega
  rw [overlay, List.getElem?_eq_getElem hlt, Option.getD_some]
  simp [read]

/-- What is read after some patches depends on the old contents exactly where neither the new
bytes nor a patch reach. -/
theorem read_applyAll_overlay_iff (ps : List Patch) (bs : List UInt8) (off n : ℕ) :
    (∀ stale stale', read (applyAll ps (overlay bs stale)) off n =
      read (applyAll ps (overlay bs stale')) off n) ↔
    ∀ i, off ≤ i → i < off + n → i < bs.length ∨ Covered ps i := by
  simp only [read_eq_read_iff, applyAll_eq_applyAll_iff]
  constructor
  · intro h i hoff hi
    rcases h (fun _ => 0) (fun _ => 1) (i - off) (by omega) with hcov | heq
    · exact .inr (by rwa [Nat.add_sub_cancel' hoff] at hcov)
    · refine .inl ?_
      by_contra hge
      rw [Nat.add_sub_cancel' hoff, overlay_of_ge (by omega), overlay_of_ge (by omega)] at heq
      exact absurd heq (by decide)
  · intro h stale stale' i hi
    rcases h (off + i) (by omega) (by omega) with hlt | hcov
    · exact .inr (by rw [overlay_of_lt hlt, overlay_of_lt hlt])
    · exact .inl hcov

/-! ## C strings -/

/-- A string as C has it: bytes other than NUL. -/
def CString : Type := { bs : List UInt8 // 0 ∉ bs }
  deriving DecidableEq

namespace CString

/-- The string that bytes hold: those before the first NUL. -/
def ofBytes (bs : List UInt8) : CString :=
  ⟨bs.takeWhile (· != 0), fun h => by simpa using List.all_eq_true.mp List.all_takeWhile 0 h⟩

/-- The string in `n` bytes of memory, cut off after them. -/
def read (m : Mem) (off n : ℕ) : CString := ofBytes (ByteMemory.read m off n)

@[ext]
theorem ext {s t : CString} (h : s.1 = t.1) : s = t := Subtype.ext h

/-- A string goes on after bytes without NUL. -/
theorem ofBytes_append_of_notMem {bs : List UInt8} (h : 0 ∉ bs) (cs : List UInt8) :
    (ofBytes (bs ++ cs)).1 = bs ++ (ofBytes cs).1 :=
  List.takeWhile_append_of_pos fun b hb => by
    simpa using fun hzero : b = 0 => h (hzero ▸ hb)

/-- Bytes without NUL are a string as they stand. -/
theorem ofBytes_of_notMem {bs : List UInt8} (h : 0 ∉ bs) : (ofBytes bs).1 = bs := by
  simpa [ofBytes] using ofBytes_append_of_notMem h []

/-- What follows the first NUL is not part of the string. -/
theorem ofBytes_append_of_mem {bs : List UInt8} (h : 0 ∈ bs) (cs : List UInt8) :
    ofBytes (bs ++ cs) = ofBytes bs := by
  ext1
  induction bs with
  | nil => simp at h
  | cons b bs ih =>
    by_cases hb : b = 0
    · simp [ofBytes, hb]
    · have hmem : 0 ∈ bs := (List.mem_cons.mp h).resolve_left (Ne.symm hb)
      simpa [ofBytes, hb] using ih hmem

/-- A string that is in memory with its NUL is read as it is. -/
theorem read_of_terminated {m : Mem} {s : List UInt8} {off n : ℕ} (hnul : 0 ∉ s)
    (hlen : s.length < n) (h : ByteMemory.read m off (s.length + 1) = s ++ [0]) :
    (read m off n).1 = s := by
  obtain ⟨k, rfl⟩ : ∃ k, n = s.length + 1 + k := ⟨n - (s.length + 1), by omega⟩
  rw [read, read_add, h, ofBytes_append_of_mem (by simp), ofBytes_append_of_notMem hnul]
  exact List.append_nil s

/-- Bytes settle a string of at most `n` bytes: they hold its NUL, or are `n` themselves. -/
def Settled (bs : List UInt8) (n : ℕ) : Prop := 0 ∈ bs ∨ bs.length = n

instance (bs : List UInt8) (n : ℕ) : Decidable (Settled bs n) :=
  inferInstanceAs (Decidable (_ ∨ _))

/-- A settled string does not depend on the old contents. -/
theorem read_overlay_of_settled {bs : List UInt8} {off n : ℕ}
    (h : Settled ((bs.drop off).take n) n) (stale : Mem) :
    read (overlay bs stale) off n = ofBytes ((bs.drop off).take n) := by
  rw [read, read_overlay]
  rcases h with hmem | hlen
  · exact ofBytes_append_of_mem hmem _
  · simp [hlen, ByteMemory.read]

/-- A string that is not settled goes on with the old contents. -/
theorem read_overlay_of_not_settled {bs : List UInt8} {off n : ℕ}
    (h : ¬Settled ((bs.drop off).take n) n) (b : UInt8) :
    (read (overlay bs fun _ => b) off n).1 = (bs.drop off).take n ++
      if b = 0 then [] else List.replicate (n - ((bs.drop off).take n).length) b := by
  rw [Settled, not_or] at h
  have hread : ∀ off n, ByteMemory.read (fun _ => b) off n = List.replicate n b := fun off n => by
    simp [ByteMemory.read, List.map_const']
  rw [read, read_overlay, hread, ofBytes_append_of_notMem h.1]
  by_cases hb : b = 0
  · simp [ofBytes, hb]
  · simp [ofBytes, hb]

end CString

end ByteMemory
