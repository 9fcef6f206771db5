import Gendo.Server.MemTool

/-!
# What the memory tool is for

The users of the tool need not know its structures. For them it keeps blocks, each a window of
bytes between two guard words, and it tells them which blocks there are and whether a guard word was
overwritten. `MemHeap` is this heap, and `RepresentsHeap` says that the bytes and the list of the
tool hold it.

A caller is trusted with little: it gives back and checks only what it was given, and its writes
stay in the window of a block, the guard words included, so that it may write up to four bytes too
far on either side.
-/

namespace Gendo

open ByteMemory LinkedList StepSystem

/-- A block as its user sees it. -/
structure MemBlock where
  /-- Where the structure of the tool is. -/
  base : ℕ
  /-- Where the tool was called last. -/
  file : CString
  line : ℕ
  /-- The bytes from the guard word in front of the memory to the one behind it. -/
  window : List UInt8
  room : 8 ≤ window.length
  deriving DecidableEq

namespace MemBlock

/-- The bytes that were asked for. -/
def size (b : MemBlock) : ℕ := b.window.length - 8

/-- The address that was handed out. -/
def ptr (b : MemBlock) : ℕ := b.base + sizeofMemStruct

/-- What the tool needs for the block. -/
def len (b : MemBlock) : ℕ := sizeofMemStruct + b.size + 4

/-- The guard word in front is as it was. -/
def FrontOk (b : MemBlock) : Prop := b.window.take 4 = intBytes MEM_MAGIC

/-- The guard word behind is as it was. -/
def BackOk (b : MemBlock) : Prop := b.window.drop (4 + b.size) = intBytes MEM_MAGIC

instance (b : MemBlock) : Decidable b.FrontOk := inferInstanceAs (Decidable (_ = _))

instance (b : MemBlock) : Decidable b.BackOk := inferInstanceAs (Decidable (_ = _))

/-- The memory of the user. -/
def body (b : MemBlock) : List UInt8 := (b.window.drop 4).take b.size

/-- Where the window begins. -/
def start (b : MemBlock) : ℕ := b.base + MemStruct.magic

/-- The addresses are in the window. -/
def Holds (b : MemBlock) (a n : ℕ) : Prop := b.start ≤ a ∧ a + n ≤ b.base + b.len

instance (b : MemBlock) (a n : ℕ) : Decidable (b.Holds a n) := inferInstanceAs (Decidable (_ ∧ _))

theorem start_add_length (b : MemBlock) : b.start + b.window.length = b.base + b.len := by
  have hroom := b.room
  simp only [start, len, size, MemStruct.magic, sizeofMemStruct]
  omega

/-- A write, if it is in the window. -/
def store (b : MemBlock) (a : ℕ) (bs : List UInt8) : MemBlock :=
  if h : b.Holds a bs.length then
    { b with
      window := splice b.window (a - b.start) bs
      room := by
        have hlen := b.start_add_length
        have hin := h.2
        rw [length_splice (by have := h.1; omega)]
        exact b.room }
  else
    b

def load (b : MemBlock) (a n : ℕ) : List UInt8 := (b.window.drop (a - b.start)).take n

/-- The tool was called for the block. -/
def touch (b : MemBlock) (file : CString) (line : ℕ) : MemBlock := { b with file, line }

/-- A block as it is handed out: all zeros. -/
def new (base size : ℕ) (file : CString) (line : ℕ) : MemBlock where
  base := base
  file := file
  line := line
  window := intBytes MEM_MAGIC ++ List.replicate size 0 ++ intBytes MEM_MAGIC
  room := by simp; omega

/-- What `lib_mem_show` prints of the block. -/
def memLine (b : MemBlock) : MemLine where
  moduleId := 0
  size := b.size + 4
  ptr := b.ptr
  file := b.file
  line := b.line
  ok := b.FrontOk

/-- The memory of the two blocks is apart. -/
def Apart (b c : MemBlock) : Prop := b.base + b.len ≤ c.base ∨ c.base + c.len ≤ b.base

instance (b c : MemBlock) : Decidable (b.Apart c) := inferInstanceAs (Decidable (_ ∨ _))

end MemBlock

/-- The heap that the tool keeps. -/
structure MemHeap where
  /-- The blocks handed out and not taken back, in the order in which they were. -/
  blocks : List MemBlock
  /-- What was reported to the hook. -/
  faults : List (ℕ × ℕ)

namespace MemHeap

def fault (t : MemHeap) (code arg : ℕ) : MemHeap := { t with faults := t.faults ++ [(code, arg)] }

def find (t : MemHeap) (ptr : ℕ) : Option MemBlock := t.blocks.find? (·.ptr = ptr)

def malloc (t : MemHeap) (size : ℕ) (file : CString) (line : ℕ) :
    Option ℕ → Option ℕ × MemHeap
  | none => (none, t)
  | some m => (some (m + sizeofMemStruct),
    { t with blocks := t.blocks ++ [.new m size file line] })

/-- A block is taken back only with both guard words as they were. -/
def free (t : MemHeap) (ptr : ℕ) (file : CString) (line : ℕ) : MemHeap :=
  match t.find ptr with
  | none => t
  | some b =>
    if ¬b.FrontOk then
      t.fault MEM_FREE_INVALID1 b.base
    else if ¬b.BackOk then
      { t with
        blocks := t.blocks.map fun c => if c.ptr = ptr then c.touch file line else c
        faults := t.faults ++ [(MEM_FREE_INVALID2, b.base)] }
    else
      { t with blocks := t.blocks.eraseP (·.ptr = ptr) }

def check (t : MemHeap) (ptr : ℕ) : ℤ × MemHeap :=
  match t.find ptr with
  | none => (OK, t)
  | some b =>
    if ¬b.FrontOk then
      (ERROR, t.fault MEM_FREE_INVALID1 b.base)
    else if ¬b.BackOk then
      (ERROR, t.fault MEM_FREE_INVALID2 b.base)
    else
      (OK, t)

def load (t : MemHeap) (a n : ℕ) : List UInt8 :=
  match t.blocks.find? (·.Holds a n) with
  | none => []
  | some b => b.load a n

def call (t : MemHeap) : MemCall → MemAnswer × MemHeap
  | .malloc size file line answer =>
    (.pointer (t.malloc size file line answer).1, (t.malloc size file line answer).2)
  | .free ptr file line => (.done, t.free ptr file line)
  | .check ptr => (.code (t.check ptr).1, (t.check ptr).2)
  | .memShow => (.lines (t.blocks.map MemBlock.memLine), t)
  | .store a bs => (.done, { t with blocks := t.blocks.map (·.store a bs) })
  | .load a n => (.bytes (t.load a n), t)

def next (t : MemHeap) (c : MemCall) : MemHeap := (t.call c).2

/-- A place in the source: the path is one that the tool has room for. -/
def Place (file : CString) (line : ℕ) : Prop :=
  file.1.length < MAX_FILE_COMPILE_PATH ∧ line < 2 ^ 31

instance (file : CString) (line : ℕ) : Decidable (Place file line) :=
  inferInstanceAs (Decidable (_ ∧ _))

/-- What the tool expects: of libc, that it has memory, and hands out what is not in use, and of its
callers, that they name blocks they have and write in their windows. -/
def Allowed (memList : ℕ) (t : MemHeap) : MemCall → Prop
  | .malloc size file line answer => sizeofMemStruct + size + 4 < 2 ^ 31 ∧ Place file line ∧
    ∃ m ∈ answer, m ≠ memList ∧ ∀ b ∈ t.blocks, (MemBlock.new m size file line).Apart b
  | .free ptr file line => Place file line ∧ (ptr = 0 ∨ ∃ b ∈ t.blocks, b.ptr = ptr)
  | .check ptr => ∃ b ∈ t.blocks, b.ptr = ptr
  | .memShow => True
  | .store a bs => ∃ b ∈ t.blocks, b.Holds a bs.length
  | .load a n => ∃ b ∈ t.blocks, b.Holds a n

instance (memList : ℕ) (t : MemHeap) : (c : MemCall) → Decidable (Allowed memList t c)
  | .malloc .. => inferInstanceAs (Decidable (_ ∧ _ ∧ ∃ m ∈ (_ : Option ℕ), _))
  | .free .. => inferInstanceAs (Decidable (_ ∧ _))
  | .check _ => inferInstanceAs (Decidable (∃ b ∈ t.blocks, _))
  | .memShow => isTrue trivial
  | .store .. => inferInstanceAs (Decidable (∃ b ∈ t.blocks, _))
  | .load .. => inferInstanceAs (Decidable (∃ b ∈ t.blocks, _))

end MemHeap

/-! ## Representation -/

/-- The block is in memory. -/
structure MemBlock.Lies (mem : Mem) (b : MemBlock) : Prop where
  moduleId : intAt mem (b.base + MemStruct.moduleId) = 0
  size : intAt mem (b.base + MemStruct.size) = b.len
  file : CString.read mem (b.base + MemStruct.file) MAX_FILE_COMPILE_PATH = b.file
  line : intAt mem (b.base + MemStruct.line) = b.line
  window : read mem b.start b.window.length = b.window

/-- The tool holds the heap. -/
structure RepresentsHeap (memList : ℕ) (s : MemTool) (t : MemHeap) : Prop where
  memOn : s.memOn = true
  ring : Ring s.links memList (t.blocks.map MemBlock.base)
  libc : s.libc = t.blocks.map fun b => (b.base, b.len)
  hooked : s.hooked = t.faults
  lies : ∀ b ∈ t.blocks, b.Lies s.mem
  apart : t.blocks.Pairwise MemBlock.Apart

theorem intAt_congr {m m' : Mem} {a : ℕ} (h : read m a 4 = read m' a 4) :
    intAt m a = intAt m' a := by
  unfold intAt uintAt
  rw [h]

namespace MemBlock

@[simp]
theorem base_touch (b : MemBlock) (file : CString) (line : ℕ) :
    (b.touch file line).base = b.base := rfl

@[simp]
theorem len_touch (b : MemBlock) (file : CString) (line : ℕ) :
    (b.touch file line).len = b.len := rfl

@[simp]
theorem base_store (b : MemBlock) (a : ℕ) (bs : List UInt8) : (b.store a bs).base = b.base := by
  rw [store]
  split <;> rfl

theorem length_window_store (b : MemBlock) (a : ℕ) (bs : List UInt8) :
    (b.store a bs).window.length = b.window.length := by
  rw [store]
  split
  · next h =>
    have hlen := b.start_add_length
    have hlo := h.1
    have hhi := h.2
    exact length_splice (by omega)
  · rfl

@[simp]
theorem len_store (b : MemBlock) (a : ℕ) (bs : List UInt8) : (b.store a bs).len = b.len := by
  rw [len, len, size, size, length_window_store]

theorem store_of_holds {b : MemBlock} {a : ℕ} {bs : List UInt8} (h : b.Holds a bs.length) :
    (b.store a bs).window = splice b.window (a - b.start) bs := by rw [store, dif_pos h]

theorem store_of_not_holds {b : MemBlock} {a : ℕ} {bs : List UInt8} (h : ¬b.Holds a bs.length) :
    b.store a bs = b := by rw [store, dif_neg h]

@[simp]
theorem size_new (m size : ℕ) (file : CString) (line : ℕ) : (new m size file line).size = size := by
  simp [MemBlock.size, new]
  omega

theorem len_new (m size : ℕ) (file : CString) (line : ℕ) :
    (new m size file line).len = sizeofMemStruct + size + 4 := by rw [len, size_new]

theorem Apart.symm {b c : MemBlock} (h : b.Apart c) : c.Apart b := Or.symm h

theorem Apart.base_ne {b c : MemBlock} (h : b.Apart c) : b.base ≠ c.base := by
  simp only [Apart, len, sizeofMemStruct] at h
  omega

/-- Two windows hold no address together. -/
theorem Holds.not_of_apart {b c : MemBlock} {a n : ℕ} (h : b.Holds a n) (hbc : b.Apart c) :
    ¬c.Holds a n := by
  rintro ⟨hlo, hhi⟩
  have hb := h.1
  have hb' := h.2
  simp only [Apart, start, MemStruct.magic] at *
  omega

/-- The two writes of `lib_mem_free` to the structure. -/
def touchPatches (b : MemBlock) (file : CString) (line : ℕ) : List Patch :=
  [⟨b.base + MemStruct.file, strncpyBytes file MAX_FILE_COMPILE_PATH⟩,
    ⟨b.base + MemStruct.line, intBytes line⟩]

namespace Lies

variable {mem : Mem} {b c : MemBlock}

/-- A block does not change with the memory of others. -/
theorem of_apart {ps : List Patch} (h : c.Lies mem)
    (hps : ∀ p ∈ ps, c.base + c.len ≤ p.off ∨ p.off + p.bytes.length ≤ c.base) :
    c.Lies (applyAll ps mem) := by
  -- every field is read inside of the block
  have hread : ∀ a n, c.base ≤ a → a + n ≤ c.base + c.len →
      read (applyAll ps mem) a n = read mem a n := by
    intro a n hlo hhi
    apply read_applyAll_of_apart
    intro p hp
    exact (hps p hp).imp (by omega) (by omega)
  have hlen : sizeofMemStruct ≤ c.len := by rw [len]; omega
  have hstart := c.start_add_length
  constructor
  · rw [← h.moduleId]
    exact intAt_congr (hread _ _ (by simp) (by
      simp only [MemStruct.moduleId, sizeofMemStruct] at *; omega))
  · rw [← h.size]
    exact intAt_congr (hread _ _ (by simp) (by
      simp only [MemStruct.size, sizeofMemStruct] at *; omega))
  · rw [← h.file, CString.read, CString.read, hread _ _ (by simp) (by
      simp only [MemStruct.file, MAX_FILE_COMPILE_PATH, sizeofMemStruct] at *; omega)]
  · rw [← h.line]
    exact intAt_congr (hread _ _ (by simp) (by
      simp only [MemStruct.line, sizeofMemStruct] at *; omega))
  · rw [hread _ _ (by simp [start]) hstart.le]
    exact h.window

/-- A write in the window. -/
theorem store {a : ℕ} {bs : List UInt8} (h : b.Lies mem) (hin : b.Holds a bs.length) :
    (b.store a bs).Lies ((Patch.mk a bs).apply mem) := by
  have hlo := hin.1
  have hhi := hin.2
  have hstart := b.start_add_length
  -- the window begins with the guard word, behind all other fields
  have hbefore : ∀ off n, off + n ≤ MemStruct.magic →
      read ((Patch.mk a bs).apply mem) (b.base + off) n = read mem (b.base + off) n := by
    intro off n hoff
    refine read_apply_of_apart (.inl ?_) mem
    show b.base + off + n ≤ a
    rw [start] at hlo
    omega
  constructor
  · rw [base_store, ← h.moduleId]
    exact intAt_congr (hbefore _ _ (by decide))
  · rw [base_store, len_store, ← h.size]
    exact intAt_congr (hbefore _ _ (by decide))
  · rw [base_store, CString.read, hbefore _ _ (by decide)]
    have hfile : (b.store a bs).file = b.file := by
      rw [MemBlock.store, dif_pos hin]
    rw [hfile]
    exact h.file
  · have hline : (b.store a bs).line = b.line := by
      rw [MemBlock.store, dif_pos hin]
    rw [base_store, hline, ← h.line]
    exact intAt_congr (hbefore _ _ (by decide))
  · have hsame : (b.store a bs).start = b.start := by rw [start, base_store, start]
    have hinside : a + bs.length ≤ b.start + b.window.length := by omega
    rw [hsame, length_window_store, store_of_holds hin]
    calc
      _ = splice (read mem b.start b.window.length) (a - b.start) bs :=
        read_apply_eq_splice (p := ⟨a, bs⟩) hlo hinside mem
      _ = splice b.window (a - b.start) bs := by rw [h.window]

theorem uintAt_front (h : b.Lies mem) :
    uintAt mem (b.base + MemStruct.magic) = MEM_MAGIC ↔ b.FrontOk := by
  have hroom := b.room
  rw [uintAt_eq_iff (by decide), FrontOk, ← take_read mem _ (by omega : 4 ≤ b.window.length)]
  have hwindow := h.window
  rw [start] at hwindow
  rw [hwindow]

theorem uintAt_back (h : b.Lies mem) :
    uintAt mem (b.base + b.len - 4) = MEM_MAGIC ↔ b.BackOk := by
  have hroom := b.room
  have hplace : b.base + b.len - 4 = b.start + (4 + b.size) := by
    simp only [len, start, sizeofMemStruct, MemStruct.magic]
    omega
  have hsize : b.size + 8 = b.window.length := Nat.sub_add_cancel hroom
  have hwidth : 4 = b.window.length - (4 + b.size) := by omega
  have hread : read mem (b.base + b.len - 4) 4 = b.window.drop (4 + b.size) := by
    conv_rhs => rw [← h.window, drop_read _ _ (by omega), ← hwidth]
    rw [hplace]
  rw [uintAt_eq_iff (by decide), hread, BackOk]

theorem touch {file : CString} {line : ℕ} (h : b.Lies mem) (hplace : MemHeap.Place file line) :
    (b.touch file line).Lies (applyAll (b.touchPatches file line) mem) := by
  -- only the path and the line are written
  have hread : ∀ off n, off + n ≤ MemStruct.file ∨ MemStruct.magic ≤ off →
      read (applyAll (b.touchPatches file line) mem) (b.base + off) n =
        read mem (b.base + off) n := by
    intro off n hoff
    apply read_applyAll_of_apart
    simp only [touchPatches, List.forall_mem_cons, length_strncpyBytes, length_intBytes]
    simp only [MemStruct.file, MemStruct.magic, MemStruct.line, MAX_FILE_COMPILE_PATH] at hoff ⊢
    refine ⟨by omega, by omega, by simp⟩
  constructor
  · rw [base_touch, ← h.moduleId]
    exact intAt_congr (hread MemStruct.moduleId 4 (by decide))
  · rw [base_touch, len_touch, ← h.size]
    exact intAt_congr (hread MemStruct.size 4 (by decide))
  · apply read_strncpyBytes _ hplace.1
    have hlast := @read_applyAll_of_last [] [⟨b.base + MemStruct.line, intBytes line⟩]
      ⟨b.base + MemStruct.file, strncpyBytes file MAX_FILE_COMPILE_PATH⟩
      (by simp [MemStruct.file, MemStruct.line, MAX_FILE_COMPILE_PATH]) mem
    rwa [length_strncpyBytes] at hlast
  · apply intAt_of_read _ (by omega) (by exact_mod_cast hplace.2)
    exact @read_applyAll_of_last
      [⟨b.base + MemStruct.file, strncpyBytes file MAX_FILE_COMPILE_PATH⟩] []
      ⟨b.base + MemStruct.line, intBytes line⟩ (by simp) mem
  · exact (hread _ _ (.inr le_rfl)).trans h.window

end Lies

/-- The writes of `lib_mem_malloc`, in order. -/
def newPatches (m size : ℕ) (file : CString) (line : ℕ) : List Patch :=
  [⟨m, List.replicate (sizeofMemStruct + size + 4) 0⟩,
    ⟨m + MemStruct.size, intBytes (sizeofMemStruct + size + 4 : ℕ)⟩,
    ⟨m + MemStruct.line, intBytes line⟩,
    ⟨m + MemStruct.file, strncpyBytes file MAX_FILE_COMPILE_PATH⟩,
    ⟨m + MemStruct.moduleId, intBytes 0⟩,
    ⟨m + MemStruct.magic, intBytes MEM_MAGIC⟩,
    ⟨m + sizeofMemStruct + size, intBytes MEM_MAGIC⟩]

theorem lies_new {m size line : ℕ} {file : CString} (hsize : sizeofMemStruct + size + 4 < 2 ^ 31)
    (hplace : MemHeap.Place file line) (mem : Mem) :
    (new m size file line).Lies (applyAll (newPatches m size file line) mem) := by
  -- what is read back is what the last write to the place wrote
  have hlast : ∀ ps p qs, newPatches m size file line = ps ++ p :: qs →
      (∀ q ∈ qs, p.off + p.bytes.length ≤ q.off ∨ q.off + q.bytes.length ≤ p.off) →
      read (applyAll (newPatches m size file line) mem) p.off p.bytes.length = p.bytes := by
    intro ps p qs hsplit hqs
    rw [hsplit]
    exact read_applyAll_of_last hqs mem
  have hmodule := hlast ((newPatches m size file line).take 4) _
    ((newPatches m size file line).drop 5) rfl (by
      simp [newPatches, MemStruct.moduleId, MemStruct.magic, sizeofMemStruct]
      omega)
  have hlen := hlast ((newPatches m size file line).take 1) _
    ((newPatches m size file line).drop 2) rfl (by
      simp [newPatches, MemStruct.moduleId, MemStruct.magic, sizeofMemStruct, MemStruct.size,
        MemStruct.line, MemStruct.file, MAX_FILE_COMPILE_PATH]
      omega)
  have hline := hlast ((newPatches m size file line).take 2) _
    ((newPatches m size file line).drop 3) rfl (by
      simp [newPatches, MemStruct.moduleId, MemStruct.magic, sizeofMemStruct,
        MemStruct.line, MemStruct.file, MAX_FILE_COMPILE_PATH]
      omega)
  have hfile := hlast ((newPatches m size file line).take 3) _
    ((newPatches m size file line).drop 4) rfl (by
      simp [newPatches, MemStruct.moduleId, MemStruct.magic, sizeofMemStruct,
        MemStruct.file, MAX_FILE_COMPILE_PATH]
      omega)
  have hfront := hlast ((newPatches m size file line).take 5) _
    ((newPatches m size file line).drop 6) rfl (by
      simp [newPatches, MemStruct.magic, sizeofMemStruct])
  have hback := hlast ((newPatches m size file line).take 6) _ [] rfl (by simp)
  have hbody : read (applyAll (newPatches m size file line) mem) (m + sizeofMemStruct) size =
      List.replicate size 0 := by
    rw [newPatches, applyAll_cons, read_applyAll_of_apart, read_eq_replicate_iff]
    · intro i hi
      have hlt : sizeofMemStruct + i < sizeofMemStruct + size + 4 := by omega
      have hle : m ≤ m + sizeofMemStruct + i := by omega
      rw [Patch.apply, if_pos hle, Nat.add_assoc m, Nat.add_sub_cancel_left,
        List.getElem?_replicate, if_pos hlt, Option.getD_some]
    · simp [MemStruct.moduleId, MemStruct.magic, sizeofMemStruct, MemStruct.size,
        MemStruct.line, MemStruct.file, MAX_FILE_COMPILE_PATH]
  rw [length_intBytes] at hmodule hlen hline hfront hback
  rw [length_strncpyBytes] at hfile
  constructor
  · exact intAt_of_read hmodule (by norm_num) (by norm_num)
  · rw [len_new]
    exact intAt_of_read hlen (by omega) (by exact_mod_cast hsize)
  · exact read_strncpyBytes hfile hplace.1
  · exact intAt_of_read hline (by omega) (by exact_mod_cast hplace.2)
  · have hlength : (new m size file line).window.length = 4 + size + 4 := by
      simp [new, Nat.add_assoc]
    have hbehind : (new m size file line).start + (4 + size) = m + sizeofMemStruct + size := by
      simp only [start, new, sizeofMemStruct, MemStruct.magic]
      omega
    rw [hlength, read_add, read_add, hbehind]
    exact congrArg₂ _ (congrArg₂ _ hfront hbody) hback

end MemBlock

/-! ## The functions of the tool on a block -/

section Functions

variable {memList m size line : ℕ} {file : CString} {s : MemTool} {xs : List ℕ} {b : MemBlock}

theorem memLen_eq (hsize : sizeofMemStruct + size + 4 < 2 ^ 31) :
    memLen size = (sizeofMemStruct + size + 4 : ℕ) := by
  unfold memLen
  push_cast
  exact Int.bmod_eq_of_le (by norm_num; omega) (by norm_num; omega)

/-- `lib_mem_malloc` with memory of libc's writes the block and puts it behind the others. -/
theorem libMemMalloc_some (file : CString) (line : ℕ) (hon : s.memOn = true)
    (hr : Ring s.links memList xs) (hm : m ∉ memList :: xs)
    (hsize : sizeofMemStruct + size + 4 < 2 ^ 31) :
    ∃ L, MemTool.libMemMalloc memList s size file line (some m) = .ok (some (m + sizeofMemStruct),
        { s with
          links := L
          mem := applyAll (MemBlock.newPatches m size file line) s.mem
          libc := s.libc ++ [(m, sizeofMemStruct + size + 4)] }) ∧
      Ring L memList (xs ++ [m]) := by
  have hring : Ring ((s.links.setNext m none).setPrev m none) memList xs := by
    apply hr.congr
    · intro y hy
      rw [Links.next_setPrev, Links.next_setNext, if_neg (ne_of_mem_of_not_mem hy hm)]
    · intro y hy
      rw [Links.prev_setPrev, if_neg (ne_of_mem_of_not_mem hy hm), Links.prev_setNext]
  have hlen : (((sizeofMemStruct + size + 4 : ℕ) : ℤ) % 2 ^ 64).toNat =
      sizeofMemStruct + size + 4 := by omega
  obtain ⟨L, hL, hring'⟩ := exists_libListAddTail hring hm
  refine ⟨L, ?_, hring'⟩
  have hoff : ¬(!s.memOn) = true := by simp [hon]
  rw [MemTool.libMemMalloc, if_neg hoff]
  simp only [memLen_eq hsize, hlen]
  show (libListAddTail ((s.links.setNext m none).setPrev m none) m memList >>= fun links => _) = _
  rw [hL]
  rfl

/-- `lib_mem_free` of a block. -/
theorem libMemFree_eq (hon : s.memOn = true) (hb : b.Lies s.mem)
    (hplace : MemHeap.Place file line) :
    MemTool.libMemFree s b.ptr file line =
      if ¬b.FrontOk then
        s.memHook MEM_FREE_INVALID1 b.base
      else if ¬b.BackOk then
        { s with mem := applyAll (b.touchPatches file line) s.mem }.memHook MEM_FREE_INVALID2 b.base
      else
        { s with
          mem := applyAll (b.touchPatches file line) s.mem
          links := libListDel s.links b.base
          libc := s.libc.eraseP (·.1 = b.base) } := by
  have hptr : b.ptr ≠ 0 := by simp [MemBlock.ptr, sizeofMemStruct]
  have hbase : b.ptr - sizeofMemStruct = b.base := Nat.add_sub_cancel _ _
  have hmagicp : ((b.base : ℤ) + b.len - 4).toNat = b.base + b.len - 4 := by omega
  have htouched := (hb.touch hplace).uintAt_back
  have hoff : ¬(!s.memOn) = true := by simp [hon]
  rw [MemTool.libMemFree, if_neg hoff, if_neg hptr, hbase]
  by_cases hfront : b.FrontOk
  · rw [if_neg (not_not.2 hfront), if_neg (not_not.2 (hb.uintAt_front.2 hfront))]
    simp only [hb.size, hmagicp]
    by_cases hback : b.BackOk
    · rw [if_neg (not_not.2 hback)]
      exact if_neg (not_not.2 (htouched.2 hback))
    · rw [if_pos hback]
      exact if_pos fun h => hback (htouched.1 h)
  · rw [if_pos hfront, if_pos fun h => hfront (hb.uintAt_front.1 h)]

/-- `lib_mem_check` of a block. -/
theorem libMemCheck_eq (hon : s.memOn = true) (hb : b.Lies s.mem) :
    MemTool.libMemCheck s b.ptr =
      if ¬b.FrontOk then
        (ERROR, s.memHook MEM_FREE_INVALID1 b.base)
      else if ¬b.BackOk then
        (ERROR, s.memHook MEM_FREE_INVALID2 b.base)
      else
        (OK, s) := by
  have hbase : b.ptr - sizeofMemStruct = b.base := Nat.add_sub_cancel _ _
  have hmagicp : ((b.base : ℤ) + b.len - 4).toNat = b.base + b.len - 4 := by omega
  have hoff : ¬(!s.memOn) = true := by simp [hon]
  rw [MemTool.libMemCheck, if_neg hoff, hbase]
  simp only [hb.size, hmagicp, ne_eq, hb.uintAt_front, hb.uintAt_back]

theorem MemBlock.Lies.memLine {mem : Mem} (hb : b.Lies mem) :
    Gendo.memLine mem b.base = b.memLine := by
  have hsize : (b.len : ℤ) - sizeofMemStruct = b.size + 4 := by
    rw [MemBlock.len]
    push_cast
    ring
  rw [Gendo.memLine, hb.moduleId, hb.size, hb.file, hb.line, hsize, MemBlock.memLine]
  simp only [hb.uintAt_front]
  rfl

end Functions

/-! ## Calls -/

/-- Where a block is found, and that no other is there. -/
theorem MemHeap.find_eq_some {t : MemHeap} {ptr : ℕ} {b : MemBlock} (h : t.find ptr = some b) :
    b.ptr = ptr ∧ ∃ l₁ l₂, t.blocks = l₁ ++ b :: l₂ ∧ ∀ c ∈ l₁, c.ptr ≠ ptr := by
  obtain ⟨hb, l₁, l₂, hblocks, hl₁⟩ := List.find?_eq_some_iff_append.1 h
  refine ⟨by simpa using hb, l₁, l₂, hblocks, fun c hc => ?_⟩
  simpa using hl₁ c hc

/-- A change of one block. -/
theorem map_of_fixed {f : MemBlock → MemBlock} {l₁ l₂ : List MemBlock} (b : MemBlock)
    (h : ∀ c ∈ l₁ ++ l₂, f c = c) : (l₁ ++ b :: l₂).map f = l₁ ++ f b :: l₂ := by
  rw [List.map_append, List.map_cons,
    (List.map_congr_left fun c hc => h c (List.mem_append_left l₂ hc)).trans (List.map_id' l₁),
    (List.map_congr_left fun c hc => h c (List.mem_append_right l₁ hc)).trans (List.map_id' l₂)]

namespace RepresentsHeap

variable {memList m size line : ℕ} {file : CString} {s : MemTool} {t : MemHeap} {b : MemBlock}
  {l₁ l₂ : List MemBlock}

theorem fault (h : RepresentsHeap memList s t) (code arg : ℕ) :
    RepresentsHeap memList (s.memHook code arg) (t.fault code arg) :=
  { h with hooked := by rw [MemTool.memHook, MemHeap.fault, h.hooked] }

theorem apart_of_mem (h : RepresentsHeap memList s t) (hblocks : t.blocks = l₁ ++ b :: l₂)
    {c : MemBlock} (hc : c ∈ l₁ ++ l₂) : b.Apart c := by
  have hapart := h.apart
  rw [hblocks, List.pairwise_append, List.pairwise_cons] at hapart
  rcases List.mem_append.1 hc with hc | hc
  · exact (hapart.2.2 c hc b List.mem_cons_self).symm
  · exact hapart.2.1.1 c hc

theorem ptr_ne_of_mem (h : RepresentsHeap memList s t) (hblocks : t.blocks = l₁ ++ b :: l₂)
    {c : MemBlock} (hc : c ∈ l₁ ++ l₂) : c.ptr ≠ b.ptr := by
  have hne := (h.apart_of_mem hblocks hc).base_ne
  simp only [MemBlock.ptr]
  omega

/-- The writes to a block change no other. -/
theorem lies_of_mem (h : RepresentsHeap memList s t) (hblocks : t.blocks = l₁ ++ b :: l₂)
    {ps : List Patch}
    (hps : ∀ p ∈ ps, b.base ≤ p.off ∧ p.off + p.bytes.length ≤ b.base + b.len)
    {c : MemBlock} (hc : c ∈ l₁ ++ l₂) : c.Lies (applyAll ps s.mem) := by
  have hmem : c ∈ t.blocks := by
    rw [hblocks]
    exact List.mem_append.2 ((List.mem_append.1 hc).imp_right (List.mem_cons_of_mem b))
  apply (h.lies c hmem).of_apart
  intro p hp
  have hin := hps p hp
  have hapart := h.apart_of_mem hblocks hc
  rw [MemBlock.Apart] at hapart
  omega

/-- A block in the place of one that takes the same memory. -/
theorem replace (h : RepresentsHeap memList s t) (hblocks : t.blocks = l₁ ++ b :: l₂)
    (b' : MemBlock) (hbase : b'.base = b.base) (hlen : b'.len = b.len) {ps : List Patch}
    (hps : ∀ p ∈ ps, b.base ≤ p.off ∧ p.off + p.bytes.length ≤ b.base + b.len)
    (hb' : b'.Lies (applyAll ps s.mem)) :
    RepresentsHeap memList { s with mem := applyAll ps s.mem }
      { t with blocks := l₁ ++ b' :: l₂ } where
  memOn := h.memOn
  ring := by
    have hring := h.ring
    rw [hblocks] at hring
    simpa [hbase] using hring
  libc := by
    have hlibc := h.libc
    rw [hblocks] at hlibc
    simpa [hbase, hlen] using hlibc
  hooked := h.hooked
  lies := by
    intro c hc
    rcases List.mem_append.1 hc with hc | hc
    · exact h.lies_of_mem hblocks hps (List.mem_append_left l₂ hc)
    · rcases List.mem_cons.1 hc with rfl | hc
      · exact hb'
      · exact h.lies_of_mem hblocks hps (List.mem_append_right l₁ hc)
  apart := by
    have hapart := h.apart
    rw [hblocks] at hapart
    simpa [List.pairwise_append, List.pairwise_cons, MemBlock.Apart, hbase, hlen] using hapart

/-- A block taken out. -/
theorem remove (h : RepresentsHeap memList s t) (hblocks : t.blocks = l₁ ++ b :: l₂)
    {ps : List Patch}
    (hps : ∀ p ∈ ps, b.base ≤ p.off ∧ p.off + p.bytes.length ≤ b.base + b.len) :
    RepresentsHeap memList
      { s with
        mem := applyAll ps s.mem
        links := libListDel s.links b.base
        libc := s.libc.eraseP (·.1 = b.base) }
      { t with blocks := l₁ ++ l₂ } where
  memOn := h.memOn
  ring := by
    have hring := h.ring
    rw [hblocks, List.map_append, List.map_cons] at hring
    rw [List.map_append]
    exact ring_libListDel hring
  libc := by
    -- no block before it has its address
    have hnot : ∀ r ∈ l₁.map (fun c : MemBlock => (c.base, c.len)), ¬r.1 = b.base := by
      intro r hr
      obtain ⟨c, hc, rfl⟩ := List.mem_map.1 hr
      exact (h.apart_of_mem hblocks (List.mem_append_left l₂ hc)).base_ne.symm
    rw [h.libc, hblocks, List.map_append, List.map_cons,
      List.eraseP_append_right _ (by simpa using hnot), List.eraseP_cons_of_pos (by simp),
      List.map_append]
  hooked := h.hooked
  lies := fun c hc => h.lies_of_mem hblocks hps hc
  apart := by
    have hapart := h.apart
    rw [hblocks] at hapart
    exact hapart.sublist ((List.sublist_cons_self b l₂).append_left l₁)

/-- A block handed out. -/
theorem malloc (h : RepresentsHeap memList s t) (hsize : sizeofMemStruct + size + 4 < 2 ^ 31)
    (hplace : MemHeap.Place file line) (hlist : m ≠ memList)
    (hm : ∀ b ∈ t.blocks, (MemBlock.new m size file line).Apart b) :
    ∃ s', MemTool.libMemMalloc memList s size file line (some m) =
        .ok (some (m + sizeofMemStruct), s') ∧
      RepresentsHeap memList s' (t.malloc size file line (some m)).2 := by
  have hfresh : m ∉ memList :: t.blocks.map MemBlock.base := by
    rw [List.mem_cons, List.mem_map]
    rintro (rfl | ⟨b, hb, rfl⟩)
    · exact hlist rfl
    · exact (hm b hb).base_ne rfl
  obtain ⟨L, hmalloc, hring⟩ := libMemMalloc_some file line h.memOn h.ring hfresh hsize
  have hlen := MemBlock.len_new m size file line
  refine ⟨_, hmalloc, h.memOn, ?_, ?_, h.hooked, ?_, ?_⟩
  · simpa [MemHeap.malloc, MemBlock.new] using hring
  · simp only [MemHeap.malloc, List.map_append, List.map_singleton, hlen, h.libc]
    rfl
  · intro b hb
    rcases List.mem_append.1 hb with hb | hb
    · -- the new block is apart from the old ones, and all writes are to it
      apply (h.lies b hb).of_apart
      intro p hp
      have hin : m ≤ p.off ∧ p.off + p.bytes.length ≤ m + (sizeofMemStruct + size + 4) := by
        revert p
        simp only [MemBlock.newPatches, List.forall_mem_cons, length_intBytes, length_strncpyBytes,
          List.length_replicate, MemStruct.moduleId, MemStruct.magic, sizeofMemStruct,
          MemStruct.size, MemStruct.line, MemStruct.file, MAX_FILE_COMPILE_PATH]
        refine ⟨by omega, by omega, by omega, by omega, by omega, by omega, by omega, by simp⟩
      have hapart := hm b hb
      rw [MemBlock.Apart, hlen] at hapart
      have hbase : (MemBlock.new m size file line).base = m := rfl
      omega
    · rw [List.mem_singleton.1 hb]
      exact MemBlock.lies_new hsize hplace s.mem
  · rw [MemHeap.malloc, List.pairwise_append]
    refine ⟨h.apart, List.pairwise_singleton .., ?_⟩
    intro b hb c hc
    rw [List.mem_singleton.1 hc]
    exact (hm b hb).symm

theorem touchPatches_in (b : MemBlock) (file : CString) (line : ℕ) :
    ∀ p ∈ b.touchPatches file line, b.base ≤ p.off ∧ p.off + p.bytes.length ≤ b.base + b.len := by
  simp only [MemBlock.touchPatches, List.forall_mem_cons, length_intBytes, length_strncpyBytes,
    MemBlock.len, sizeofMemStruct, MemStruct.line, MemStruct.file, MAX_FILE_COMPILE_PATH]
  refine ⟨by omega, by omega, by simp⟩

/-- A block given back, or refused. -/
theorem free (h : RepresentsHeap memList s t) (hplace : MemHeap.Place file line) {ptr : ℕ}
    (hptr : ptr = 0 ∨ ∃ b ∈ t.blocks, b.ptr = ptr) :
    RepresentsHeap memList (MemTool.libMemFree s ptr file line) (t.free ptr file line) := by
  cases hfind : t.find ptr with
  | none =>
    have hnull : ptr = 0 := hptr.resolve_right fun ⟨b, hb, hbptr⟩ => by
      simpa [hbptr] using List.find?_eq_none.1 hfind b hb
    have hsame : MemTool.libMemFree s ptr file line = s := by
      rw [MemTool.libMemFree, if_neg (by simp [h.memOn]), if_pos hnull]
    rw [hsame, MemHeap.free, hfind]
    exact h
  | some b =>
    obtain ⟨rfl, l₁, l₂, hblocks, hl₁⟩ := MemHeap.find_eq_some hfind
    have hb : b.Lies s.mem := h.lies b (by rw [hblocks]; simp)
    rw [libMemFree_eq h.memOn hb hplace, MemHeap.free, hfind]
    show RepresentsHeap _ _ (if _ then _ else _)
    split
    · exact h.fault _ _
    · split
      · -- the structure names the place of the call that was refused
        have hmap : (t.blocks.map fun c => if c.ptr = b.ptr then c.touch file line else c) =
            l₁ ++ b.touch file line :: l₂ := by
          rw [hblocks, map_of_fixed b fun c hc => if_neg (h.ptr_ne_of_mem hblocks hc), if_pos rfl]
        have htouched := h.replace hblocks (b.touch file line) rfl rfl
          (touchPatches_in b file line) (hb.touch hplace)
        rw [hmap]
        exact htouched.fault _ _
      · have herase : t.blocks.eraseP (·.ptr = b.ptr) = l₁ ++ l₂ := by
          rw [hblocks, List.eraseP_append_right _ (by simpa using hl₁),
            List.eraseP_cons_of_pos (by simp)]
        rw [herase]
        exact h.remove hblocks (touchPatches_in b file line)

/-- A block checked. -/
theorem check (h : RepresentsHeap memList s t) (hb : b ∈ t.blocks) :
    (MemTool.libMemCheck s b.ptr).1 = (t.check b.ptr).1 ∧
      RepresentsHeap memList (MemTool.libMemCheck s b.ptr).2 (t.check b.ptr).2 := by
  obtain ⟨c, hfind⟩ : ∃ c, t.find b.ptr = some c := by
    cases hfind : t.find b.ptr with
    | none => exact absurd (List.find?_eq_none.1 hfind b hb) (by simp)
    | some c => exact ⟨c, rfl⟩
  obtain ⟨hptr, l₁, l₂, hblocks, -⟩ := MemHeap.find_eq_some hfind
  have hc : c.Lies s.mem := h.lies c (by rw [hblocks]; simp)
  rw [← hptr, libMemCheck_eq h.memOn hc, MemHeap.check, hptr, hfind]
  by_cases hfront : c.FrontOk
  · by_cases hback : c.BackOk
    · simp only [hfront, hback, not_true_eq_false, if_false]
      exact ⟨trivial, h⟩
    · simp only [hfront, hback, not_true_eq_false, not_false_eq_true, if_false, if_true]
      exact ⟨trivial, h.fault _ _⟩
  · simp only [hfront, not_false_eq_true, if_true]
    exact ⟨trivial, h.fault _ _⟩

/-- Between two rounds of the loop in `lib_mem_show`: the lines of the nodes before are printed. -/
def MemShowRest (s : MemTool) (t : MemHeap) (rest : List ℕ) (u : MemTool × List MemLine) : Prop :=
  ∃ front, t.blocks.map MemBlock.base = front ++ rest ∧ u = (s, front.map (Gendo.memLine s.mem))

/-- The lines that are printed. -/
theorem memShow (h : RepresentsHeap memList s t) :
    MemTool.libMemShow memList (s.libc.length + 1) s = .ok (t.blocks.map MemBlock.memLine) := by
  have hlines : (t.blocks.map MemBlock.base).map (memLine s.mem) =
      t.blocks.map MemBlock.memLine := by
    rw [List.map_map]
    exact List.map_congr_left fun b hb => (h.lies b hb).memLine
  have hrounds : (t.blocks.map MemBlock.base).length < s.libc.length + 1 := by
    rw [h.libc, List.length_map, List.length_map]
    exact Nat.lt_succ_self _
  -- the two premises of the rule for the loop
  have hnil : ∀ u, MemShowRest s t [] u → u = (s, t.blocks.map MemBlock.memLine) := by
    rintro u ⟨front, hfront, rfl⟩
    rw [List.append_nil] at hfront
    rw [← hlines, hfront]
  have hcons : ∀ x rest u, MemShowRest s t (x :: rest) u → x ≠ memList ∧
      ∃ left v, memShowItem x u = .ok (left, v) ∧
        (left = true → v = (s, t.blocks.map MemBlock.memLine)) ∧
        (left = false → v.1.links.next x = some (rest.headD memList) ∧ MemShowRest s t rest v) := by
    rintro x rest u ⟨front, hfront, rfl⟩
    have hring := h.ring
    rw [hfront] at hring
    have hx : x ≠ memList := fun hx => hring.head_notMem (by rw [← hx]; simp)
    refine ⟨hx, false, _, rfl, Bool.noConfusion, fun _ => ?_⟩
    refine ⟨hring.next_eq, front ++ [x], by rw [hfront]; simp, ?_⟩
    rw [List.map_append]
    rfl
  have hstart : MemShowRest s t (t.blocks.map MemBlock.base) (s, []) := ⟨[], rfl, rfl⟩
  obtain ⟨u, hrun, rfl⟩ := libListForEach_rule hnil hcons hstart hrounds
  rw [MemTool.libMemShow, h.ring.next_head, hrun]
  rfl

/-- A write in the window of a block. -/
theorem store (h : RepresentsHeap memList s t) {a : ℕ} {bs : List UInt8}
    (hb : ∃ b ∈ t.blocks, b.Holds a bs.length) :
    RepresentsHeap memList (s.write a bs) { t with blocks := t.blocks.map (·.store a bs) } := by
  obtain ⟨b, hb, hin⟩ := hb
  obtain ⟨l₁, l₂, hblocks⟩ := List.append_of_mem hb
  -- the blocks are apart, so that the bytes lie in the window of one of them only
  have hothers : ∀ c ∈ l₁ ++ l₂, c.store a bs = c := fun c hc =>
    MemBlock.store_of_not_holds (hin.not_of_apart (h.apart_of_mem hblocks hc))
  have hmap : t.blocks.map (·.store a bs) = l₁ ++ b.store a bs :: l₂ := by
    rw [hblocks, map_of_fixed b hothers]
  rw [hmap]
  have hpatch : ∀ p ∈ [Patch.mk a bs],
      b.base ≤ p.off ∧ p.off + p.bytes.length ≤ b.base + b.len := by
    intro p hp
    rw [List.mem_singleton.1 hp]
    exact ⟨(Nat.le_add_right _ _).trans hin.1, hin.2⟩
  exact h.replace hblocks _ (b.base_store a bs) (b.len_store a bs) hpatch ((h.lies b hb).store hin)

/-- A read in the window of a block. -/
theorem load (h : RepresentsHeap memList s t) {a n : ℕ} (hb : ∃ b ∈ t.blocks, b.Holds a n) :
    read s.mem a n = t.load a n := by
  obtain ⟨b, hb, hin⟩ := hb
  obtain ⟨c, hfind⟩ : ∃ c, t.blocks.find? (·.Holds a n) = some c := by
    cases hfind : t.blocks.find? (·.Holds a n) with
    | none => exact absurd (List.find?_eq_none.1 hfind b hb) (by simpa using hin)
    | some c => exact ⟨c, rfl⟩
  have hc : c.Holds a n := by simpa using List.find?_some hfind
  have hlies := h.lies c (List.mem_of_find?_eq_some hfind)
  have hlo := hc.1
  have hhi := hc.2
  have hlen := c.start_add_length
  rw [MemHeap.load, hfind]
  show _ = c.load a n
  rw [MemBlock.load, ← hlies.window, drop_read _ _ (by omega), take_read _ _ (by omega),
    Nat.add_sub_cancel' hlo]

end RepresentsHeap

/-! ## Runs -/

/-- The heap before the first call. -/
def noBlocks : MemHeap := ⟨[], []⟩

theorem representsHeap_memInit (memList : ℕ) (L : Links ℕ) (mem : Mem) :
    RepresentsHeap memList (memInit memList L mem true) noBlocks where
  memOn := rfl
  ring := ring_initLibList L memList
  libc := rfl
  hooked := rfl
  lies := by simp [noBlocks]
  apart := .nil

/-- The tool answers as the heap that it holds, and goes on to hold it. -/
theorem RepresentsHeap.memCall {memList : ℕ} {s : MemTool} {t : MemHeap}
    (h : RepresentsHeap memList s t) {c : MemCall} (hc : MemHeap.Allowed memList t c) :
    ∃ s', memCall memList s c = .ok ((t.call c).1, s') ∧
      RepresentsHeap memList s' (t.call c).2 := by
  cases c with
  | malloc size file line answer =>
    obtain ⟨hsize, hplace, m, rfl, hlist, hm⟩ := hc
    obtain ⟨s', hmalloc, hrep⟩ := h.malloc hsize hplace hlist hm
    refine ⟨s', ?_, hrep⟩
    rw [Gendo.memCall, hmalloc]
    rfl
  | free ptr file line => exact ⟨_, rfl, h.free hc.1 hc.2⟩
  | check ptr =>
    obtain ⟨b, hb, rfl⟩ := hc
    obtain ⟨hcode, hrep⟩ := h.check hb
    refine ⟨_, ?_, hrep⟩
    rw [Gendo.memCall, hcode]
    rfl
  | memShow =>
    refine ⟨s, ?_, h⟩
    rw [Gendo.memCall, h.memShow]
    rfl
  | store a bs => exact ⟨_, rfl, h.store hc⟩
  | load a n =>
    refine ⟨s, ?_, h⟩
    rw [Gendo.memCall, h.load hc]
    rfl

/-- Whatever calls are made, in whatever order, as long as they are what the tool expects, the tool
never stops, answers as the heap does, and ends with `mem_list` and memory as the heap says. -/
theorem memTool_refines (memList : ℕ) (L : Links ℕ) (mem : Mem) {calls : List MemCall}
    (h : Guarded (MemHeap.Allowed memList) noBlocks (runOf MemHeap.next noBlocks calls)) :
    ∃ s, tryAnswers (memCall memList) (memInit memList L mem true) calls =
        .ok ((answers MemHeap.call noBlocks calls).1, s) ∧
      RepresentsHeap memList s (answers MemHeap.call noBlocks calls).2 :=
  tryAnswers_eq_of_simulation (fun _ _ _ hrep hc => hrep.memCall hc)
    (representsHeap_memInit memList L mem) h

/-- A write that goes one byte too far in the first of two blocks. -/
def overrunCalls : List MemCall :=
  [.malloc 4 (.ofBytes [97]) 10 (some 1000), .malloc 2 (.ofBytes [98]) 20 (some 2000),
    .store 1288 [1, 2, 3, 4, 5], .check 1288, .free 1288 (.ofBytes [97]) 30,
    .free 2288 (.ofBytes [97]) 31, .load 1288 4, .memShow]

theorem allowed_overrunCalls :
    Guarded (MemHeap.Allowed 64) noBlocks (runOf MemHeap.next noBlocks overrunCalls) := by
  decide +kernel

theorem memTool_refines_overrun :
    ∃ s, tryAnswers (memCall 64) (memInit 64 ⟨fun _ => none, fun _ => none⟩ (fun _ => 7) true)
        overrunCalls = .ok ([.pointer (some 1288), .pointer (some 2288), .done, .code ERROR, .done,
          .done, .bytes [1, 2, 3, 4], .lines [⟨0, 8, 1288, .ofBytes [97], 30, true⟩]], s) ∧
      s.hooked = [(MEM_FREE_INVALID2, 1000), (MEM_FREE_INVALID2, 1000)] := by
  obtain ⟨s, hrun, hrep⟩ := memTool_refines 64 ⟨fun _ => none, fun _ => none⟩ (fun _ => 7)
    allowed_overrunCalls
  have hanswers : (answers MemHeap.call noBlocks overrunCalls).1 =
      [.pointer (some 1288), .pointer (some 2288), .done, .code ERROR, .done, .done,
        .bytes [1, 2, 3, 4], .lines [⟨0, 8, 1288, .ofBytes [97], 30, true⟩]] := by
    decide +kernel
  have hfaults : (answers MemHeap.call noBlocks overrunCalls).2.faults =
      [(MEM_FREE_INVALID2, 1000), (MEM_FREE_INVALID2, 1000)] := by
    decide +kernel
  exact ⟨s, hrun.trans (by rw [hanswers]), hrep.hooked.trans hfaults⟩

end Gendo
