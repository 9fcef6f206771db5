import Gendo.Library.CLayout
import Gendo.Library.StepSystem
import Gendo.Library.Window
import Gendo.Server.LibList

/-!
# The memory tool of `lib-mem.c`

The server allocates through `lib_mem_malloc`, which puts a `struct mem_struct` in front of the
memory it hands out and a guard word behind it, and links all of it into `mem_list`. The magic
number of the structure is its last field, so that the memory of the caller lies between two guard
words.

Memory is bytes, but for the link fields of the list nodes, which are `Links`. The answers of the
allocator below, which is libc's, are part of the calls.
-/

namespace Gendo

open ByteMemory CLayout LinkedList StepSystem

/-! ## Constants and layout -/

/-- `MEM_MAGIC` -/
def MEM_MAGIC : ℕ := 0xABCDE987

/-- `MEM_FREE_INVALID1` -/
def MEM_FREE_INVALID1 : ℕ := 2

/-- `MEM_FREE_INVALID2` -/
def MEM_FREE_INVALID2 : ℕ := 3

/-- `MAX_FILE_COMPILE_PATH` -/
def MAX_FILE_COMPILE_PATH : ℕ := 256

/-- `struct lib_list`: two pointers. -/
def libListT : CType := .struct (.ofList [.int 8, .int 8])

/-- `struct mem_struct`: node, size, module, file, line and magic. -/
def memStructT : CType :=
  .struct (.ofList [libListT, .int 4, .int 4, .chars MAX_FILE_COMPILE_PATH, .int 4, .int 4])

/-- `sizeof(struct mem_struct)` -/
def sizeofMemStruct : ℕ := 288

namespace MemStruct

/-! Offsets of the fields. The node is at 0. -/

def size : ℕ := 16

def moduleId : ℕ := 20

def file : ℕ := 24

def line : ℕ := 280

def magic : ℕ := 284

end MemStruct

theorem memStructT_layout :
    memStructT.size (.packed 8) = sizeofMemStruct ∧
      memStructT.leaves (.packed 8) 0 = [⟨0, 8⟩, ⟨8, 8⟩, ⟨MemStruct.size, 4⟩,
        ⟨MemStruct.moduleId, 4⟩, ⟨MemStruct.file, MAX_FILE_COMPILE_PATH⟩, ⟨MemStruct.line, 4⟩,
        ⟨MemStruct.magic, 4⟩] := by
  decide

/-! ## Numbers in memory -/

/-- The `unsigned int` at an address. -/
def uintAt (m : Mem) (a : ℕ) : ℕ := leNat (read m a 4)

/-- The `int` there. -/
def intAt (m : Mem) (a : ℕ) : ℤ := Int.bmod (uintAt m a) (2 ^ 32)

/-- The bytes of an `int`. -/
def intBytes (v : ℤ) : List UInt8 := leBytes 4 (v % 2 ^ 32).toNat

/-- What `strncpy` writes: the string cut off after `n` bytes, or filled up with NUL. -/
def strncpyBytes (src : CString) (n : ℕ) : List UInt8 := (src.1 ++ List.replicate n 0).take n

@[simp]
theorem length_intBytes (v : ℤ) : (intBytes v).length = 4 := length_leBytes _ _

@[simp]
theorem length_strncpyBytes (src : CString) (n : ℕ) : (strncpyBytes src n).length = n := by
  simp [strncpyBytes]

theorem uintAt_eq_iff {m : Mem} {a v : ℕ} (hv : v < 2 ^ 32) :
    uintAt m a = v ↔ read m a 4 = intBytes v := by
  have hbytes : intBytes v = leBytes 4 v := by
    rw [intBytes]
    congr 1
    omega
  rw [hbytes]
  constructor
  · rintro rfl
    rw [uintAt]
    conv_lhs => rw [← leBytes_leNat (read m a 4), length_read]
  · intro h
    rw [uintAt, h, leNat_leBytes]
    exact Nat.mod_eq_of_lt hv

theorem intAt_of_read {m : Mem} {a : ℕ} {v : ℤ} (h : read m a 4 = intBytes v)
    (hlo : -2 ^ 31 ≤ v) (hhi : v < 2 ^ 31) : intAt m a = v := by
  have hnonneg : 0 ≤ v % 2 ^ 32 := Int.emod_nonneg v (by norm_num)
  have hlt : (v % 2 ^ 32).toNat < 256 ^ 4 := by omega
  have huint : uintAt m a = (v % 2 ^ 32).toNat := by
    rw [uintAt, h, intBytes, leNat_leBytes, Nat.mod_eq_of_lt hlt]
  have hcast : ((v % 2 ^ 32).toNat : ℤ) = v % (2 ^ 32 : ℕ) := by
    rw [Int.toNat_of_nonneg hnonneg]
    norm_num
  calc
    intAt m a = Int.bmod (v % (2 ^ 32 : ℕ)) (2 ^ 32) := by
      unfold intAt
      rw [huint, hcast]
    _ = Int.bmod v (2 ^ 32) := Int.emod_bmod v _
    _ = v := Int.bmod_eq_of_le (by norm_num; omega) (by norm_num; omega)

/-- A string that leaves room for its NUL is read back. -/
theorem read_strncpyBytes {m : Mem} {a n : ℕ} {src : CString}
    (h : read m a n = strncpyBytes src n) (hlen : src.1.length < n) : CString.read m a n = src := by
  obtain ⟨k, rfl⟩ := Nat.exists_eq_add_of_lt hlen
  have hbytes : strncpyBytes src (src.1.length + k + 1) = src.1 ++ List.replicate (k + 1) 0 := by
    rw [strncpyBytes, List.take_append, List.take_of_length_le (by omega), List.take_replicate]
    congr 2
    omega
  ext1
  rw [CString.read, h, hbytes, CString.ofBytes_append_of_notMem src.2]
  exact List.append_nil _

/-! ## The tool -/

/-- The state of the tool and the memory that it works on. -/
structure MemTool where
  /-- `mem_on` -/
  memOn : Bool
  /-- The `node` fields. -/
  links : Links ℕ
  /-- All other bytes. -/
  mem : Mem
  /-- What libc has handed out: where, and how many bytes. -/
  libc : List (ℕ × ℕ)
  /-- The calls of `mem_hook`, with code and argument. -/
  hooked : List (ℕ × ℕ)

namespace MemTool

def write (s : MemTool) (a : ℕ) (bs : List UInt8) : MemTool :=
  { s with mem := (Patch.mk a bs).apply s.mem }

def setInt (s : MemTool) (a : ℕ) (v : ℤ) : MemTool := s.write a (intBytes v)

/-- `memset` of new memory to zero. A node at its start is all zeros, too. -/
def memset (s : MemTool) (a len : ℕ) : MemTool :=
  { s.write a (List.replicate len 0) with links := (s.links.setNext a none).setPrev a none }

def memHook (s : MemTool) (code arg : ℕ) : MemTool :=
  { s with hooked := s.hooked ++ [(code, arg)] }

/-- libc has handed out `len` bytes. -/
def taken (s : MemTool) (a len : ℕ) : MemTool := { s with libc := s.libc ++ [(a, len)] }

/-- `free` of libc -/
def release (s : MemTool) (a : ℕ) : MemTool := { s with libc := s.libc.eraseP (·.1 = a) }

end MemTool

/-- `len` of a block: an `int`. -/
def memLen (size : ℕ) : ℤ := Int.bmod (sizeofMemStruct + size + 4) (2 ^ 32)

/-- `lib_mem_malloc`. The last argument is the answer of libc's `malloc`, and `memList` where
`mem_list` is. -/
def MemTool.libMemMalloc (memList : ℕ) (s : MemTool) (size : ℕ) (file : CString) (line : ℕ) :
    Option ℕ → Except Stop (Option ℕ × MemTool)
  | none =>
    if !s.memOn then
      .ok (none, s)
    else
      -- `mem_hook` gets NULL for the structure, and `mem_default_hook` and `ras_mem_hook` read it
      .error .nullPointer
  | some m =>
    if !s.memOn then
      .ok (some m, (s.taken m size).memset m size)
    else do
      -- as the argument of `malloc` and `memset` the length is a `size_t`
      let len := (memLen size % 2 ^ 64).toNat
      let s := (s.taken m len).memset m len
      let ptr := m + sizeofMemStruct
      let magicp := ptr + size
      let s := s.setInt (m + MemStruct.size) (memLen size)
      let s := s.setInt (m + MemStruct.line) line
      let s := s.write (m + MemStruct.file) (strncpyBytes file MAX_FILE_COMPILE_PATH)
      let s := s.setInt (m + MemStruct.moduleId) 0
      let s := s.setInt (m + MemStruct.magic) MEM_MAGIC
      let s := s.setInt magicp MEM_MAGIC
      let links ← libListAddTail s.links m memList
      return (some ptr, { s with links })

/-- `lib_mem_free`. NULL is 0. -/
def MemTool.libMemFree (s : MemTool) (ptr : ℕ) (file : CString) (line : ℕ) : MemTool :=
  if !s.memOn then
    -- NULL is only logged
    if ptr ≠ 0 then s.release ptr else s
  else if ptr = 0 then
    s
  else
    let m := ptr - sizeofMemStruct
    if uintAt s.mem (m + MemStruct.magic) ≠ MEM_MAGIC then
      s.memHook MEM_FREE_INVALID1 m
    else
      let len := intAt s.mem (m + MemStruct.size)
      let s := s.write (m + MemStruct.file) (strncpyBytes file MAX_FILE_COMPILE_PATH)
      let s := s.setInt (m + MemStruct.line) line
      let magicp := (m + len - 4).toNat
      if uintAt s.mem magicp ≠ MEM_MAGIC then
        s.memHook MEM_FREE_INVALID2 m
      else
        let s := { s with links := libListDel s.links m }
        s.release m

/-- `lib_mem_check` -/
def MemTool.libMemCheck (s : MemTool) (ptr : ℕ) : ℤ × MemTool :=
  if !s.memOn then
    (OK, s)
  else
    let m := ptr - sizeofMemStruct
    if uintAt s.mem (m + MemStruct.magic) ≠ MEM_MAGIC then
      (ERROR, s.memHook MEM_FREE_INVALID1 m)
    else
      let len := intAt s.mem (m + MemStruct.size)
      let magicp := (m + len - 4).toNat
      if uintAt s.mem magicp ≠ MEM_MAGIC then
        (ERROR, s.memHook MEM_FREE_INVALID2 m)
      else
        (OK, s)

/-- A line of `lib_mem_show`. -/
structure MemLine where
  moduleId : ℤ
  size : ℤ
  ptr : ℕ
  file : CString
  line : ℤ
  ok : Bool
  deriving DecidableEq

/-- The line of the block at `m`. -/
def memLine (mem : Mem) (m : ℕ) : MemLine where
  moduleId := intAt mem (m + MemStruct.moduleId)
  -- the guard word behind the block is counted, too
  size := intAt mem (m + MemStruct.size) - sizeofMemStruct
  ptr := m + sizeofMemStruct
  file := CString.read mem (m + MemStruct.file) MAX_FILE_COMPILE_PATH
  line := intAt mem (m + MemStruct.line)
  ok := uintAt mem (m + MemStruct.magic) = MEM_MAGIC

/-- The body of the loop in `lib_mem_show`. -/
def memShowItem (m : ℕ) (u : MemTool × List MemLine) :
    Except Stop (Bool × (MemTool × List MemLine)) :=
  .ok (false, (u.1, u.2 ++ [memLine u.1.mem m]))

/-- `lib_mem_show` -/
def MemTool.libMemShow (memList rounds : ℕ) (s : MemTool) : Except Stop (List MemLine) :=
  Prod.snd <$> libListForEach (fun u => u.1.links) memList memShowItem rounds
    (s.links.next memList) (s, [])

/-- The tool after `mem_init`, with the list as `LIB_LIST_HEAD` sets it up. -/
def memInit (memList : ℕ) (L : Links ℕ) (mem : Mem) (on : Bool) : MemTool where
  memOn := on
  links := initLibList L memList
  mem := mem
  libc := []
  hooked := []

/-! ## Calls -/

/-- What the server does with memory. -/
inductive MemCall
  | malloc (size : ℕ) (file : CString) (line : ℕ) (answer : Option ℕ)
  | free (ptr : ℕ) (file : CString) (line : ℕ)
  | check (ptr : ℕ)
  | memShow
  /-- The caller's own writes. -/
  | store (a : ℕ) (bs : List UInt8)
  /-- The caller's own reads. -/
  | load (a n : ℕ)

inductive MemAnswer
  | pointer (ptr : Option ℕ)
  | done
  | code (c : ℤ)
  | lines (ls : List MemLine)
  | bytes (bs : List UInt8)
  deriving DecidableEq

/-- A call of the tool, or an access to memory. -/
def memCall (memList : ℕ) (s : MemTool) : MemCall → Except Stop (MemAnswer × MemTool)
  | .malloc size file line answer => do
    let (ptr, s) ← MemTool.libMemMalloc memList s size file line answer
    return (.pointer ptr, s)
  | .free ptr file line => .ok (.done, MemTool.libMemFree s ptr file line)
  | .check ptr => .ok (.code (MemTool.libMemCheck s ptr).1, (MemTool.libMemCheck s ptr).2)
  | .memShow => do
    let ls ← MemTool.libMemShow memList (s.libc.length + 1) s
    return (.lines ls, s)
  | .store a bs => .ok (.done, s.write a bs)
  | .load a n => .ok (.bytes (read s.mem a n), s)

end Gendo
