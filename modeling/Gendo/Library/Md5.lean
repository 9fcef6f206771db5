import Gendo.Library.ByteMemory
import Mathlib.Data.UInt
import Mathlib.Data.Vector.Basic

/-!
# MD5

The digest as a library computes it, with a context that takes the message in pieces. A context
holds the state, the number of bytes so far and the bytes that do not fill a block. Pieces are taken
like the whole message (`foldl_update`). `final` leaves the digest in the context and the number of
bytes as it is; it is not a context of any message until it is initialised again.
-/

namespace Md5

open ByteMemory (leBytes leNat length_leBytes)

/-- The state between two blocks. -/
structure State where
  a : UInt32
  b : UInt32
  c : UInt32
  d : UInt32
  deriving DecidableEq, Repr

/-- A step's constant. -/
def sines : List UInt32 := [
    0xd76aa478, 0xe8c7b756, 0x242070db, 0xc1bdceee,
    0xf57c0faf, 0x4787c62a, 0xa8304613, 0xfd469501,
    0x698098d8, 0x8b44f7af, 0xffff5bb1, 0x895cd7be,
    0x6b901122, 0xfd987193, 0xa679438e, 0x49b40821,
    0xf61e2562, 0xc040b340, 0x265e5a51, 0xe9b6c7aa,
    0xd62f105d, 0x02441453, 0xd8a1e681, 0xe7d3fbc8,
    0x21e1cde6, 0xc33707d6, 0xf4d50d87, 0x455a14ed,
    0xa9e3e905, 0xfcefa3f8, 0x676f02d9, 0x8d2a4c8a,
    0xfffa3942, 0x8771f681, 0x6d9d6122, 0xfde5380c,
    0xa4beea44, 0x4bdecfa9, 0xf6bb4b60, 0xbebfbc70,
    0x289b7ec6, 0xeaa127fa, 0xd4ef3085, 0x04881d05,
    0xd9d4d039, 0xe6db99e5, 0x1fa27cf8, 0xc4ac5665,
    0xf4292244, 0x432aff97, 0xab9423a7, 0xfc93a039,
    0x655b59c3, 0x8f0ccc92, 0xffeff47d, 0x85845dd1,
    0x6fa87e4f, 0xfe2ce6e0, 0xa3014314, 0x4e0811a1,
    0xf7537e82, 0xbd3af235, 0x2ad7d2bb, 0xeb86d391]

/-- How far a step rotates. -/
def shifts : List (List ℕ) := [[7, 12, 17, 22], [5, 9, 14, 20], [4, 11, 16, 23], [6, 10, 15, 21]]

def rotateLeft (x : UInt32) (n : ℕ) : UInt32 :=
  x <<< UInt32.ofNat n ||| x >>> UInt32.ofNat (32 - n)

/-- What a step mixes, and the word of the block that it takes. -/
def mix (s : State) (i : ℕ) : UInt32 × ℕ :=
  match i / 16 with
  | 0 => (s.b &&& s.c ||| ~~~s.b &&& s.d, i)
  | 1 => (s.d &&& s.b ||| ~~~s.d &&& s.c, (5 * i + 1) % 16)
  | 2 => (s.b ^^^ s.c ^^^ s.d, (3 * i + 5) % 16)
  | _ => (s.c ^^^ (s.b ||| ~~~s.d), 7 * i % 16)

/-- One of the 64 steps. -/
def step (words : List UInt32) (s : State) (i : ℕ) : State :=
  let (f, word) := mix s i
  let sum := s.a + f + sines.getD i 0 + words.getD word 0
  ⟨s.d, s.b + rotateLeft sum ((shifts.getD (i / 16) []).getD (i % 4) 0), s.b, s.c⟩

/-- The words of a block. -/
def blockWords (block : List UInt8) : List UInt32 :=
  (List.range 16).map fun i => UInt32.ofNat (leNat ((block.drop (4 * i)).take 4))

/-- The state after a block. -/
def compress (s : State) (block : List UInt8) : State :=
  let t := (List.range 64).foldl (step (blockWords block)) s
  ⟨s.a + t.a, s.b + t.b, s.c + t.c, s.d + t.d⟩

/-- The context of a message. -/
structure Ctx where
  state : State
  length : ℕ
  buffer : List UInt8
  deriving DecidableEq, Repr

/-- `MD5_Init`. -/
def init : Ctx := ⟨⟨0x67452301, 0xefcdab89, 0x98badcfe, 0x10325476⟩, 0, []⟩

/-- The next byte of the message. -/
def absorb (ctx : Ctx) (byte : UInt8) : Ctx :=
  let buffer := ctx.buffer ++ [byte]
  if buffer.length = 64 then ⟨compress ctx.state buffer, ctx.length + 1, []⟩
  else ⟨ctx.state, ctx.length + 1, buffer⟩

/-- `MD5_Update`. -/
def update (ctx : Ctx) (bytes : List UInt8) : Ctx := bytes.foldl absorb ctx

/-- What is put behind a message: a bit, zeros up to the last 8 bytes of a block, and the number of
bits. -/
def padding (ctx : Ctx) : List UInt8 :=
  0x80 :: (List.replicate ((119 - ctx.buffer.length) % 64) 0 ++ leBytes 8 (8 * ctx.length))

/-- The bytes of a state. -/
def digest (s : State) : List.Vector UInt8 16 :=
  ⟨leBytes 4 s.a.toNat ++ leBytes 4 s.b.toNat ++ leBytes 4 s.c.toNat ++ leBytes 4 s.d.toNat,
    by simp⟩

/-- `MD5_Final`: the digest, and the context that it leaves. -/
def final (ctx : Ctx) : List.Vector UInt8 16 × Ctx :=
  let state := (update ctx (padding ctx)).state
  (digest state, ⟨state, ctx.length, []⟩)

/-- The digest of a message. -/
def md5 (message : List UInt8) : List.Vector UInt8 16 := (final (update init message)).1

/-- A digit in lower case. -/
def lowerDigit (n : UInt8) : UInt8 := if n < 10 then 48 + n else 87 + n

/-- The two digits of a byte. -/
def lowerHex (b : UInt8) : List UInt8 := [lowerDigit (b / 16), lowerDigit (b % 16)]

/-- The digits of the digest of a message. -/
def hexDigest (message : List UInt8) : List UInt8 := (md5 message).toList.flatMap lowerHex

/-- A message in pieces is taken like the whole. -/
theorem foldl_update (ctx : Ctx) (pieces : List (List UInt8)) :
    pieces.foldl update ctx = update ctx pieces.flatten := by
  induction pieces generalizing ctx with
  | nil => rfl
  | cons piece pieces ih =>
    rw [List.foldl_cons, ih, List.flatten_cons, update, update, update, List.foldl_append]

theorem update_append (ctx : Ctx) (front back : List UInt8) :
    update ctx (front ++ back) = update (update ctx front) back := List.foldl_append

@[simp]
theorem length_update (ctx : Ctx) (bytes : List UInt8) :
    (update ctx bytes).length = ctx.length + bytes.length := by
  induction bytes generalizing ctx with
  | nil => rfl
  | cons byte bytes ih =>
    have habsorb : (absorb ctx byte).length = ctx.length + 1 := by
      simp only [absorb]
      split <;> rfl
    rw [update, List.foldl_cons, ← update, ih, habsorb, List.length_cons]
    omega

/-- Bytes that do not fill the block wait in the buffer. -/
theorem update_of_lt {ctx : Ctx} {bytes : List UInt8}
    (h : ctx.buffer.length + bytes.length < 64) :
    update ctx bytes = ⟨ctx.state, ctx.length + bytes.length, ctx.buffer ++ bytes⟩ := by
  induction bytes generalizing ctx with
  | nil => simp [update]
  | cons byte bytes ih =>
    rw [List.length_cons] at h
    have hlt : (ctx.buffer ++ [byte]).length ≠ 64 := by
      simp
      omega
    have habsorb : absorb ctx byte = ⟨ctx.state, ctx.length + 1, ctx.buffer ++ [byte]⟩ :=
      if_neg hlt
    have hrest : (absorb ctx byte).buffer.length + bytes.length < 64 := by
      simp [habsorb]
      omega
    rw [update, List.foldl_cons, ← update, ih hrest, habsorb]
    simp [Nat.add_assoc, Nat.add_comm 1]

/-- Bytes that just fill the block are compressed with those of the buffer. -/
theorem update_of_eq {ctx : Ctx} {bytes : List UInt8} (hne : bytes ≠ [])
    (h : ctx.buffer.length + bytes.length = 64) :
    update ctx bytes =
      ⟨compress ctx.state (ctx.buffer ++ bytes), ctx.length + bytes.length, []⟩ := by
  obtain ⟨front, last, rfl⟩ : ∃ front last, bytes = front ++ [last] :=
    ⟨_, _, (List.dropLast_append_getLast hne).symm⟩
  rw [List.length_append, List.length_singleton] at h
  have hfull : (ctx.buffer ++ front ++ [last]).length = 64 := by
    simp
    omega
  have hfront : update ctx front = ⟨ctx.state, ctx.length + front.length, ctx.buffer ++ front⟩ :=
    update_of_lt (by omega)
  rw [update_append, hfront]
  simp only [update, List.foldl_cons, List.foldl_nil, absorb, if_pos hfull]
  simp [Nat.add_assoc]

-- the digest of the letters "abc"
example : (md5 [97, 98, 99]).toList =
    [0x90, 0x01, 0x50, 0x98, 0x3c, 0xd2, 0x4f, 0xb0,
      0xd6, 0x96, 0x3f, 0x7d, 0x28, 0xe1, 0x7f, 0x72] := by
  decide +kernel

end Md5
