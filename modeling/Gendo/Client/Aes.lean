import Gendo.Library.Blocks
import Gendo.Library.ByteMemory

/-!
# Buffers in AES and in hexadecimal digits

`RopAES` encrypts a buffer block by block. The last block is filled up with what lies behind the
data in the buffer, and the result has as many bytes as the blocks have: nothing says how many
there were. `EncryptWithHex` writes them as digits, and `DecryptWithHex` goes the other way.

AES itself is a pair of functions on blocks of 16 bytes.
-/

namespace Gendo.Client

open Blocks ByteMemory

/-- A block of AES. -/
abbrev Block : Type := List.Vector UInt8 16

/-- `RopAES`: `AES_encrypt` with `m_enckey`, and `AES_decrypt` with `m_deckey`. -/
structure RopAES where
  aesEncrypt : Block → Block
  aesDecrypt : Block → Block

/-- `AES_decrypt` inverts `AES_encrypt`. -/
def RopAES.Inverts (aes : RopAES) : Prop := ∀ b, aes.aesDecrypt (aes.aesEncrypt b) = b

/-- A permutation of blocks that stands for AES where one is needed: the bits of all bytes are
flipped, and the bytes put in reverse. -/
def RopAES.mirror : RopAES :=
  let flip (b : Block) : Block := ⟨(b.1.map (~~~ ·)).reverse, by simp [b.2]⟩
  ⟨flip, flip⟩

theorem RopAES.inverts_mirror : RopAES.mirror.Inverts := by
  intro b
  have hflip : ((fun x : UInt8 => ~~~x) ∘ fun x => ~~~x) = id := funext fun _ => UInt8.not_not
  apply Subtype.ext
  simp [RopAES.mirror, hflip]

/-- The block of a buffer that starts at `i`. -/
def blockAt (input : Mem) (i : ℕ) : Block := ⟨read input i 16, length_read ..⟩

/-- The loop of `Encrypt` and `Decrypt`, from `i` on: the bytes that it stores. -/
def blockLoop (f : Block → Block) (input : Mem) (len i : ℕ) : List UInt8 :=
  if i < len then (f (blockAt input i)).1 ++ blockLoop f input len (i + 16) else []
termination_by len - i

/-- The return value of a call, and the bytes that it stored. -/
structure BufCall where
  ret : ℤ
  stored : List UInt8
  deriving DecidableEq, Repr

namespace RopAES

/-- `Encrypt`. -/
def encrypt (aes : RopAES) (input : Mem) (len1 len2 : ℕ) : BufCall :=
  if len2 < len1 then ⟨-1, []⟩
  else
    let output := blockLoop aes.aesEncrypt input len1 0
    ⟨output.length, output⟩

/-- `Decrypt`. -/
def decrypt (aes : RopAES) (input : Mem) (len1 len2 : ℕ) : BufCall :=
  if len2 < len1 then ⟨-1, []⟩
  else
    let output := blockLoop aes.aesDecrypt input len1 0
    ⟨output.length, output⟩

end RopAES

/-- What `sprintf` makes of four bits with `%X`. -/
def hexDigit (v : UInt8) : UInt8 := if v < 10 then 48 + v else 55 + v

/-- `A2I`, with `none` for -1. -/
def a2i (a : UInt8) : Option UInt8 :=
  if 48 ≤ a ∧ a ≤ 57 then some (a - 48)
  else if 97 ≤ a ∧ a ≤ 102 then some (a - 87)
  else if 65 ≤ a ∧ a ≤ 70 then some (a - 55)
  else none

/-- The two digits of a byte. -/
def hexByte (b : UInt8) : List UInt8 := [hexDigit (b >>> 4 &&& 0x0F), hexDigit (b &&& 0x0F)]

/-- `Mem2Hex`, or `none` where its assertion fails. Behind the digits there is the NUL of the last
`sprintf`. -/
def mem2Hex (input : List UInt8) (len2 : ℕ) : Option BufCall :=
  if len2 < 2 * input.length then none
  else some ⟨input.length * 2, input.flatMap hexByte⟩

/-- The loop of `Hex2Mem`, from `i` on: the bytes that it stores, unless it meets something that is
not a digit. -/
def hex2MemLoop (input : Mem) (len1 i : ℕ) : Option (List UInt8) :=
  if i < len1 then
    match a2i (input i), a2i (input (i + 1)) with
    | some high, some low =>
      (hex2MemLoop input len1 (i + 2)).map fun output => ((high <<< 4) + low) :: output
    | _, _ => none
  else some []
termination_by len1 - i

/-- `Hex2Mem`. Its assertion cannot fail where it is called. -/
def hex2Mem (input : Mem) (len1 : ℕ) : BufCall :=
  match hex2MemLoop input len1 0 with
  | none => ⟨-1, []⟩
  | some output => ⟨(len1 / 2 : ℕ), output⟩

namespace RopAES

/-- `EncryptWithHex`, or `none` where an assertion fails. -/
def encryptWithHex (aes : RopAES) (input : Mem) (len1 len2 : ℕ) : Option BufCall :=
  let buf := aes.encrypt input len1 (len1 + 16)
  if buf.ret ≤ 0 then some ⟨-1, []⟩ else mem2Hex buf.stored len2

/-- `DecryptWithHex`. -/
def decryptWithHex (aes : RopAES) (input : Mem) (len1 len2 : ℕ) : BufCall :=
  let buf := hex2Mem input len1
  if buf.ret < 0 then ⟨-1, []⟩
  else aes.decrypt (overlay buf.stored fun _ => 0) buf.ret.toNat len2

end RopAES

/-! ## Blocks -/

/-- The number of bytes in the blocks of `len` bytes. -/
def padded (len : ℕ) : ℕ := (len + 15) / 16 * 16

theorem le_padded (len : ℕ) : len ≤ padded len := by
  rw [padded]
  omega

theorem dvd_padded (len : ℕ) : 16 ∣ padded len := Nat.dvd_mul_left 16 _

theorem padded_eq_self_iff {len : ℕ} : padded len = len ↔ 16 ∣ len := by
  rw [padded]
  omega

/-- The loop goes over the blocks that the buffer starts with. -/
theorem blockLoop_eq (f : Block → Block) (input : Mem) (len i : ℕ) :
    blockLoop f input len i = mapBlocks f (read input i (padded (len - i))) := by
  fun_induction blockLoop f input len i with
  | case1 i hlt ih =>
    have hpad : padded (len - i) = 16 + padded (len - (i + 16)) := by
      rw [padded, padded]
      omega
    rw [ih, hpad, read_add]
    exact (mapBlocks_block (by decide) (blockAt input i) _).symm
  | case2 i hge =>
    have hpad : padded (len - i) = 0 := by
      rw [padded]
      omega
    rw [hpad]
    exact (mapBlocks_nil f).symm

theorem length_mapBlocks_read (f : Block → Block) (input : Mem) (len : ℕ) :
    (mapBlocks f (read input 0 (padded len))).length = padded len := by
  rw [length_mapBlocks (by decide) (by rw [length_read]; exact dvd_padded len), length_read]

/-! ## Digits -/

/-- A digit is read back. -/
theorem a2i_hexDigit (b : UInt8) :
    a2i (hexDigit (b >>> 4 &&& 0x0F)) = some (b >>> 4 &&& 0x0F) ∧
      a2i (hexDigit (b &&& 0x0F)) = some (b &&& 0x0F) ∧
      ((b >>> 4 &&& 0x0F) <<< 4) + (b &&& 0x0F) = b := by
  have hall : ∀ n : Fin 256,
      a2i (hexDigit (UInt8.ofNat n >>> 4 &&& 0x0F)) = some (UInt8.ofNat n >>> 4 &&& 0x0F) ∧
        a2i (hexDigit (UInt8.ofNat n &&& 0x0F)) = some (UInt8.ofNat n &&& 0x0F) ∧
        ((UInt8.ofNat n >>> 4 &&& 0x0F) <<< 4) + (UInt8.ofNat n &&& 0x0F) = UInt8.ofNat n := by
    decide +kernel
  have hb := hall ⟨b.toNat, b.toNat_lt⟩
  rwa [UInt8.ofNat_toNat] at hb

/-- The bytes as digits. -/
def hex (bs : List UInt8) : List UInt8 := bs.flatMap hexByte

@[simp]
theorem length_hex (bs : List UInt8) : (hex bs).length = 2 * bs.length := by
  induction bs with
  | nil => rfl
  | cons b bs ih =>
    rw [hex] at ih ⊢
    rw [List.flatMap_cons, List.length_append, ih, List.length_cons]
    simp only [hexByte, List.length_cons, List.length_nil]
    omega

theorem hex_append (bs cs : List UInt8) : hex (bs ++ cs) = hex bs ++ hex cs := by
  rw [hex, List.flatMap_append]
  rfl

/-- Digits are no control characters. -/
theorem lt_of_mem_hex {a : UInt8} {bs : List UInt8} (h : a ∈ hex bs) : 47 < a := by
  obtain ⟨b, -, ha⟩ := List.mem_flatMap.mp h
  have hall : ∀ n : Fin 256, (hexByte (UInt8.ofNat n)).all (fun a => 47 < a) = true := by
    decide +kernel
  have hb := hall ⟨b.toNat, b.toNat_lt⟩
  rw [UInt8.ofNat_toNat, List.all_eq_true] at hb
  exact of_decide_eq_true (hb a ha)

/-- Where the buffer holds the digits of some bytes, these are read. -/
theorem hex2MemLoop_eq {input : Mem} {bs : List UInt8} {i : ℕ}
    (h : read input i (2 * bs.length) = hex bs) :
    hex2MemLoop input (i + 2 * bs.length) i = some bs := by
  induction bs generalizing i with
  | nil =>
    rw [hex2MemLoop, if_neg (by simp)]
  | cons b bs ih =>
    rw [List.length_cons, Nat.mul_add, Nat.add_comm, read_add, hex, List.flatMap_cons] at h
    obtain ⟨htwo, hrest⟩ := List.append_inj h (by rw [length_read]; rfl)
    obtain ⟨hhigh, hlow, -⟩ :
        input i = hexDigit (b >>> 4 &&& 0x0F) ∧ input (i + 1) = hexDigit (b &&& 0x0F) ∧ True := by
      simpa [ByteMemory.read, List.range_succ, hexByte] using htwo
    obtain ⟨hh, hl, hsum⟩ := a2i_hexDigit b
    have hih := ih hrest
    rw [hex2MemLoop, if_pos (by rw [List.length_cons]; omega), hhigh, hlow, hh, hl]
    dsimp only
    rw [List.length_cons, Nat.mul_add, Nat.add_comm (2 * bs.length), ← Nat.add_assoc, hih, hsum]
    rfl

theorem hex2Mem_eq {input : Mem} {bs : List UInt8} (h : read input 0 (2 * bs.length) = hex bs) :
    hex2Mem input (2 * bs.length) = ⟨bs.length, bs⟩ := by
  have hloop := hex2MemLoop_eq h
  rw [Nat.zero_add] at hloop
  rw [hex2Mem, hloop, Nat.mul_div_cancel_left _ (by decide)]

/-! ## Both -/

namespace RopAES

variable {aes : RopAES} {input : Mem} {len1 len2 : ℕ}

/-- All blocks that the data reach into are encrypted. -/
theorem encrypt_eq (aes : RopAES) (input : Mem) (h : len1 ≤ len2) :
    aes.encrypt input len1 len2 =
      ⟨padded len1, mapBlocks aes.aesEncrypt (read input 0 (padded len1))⟩ := by
  rw [encrypt, if_neg (Nat.not_lt.mpr h), blockLoop_eq, Nat.sub_zero]
  dsimp only
  rw [length_mapBlocks_read]

theorem decrypt_eq (aes : RopAES) (input : Mem) (h : len1 ≤ len2) :
    aes.decrypt input len1 len2 =
      ⟨padded len1, mapBlocks aes.aesDecrypt (read input 0 (padded len1))⟩ := by
  rw [decrypt, if_neg (Nat.not_lt.mpr h), blockLoop_eq, Nat.sub_zero]
  dsimp only
  rw [length_mapBlocks_read]

/-- Nothing is encrypted of a buffer without data. -/
theorem encryptWithHex_zero (aes : RopAES) (input : Mem) (len2 : ℕ) :
    aes.encryptWithHex input 0 len2 = some ⟨-1, []⟩ := by
  rw [encryptWithHex, encrypt_eq aes input (Nat.zero_le _)]
  rfl

/-- Of any other all blocks are, if the digits have room. -/
theorem encryptWithHex_of_pos (hpos : 0 < len1) :
    aes.encryptWithHex input len1 len2 =
      if len2 < 2 * padded len1 then none
      else some ⟨(padded len1 : ℤ) * 2,
        hex (mapBlocks aes.aesEncrypt (read input 0 (padded len1)))⟩ := by
  have hret : ¬((padded len1 : ℕ) : ℤ) ≤ 0 := by
    have := le_padded len1
    omega
  rw [encryptWithHex, encrypt_eq aes input (Nat.le_add_right _ _)]
  dsimp only
  rw [if_neg hret, mem2Hex, length_mapBlocks_read]
  rfl

/-- Blocks that were encrypted are decrypted from their digits. -/
theorem decryptWithHex_eq (aes : RopAES) {bs : List UInt8} (hbs : 16 ∣ bs.length)
    (h : read input 0 (2 * bs.length) = hex bs) (hlen : bs.length ≤ len2) :
    aes.decryptWithHex input (2 * bs.length) len2 =
      ⟨bs.length, mapBlocks aes.aesDecrypt bs⟩ := by
  have hread : read (overlay bs fun _ => 0) 0 (padded bs.length) = bs := by
    rw [padded_eq_self_iff.mpr hbs, read_overlay, List.drop_zero, List.take_length, Nat.sub_self]
    exact List.append_nil bs
  rw [decryptWithHex, hex2Mem_eq h]
  dsimp only
  rw [if_neg (by omega), Int.toNat_natCast, decrypt_eq aes _ hlen, hread,
    padded_eq_self_iff.mpr hbs]

end RopAES

end Gendo.Client
