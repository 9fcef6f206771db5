import Gendo.Client.Aes

/-!
# Encrypted binary files

`EncryptBinary` and `DecryptBinary` read a file in pieces of 2048 bytes until `feof`, and write
what `EncryptWithHex` and `DecryptWithHex` make of each. Neither the length of the file nor that
of its last block is stored, and a piece of no bytes is an error that nobody looks at:
`binaryRoundTrips_iff` says which files come back.
-/

namespace Gendo.Client

open Blocks ByteMemory

/-- `MAX_FILE_TEXT_LINE_SIZE`. -/
def MAX_FILE_TEXT_LINE_SIZE : ℕ := 1024 * 4

/-- A call of `fwrite`: the length it is given, and the bytes that are in the buffer. -/
structure Fwrite where
  len : ℤ
  valid : List UInt8
  deriving DecidableEq, Repr

/-- What the length says is what is in the buffer. -/
def Fwrite.Good (w : Fwrite) : Prop := w.len = w.valid.length

/-- The file that good writes make. -/
def contents (ws : List Fwrite) : List UInt8 := ws.flatMap Fwrite.valid

namespace RopAES

/-- The loop of `EncryptBinary` over the pieces, with what is in `line`; or `none` where an
assertion fails. -/
def encryptPieces (aes : RopAES) : Mem → List (List UInt8) → Option (List Fwrite)
  | _, [] => some []
  | line, piece :: pieces => do
    let line := overlay piece line
    let call ← aes.encryptWithHex line piece.length MAX_FILE_TEXT_LINE_SIZE
    let ws ← encryptPieces aes line pieces
    return ⟨call.ret, call.stored⟩ :: ws

/-- `EncryptBinary`. -/
def encryptBinary (aes : RopAES) (file : List UInt8) : Option (List Fwrite) :=
  aes.encryptPieces (fun _ => 0) (freads (MAX_FILE_TEXT_LINE_SIZE / 2) file)

/-- The loop of `DecryptBinary`. -/
def decryptPieces (aes : RopAES) : Mem → List (List UInt8) → List Fwrite
  | _, [] => []
  | line, piece :: pieces =>
    let line := overlay piece line
    let call := aes.decryptWithHex line piece.length MAX_FILE_TEXT_LINE_SIZE
    ⟨call.ret, call.stored⟩ :: decryptPieces aes line pieces

/-- `DecryptBinary`. -/
def decryptBinary (aes : RopAES) (file : List UInt8) : List Fwrite :=
  aes.decryptPieces (fun _ => 0) (freads (MAX_FILE_TEXT_LINE_SIZE / 2) file)

/-- The file comes back, and every write is a good one. -/
def BinaryRoundTrips (aes : RopAES) (file : List UInt8) : Prop :=
  ∃ ws, aes.encryptBinary file = some ws ∧ (∀ w ∈ ws, w.Good) ∧
    (∀ w ∈ aes.decryptBinary (contents ws), w.Good) ∧
    contents (aes.decryptBinary (contents ws)) = file

variable {aes : RopAES} {line : Mem} {file piece : List UInt8} {pieces : List (List UInt8)}

/-! ## Encrypting -/

/-- A piece without bytes gives a write with the length -1. -/
theorem encryptPieces_nil (aes : RopAES) (line : Mem) :
    aes.encryptPieces line [[]] = some [⟨-1, []⟩] := by
  rw [encryptPieces, List.length_nil, encryptWithHex_zero]
  rfl

/-- Any other is filled up to whole blocks. -/
theorem encryptPieces_cons (hpos : piece ≠ []) (hlen : piece.length ≤ 2048) :
    ∃ fill, (piece ++ fill).length = padded piece.length ∧
      aes.encryptPieces line (piece :: pieces) =
        (aes.encryptPieces (overlay piece line) pieces).map fun ws =>
          ⟨padded piece.length * 2, hex (mapBlocks aes.aesEncrypt (piece ++ fill))⟩ :: ws := by
  have hle := le_padded piece.length
  refine ⟨read line piece.length (padded piece.length - piece.length), ?_, ?_⟩
  · rw [List.length_append, length_read]
    omega
  have hread : read (overlay piece line) 0 (padded piece.length) =
      piece ++ read line piece.length (padded piece.length - piece.length) := by
    rw [read_overlay, List.drop_zero, List.take_of_length_le hle, Nat.zero_add]
  have hfit : ¬MAX_FILE_TEXT_LINE_SIZE < 2 * padded piece.length := by
    rw [MAX_FILE_TEXT_LINE_SIZE, padded]
    omega
  rw [encryptPieces, encryptWithHex_of_pos (List.length_pos_iff.mpr hpos), if_neg hfit, hread,
    Option.map_eq_bind]
  rfl

/-- The digits of filled-up blocks are all that is written. -/
theorem good_hex_mapBlocks (aes : RopAES) {bs : List UInt8} (h : 16 ∣ bs.length) :
    Fwrite.Good ⟨bs.length * 2, hex (mapBlocks aes.aesEncrypt bs)⟩ := by
  rw [Fwrite.Good, length_hex, length_mapBlocks (by decide) h]
  push_cast
  ring

/-- A file that ends inside a piece is encrypted block by block, the last one filled up. -/
theorem encryptPieces_of_mod_ne (aes : RopAES) (hfile : file.length % 2048 ≠ 0) (line : Mem) :
    ∃ fill ws, (file ++ fill).length = padded file.length ∧
      aes.encryptPieces line (freads 2048 file) = some ws ∧ (∀ w ∈ ws, w.Good) ∧
      contents ws = hex (mapBlocks aes.aesEncrypt (file ++ fill)) := by
  have hn : 0 < 2048 := by decide
  induction file using pieces_induction hn generalizing line with
  | short file hlt =>
    have hpos : file ≠ [] := by
      rintro rfl
      exact hfile rfl
    obtain ⟨fill, hfill, hcall⟩ := encryptPieces_cons hpos hlt.le
    have hblocks : 16 ∣ (file ++ fill).length := hfill ▸ dvd_padded file.length
    have hgood := good_hex_mapBlocks aes hblocks
    rw [hfill] at hgood
    refine ⟨fill, _, hfill, by rw [freads_of_lt hlt, hcall]; rfl, ?_, ?_⟩
    · simpa using hgood
    · simp [contents]
  | append piece file hlen ih =>
    have hrest : file.length % 2048 ≠ 0 := by
      rw [List.length_append, hlen] at hfile
      omega
    have hpos : piece ≠ [] := by
      rintro rfl
      exact absurd hlen (by decide)
    obtain ⟨none, hnone, hcall⟩ := encryptPieces_cons hpos hlen.le
    obtain ⟨fill, ws, hfill, hws, hgood, hcontents⟩ := ih hrest (overlay piece line)
    -- a full piece is made of whole blocks
    have hwhole : padded piece.length = piece.length := by
      rw [hlen]
      rfl
    obtain rfl : none = [] := by
      rw [hwhole, List.length_append] at hnone
      exact List.length_eq_zero_iff.mp (by omega)
    rw [List.append_nil, hwhole] at hcall
    have hblocks : 16 ∣ piece.length := by
      rw [hlen]
      decide
    refine ⟨fill, _, ?_, by rw [freads_append hn hlen, hcall, hws]; rfl, ?_, ?_⟩
    · rw [List.append_assoc, List.length_append, hfill, List.length_append, hlen, padded, padded]
      omega
    · exact List.forall_mem_cons.mpr ⟨good_hex_mapBlocks aes hblocks, hgood⟩
    · rw [contents, List.flatMap_cons, ← contents, hcontents, List.append_assoc,
        mapBlocks_append (by decide) hblocks, hex_append]

/-- A file that ends with a piece, or has none, gives a write that is not good. -/
theorem encryptPieces_of_mod_eq (hfile : file.length % 2048 = 0) (line : Mem) :
    ∀ ws, aes.encryptPieces line (freads 2048 file) = some ws → ¬∀ w ∈ ws, w.Good := by
  have hn : 0 < 2048 := by decide
  induction file using pieces_induction hn generalizing line with
  | short file hlt =>
    rw [Nat.mod_eq_of_lt hlt, List.length_eq_zero_iff] at hfile
    subst hfile
    rw [freads_of_lt hlt, encryptPieces_nil]
    rintro ws ⟨⟩ hgood
    have hbad : (-1 : ℤ) = 0 := hgood _ (List.mem_singleton_self _)
    exact absurd hbad (by decide)
  | append piece file hlen ih =>
    have hrest : file.length % 2048 = 0 := by
      rw [List.length_append, hlen] at hfile
      omega
    have hpos : piece ≠ [] := by
      rintro rfl
      exact absurd hlen (by decide)
    obtain ⟨fill, -, hcall⟩ := encryptPieces_cons hpos hlen.le
    rw [freads_append hn hlen, hcall]
    intro ws hws hgood
    obtain ⟨ws', hws', rfl⟩ := Option.map_eq_some_iff.mp hws
    exact ih hrest _ ws' hws' fun w hw => hgood w (List.mem_cons_of_mem _ hw)

/-! ## Decrypting -/

/-- A piece of digits is decrypted. -/
theorem decryptPieces_cons {bs : List UInt8} (hblocks : 16 ∣ bs.length) (hlen : bs.length ≤ 1024) :
    aes.decryptPieces line (hex bs :: pieces) =
      ⟨bs.length, mapBlocks aes.aesDecrypt bs⟩ ::
        aes.decryptPieces (overlay (hex bs) line) pieces := by
  have hread : read (overlay (hex bs) line) 0 (2 * bs.length) = hex bs := by
    rw [← length_hex, read_overlay, List.drop_zero, List.take_length, Nat.sub_self]
    exact List.append_nil _
  have hfit : bs.length ≤ MAX_FILE_TEXT_LINE_SIZE := hlen.trans (by decide)
  rw [decryptPieces, length_hex, decryptWithHex_eq aes hblocks hread hfit]

/-- The digits of whole blocks are decrypted block by block. -/
theorem decryptPieces_hex (aes : RopAES) {bs : List UInt8} (hblocks : 16 ∣ bs.length) (line : Mem) :
    (∀ w ∈ aes.decryptPieces line (freads 2048 (hex bs)), w.Good) ∧
      contents (aes.decryptPieces line (freads 2048 (hex bs))) = mapBlocks aes.aesDecrypt bs := by
  have hn : 0 < 1024 := by decide
  induction bs using pieces_induction hn generalizing line with
  | short bs hlt =>
    have hgood : Fwrite.Good ⟨bs.length, mapBlocks aes.aesDecrypt bs⟩ := by
      rw [Fwrite.Good, length_mapBlocks (by decide) hblocks]
    rw [freads_of_lt (by rw [length_hex]; omega), decryptPieces_cons hblocks hlt.le]
    refine ⟨by simpa [decryptPieces] using hgood, by simp [contents, decryptPieces]⟩
  | append piece bs hlen ih =>
    have hpiece : 16 ∣ piece.length := by
      rw [hlen]
      decide
    have hrest : 16 ∣ bs.length := by
      rwa [List.length_append, Nat.dvd_add_right hpiece] at hblocks
    have hgood : Fwrite.Good ⟨piece.length, mapBlocks aes.aesDecrypt piece⟩ := by
      rw [Fwrite.Good, length_mapBlocks (by decide) hpiece]
    obtain ⟨hgoods, hcontents⟩ := ih hrest (overlay (hex piece) line)
    rw [hex_append, freads_append (by decide) (by rw [length_hex, hlen]),
      decryptPieces_cons hpiece hlen.le]
    refine ⟨List.forall_mem_cons.mpr ⟨hgood, hgoods⟩, ?_⟩
    rw [contents, List.flatMap_cons, ← contents, hcontents, mapBlocks_append (by decide) hpiece]

/-! ## There and back -/

/-- A file that ends with a piece, or has none, does not come back. -/
theorem not_binaryRoundTrips_of_mod_eq (aes : RopAES) (hfile : file.length % 2048 = 0) :
    ¬aes.BinaryRoundTrips file := by
  rintro ⟨ws, hws, hgood, -⟩
  exact encryptPieces_of_mod_eq hfile _ ws hws hgood

/-- Any other comes back filled up to whole blocks. -/
theorem binaryRoundTrips_iff_dvd (h : aes.Inverts) (hfile : file.length % 2048 ≠ 0) :
    aes.BinaryRoundTrips file ↔ 16 ∣ file.length := by
  obtain ⟨fill, ws, hfill, hws, hgood, hcontents⟩ :=
    encryptPieces_of_mod_ne aes hfile fun _ => 0
  have hblocks : 16 ∣ (file ++ fill).length := hfill ▸ dvd_padded file.length
  have hback : (∀ w ∈ aes.decryptBinary (contents ws), w.Good) ∧
      contents (aes.decryptBinary (contents ws)) = file ++ fill := by
    have hdigits : 16 ∣ (mapBlocks aes.aesEncrypt (file ++ fill)).length := by
      rwa [length_mapBlocks (by decide) hblocks]
    have hdec := decryptPieces_hex aes hdigits fun _ => 0
    rw [mapBlocks_mapBlocks (by decide) h hblocks, ← hcontents] at hdec
    exact hdec
  constructor
  · rintro ⟨ws', hws', -, -, heq⟩
    obtain rfl := Option.some.inj (hws'.symm.trans hws)
    rw [hback.2] at heq
    rwa [heq] at hblocks
  · intro hdvd
    refine ⟨ws, hws, hgood, hback.1, ?_⟩
    rw [padded_eq_self_iff.mpr hdvd, List.length_append] at hfill
    have hnil : fill = [] := List.length_eq_zero_iff.mp (by omega)
    rw [hback.2, hnil, List.append_nil]

/-- A file comes back exactly if it is made of whole blocks, and does not end with a piece. -/
theorem binaryRoundTrips_iff (aes : RopAES) (h : aes.Inverts) (file : List UInt8) :
    aes.BinaryRoundTrips file ↔ file.length % 16 = 0 ∧ file.length % 2048 ≠ 0 := by
  by_cases hfile : file.length % 2048 = 0
  · exact iff_of_false (not_binaryRoundTrips_of_mod_eq aes hfile) fun hmod => hmod.2 hfile
  · rw [binaryRoundTrips_iff_dvd h hfile, Nat.dvd_iff_mod_eq_zero, and_iff_left hfile]

/-- A file of one block. -/
theorem binaryRoundTrips_oneBlock :
    BinaryRoundTrips .mirror (List.replicate 16 7) :=
  (binaryRoundTrips_iff .mirror inverts_mirror (List.replicate 16 7)).mpr (by decide)

/-- The empty file, and a file of one byte. -/
theorem not_binaryRoundTrips :
    ¬BinaryRoundTrips .mirror [] ∧ ¬BinaryRoundTrips .mirror [7] := by
  constructor
  · exact not_binaryRoundTrips_of_mod_eq .mirror rfl
  · rw [binaryRoundTrips_iff_dvd inverts_mirror (by decide)]
    decide

end RopAES

end Gendo.Client
