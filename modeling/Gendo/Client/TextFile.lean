import Gendo.Client.BinaryFile
import Gendo.Library.BufferedLines

/-!
# Encrypted text files

`EncryptTextFile` and `DecryptTextFile` read a text line by line into buffers of 4096 bytes, and
write the digits of each line on a line of their own. The last block of a line is filled up with
its NUL and with what is left of longer lines before it, so that `fputs` finds the end again.

A text is what the streams deliver of a file opened as text. `textRoundTrips_iff` says which texts
come back: the digits of a line take twice as many bytes as its blocks, and a NUL.
-/

namespace Gendo.Client

open Blocks BufferedLines ByteMemory

/-- `strlen` of one of the buffers. -/
def strlen (buf : Mem) : ℕ := (CString.read buf 0 MAX_FILE_TEXT_LINE_SIZE).1.length

/-- `fgets` stores a line and a NUL. -/
def fgets (l : List UInt8) (buf : Mem) : Mem := overlay (l ++ [0]) buf

/-- What `fputs` writes of a buffer that was cleared before these bytes were stored. -/
def fputs (stored : List UInt8) : List UInt8 := (CString.ofBytes (stored ++ [0])).1

/-- The lines of a text, as `fgets` returns them. -/
def textLines (text : List UInt8) : List (List UInt8) :=
  lines (MAX_FILE_TEXT_LINE_SIZE - 1) (MAX_FILE_TEXT_LINE_SIZE - 1) text

/-- The text that was written, the return value, and whether all writes to the buffers were
inside. -/
structure TextCall where
  text : List UInt8
  ret : ℤ
  inside : Bool
  deriving DecidableEq, Repr

namespace RopAES

/-- The loop of `EncryptTextFile` over the lines, with what is in `line`; or `none` where an
assertion fails. -/
def encryptLines (aes : RopAES) : Mem → List (List UInt8) → Option TextCall
  | _, [] => some ⟨[], 0, true⟩
  | line, l :: ls => do
    let line := fgets l line
    let call ← aes.encryptWithHex line (strlen line) MAX_FILE_TEXT_LINE_SIZE
    let more ← encryptLines aes line ls
    -- `sprintf` puts a NUL behind the digits
    return ⟨fputs call.stored ++ LF :: more.text, more.ret,
      (call.stored ++ [0]).length ≤ MAX_FILE_TEXT_LINE_SIZE && more.inside⟩

/-- `EncryptTextFile`. -/
def encryptTextFile (aes : RopAES) (text : List UInt8) : Option TextCall :=
  aes.encryptLines (fun _ => 0) (textLines text)

/-- The loop of `DecryptTextFile`. -/
def decryptLines (aes : RopAES) : Mem → List (List UInt8) → TextCall
  | _, [] => ⟨[], 0, true⟩
  | line, l :: ls =>
    let line := fgets l line
    let len := strlen line - 1
    let inside := strlen line ≠ 0
    let line := Patch.apply ⟨len, [0]⟩ line
    let call := aes.decryptWithHex line len MAX_FILE_TEXT_LINE_SIZE
    if call.ret < 0 then ⟨[], -1, inside⟩
    else
      let more := decryptLines aes line ls
      ⟨fputs call.stored ++ more.text, more.ret,
        inside && call.stored.length ≤ MAX_FILE_TEXT_LINE_SIZE && more.inside⟩

/-- `DecryptTextFile`. -/
def decryptTextFile (aes : RopAES) (text : List UInt8) : TextCall :=
  aes.decryptLines (fun _ => 0) (textLines text)

/-- The text comes back, and no write goes past a buffer. -/
def TextRoundTrips (aes : RopAES) (text : List UInt8) : Prop :=
  ∃ call, aes.encryptTextFile text = some call ∧ call.inside = true ∧
    aes.decryptTextFile call.text = ⟨text, 0, true⟩

end RopAES

/-! ## One line -/

/-- The length of a line that was read. -/
theorem strlen_fgets {l : List UInt8} (hl : 0 ∉ l) (hlen : l.length < MAX_FILE_TEXT_LINE_SIZE)
    (buf : Mem) : strlen (fgets l buf) = l.length := by
  have hread : read (fgets l buf) 0 MAX_FILE_TEXT_LINE_SIZE = l ++ 0 ::
      read buf (l.length + 1) (MAX_FILE_TEXT_LINE_SIZE - (l.length + 1)) := by
    have hle : (l ++ [0]).length ≤ MAX_FILE_TEXT_LINE_SIZE := by
      rw [List.length_append]
      exact hlen
    rw [fgets, read_overlay, List.drop_zero, List.take_of_length_le hle, List.append_assoc]
    simp
  rw [strlen, CString.read, hread, CString.ofBytes_append_of_notMem hl]
  simp [CString.ofBytes]

/-- The blocks of a line are filled up with bytes the first of which is a NUL. -/
theorem read_fgets (l : List UInt8) (buf : Mem) :
    ∃ fill, read (fgets l buf) 0 (padded l.length) = l ++ fill ∧
      ∀ b ∈ fill.head?, b = 0 := by
  rw [fgets, read_overlay, List.drop_zero]
  rcases (le_padded l.length).eq_or_lt with heq | hlt
  · refine ⟨[], ?_, by simp⟩
    rw [← heq, List.take_left, Nat.sub_self]
    rfl
  · have hle : (l ++ [0]).length ≤ padded l.length := by
      rw [List.length_append]
      exact hlt
    rw [List.take_of_length_le hle, List.append_assoc]
    exact ⟨_, rfl, by simp⟩

/-- What is filled up so is written as it was. -/
theorem fputs_append {l fill : List UInt8} (hl : 0 ∉ l) (hfill : ∀ b ∈ fill.head?, b = 0) :
    fputs (l ++ fill) = l := by
  rw [fputs, List.append_assoc, CString.ofBytes_append_of_notMem hl]
  cases fill with
  | nil => simp [CString.ofBytes]
  | cons b fill =>
    obtain rfl := hfill b rfl
    simp [CString.ofBytes]

theorem fputs_hex (bs : List UInt8) : fputs (hex bs) = hex bs := by
  have hnul : 0 ∉ hex bs := fun hmem => absurd (lt_of_mem_hex hmem) (by decide)
  have hfputs : fputs (hex bs ++ []) = hex bs := fputs_append hnul (by simp)
  rwa [List.append_nil] at hfputs

/-- A line of digits is read up to its line feed. -/
theorem textLines_hex {bs : List UInt8} (hlen : bs.length ≤ 2032) (text : List UInt8) :
    textLines (hex bs ++ LF :: text) = (hex bs ++ [LF]) :: textLines text := by
  refine lines_append_lf (fun hmem => absurd (lt_of_mem_hex hmem) (by decide)) ?_ text
  rw [length_hex, MAX_FILE_TEXT_LINE_SIZE]
  omega

namespace RopAES

variable {aes : RopAES} {l : List UInt8} {ls : List (List UInt8)}

/-- A line is encrypted, if its digits have room. -/
theorem encryptLines_cons (aes : RopAES) (line : Mem) (ls : List (List UInt8)) (hne : l ≠ [])
    (hnul : 0 ∉ l) (hlen : l.length < MAX_FILE_TEXT_LINE_SIZE) :
    ∃ fill, (l ++ fill).length = padded l.length ∧ (∀ b ∈ fill.head?, b = 0) ∧
      aes.encryptLines line (l :: ls) =
        if MAX_FILE_TEXT_LINE_SIZE < 2 * padded l.length then none
        else (aes.encryptLines (fgets l line) ls).map fun more =>
          ⟨hex (mapBlocks aes.aesEncrypt (l ++ fill)) ++ LF :: more.text, more.ret,
            2 * padded l.length < MAX_FILE_TEXT_LINE_SIZE && more.inside⟩ := by
  obtain ⟨fill, hread, hfill⟩ := read_fgets l line
  have hlenfill : (l ++ fill).length = padded l.length := by rw [← hread, length_read]
  have hblocks : 16 ∣ (l ++ fill).length := hlenfill ▸ dvd_padded l.length
  refine ⟨fill, hlenfill, hfill, ?_⟩
  rw [encryptLines, strlen_fgets hnul hlen, encryptWithHex_of_pos (List.length_pos_iff.mpr hne),
    hread]
  split_ifs with hroom
  · rfl
  · have hstored : (hex (mapBlocks aes.aesEncrypt (l ++ fill)) ++ [0]).length =
        2 * padded l.length + 1 := by
      rw [List.length_append, length_hex, length_mapBlocks (by decide) hblocks, hlenfill]
      rfl
    rw [Option.map_eq_bind]
    simp only [Option.bind_eq_bind, Option.bind_some, fputs_hex, hstored]
    rfl

/-- If no write goes past a buffer, the lines are not too long. -/
theorem length_le_of_inside {line : Mem} {call : TextCall}
    (hls : ∀ l ∈ ls, l ≠ [] ∧ 0 ∉ l ∧ l.length < MAX_FILE_TEXT_LINE_SIZE)
    (hcall : aes.encryptLines line ls = some call) (hinside : call.inside = true) :
    ∀ l ∈ ls, l.length ≤ 2032 := by
  induction ls generalizing line call with
  | nil => simp
  | cons l ls ih =>
    obtain ⟨⟨hne, hnul, hlen⟩, hls⟩ := List.forall_mem_cons.mp hls
    obtain ⟨fill, -, -, hencrypt⟩ := encryptLines_cons aes line ls hne hnul hlen
    rw [hencrypt] at hcall
    split_ifs at hcall
    obtain ⟨more, hmore, rfl⟩ := Option.map_eq_some_iff.mp hcall
    rw [Bool.and_eq_true, decide_eq_true_eq] at hinside
    refine List.forall_mem_cons.mpr ⟨?_, ih hls hmore hinside.2⟩
    have hroom := hinside.1
    rw [MAX_FILE_TEXT_LINE_SIZE, padded] at hroom
    omega

/-- The call for a line of digits, when a NUL has taken the place of its line feed. -/
theorem decryptWithHex_line (h : aes.Inverts) {bs : List UInt8} (line : Mem)
    (hblocks : 16 ∣ bs.length) (hlen : bs.length ≤ 2032) :
    strlen (fgets (hex (mapBlocks aes.aesEncrypt bs) ++ [LF]) line) = 2 * bs.length + 1 ∧
      aes.decryptWithHex (Patch.apply ⟨2 * bs.length, [0]⟩
        (fgets (hex (mapBlocks aes.aesEncrypt bs) ++ [LF]) line)) (2 * bs.length)
        MAX_FILE_TEXT_LINE_SIZE = ⟨bs.length, bs⟩ := by
  have hdigits := length_mapBlocks (f := aes.aesEncrypt) (by decide) hblocks
  have hback := mapBlocks_mapBlocks (by decide) h hblocks
  rw [← hdigits] at hblocks hlen ⊢
  generalize mapBlocks aes.aesEncrypt bs = ds at hdigits hback hblocks hlen ⊢
  have hpiece : 0 ∉ hex ds ++ [LF] := by
    rw [List.mem_append, not_or]
    exact ⟨fun hmem => absurd (lt_of_mem_hex hmem) (by decide), by decide⟩
  have hlt : (hex ds ++ [LF]).length < MAX_FILE_TEXT_LINE_SIZE := by
    rw [List.length_append, length_hex, MAX_FILE_TEXT_LINE_SIZE, List.length_singleton]
    omega
  constructor
  · rw [strlen_fgets hpiece hlt, List.length_append, length_hex, List.length_singleton]
  · have hread : read (Patch.apply ⟨2 * ds.length, [0]⟩ (fgets (hex ds ++ [LF]) line)) 0
        (2 * ds.length) = hex ds := by
      rw [read_apply_of_disjoint fun i hi hcov => by
          have := hcov.1
          dsimp only at this
          omega,
        fgets, read_overlay, List.drop_zero, ← length_hex, List.append_assoc, List.take_left,
        Nat.sub_self]
      exact List.append_nil _
    have hfit : ds.length ≤ MAX_FILE_TEXT_LINE_SIZE := by
      rw [MAX_FILE_TEXT_LINE_SIZE]
      omega
    rw [decryptWithHex_eq aes hblocks hread hfit, hback]

/-- A line of digits is decrypted. -/
theorem decryptLines_cons (h : aes.Inverts) {fill : List UInt8} (line : Mem)
    (ls : List (List UInt8)) (hnul : 0 ∉ l) (hfill : ∀ b ∈ fill.head?, b = 0)
    (hblocks : 16 ∣ (l ++ fill).length) (hlen : (l ++ fill).length ≤ 2032) :
    ∃ line', aes.decryptLines line ((hex (mapBlocks aes.aesEncrypt (l ++ fill)) ++ [LF]) :: ls) =
      ⟨l ++ (aes.decryptLines line' ls).text, (aes.decryptLines line' ls).ret,
        (aes.decryptLines line' ls).inside⟩ := by
  obtain ⟨hstrlen, hcall⟩ := decryptWithHex_line h line hblocks hlen
  have hfputs := fputs_append hnul hfill
  generalize l ++ fill = bs at hlen hstrlen hcall hfputs ⊢
  have hfit : bs.length ≤ MAX_FILE_TEXT_LINE_SIZE := by
    rw [MAX_FILE_TEXT_LINE_SIZE]
    omega
  refine ⟨Patch.apply ⟨2 * bs.length, [0]⟩
    (fgets (hex (mapBlocks aes.aesEncrypt bs) ++ [LF]) line), ?_⟩
  simp only [decryptLines, hstrlen, Nat.add_sub_cancel, hcall, hfputs]
  rw [if_neg (by omega)]
  simp [hfit]

/-- Lines that are not too long come back. -/
theorem decryptLines_encryptLines (h : aes.Inverts) (line : Mem)
    (hls : ∀ l ∈ ls, l ≠ [] ∧ 0 ∉ l ∧ l.length ≤ 2032) :
    ∃ text, aes.encryptLines line ls = some ⟨text, 0, true⟩ ∧
      ∀ line', aes.decryptLines line' (textLines text) = ⟨ls.flatten, 0, true⟩ := by
  induction ls generalizing line with
  | nil => exact ⟨[], rfl, fun _ => rfl⟩
  | cons l ls ih =>
    obtain ⟨⟨hne, hnul, hlen⟩, hls⟩ := List.forall_mem_cons.mp hls
    obtain ⟨fill, hlenfill, hfill, hencrypt⟩ := encryptLines_cons aes line ls hne hnul
      (by rw [MAX_FILE_TEXT_LINE_SIZE]; omega)
    obtain ⟨text, htext, hback⟩ := ih (fgets l line) hls
    have hpad : padded l.length ≤ 2032 := by
      rw [padded]
      omega
    have hblocks : 16 ∣ (l ++ fill).length := hlenfill ▸ dvd_padded l.length
    refine ⟨hex (mapBlocks aes.aesEncrypt (l ++ fill)) ++ LF :: text, ?_, fun line' => ?_⟩
    · have hroom : 2 * padded l.length < MAX_FILE_TEXT_LINE_SIZE := by
        rw [MAX_FILE_TEXT_LINE_SIZE]
        omega
      rw [hencrypt, if_neg hroom.le.not_gt, htext]
      simp [hroom]
    · rw [textLines_hex (by rw [length_mapBlocks (by decide) hblocks, hlenfill]; exact hpad)]
      obtain ⟨line'', hdecrypt⟩ := decryptLines_cons h line' (textLines text) hnul hfill hblocks
        (hlenfill.trans_le hpad)
      rw [hdecrypt, hback line'']
      rfl

end RopAES

/-- The lines of a text without NUL. -/
theorem textLines_spec {text : List UInt8} (hnul : 0 ∉ text) :
    ∀ l ∈ textLines text, l ≠ [] ∧ 0 ∉ l ∧ l.length < MAX_FILE_TEXT_LINE_SIZE := by
  intro l hl
  refine ⟨ne_nil_of_mem_lines hl, fun hmem => hnul ?_, ?_⟩
  · rw [← flatten_lines (MAX_FILE_TEXT_LINE_SIZE - 1) (MAX_FILE_TEXT_LINE_SIZE - 1) text]
    exact List.mem_flatten.mpr ⟨l, hl, hmem⟩
  · exact Nat.lt_of_le_pred (by decide) ((length_lines_le (by decide) le_rfl).2 l hl)

/-- A text comes back exactly if none of its lines is longer than 127 blocks. -/
theorem textRoundTrips_iff (aes : RopAES) (h : aes.Inverts) (text : List UInt8)
    (hnul : 0 ∉ text) :
    aes.TextRoundTrips text ↔ ∀ l ∈ textLines text, l.length ≤ 2032 := by
  have hlines := textLines_spec hnul
  constructor
  · rintro ⟨call, hcall, hinside, -⟩
    exact RopAES.length_le_of_inside hlines hcall hinside
  · intro hlen
    obtain ⟨file, hencrypt, hdecrypt⟩ := RopAES.decryptLines_encryptLines h (fun _ => 0)
      fun l hl => ⟨(hlines l hl).1, (hlines l hl).2.1, hlen l hl⟩
    refine ⟨_, hencrypt, rfl, ?_⟩
    rw [RopAES.decryptTextFile, hdecrypt, textLines, flatten_lines]

/-- A short line and an empty one. -/
theorem textRoundTrips_twoLines :
    RopAES.TextRoundTrips .mirror [97, 98, LF, LF] :=
  (textRoundTrips_iff .mirror RopAES.inverts_mirror [97, 98, LF, LF] (by decide)).mpr (by decide)

/-- A line of 2033 letters. -/
theorem not_textRoundTrips_longLine :
    ¬∀ text, 0 ∉ text → RopAES.encryptTextFile .mirror text ≠ none →
      RopAES.TextRoundTrips .mirror text := by
  intro h
  have hmem : ∀ b ∈ List.replicate 2033 (97 : UInt8), b = 97 := fun b => List.eq_of_mem_replicate
  have hnul : 0 ∉ List.replicate 2033 (97 : UInt8) := fun h0 => absurd (hmem 0 h0) (by decide)
  have hlf : LF ∉ List.replicate 2033 (97 : UInt8) := fun hlf => absurd (hmem LF hlf) (by decide)
  have hlen : (List.replicate 2033 (97 : UInt8)).length = 2033 := List.length_replicate
  generalize List.replicate 2033 (97 : UInt8) = text at hnul hlf hlen
  have hne : text ≠ [] := by
    rintro rfl
    exact absurd hlen (by decide)
  have hlines : textLines text = [text] := lines_eq_singleton hne hlf (by rw [hlen]; decide)
  obtain ⟨fill, -, -, hencrypt⟩ := RopAES.encryptLines_cons .mirror (fun _ => 0) [] hne hnul
    (by rw [hlen]; decide)
  rw [hlen, if_neg (by decide), ← hlines] at hencrypt
  obtain ⟨call, hcall, hinside, -⟩ := h text hnul (by rw [RopAES.encryptTextFile, hencrypt]; nofun)
  have hle := RopAES.length_le_of_inside (textLines_spec hnul) hcall hinside text
    (by rw [hlines]; exact List.mem_singleton_self text)
  rw [hlen] at hle
  exact absurd hle (by decide)

end Gendo.Client
