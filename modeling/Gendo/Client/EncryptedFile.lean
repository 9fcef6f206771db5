import Gendo.Client.TextFile
import Gendo.Library.TextStream
import Mathlib.Data.List.Infix

/-!
# Encrypted files in memory

`RopEncryptFile` decrypts a file into a table of 512 rows of 512 bytes, and finds lines in it. But
`m_buf` is declared as a pointer to pointers, so `m_buf[cur]` is no row of the table: it is a
pointer made of whatever bytes are in the table, and the line is written to where it points.

`encryptedFileOk_iff` says which files are read nevertheless: those of which no line is stored.
-/

namespace Gendo.Client

open Blocks BufferedLines ByteMemory TextStream

/-- `MAX_TEXT_FILE_ROW` and `MAX_TEXT_FILE_COL` -/
def MAX_TEXT_FILE_ROW : ℕ := 512

def MAX_TEXT_FILE_COL : ℕ := 512

/-- The size of the table. -/
def TABLE_SIZE : ℕ := MAX_TEXT_FILE_ROW * MAX_TEXT_FILE_COL

/-- `RopEncryptFile`, with the memory of the process, in which the table is at `buf`. -/
structure RopEncryptFile where
  mem : Mem
  /-- `m_buf`, where it is not NULL -/
  buf : Option ℕ
  /-- `m_row` -/
  row : ℕ
  opened : Bool

/-- `m_buf[cur]` -/
def tablePtr (mem : Mem) (buf cur : ℕ) : ℕ := leNat (read mem (buf + 4 * cur) 4)

/-- What `OpenEncryptFile` returns, and the object then. -/
structure OpenCall where
  ret : ℤ
  file : RopEncryptFile

/-- What `FindLine` returns, and the string in `output`. -/
structure FindCall where
  ret : ℤ
  output : Option (List UInt8)
  deriving DecidableEq, Repr

/-- The line that was read, when a NUL has taken the place of its last character. -/
def cutLine (l : List UInt8) : Mem :=
  Patch.apply ⟨strlen (fgets l fun _ => 0) - 1, [0]⟩ (fgets l fun _ => 0)

/-- The call of `DecryptWithHex` for a line. -/
def decryptLine (aes : RopAES) (l : List UInt8) : BufCall :=
  aes.decryptWithHex (cutLine l) (strlen (fgets l fun _ => 0) - 1) MAX_FILE_TEXT_LINE_SIZE

/-- The loop of `OpenEncryptFile`: the return value, the memory and the number of rows; `none` where
a write is outside of the table, or in front of `line`. -/
def openLines (aes : RopAES) (buf : ℕ) : Mem → ℕ → List (List UInt8) → Option (ℤ × Mem × ℕ)
  | mem, cur, [] => some (0, mem, cur)
  | mem, cur, l :: ls =>
    if strlen (fgets l fun _ => 0) = 0 then none
    else
      let call := decryptLine aes l
      if call.ret ≤ 0 then some (-1, mem, cur)
      else
        let decLine := fputs call.stored
        let dst := tablePtr mem buf cur
        if decLine = [] ∨ (buf ≤ dst ∧ dst + decLine.length ≤ buf + TABLE_SIZE) then
          openLines aes buf (Patch.apply ⟨dst, decLine⟩ mem) (cur + 1) ls
        else none

/-- `OpenEncryptFile` for a file, if there is one. -/
def openEncryptFile (aes : RopAES) (mem : Mem) (buf : ℕ) : Option (List UInt8) → Option OpenCall
  | none => some ⟨-1, ⟨mem, none, 0, false⟩⟩
  | some file =>
    -- too large for a file in memory
    if TABLE_SIZE < file.length then some ⟨-2, ⟨mem, none, 0, false⟩⟩
    else
      (openLines aes buf mem 0 (textLines (ofFile file))).map fun r =>
        if r.1 = 0 then ⟨0, ⟨r.2.1, some buf, r.2.2, true⟩⟩ else ⟨r.1, ⟨r.2.1, none, 0, false⟩⟩

namespace RopEncryptFile

/-- The string that `m_buf[cur]` points to. -/
def rowString (f : RopEncryptFile) (buf cur : ℕ) : List UInt8 :=
  (CString.read f.mem (tablePtr f.mem buf cur) (2 ^ 32 - tablePtr f.mem buf cur)).1

/-- `FindLine` for a number. -/
def findLine (f : RopEncryptFile) (lineNum : ℤ) : FindCall :=
  if f.opened = false then ⟨-1, none⟩
  else
    match f.buf with
    | none => ⟨-2, none⟩
    | some buf =>
      if lineNum < 1 ∨ f.row < lineNum then ⟨-2, none⟩
      else ⟨0, some (f.rowString buf (lineNum - 1).toNat)⟩

/-- `FindLine` for a pattern: it is looked for a row in the pattern. -/
def findPattern (f : RopEncryptFile) (pattern : List UInt8) : FindCall :=
  if f.opened = false then ⟨-1, none⟩
  else
    match f.buf with
    | none => ⟨-2, none⟩
    | some buf =>
      match (List.range f.row).find? fun cur => f.rowString buf cur <:+: pattern with
      | none => ⟨-3, none⟩
      | some cur => ⟨0, some (f.rowString buf cur)⟩

end RopEncryptFile

/-! ## What a file in memory is for -/

/-- A line without its line feed. -/
def lineText (l : List UInt8) : List UInt8 := if l.getLast? = some LF then l.dropLast else l

/-- A text that the table has room for. -/
structure FitsTable (text : List UInt8) : Prop where
  string : 0 ∉ text
  rows : (textLines text).length ≤ MAX_TEXT_FILE_ROW
  cols : ∀ l ∈ textLines text, (lineText l).length < MAX_TEXT_FILE_COL

/-- The file that `EncryptTextFile` writes for a text. -/
def EncryptedFrom (aes : RopAES) (text file : List UInt8) : Prop :=
  ∃ call, aes.encryptTextFile text = some call ∧ call.inside = true ∧ file = toFile call.text

/-- The lines are found by their numbers and by what they contain. -/
structure FindsLines (f : RopEncryptFile) (lines : List (List UInt8)) : Prop where
  byNumber : ∀ i, ∀ h : i < lines.length, f.findLine (i + 1) = ⟨0, some lines[i]⟩
  noNumber : ∀ k : ℤ, k < 1 ∨ lines.length < k → (f.findLine k).ret < 0
  byPattern : ∀ pattern l, (lines.find? fun l => pattern <:+: l) = some l →
    f.findPattern pattern = ⟨0, some l⟩
  noPattern : ∀ pattern, (lines.find? fun l => pattern <:+: l) = none →
    (f.findPattern pattern).ret < 0

/-- The lines of a file that was written for a text are found, and any other file is refused, or
read without a write outside; wherever the table is, and whatever is in it before. -/
def EncryptedFileOk (aes : RopAES) (file : List UInt8) : Prop :=
  ∀ mem buf, 0 < buf → buf + TABLE_SIZE ≤ 2 ^ 32 →
    (∀ text, FitsTable text → EncryptedFrom aes text file → ∃ f,
      openEncryptFile aes mem buf (some file) = some ⟨0, f⟩ ∧
        FindsLines f ((textLines text).map lineText)) ∧
    ((¬ ∃ text, FitsTable text ∧ EncryptedFrom aes text file) →
      ∃ call, openEncryptFile aes mem buf (some file) = some call)

/-- Nothing is stored of the lines: each begins with a character and is empty when it is decrypted,
up to one that cannot be. -/
def NothingStored (aes : RopAES) : List (List UInt8) → Prop
  | [] => True
  | l :: ls => strlen (fgets l fun _ => 0) ≠ 0 ∧
      ((decryptLine aes l).ret ≤ 0 ∨ fputs (decryptLine aes l).stored = [] ∧ NothingStored aes ls)

/-! ## Reading a file -/

section

variable {aes : RopAES} {mem : Mem} {buf cur : ℕ} {ls : List (List UInt8)} {text file : List UInt8}

/-- Where nothing is stored, no write is outside. -/
theorem openLines_of_nothingStored (h : NothingStored aes ls) (mem : Mem) (buf cur : ℕ) :
    ∃ r, openLines aes buf mem cur ls = some r := by
  induction ls generalizing mem cur with
  | nil => exact ⟨_, rfl⟩
  | cons l ls ih =>
    obtain ⟨hfirst, hrest⟩ := h
    rw [openLines, if_neg hfirst]
    dsimp only
    split_ifs with hret hdst
    · exact ⟨_, rfl⟩
    · exact ih (hrest.resolve_left hret).2 _ _
    · exact absurd (.inl (hrest.resolve_left hret).1) hdst

/-- Where all pointers are NULL, only nothing can be stored. -/
theorem nothingStored_of_openLines {r : ℤ × Mem × ℕ} (hbuf : 0 < buf)
    (h : openLines aes buf (fun _ => 0) cur ls = some r) : NothingStored aes ls := by
  have hnull : ∀ cur, tablePtr (fun _ => 0) buf cur = 0 := fun cur => by
    rw [tablePtr, read_eq_replicate_iff.mpr fun _ _ => rfl]
    decide
  induction ls generalizing cur with
  | nil => trivial
  | cons l ls ih =>
    rw [openLines] at h
    dsimp only at h
    split_ifs at h with hfirst hret hdst
    · exact ⟨hfirst, .inl hret⟩
    · have hempty : fputs (decryptLine aes l).stored = [] := by
        rw [hnull] at hdst
        exact hdst.resolve_right fun hin => absurd hin.1 (by omega)
      rw [hempty] at h
      have hmem : Patch.apply ⟨tablePtr (fun _ => 0) buf cur, []⟩ (fun _ => 0) = fun _ => 0 := by
        funext i
        simp [Patch.apply]
      rw [hmem] at h
      exact ⟨hfirst, .inr ⟨hempty, ih h⟩⟩

/-- In a memory of zeros, a file is read only if it is too large, or nothing is stored of it. -/
theorem of_openEncryptFile {call : OpenCall}
    (h : openEncryptFile aes (fun _ => 0) 1 (some file) = some call) :
    (TABLE_SIZE < file.length ∧ call.ret ≠ 0) ∨
      (file.length ≤ TABLE_SIZE ∧ NothingStored aes (textLines (ofFile file))) := by
  rw [openEncryptFile] at h
  split_ifs at h with hlarge
  · rw [← Option.some.inj h]
    exact .inl ⟨hlarge, show (-2 : ℤ) ≠ 0 by decide⟩
  · obtain ⟨r, hr, -⟩ := Option.map_eq_some_iff.mp h
    exact .inr ⟨Nat.le_of_not_lt hlarge, nothingStored_of_openLines Nat.one_pos hr⟩

/-! ## Files that were written for a text -/

/-- The first line of a file for a text that is not empty is stored. -/
theorem not_nothingStored (h : aes.Inverts) (hnul : 0 ∉ text) (hne : text ≠ [])
    (hfile : EncryptedFrom aes text file) : ¬ NothingStored aes (textLines (ofFile file)) := by
  obtain ⟨call, hcall, hinside, rfl⟩ := hfile
  have hspec := textLines_spec hnul
  obtain ⟨l, ls, hlines⟩ : ∃ l ls, textLines text = l :: ls :=
    List.exists_cons_of_ne_nil (lines_ne_nil hne)
  rw [RopAES.encryptTextFile] at hcall
  have hlen := RopAES.length_le_of_inside hspec hcall hinside
  rw [hlines] at hspec hcall hlen
  obtain ⟨hl, hlnul, hlmax⟩ := hspec l List.mem_cons_self
  obtain ⟨fill, hlenfill, hfill, hencrypt⟩ :=
    RopAES.encryptLines_cons aes (fun _ => 0) ls hl hlnul hlmax
  rw [hencrypt] at hcall
  split_ifs at hcall
  obtain ⟨more, -, rfl⟩ := Option.map_eq_some_iff.mp hcall
  have hblocks : 16 ∣ (l ++ fill).length := hlenfill ▸ dvd_padded l.length
  have hfit : (l ++ fill).length ≤ 2032 := by
    have hshort := hlen l List.mem_cons_self
    rw [hlenfill, padded]
    omega
  obtain ⟨hstrlen, hdecrypt⟩ := RopAES.decryptWithHex_line h (fun _ => 0) hblocks hfit
  have hfputs := fputs_append hlnul hfill
  have hpos : 0 < (l ++ fill).length := by
    rw [List.length_append]
    exact Nat.add_pos_left (List.length_pos_iff.mpr hl) _
  have hdigits := length_mapBlocks (f := aes.aesEncrypt) (by decide) hblocks
  generalize l ++ fill = bs at hfit hstrlen hdecrypt hfputs hpos hdigits ⊢
  -- the digits come back from the file
  have hhex : ∀ b ∈ hex (mapBlocks aes.aesEncrypt bs) ++ [LF], decide (b ≠ SUB) = true := by
    intro b hb
    rcases List.mem_append.mp hb with hb | hb
    · have hlt := lt_of_mem_hex hb
      exact decide_eq_true fun heq => absurd (heq ▸ hlt) (by decide)
    · rw [List.mem_singleton.mp hb]
      rfl
  have hread : ofFile (toFile (hex (mapBlocks aes.aesEncrypt bs) ++ LF :: more.text)) =
      hex (mapBlocks aes.aesEncrypt bs) ++ LF :: more.text.takeWhile fun b => b ≠ SUB := by
    rw [ofFile_toFile, List.append_cons, List.takeWhile_append_of_pos hhex, ← List.append_cons]
  rw [hread, textLines_hex (hdigits.trans_le hfit)]
  rintro ⟨-, hstored⟩
  rw [decryptLine, cutLine, hstrlen, Nat.add_sub_cancel, hdecrypt, hfputs] at hstored
  rcases hstored with hret | ⟨hempty, -⟩
  · exact absurd hret (by dsimp only; omega)
  · exact hl hempty

/-- In a table without rows nothing is found. -/
theorem findsLines_nil (mem : Mem) (buf : ℕ) : FindsLines ⟨mem, some buf, 0, true⟩ [] where
  byNumber i h := absurd h (Nat.not_lt_zero i)
  noNumber k hk := by
    have hout : k < 1 ∨ 0 < k := hk
    simp [RopEncryptFile.findLine, hout]
  byPattern pattern l hl := by cases hl
  noPattern pattern _ := by simp [RopEncryptFile.findPattern]

/-- The empty text is written as the empty file. -/
theorem encryptedFrom_nil_iff : EncryptedFrom aes [] file ↔ file = [] := by
  constructor
  · rintro ⟨call, hcall, -, rfl⟩
    cases hcall
    rfl
  · rintro rfl
    exact ⟨_, rfl, rfl, rfl⟩

/-- A file for a text that is not empty is not read as it is to be. -/
theorem not_encryptedFileOk (h : aes.Inverts) (hfits : FitsTable text) (hne : text ≠ [])
    (hfile : EncryptedFrom aes text file) : ¬ EncryptedFileOk aes file := by
  intro hok
  obtain ⟨f, hopen, -⟩ := (hok (fun _ => 0) 1 (by decide) (by decide)).1 text hfits hfile
  rcases of_openEncryptFile hopen with ⟨-, hret⟩ | ⟨-, hnothing⟩
  · exact hret rfl
  · exact not_nothingStored h hfits.string hne hfile hnothing

end

/-- A file is read as it is to be exactly if it is too large and no text of such lines was written
to it, or no line of it is stored. -/
theorem encryptedFileOk_iff {aes : RopAES} (h : aes.Inverts) (file : List UInt8) :
    EncryptedFileOk aes file ↔
      (TABLE_SIZE < file.length ∧ ¬ ∃ text, FitsTable text ∧ EncryptedFrom aes text file) ∨
        (file.length ≤ TABLE_SIZE ∧ NothingStored aes (textLines (ofFile file))) := by
  constructor
  · intro hok
    obtain ⟨hwritten, hother⟩ := hok (fun _ => 0) 1 (by decide) (by decide)
    by_cases htext : ∃ text, FitsTable text ∧ EncryptedFrom aes text file
    · obtain ⟨text, hfits, hfile⟩ := htext
      obtain ⟨f, hopen, -⟩ := hwritten text hfits hfile
      rcases of_openEncryptFile hopen with ⟨-, hret⟩ | hnothing
      · exact absurd rfl hret
      · exact .inr hnothing
    · obtain ⟨call, hopen⟩ := hother htext
      exact (of_openEncryptFile hopen).imp (fun hlarge => ⟨hlarge.1, htext⟩) id
  · rintro (⟨hlarge, hnot⟩ | ⟨hsmall, hnothing⟩) mem buf hpos hle
    · refine ⟨fun text hfits hfile => absurd ⟨text, hfits, hfile⟩ hnot, fun _ => ?_⟩
      rw [openEncryptFile, if_pos hlarge]
      exact ⟨_, rfl⟩
    · refine ⟨fun text hfits hfile => ?_, fun _ => ?_⟩
      · -- only the empty text is left
        obtain rfl : text = [] := by
          by_contra hne
          exact not_nothingStored h hfits.string hne hfile hnothing
        obtain rfl := encryptedFrom_nil_iff.mp hfile
        exact ⟨⟨mem, some buf, 0, true⟩, rfl, findsLines_nil mem buf⟩
      · obtain ⟨r, hr⟩ := openLines_of_nothingStored hnothing mem buf 0
        rw [openEncryptFile, if_neg (Nat.not_lt.mpr hsmall), hr]
        exact ⟨_, rfl⟩

/-- A file whose only line is no line of digits. -/
theorem encryptedFileOk_noDigits : EncryptedFileOk .mirror [122, 13, 10] := by
  refine (encryptedFileOk_iff RopAES.inverts_mirror _).mpr (.inr ⟨by decide, ?_⟩)
  have hlines : textLines (ofFile [122, 13, 10]) = [[122, 10]] := by decide
  have hstrlen : strlen (fgets [122, 10] fun _ => 0) = 2 :=
    strlen_fgets (by decide) (by decide) _
  rw [hlines]
  refine ⟨by rw [hstrlen]; decide, .inl ?_⟩
  rw [decryptLine, hstrlen, cutLine, hstrlen]
  have hdigit : Patch.apply ⟨2 - 1, [0]⟩ (fgets [122, 10] fun _ => 0) 0 = 122 := by decide
  simp [RopAES.decryptWithHex, hex2Mem, hex2MemLoop, hdigit, a2i]

/-- The file for a text of one line. -/
theorem not_encryptedFileOk_oneLine :
    ¬ ∀ (aes : RopAES) (file : List UInt8), aes.Inverts → EncryptedFileOk aes file := by
  intro h
  have hinverts := RopAES.inverts_mirror
  have hlines : textLines [97] = [[97]] := by decide
  have hfits : FitsTable [97] := by
    refine ⟨by decide, ?_, ?_⟩ <;> rw [hlines] <;> decide
  obtain ⟨file, hencrypt, -⟩ := RopAES.decryptLines_encryptLines hinverts (fun _ => 0)
    (show ∀ l ∈ textLines [97], l ≠ [] ∧ 0 ∉ l ∧ l.length ≤ 2032 by rw [hlines]; decide)
  exact not_encryptedFileOk hinverts hfits (by decide) ⟨_, hencrypt, rfl, rfl⟩
    (h .mirror (toFile file) hinverts)

end Gendo.Client
