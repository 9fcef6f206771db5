import Gendo.Library.TextStream

/-!
# Download records

`HttpDownloadMng` keeps its list of downloads in `downloadfile.ini`: the number of records, and
for each record five strings and three numbers, every one on a line of its own. Three functions
write the file and `ReInitDownloadRecord` reads it, the strings with `fgets` and the numbers with
`fscanf`, whose format ends with a line feed: a directive that skips all white space.

`reInitDownloadRecord_iff` says which lists come back.
-/

namespace Gendo.Client

open BufferedLines TextStream

/-- The characters of a string up to the first NUL. -/
def cStr (s : List UInt8) : List UInt8 := s.takeWhile fun b => b ≠ 0

/-- `tag_Donwload_File_Ini_Data`. -/
structure DonwloadFileIniData where
  strUrl : List UInt8
  strPath : List UInt8
  strFileName : List UInt8
  strDataPrint : List UInt8
  strCoolie : List UInt8
  n64ProgRessPos : Int64
  n64FileSize : Int64
  bOpenFile : Int32
  deriving DecidableEq

namespace DonwloadFileIniData

/-- The strings, in the order of the file. -/
def strings (d : DonwloadFileIniData) : List (List UInt8) :=
  [d.strUrl, d.strPath, d.strFileName, d.strCoolie, d.strDataPrint]

/-- The numbers, in the order of the file. -/
def numbers (d : DonwloadFileIniData) : List ℤ :=
  [d.n64FileSize.toInt, d.n64ProgRessPos.toInt, d.bOpenFile.toInt]

/-- `fprintf` of a record. -/
def iniLines (d : DonwloadFileIniData) : List UInt8 :=
  (d.strings.flatMap fun s => cStr s ++ [LF]) ++ d.numbers.flatMap fun z => decimal z ++ [LF]

end DonwloadFileIniData

/-- The number of records as an `int`. -/
def recordCount (records : List DonwloadFileIniData) : Int32 := .ofNat records.length

/-- The text of `downloadfile.ini`. -/
def iniText (records : List DonwloadFileIniData) : List UInt8 :=
  decimal (recordCount records).toInt ++ LF ::
    (records.take (recordCount records).toInt.toNat).flatMap DonwloadFileIniData.iniLines

/-- `DownloadDuiControlMng`: `m_vtDownLoadFileData`, and the bytes of `downloadfile.ini`. -/
structure DownloadMng where
  records : List DonwloadFileIniData
  iniFile : Option (List UInt8)

namespace DownloadMng

/-- The file is written, if it can be opened. -/
def writeIni (mng : DownloadMng) (opens : Bool) : DownloadMng :=
  if opens then { mng with iniFile := some (toFile (iniText mng.records)) } else mng

/-- `AddDownloadRecord`. -/
def addDownloadRecord (mng : DownloadMng) (strUrl strSaveFilePath strFileName : List UInt8)
    (n64FileSize : Int64) (strCoolie : Option (List UInt8)) (n64ProgRessPos : Int64)
    (strPrint : List UInt8) (bOpenFile opens : Bool) : DownloadMng :=
  -- "strCoolie"
  let strCoolie := strCoolie.getD [115, 116, 114, 67, 111, 111, 108, 105, 101]
  let fileData : DonwloadFileIniData :=
    { strUrl := cStr strUrl
      strPath := cStr strSaveFilePath
      strFileName := cStr strFileName
      strDataPrint := cStr strPrint
      strCoolie := cStr strCoolie
      n64ProgRessPos := n64ProgRessPos
      n64FileSize := n64FileSize
      bOpenFile := if bOpenFile then 1 else 0 }
  { mng with records := fileData :: mng.records }.writeIni opens

/-- `ModRecordFile`: whether there is such a record. -/
def modRecordFile (mng : DownloadMng) (pData : DonwloadFileIniData) (opens : Bool) :
    Bool × DownloadMng :=
  match mng.records.findIdx? fun d =>
      d.strUrl = pData.strUrl ∧ d.strFileName = pData.strFileName with
  | none => (false, mng)
  | some iCur => (true, { mng with records := mng.records.set iCur pData }.writeIni opens)

/-- `FlushDownloadRecord`. -/
def flushDownloadRecord (mng : DownloadMng) (opens : Bool) : Bool × DownloadMng :=
  (opens, mng.writeIni opens)

end DownloadMng

/-- What `set_StrSign` leaves of a line that `fgets` stored, as a string. -/
def setStrSign (l : List UInt8) : List UInt8 := l.takeWhile fun b => b ≠ 0 ∧ b ≠ LF

/-- `ReInitDownloadRecord` while it reads: the text left, the string in `cBuf`, and
`tag_File_Data`. -/
structure IniReader where
  text : List UInt8
  cBuf : List UInt8
  fileData : DonwloadFileIniData

namespace IniReader

/-- The string in `cBuf` and the text left after `fgets` and `set_StrSign`. At the end of the text
`cBuf` stays as it is. -/
def nextString (s : IniReader) : List UInt8 × List UInt8 :=
  match readLine 1023 s.text with
  | none => (s.cBuf, s.text)
  | some (l, rest) => (setStrSign l, rest)

/-- A string is read into a field. -/
def readString (set : DonwloadFileIniData → List UInt8 → DonwloadFileIniData) (s : IniReader) :
    IniReader :=
  ⟨s.nextString.2, s.nextString.1, set s.fileData s.nextString.1⟩

/-- The `fscanf` of the numbers. Those that are not read stay as they are. -/
def readNumbers (s : IniReader) : IniReader :=
  let (zs, rest) := scanf [.int, .space, .int, .space, .int, .space] s.text
  { s with
    text := rest
    fileData :=
      { s.fileData with
        n64FileSize := (zs[0]?.map Int64.ofInt).getD s.fileData.n64FileSize
        n64ProgRessPos := (zs[1]?.map Int64.ofInt).getD s.fileData.n64ProgRessPos
        bOpenFile := (zs[2]?.map Int32.ofInt).getD s.fileData.bOpenFile } }

/-- The body of the loop, up to `push_back`. -/
def readRecord (s : IniReader) : IniReader :=
  let s := s.readString fun d str => { d with strUrl := str }
  let s := s.readString fun d str => { d with strPath := str }
  let s := s.readString fun d str => { d with strFileName := str }
  let s := s.readString fun d str => { d with strCoolie := str }
  let s := s.readString fun d str => { d with strDataPrint := str }
  s.readNumbers

/-- The loop, with this many records to go. -/
def readRecords (s : IniReader) : ℕ → List DonwloadFileIniData
  | 0 => []
  | n + 1 => s.readRecord.fileData :: s.readRecord.readRecords n

end IniReader

/-- `ReInitDownloadRecord`. Its `n64FileSize` is not initialised. -/
def DownloadMng.reInitDownloadRecord (n64FileSize : Int64) (mng : DownloadMng) : DownloadMng :=
  match mng.iniFile with
  | none => mng
  | some file =>
    let (zs, rest) := scanf [.int, .space] (ofFile file)
    let dwSize : Int32 := (zs[0]?.map Int32.ofInt).getD 0
    let fileData : DonwloadFileIniData := ⟨[], [], [], [], [], 0, n64FileSize, 0⟩
    let reader : IniReader := ⟨rest, [], fileData⟩
    { mng with records := mng.records ++ reader.readRecords dwSize.toInt.toNat }

/-- One of the three functions has written the file. -/
inductive IniWrite : DownloadMng → DownloadMng → Prop
  | add {mng : DownloadMng} (strUrl strSaveFilePath strFileName : List UInt8)
      (n64FileSize : Int64) (strCoolie : Option (List UInt8)) (n64ProgRessPos : Int64)
      (strPrint : List UInt8) (bOpenFile : Bool) :
      IniWrite mng (mng.addDownloadRecord strUrl strSaveFilePath strFileName n64FileSize strCoolie
        n64ProgRessPos strPrint bOpenFile true)
  | mod {mng : DownloadMng} {pData : DonwloadFileIniData}
      (hfound : (mng.modRecordFile pData true).1 = true) :
      IniWrite mng (mng.modRecordFile pData true).2
  | flush {mng : DownloadMng} : IniWrite mng (mng.flushDownloadRecord true).2

namespace DonwloadFileIniData

/-- The strings are what the file has lines for. -/
def FitsLines (d : DonwloadFileIniData) : Prop := ∀ s ∈ d.strings, LF ∉ s ∧ s.length < 1023

/-- The URL is not empty, and begins with no white space. -/
def HasUrl (d : DonwloadFileIniData) : Prop := ∃ b ∈ d.strUrl.head?, isSpace b = false

/-- No string has a character that ends a string or a text file. -/
def IsText (d : DonwloadFileIniData) : Prop := ∀ s ∈ d.strings, 0 ∉ s ∧ SUB ∉ s

instance (d : DonwloadFileIniData) : Decidable d.FitsLines :=
  inferInstanceAs (Decidable (∀ s ∈ _, _))

instance (d : DonwloadFileIniData) : Decidable d.HasUrl :=
  inferInstanceAs (Decidable (∃ b ∈ _, _))

instance (d : DonwloadFileIniData) : Decidable d.IsText :=
  inferInstanceAs (Decidable (∀ s ∈ _, _))

end DonwloadFileIniData

/-! ## Reading -/

theorem cStr_of_notMem {s : List UInt8} (h : 0 ∉ s) : cStr s = s :=
  List.takeWhile_eq_self_iff.mpr fun _ hb => decide_eq_true fun h0 => h (h0 ▸ hb)

theorem notMem_cStr (s : List UInt8) : 0 ∉ cStr s := fun h =>
  absurd rfl (of_decide_eq_true (List.mem_takeWhile_imp (p := fun b => decide (b ≠ 0)) h))

namespace DonwloadFileIniData

variable {d : DonwloadFileIniData}

/-- A byte of a record in the file comes from one of its strings, or is a line feed, or part of a
number. -/
theorem mem_iniLines {b : UInt8} (h : b ∈ d.iniLines) :
    (∃ s ∈ d.strings, b ∈ cStr s) ∨ b = LF ∨ 32 < b := by
  rw [iniLines, List.mem_append] at h
  rcases h with h | h
  · obtain ⟨s, hs, hb⟩ := List.mem_flatMap.mp h
    rcases List.mem_append.mp hb with hb | hb
    · exact .inl ⟨s, hs, hb⟩
    · exact .inr (.inl (List.mem_singleton.mp hb))
  · obtain ⟨z, -, hb⟩ := List.mem_flatMap.mp h
    rcases List.mem_append.mp hb with hb | hb
    · exact .inr (.inr (decimal_spec hb).2)
    · exact .inr (.inl (List.mem_singleton.mp hb))

theorem zero_notMem_iniLines (d : DonwloadFileIniData) : 0 ∉ d.iniLines := fun h => by
  rcases mem_iniLines h with ⟨s, -, hb⟩ | hb | hb
  · exact notMem_cStr s hb
  · exact absurd hb (by decide)
  · exact absurd hb (by decide)

theorem IsText.sub_notMem_iniLines (hd : d.IsText) : SUB ∉ d.iniLines := fun h => by
  rcases mem_iniLines h with ⟨s, hs, hb⟩ | hb | hb
  · exact (hd s hs).2 ((List.takeWhile_prefix _).subset hb)
  · exact absurd hb (by decide)
  · exact absurd hb (by decide)

/-- The URL comes first in the file. -/
theorem IsText.head_iniLines (hd : d.IsText) (hurl : d.HasUrl) (more : List UInt8) :
    ∀ b ∈ (d.iniLines ++ more).head?, isSpace b = false := by
  obtain ⟨b, hb, hspace⟩ := hurl
  have hnul : 0 ∉ d.strUrl := (hd d.strUrl List.mem_cons_self).1
  have hne : d.strUrl ≠ [] := List.ne_nil_of_mem (List.mem_of_mem_head? hb)
  rw [iniLines, strings, List.flatMap_cons, cStr_of_notMem hnul, List.append_assoc,
    List.append_assoc, List.append_assoc, List.head?_append_of_ne_nil _ hne, hb]
  rintro _ ⟨⟩
  exact hspace

/-- Every record has something that is no white space. -/
theorem exists_mem_iniLines (d : DonwloadFileIniData) : ∃ b ∈ d.iniLines, isSpace b = false := by
  obtain ⟨b, hb⟩ := List.exists_mem_of_ne_nil _ (decimal_ne_nil d.n64FileSize.toInt)
  refine ⟨b, ?_, (decimal_spec hb).1⟩
  rw [iniLines, numbers, List.flatMap_cons]
  exact List.mem_append_right _ (List.mem_append_left _ (List.mem_append_left _ hb))

end DonwloadFileIniData

namespace IniReader

variable {s : IniReader} {set : DonwloadFileIniData → List UInt8 → DonwloadFileIniData}
  {str : List UInt8}

/-- A string without NUL that fits its line is read as it was written. -/
theorem readString_line (hnul : 0 ∉ str) (hlf : LF ∉ str) (hlen : str.length < 1023)
    (more cBuf : List UInt8) (fileData : DonwloadFileIniData) :
    readString set ⟨str ++ LF :: more, cBuf, fileData⟩ = ⟨more, str, set fileData str⟩ := by
  have hstring : setStrSign (str ++ [LF]) = str := by
    have hall : ∀ b ∈ str, decide (b ≠ 0 ∧ b ≠ LF) = true := fun b hb =>
      decide_eq_true ⟨fun h => hnul (h ▸ hb), fun h => hlf (h ▸ hb)⟩
    rw [setStrSign, List.takeWhile_append_of_pos hall, List.takeWhile_cons_of_neg (by simp),
      List.append_nil]
  rw [readString, nextString, readLine_append_lf hlf hlen]
  dsimp only
  rw [hstring]

/-- What is read into `cBuf` has neither NUL nor line feed, and comes from the text. -/
theorem mem_setStrSign {l : List UInt8} {b : UInt8} (h : b ∈ setStrSign l) :
    b ∈ l ∧ b ≠ 0 := by
  have hb := List.mem_takeWhile_imp h
  exact ⟨(List.takeWhile_prefix _).subset h, (of_decide_eq_true hb).1⟩

/-- A string that is read where no white space comes first does not begin with any. -/
theorem head_nextString (hnul : 0 ∉ s.text) (hne : s.text ≠ [])
    (hhead : ∀ b ∈ s.text.head?, isSpace b = false) :
    ∃ b ∈ s.nextString.1.head?, isSpace b = false := by
  rcases hline : readLine 1023 s.text with _ | ⟨l, rest⟩
  · exact absurd hline (readLine_ne_none hne)
  obtain ⟨hl, htext⟩ := readLine_eq_some hline
  rw [nextString, hline]
  dsimp only
  cases l with
  | nil => exact absurd rfl hl
  | cons b l =>
    rw [htext] at hhead hnul
    have hspace := hhead b rfl
    have hstop : decide (b ≠ 0 ∧ b ≠ LF) = true := by
      refine decide_eq_true ⟨fun h => hnul (h ▸ List.mem_cons_self), fun h => ?_⟩
      rw [h] at hspace
      cases hspace
    rw [setStrSign, List.takeWhile_cons_of_pos (p := fun b => decide (b ≠ 0 ∧ b ≠ LF)) hstop]
    exact ⟨b, rfl, hspace⟩

/-- The URL is the first string that is read. -/
theorem strUrl_readRecord (s : IniReader) : s.readRecord.fileData.strUrl = s.nextString.1 := rfl

/-- The numbers of a record are read, with the white space behind them. -/
theorem readNumbers_decimals (a b : Int64) (c : Int32) (more cBuf : List UInt8)
    (fileData : DonwloadFileIniData) :
    readNumbers ⟨decimal a.toInt ++ LF :: (decimal b.toInt ++ LF ::
        (decimal c.toInt ++ LF :: more)), cBuf, fileData⟩ =
      ⟨skipSpace more, cBuf,
        { fileData with n64FileSize := a, n64ProgRessPos := b, bOpenFile := c }⟩ := by
  have hscan : scanf [.int, .space, .int, .space, .int, .space]
      (decimal a.toInt ++ LF :: (decimal b.toInt ++ LF :: (decimal c.toInt ++ LF :: more))) =
        ([a.toInt, b.toInt, c.toInt], skipSpace more) := by
    simp only [scanf_decimal, skipSpace_decimal]
    rfl
  rw [readNumbers, hscan]
  simp

/-- A record that was written is read, with the white space behind it. -/
theorem readRecord_iniLines {d : DonwloadFileIniData} (hfits : d.FitsLines) (hd : d.IsText)
    (more cBuf : List UInt8) (fileData : DonwloadFileIniData) :
    ∃ cBuf', readRecord ⟨d.iniLines ++ more, cBuf, fileData⟩ = ⟨skipSpace more, cBuf', d⟩ := by
  simp only [DonwloadFileIniData.FitsLines, DonwloadFileIniData.IsText,
    DonwloadFileIniData.strings, List.forall_mem_cons, List.not_mem_nil] at hfits hd
  obtain ⟨⟨hurl, hurlLen⟩, ⟨hpath, hpathLen⟩, ⟨hname, hnameLen⟩, ⟨hcoolie, hcoolieLen⟩,
    ⟨hprint, hprintLen⟩, -⟩ := hfits
  obtain ⟨⟨hurl0, -⟩, ⟨hpath0, -⟩, ⟨hname0, -⟩, ⟨hcoolie0, -⟩, ⟨hprint0, -⟩, -⟩ := hd
  have htext : d.iniLines ++ more =
      d.strUrl ++ LF :: (d.strPath ++ LF :: (d.strFileName ++ LF :: (d.strCoolie ++ LF ::
        (d.strDataPrint ++ LF :: (decimal d.n64FileSize.toInt ++ LF ::
          (decimal d.n64ProgRessPos.toInt ++ LF ::
            (decimal d.bOpenFile.toInt ++ LF :: more))))))) := by
    simp [DonwloadFileIniData.iniLines, DonwloadFileIniData.strings, DonwloadFileIniData.numbers,
      cStr_of_notMem, hurl0, hpath0, hname0, hcoolie0, hprint0]
  refine ⟨d.strDataPrint, ?_⟩
  rw [htext, readRecord, readString_line hurl0 hurl hurlLen,
    readString_line hpath0 hpath hpathLen, readString_line hname0 hname hnameLen,
    readString_line hcoolie0 hcoolie hcoolieLen, readString_line hprint0 hprint hprintLen,
    readNumbers_decimals]

/-- Nothing in the reader ends a string or a text file. -/
structure Clean (s : IniReader) : Prop where
  text : SUB ∉ s.text
  cBuf : 0 ∉ s.cBuf ∧ SUB ∉ s.cBuf
  fileData : s.fileData.IsText

theorem Clean.nextString (h : s.Clean) :
    SUB ∉ s.nextString.2 ∧ 0 ∉ s.nextString.1 ∧ SUB ∉ s.nextString.1 := by
  rw [IniReader.nextString]
  split
  · exact ⟨h.text, h.cBuf⟩
  · next l rest hline =>
    have htext := h.text
    rw [(readLine_eq_some hline).2, List.mem_append, not_or] at htext
    exact ⟨htext.2, fun h0 => (mem_setStrSign h0).2 rfl,
      fun hsub => htext.1 (mem_setStrSign hsub).1⟩

theorem Clean.readString (h : s.Clean)
    (hset : ∀ d str, ∀ x ∈ (set d str).strings, x = str ∨ x ∈ d.strings) :
    (s.readString set).Clean := by
  obtain ⟨htext, hstr⟩ := h.nextString
  refine ⟨htext, hstr, fun x hx => ?_⟩
  rcases hset _ _ x hx with rfl | hx
  · exact hstr
  · exact h.fileData x hx

theorem Clean.readNumbers (h : s.Clean) : s.readNumbers.Clean := by
  have hrest : s.readNumbers.text =
      (scanf [.int, .space, .int, .space, .int, .space] s.text).2 := rfl
  refine ⟨fun hsub => h.text ?_, h.cBuf, h.fileData⟩
  rw [hrest] at hsub
  exact (scanf_suffix _ _).subset hsub

theorem Clean.readRecord (h : s.Clean) : s.readRecord.Clean := by
  refine Clean.readNumbers ?_
  iterate 5
    refine Clean.readString ?_ fun d str x hx => by
      simp only [DonwloadFileIniData.strings, List.mem_cons, List.not_mem_nil] at hx ⊢
      tauto
  exact h

theorem Clean.readRecords (h : s.Clean) {n : ℕ} {d : DonwloadFileIniData}
    (hd : d ∈ s.readRecords n) : d.IsText := by
  induction n generalizing s with
  | zero => cases hd
  | succ n ih =>
    rcases List.mem_cons.mp hd with rfl | hd
    · exact h.readRecord.fileData
    · exact ih h.readRecord hd

@[simp]
theorem length_readRecords (s : IniReader) (n : ℕ) : (s.readRecords n).length = n := by
  induction n generalizing s with
  | zero => rfl
  | succ n ih => rw [readRecords, List.length_cons, ih]

/-- The records of the file are read as they were written exactly if each of them has a URL that
the white space directive before it stops at. -/
theorem readRecords_iff {rs : List DonwloadFileIniData} (hfits : ∀ d ∈ rs, d.FitsLines)
    (htext : ∀ d ∈ rs, d.IsText) (cBuf : List UInt8) (fileData : DonwloadFileIniData) :
    readRecords ⟨skipSpace (rs.flatMap DonwloadFileIniData.iniLines), cBuf, fileData⟩ rs.length =
      rs ↔ ∀ d ∈ rs, d.HasUrl := by
  induction rs generalizing cBuf fileData with
  | nil => simp [readRecords]
  | cons d rs ih =>
    obtain ⟨hd, hfits⟩ := List.forall_mem_cons.mp hfits
    obtain ⟨hdtext, htext⟩ := List.forall_mem_cons.mp htext
    rw [List.forall_mem_cons, List.length_cons, readRecords, List.flatMap_cons]
    by_cases hurl : d.HasUrl
    · have hskip : skipSpace (d.iniLines ++ rs.flatMap DonwloadFileIniData.iniLines) =
          d.iniLines ++ rs.flatMap DonwloadFileIniData.iniLines :=
        skipSpace_of_head (hdtext.head_iniLines hurl _)
      obtain ⟨cBuf', hread⟩ := readRecord_iniLines hd hdtext
        (rs.flatMap DonwloadFileIniData.iniLines) cBuf fileData
      rw [hskip, hread, List.cons.injEq, and_iff_right rfl, and_iff_right hurl]
      exact ih hfits htext cBuf' d
    · -- what is read begins with no white space
      refine iff_of_false (fun h => hurl ?_) fun h => hurl h.1
      obtain ⟨b, hb, hspace⟩ := d.exists_mem_iniLines
      have hne := skipSpace_ne_nil
        (List.mem_append_left (rs.flatMap DonwloadFileIniData.iniLines) hb) hspace
      have hnul : 0 ∉ skipSpace (d.iniLines ++ rs.flatMap DonwloadFileIniData.iniLines) := by
        intro h0
        rcases List.mem_append.mp (mem_of_mem_skipSpace h0) with h0 | h0
        · exact d.zero_notMem_iniLines h0
        · obtain ⟨d', -, h0⟩ := List.mem_flatMap.mp h0
          exact d'.zero_notMem_iniLines h0
      have hhead := head_nextString (s := ⟨skipSpace (d.iniLines ++
        rs.flatMap DonwloadFileIniData.iniLines), cBuf, fileData⟩) hnul hne (head_skipSpace _)
      rwa [← strUrl_readRecord, (List.cons.inj h).1] at hhead

end IniReader

/-! ## The file -/

/-- Whichever function wrote the file, it holds the whole list. -/
theorem IniWrite.iniFile {mng mng' : DownloadMng} (h : IniWrite mng mng') :
    mng'.iniFile = some (toFile (iniText mng'.records)) := by
  cases h with
  | add => rfl
  | @mod pData hfound =>
    rw [DownloadMng.modRecordFile] at hfound ⊢
    split
    · next hnone =>
      rw [hnone] at hfound
      cases hfound
    · rfl
  | flush => rfl

/-- What is read of a file that was written. -/
theorem records_reInitDownloadRecord (n64FileSize : Int64) (rs : List DonwloadFileIniData) :
    (DownloadMng.reInitDownloadRecord n64FileSize ⟨[], some (toFile (iniText rs))⟩).records =
      IniReader.readRecords ⟨skipSpace (((rs.take (recordCount rs).toInt.toNat).flatMap
        DonwloadFileIniData.iniLines).takeWhile fun b => b ≠ SUB), [],
          ⟨[], [], [], [], [], 0, n64FileSize, 0⟩⟩ (recordCount rs).toInt.toNat := by
  have hcount : ∀ b ∈ decimal (recordCount rs).toInt, decide (b ≠ SUB) = true := fun b hb =>
    decide_eq_true fun h => absurd (h ▸ (decimal_spec hb).2) (by decide)
  rw [DownloadMng.reInitDownloadRecord]
  dsimp only
  rw [ofFile_toFile, iniText, List.takeWhile_append_of_pos hcount,
    List.takeWhile_cons_of_pos (by decide), scanf_decimal]
  simp [scanf]

/-- The records that were written are loaded, as they were and in their order, exactly if they can
be counted, each of them has a URL that does not begin with white space, and no string has a NUL
or the character that ends a text file. -/
theorem reInitDownloadRecord_iff {mng mng' : DownloadMng} (hwrite : IniWrite mng mng')
    (hfits : ∀ d ∈ mng'.records, d.FitsLines) (n64FileSize : Int64) :
    (DownloadMng.reInitDownloadRecord n64FileSize ⟨[], mng'.iniFile⟩).records = mng'.records ↔
      mng'.records.length < 2 ^ 31 ∧ ∀ d ∈ mng'.records, d.HasUrl ∧ d.IsText := by
  rw [hwrite.iniFile, records_reInitDownloadRecord]
  generalize mng'.records = rs at hfits ⊢
  have hlt := (recordCount rs).toInt_lt
  -- where all records are counted and none ends the file, the file holds the lines of all
  have hall : (recordCount rs).toInt.toNat = rs.length → (∀ d ∈ rs, d.IsText) →
      ((rs.take (recordCount rs).toInt.toNat).flatMap
        DonwloadFileIniData.iniLines).takeWhile (fun b => b ≠ SUB) =
          rs.flatMap DonwloadFileIniData.iniLines := by
    intro hlen htext
    rw [hlen, List.take_length]
    refine List.takeWhile_eq_self_iff.mpr fun b hb => decide_eq_true ?_
    rintro rfl
    obtain ⟨d, hd, hb⟩ := List.mem_flatMap.mp hb
    exact (htext d hd).sub_notMem_iniLines hb
  constructor
  · intro heq
    have hlen : (recordCount rs).toInt.toNat = rs.length := by
      have := congrArg List.length heq
      rwa [IniReader.length_readRecords] at this
    have htext : ∀ d ∈ rs, d.IsText := by
      intro d hd
      rw [← heq] at hd
      refine IniReader.Clean.readRecords ⟨fun hsub => ?_, ⟨by simp, by simp⟩, ?_⟩ hd
      · have hsub' := List.mem_takeWhile_imp (mem_of_mem_skipSpace hsub)
        exact of_decide_eq_true hsub' rfl
      · intro s hs
        simp only [DonwloadFileIniData.strings, List.mem_cons, List.not_mem_nil] at hs
        aesop
    rw [hall hlen htext, hlen, IniReader.readRecords_iff hfits htext] at heq
    exact ⟨by omega, fun d hd => ⟨heq d hd, htext d hd⟩⟩
  · rintro ⟨hlen, hrs⟩
    have hcount : (recordCount rs).toInt.toNat = rs.length := by
      rw [recordCount, Int32.toInt_ofNat_of_lt hlen, Int.toNat_natCast]
    have htext : ∀ d ∈ rs, d.IsText := fun d hd => (hrs d hd).2
    rw [hall hcount htext, hcount, IniReader.readRecords_iff hfits htext]
    exact fun d hd => (hrs d hd).1

/-- A download with a URL of these bytes. -/
def recordOf (strUrl : List UInt8) : DonwloadFileIniData :=
  ⟨strUrl, [67, 58], [32, 97], [], [48, 32], 7, -1, 1⟩

/-- Two records, the one of them with a file name that begins with a blank, come back. -/
theorem reInitDownloadRecord_twoRecords :
    (DownloadMng.reInitDownloadRecord 0 ⟨[], (DownloadMng.flushDownloadRecord
      ⟨[recordOf [104, 32], recordOf [97]], none⟩ true).2.iniFile⟩).records =
        [recordOf [104, 32], recordOf [97]] :=
  (reInitDownloadRecord_iff .flush (by decide) 0).2 (by decide)

/-- A URL with a leading blank loses it, and an empty one is taken for the path. -/
theorem not_reInitDownloadRecord :
    (∃ mng mng', IniWrite mng mng' ∧ mng'.records = [recordOf [32, 97]] ∧
      (DownloadMng.reInitDownloadRecord 0 ⟨[], mng'.iniFile⟩).records ≠ mng'.records) ∧
    (∃ mng mng', IniWrite mng mng' ∧ mng'.records = [recordOf []] ∧
      (DownloadMng.reInitDownloadRecord 0 ⟨[], mng'.iniFile⟩).records ≠ mng'.records) := by
  refine ⟨⟨⟨[recordOf [32, 97]], none⟩, _, .flush, rfl, ?_⟩,
    ⟨⟨[recordOf []], none⟩, _, .flush, rfl, ?_⟩⟩
  · decide
  · decide

end Gendo.Client
