import Gendo.Client.TextFile

/-!
# Rows saved in an encrypted file

`EncryptFileByBufAry` writes the strings in the rows of an array to a file, each as digits on a line
of its own, and `DecryptFileToBufAry` stores them in an array again. It looks at the capacity of
that array only when a row was copied: the row behind the last one of the array is still stored.
`rowsRoundTrip_iff` says that this happens exactly when the file has more rows than the array.
-/

namespace Gendo.Client

open Blocks BufferedLines ByteMemory

/-- What `DecryptFileToBufAry` returns and leaves in `*row`, what it writes to the array, and
whether all writes to its own buffers were inside. -/
structure BufAryCall where
  ret : ℤ
  row : ℕ
  writes : List Patch
  inside : Bool
  deriving DecidableEq, Repr

namespace RopAES

/-- `EncryptFileByBufAry`, or `none` where an assertion fails. `strcpy` copies a row up to its NUL,
and the line is encrypted as one of a text is. -/
def encryptFileByBufAry (aes : RopAES) (buf : Mem) (row colSize : ℕ) : Option TextCall :=
  aes.encryptLines (fun _ => 0) ((List.range row).map fun cur =>
    (CString.read buf (cur * colSize) ((row - cur) * colSize)).1)

/-- The loop of `DecryptFileToBufAry`. -/
def decryptRows (aes : RopAES) (row colSize : ℕ) : ℕ → Mem → List (List UInt8) → BufAryCall
  | cur, _, [] => ⟨0, cur, [], true⟩
  | cur, line, l :: ls =>
    let line := fgets l line
    let len := strlen line - 1
    let inside := strlen line ≠ 0
    let line := Patch.apply ⟨len, [0]⟩ line
    let call := aes.decryptWithHex line len MAX_FILE_TEXT_LINE_SIZE
    if call.ret < 0 then ⟨-2, row, [], inside⟩
    else
      let inside := inside && call.stored.length ≤ MAX_FILE_TEXT_LINE_SIZE
      -- `strcpy` copies what `fputs` would write, and a NUL
      let write : Patch := ⟨cur * colSize, fputs call.stored ++ [0]⟩
      if row ≤ cur then ⟨0, cur, [write], inside⟩
      else
        let more := decryptRows aes row colSize (cur + 1) line ls
        ⟨more.ret, more.row, write :: more.writes, inside && more.inside⟩

/-- `DecryptFileToBufAry`, where `*row` is the capacity. -/
def decryptFileToBufAry (aes : RopAES) (text : List UInt8) (row colSize : ℕ) : BufAryCall :=
  aes.decryptRows row colSize 0 (fun _ => 0) (textLines text)

end RopAES

/-- An array with these strings in its rows. What is behind their NULs is from before. -/
def HoldsRows (buf : Mem) (colSize : ℕ) (rows : List CString) : Prop :=
  ∀ i, ∀ h : i < rows.length, rows[i].1.length < colSize ∧
    read buf (i * colSize) (rows[i].1.length + 1) = rows[i].1 ++ [0]

/-- The rows that there is room for are back in an array of this capacity, and nothing was written
behind it. -/
structure RowsRestored (call : BufAryCall) (rows : List CString) (colSize capacity : ℕ) : Prop where
  ret : call.ret = 0
  row : call.row = min capacity rows.length
  restored : ∀ buf i, ∀ h : i < rows.length, i < capacity →
    CString.read (applyAll call.writes buf) (i * colSize) colSize = rows[i]
  inside : ∀ w ∈ call.writes, ∀ j, w.Covers j → j < capacity * colSize
  buffers : call.inside = true

/-- The rows of an array are saved and come back. -/
def RowsRoundTrip (aes : RopAES) (buf : Mem) (rows : List CString) (colSize capacity : ℕ) : Prop :=
  ∃ file, aes.encryptFileByBufAry buf rows.length colSize = some ⟨file, 0, true⟩ ∧
    RowsRestored (aes.decryptFileToBufAry file capacity colSize) rows colSize capacity

/-! ## Saving -/

section

variable {aes : RopAES} {buf line : Mem} {rows : List CString} {colSize capacity cur : ℕ}
  {l : List UInt8} {ls : List (List UInt8)}

/-- The string in a row. -/
theorem HoldsRows.read_row (h : HoldsRows buf colSize rows) {i : ℕ} (hi : i < rows.length) :
    CString.read buf (i * colSize) ((rows.length - i) * colSize) = rows[i] := by
  obtain ⟨hlen, hread⟩ := h i hi
  have hpos : colSize ≤ (rows.length - i) * colSize :=
    Nat.le_mul_of_pos_left _ (Nat.sub_pos_of_lt hi)
  ext1
  exact CString.read_of_terminated rows[i].2 (hlen.trans_le hpos) hread

/-- A row is written on a line as the digits of its blocks; an empty one has none. -/
theorem encryptLines_row (aes : RopAES) (line : Mem) (ls : List (List UInt8)) (hnul : 0 ∉ l)
    (hlen : l.length ≤ 2032) :
    ∃ fill, 16 ∣ (l ++ fill).length ∧ (l ++ fill).length ≤ 2032 ∧ (∀ b ∈ fill.head?, b = 0) ∧
      aes.encryptLines line (l :: ls) = (aes.encryptLines (fgets l line) ls).map fun more =>
        ⟨hex (mapBlocks aes.aesEncrypt (l ++ fill)) ++ LF :: more.text, more.ret, more.inside⟩ := by
  by_cases hne : l = []
  · subst hne
    refine ⟨[], by simp, by simp, by simp, ?_⟩
    rw [List.append_nil, mapBlocks_nil, RopAES.encryptLines, strlen_fgets hnul (by decide),
      List.length_nil, RopAES.encryptWithHex_zero, Option.map_eq_bind]
    rfl
  · obtain ⟨fill, hlength, hfill, hlines⟩ := RopAES.encryptLines_cons aes line ls hne hnul
      (by rw [MAX_FILE_TEXT_LINE_SIZE]; omega)
    have hpad : padded l.length ≤ 2032 := by
      rw [padded]
      omega
    have hroom : 2 * padded l.length < MAX_FILE_TEXT_LINE_SIZE := by
      rw [MAX_FILE_TEXT_LINE_SIZE]
      omega
    refine ⟨fill, hlength ▸ dvd_padded l.length, hlength.trans_le hpad, hfill, ?_⟩
    rw [hlines, if_neg hroom.le.not_gt]
    simp [hroom]

/-- What is stored for some rows, from a row on. -/
def rowWrites (colSize cur : ℕ) (ls : List (List UInt8)) : List Patch :=
  ls.mapIdx fun i l => ⟨(cur + i) * colSize, l ++ [0]⟩

theorem rowWrites_cons (colSize cur : ℕ) (l : List UInt8) (ls : List (List UInt8)) :
    rowWrites colSize cur (l :: ls) =
      ⟨cur * colSize, l ++ [0]⟩ :: rowWrites colSize (cur + 1) ls :=
  mapIdx_add_cons (fun i l => Patch.mk (i * colSize) (l ++ [0])) cur l ls

/-- A line of the file is stored in its row; behind the last row of the array that is the end. -/
theorem decryptRows_cons (h : aes.Inverts) {fill : List UInt8} (line : Mem)
    (ls : List (List UInt8)) (hnul : 0 ∉ l) (hfill : ∀ b ∈ fill.head?, b = 0)
    (hblocks : 16 ∣ (l ++ fill).length) (hlen : (l ++ fill).length ≤ 2032) :
    ∃ line', aes.decryptRows capacity colSize cur line
        ((hex (mapBlocks aes.aesEncrypt (l ++ fill)) ++ [LF]) :: ls) =
      if capacity ≤ cur then ⟨0, cur, [⟨cur * colSize, l ++ [0]⟩], true⟩
      else
        let more := aes.decryptRows capacity colSize (cur + 1) line' ls
        ⟨more.ret, more.row, ⟨cur * colSize, l ++ [0]⟩ :: more.writes, more.inside⟩ := by
  obtain ⟨hstrlen, hcall⟩ := RopAES.decryptWithHex_line h line hblocks hlen
  have hfputs := fputs_append hnul hfill
  generalize l ++ fill = bs at hlen hstrlen hcall hfputs ⊢
  have hfit : bs.length ≤ MAX_FILE_TEXT_LINE_SIZE := by
    rw [MAX_FILE_TEXT_LINE_SIZE]
    omega
  refine ⟨Patch.apply ⟨2 * bs.length, [0]⟩
    (fgets (hex (mapBlocks aes.aesEncrypt bs) ++ [LF]) line), ?_⟩
  simp only [RopAES.decryptRows, hstrlen, Nat.add_sub_cancel, hcall, hfputs]
  rw [if_neg (by omega)]
  simp [hfit]

/-- The rows that were saved are stored one by one, up to the one behind the last row of the
array. -/
theorem decryptRows_encryptLines (h : aes.Inverts) (colSize capacity : ℕ) (line : Mem)
    (hls : ∀ l ∈ ls, 0 ∉ l ∧ l.length ≤ 2032) :
    ∃ text, aes.encryptLines line ls = some ⟨text, 0, true⟩ ∧
      ∀ cur line', cur ≤ capacity → aes.decryptRows capacity colSize cur line' (textLines text) =
        ⟨0, min capacity (cur + ls.length),
          rowWrites colSize cur (ls.take (capacity - cur + 1)), true⟩ := by
  induction ls generalizing line with
  | nil =>
    refine ⟨[], rfl, fun cur line' hcur => ?_⟩
    rw [List.length_nil, Nat.add_zero, Nat.min_eq_right hcur]
    rfl
  | cons l ls ih =>
    obtain ⟨⟨hnul, hlen⟩, hls⟩ := List.forall_mem_cons.mp hls
    obtain ⟨fill, hblocks, hfit, hfill, hencrypt⟩ := encryptLines_row aes line ls hnul hlen
    obtain ⟨text, htext, hback⟩ := ih (fgets l line) hls
    refine ⟨hex (mapBlocks aes.aesEncrypt (l ++ fill)) ++ LF :: text, ?_, fun cur line' hcur => ?_⟩
    · rw [hencrypt, htext]
      rfl
    · rw [textLines_hex (by rw [length_mapBlocks (by decide) hblocks]; exact hfit)]
      obtain ⟨line'', hdecrypt⟩ := decryptRows_cons h line' (textLines text) hnul hfill hblocks hfit
      rw [hdecrypt, List.take_succ_cons, rowWrites_cons, List.length_cons]
      split_ifs with hlast
      · -- the row behind the last one
        obtain rfl := Nat.le_antisymm hcur hlast
        rw [Nat.sub_self, List.take_zero, Nat.min_eq_left (Nat.le_add_right _ _)]
        rfl
      · rw [hback (cur + 1) line'' (Nat.lt_of_not_le hlast)]
        have hcount : capacity - cur = capacity - (cur + 1) + 1 := by omega
        have hrow : cur + 1 + ls.length = cur + (ls.length + 1) := by omega
        rw [hcount, hrow]

/-! ## The array -/

/-- A string that was written with its NUL is read. -/
theorem read_apply_terminated (hnul : 0 ∉ l) (hlen : l.length < colSize) (off : ℕ) (buf : Mem) :
    (CString.read (Patch.apply ⟨off, l ++ [0]⟩ buf) off colSize).1 = l := by
  have hself : read (Patch.apply ⟨off, l ++ [0]⟩ buf) off (l ++ [0]).length = l ++ [0] :=
    read_apply_self ⟨off, l ++ [0]⟩ buf
  rw [List.length_append, List.length_singleton] at hself
  exact CString.read_of_terminated hnul hlen hself

theorem mem_rowWrites {w : Patch} (hw : w ∈ rowWrites colSize cur ls) :
    ∃ j, ∃ h : j < ls.length, w = ⟨(cur + j) * colSize, ls[j] ++ [0]⟩ := by
  obtain ⟨j, hj, rfl⟩ := List.mem_mapIdx.mp hw
  exact ⟨j, hj, rfl⟩

/-- The string in a row that was stored is the row. -/
theorem read_rowWrites (hls : ∀ l ∈ ls, 0 ∉ l ∧ l.length < colSize) (buf : Mem) {i : ℕ}
    (hi : i < ls.length) :
    (CString.read (applyAll (rowWrites colSize cur ls) buf) ((cur + i) * colSize) colSize).1 =
      ls[i] := by
  induction ls generalizing cur buf i with
  | nil => exact absurd hi (Nat.not_lt_zero i)
  | cons l ls ih =>
    obtain ⟨⟨hnul, hlen⟩, hls⟩ := List.forall_mem_cons.mp hls
    rw [rowWrites_cons, applyAll_cons]
    cases i with
    | zero =>
      -- the rows behind it are further on
      have hlater : ∀ w ∈ rowWrites colSize (cur + 1) ls, ∀ k < colSize,
          ¬ w.Covers (cur * colSize + k) := by
        rintro w hw k hk ⟨hle, -⟩
        obtain ⟨j, hj, hoffset⟩ := mem_rowWrites hw
        have hoff : (cur + 1) * colSize ≤ (cur + 1 + j) * colSize :=
          Nat.mul_le_mul_right _ (Nat.le_add_right _ _)
        rw [Nat.add_mul, Nat.one_mul] at hoff
        rw [hoffset] at hle
        exact absurd (hoff.trans hle) (Nat.not_le.mpr (Nat.add_lt_add_left hk _))
      show (CString.read (applyAll (rowWrites colSize (cur + 1) ls)
        (Patch.apply ⟨cur * colSize, l ++ [0]⟩ buf)) (cur * colSize) colSize).1 = l
      rw [CString.read, read_applyAll_of_not_covered hlater]
      exact read_apply_terminated hnul hlen _ buf
    | succ i =>
      have hnext := @ih (cur + 1) hls (Patch.apply ⟨cur * colSize, l ++ [0]⟩ buf) i
        (Nat.lt_of_succ_lt_succ hi)
      rw [Nat.add_assoc, Nat.add_comm 1] at hnext
      exact hnext

/-- What is saved, and what is stored of it again. -/
theorem decryptFileToBufAry_eq (h : aes.Inverts) (hcol : colSize ≤ 1024)
    (hrows : HoldsRows buf colSize rows) (capacity : ℕ) :
    ∃ file, aes.encryptFileByBufAry buf rows.length colSize = some ⟨file, 0, true⟩ ∧
      aes.decryptFileToBufAry file capacity colSize = ⟨0, min capacity rows.length,
        rowWrites colSize 0 ((rows.map fun row => row.1).take (capacity + 1)), true⟩ := by
  have hstrings : ((List.range rows.length).map fun cur =>
      (CString.read buf (cur * colSize) ((rows.length - cur) * colSize)).1) =
      rows.map fun row => row.1 := by
    refine List.ext_getElem (by simp) fun i hi _ => ?_
    have hlt : i < rows.length := by simpa using hi
    simp only [List.getElem_map, List.getElem_range, hrows.read_row hlt]
  have hshort : ∀ l ∈ rows.map (fun row => row.1), 0 ∉ l ∧ l.length ≤ 2032 := by
    intro l hl
    obtain ⟨row, hrow, rfl⟩ := List.mem_map.mp hl
    obtain ⟨i, hi, rfl⟩ := List.mem_iff_getElem.mp hrow
    exact ⟨rows[i].2, (Nat.le_of_lt (hrows i hi).1).trans (hcol.trans (by decide))⟩
  obtain ⟨file, hencrypt, hdecrypt⟩ :=
    decryptRows_encryptLines h colSize capacity (fun _ => 0) hshort
  refine ⟨file, ?_, ?_⟩
  · rw [RopAES.encryptFileByBufAry, hstrings, hencrypt]
  · rw [RopAES.decryptFileToBufAry, hdecrypt 0 _ (Nat.zero_le _), Nat.zero_add, List.length_map,
      Nat.sub_zero]

/-- With more rows in the file, one is stored behind the array. -/
theorem not_rowsRoundTrip (h : aes.Inverts) (hcol : colSize ≤ 1024)
    (hrows : HoldsRows buf colSize rows) (hlt : capacity < rows.length) :
    ¬ RowsRoundTrip aes buf rows colSize capacity := by
  rintro ⟨file, hencrypt, hrestored⟩
  obtain ⟨file', hencrypt', hdecrypt⟩ := decryptFileToBufAry_eq h hcol hrows capacity
  rw [hencrypt'] at hencrypt
  cases hencrypt
  have hinside := hrestored.inside
  rw [hdecrypt] at hinside
  have hwrite : ⟨capacity * colSize, rows[capacity].1 ++ [0]⟩ ∈
      rowWrites colSize 0 ((rows.map fun row => row.1).take (capacity + 1)) := by
    refine List.mem_mapIdx.mpr ⟨capacity, ?_, ?_⟩
    · rw [List.length_take, List.length_map]
      omega
    · rw [Nat.zero_add, List.getElem_take, List.getElem_map]
  refine Nat.lt_irrefl _ (hinside _ hwrite (capacity * colSize) ⟨Nat.le_refl _, ?_⟩)
  dsimp only
  rw [List.length_append, List.length_singleton]
  omega

end

/-- Saved rows come back, with no write behind the array, exactly if the array has room for all rows
of the file. -/
theorem rowsRoundTrip_iff {aes : RopAES} (h : aes.Inverts) {buf : Mem} {rows : List CString}
    {colSize : ℕ} (hcol : colSize ≤ 1024) (hrows : HoldsRows buf colSize rows) (capacity : ℕ) :
    RowsRoundTrip aes buf rows colSize capacity ↔ rows.length ≤ capacity := by
  refine ⟨fun hround => ?_, fun hle => ?_⟩
  · by_contra hlt
    exact not_rowsRoundTrip h hcol hrows (Nat.lt_of_not_le hlt) hround
  · obtain ⟨file, hencrypt, hdecrypt⟩ := decryptFileToBufAry_eq h hcol hrows capacity
    have hall : (rows.map fun row => row.1).take (capacity + 1) = rows.map fun row => row.1 := by
      rw [List.take_of_length_le]
      rw [List.length_map]
      omega
    rw [hall] at hdecrypt
    have hshort : ∀ l ∈ rows.map (fun row => row.1), 0 ∉ l ∧ l.length < colSize := by
      intro l hl
      obtain ⟨row, hrow, rfl⟩ := List.mem_map.mp hl
      obtain ⟨i, hi, rfl⟩ := List.mem_iff_getElem.mp hrow
      exact ⟨rows[i].2, (hrows i hi).1⟩
    refine ⟨file, hencrypt, ?_⟩
    rw [hdecrypt]
    refine ⟨rfl, rfl, fun buf' i hi _ => ?_, ?_, rfl⟩
    · have hread := @read_rowWrites colSize 0 _ hshort buf' i (by simpa using hi)
      rw [Nat.zero_add, List.getElem_map] at hread
      exact CString.ext hread
    · rintro w hw j ⟨-, hj⟩
      obtain ⟨k, hk, rfl⟩ := mem_rowWrites hw
      have hlen := (hshort _ (List.getElem_mem hk)).2
      have hnext : (k + 1) * colSize ≤ capacity * colSize := by
        rw [List.length_map] at hk
        exact Nat.mul_le_mul_right _ (by omega)
      rw [Nat.add_mul, Nat.one_mul] at hnext
      dsimp only at hj
      rw [List.length_append, List.length_singleton, Nat.zero_add] at hj
      omega

/-- An array of two rows, and what was in it before. -/
def twoRows : Mem := applyAll [⟨0, [97, 98, 0]⟩, ⟨4, [0]⟩] fun _ => 99

theorem rowsRoundTrip_twoRows :
    RowsRoundTrip .mirror twoRows [⟨[97, 98], by decide⟩, ⟨[], by decide⟩] 4 2 :=
  (rowsRoundTrip_iff RopAES.inverts_mirror (by decide) (by unfold HoldsRows; decide) 2).mpr
    (by decide)

/-- There is no room for the only row of a file. -/
theorem not_rowsRoundTrip_noRoom :
    ¬ ∀ (aes : RopAES) (buf : Mem) (rows : List CString) (colSize capacity : ℕ), aes.Inverts →
      colSize ≤ 1024 → HoldsRows buf colSize rows →
        RowsRoundTrip aes buf rows colSize capacity := by
  intro h
  have hrows : HoldsRows (fun _ => 0) 32 [⟨[], by decide⟩] := by
    unfold HoldsRows
    decide
  exact not_rowsRoundTrip RopAES.inverts_mirror (by decide) hrows (by decide)
    (h .mirror _ _ 32 0 RopAES.inverts_mirror (by decide) hrows)

end Gendo.Client
